import ForgeDB.ManifestTexts
import ForgeDB.TableViews

/-!
# Lines without keys

A compaction that keeps no key lists a table without a key range, and its line is two
words short. The reader then takes words of the next line for the missing ones: it gives
up, or it takes the end of a table path for a path of its own. Such a path names no table
file, so a start that gets this far finds a listed file missing.
-/

namespace ForgeDB
open LayeredMaps SSTables TextStreams

namespace Layout

variable {l : Layout}

def stem (l : Layout) (id : ℕ) : Bytes :=
  Storage.tablesDirectory l.walFilename ++ text "/table_" ++ decimal id

theorem tableFilename_eq (l : Layout) (id : ℕ) : l.tableFilename id = l.stem id ++ text ".sst" := rfl

private theorem takeWhile_digits (n : ℕ) (rest : Bytes) :
    ((decimal n).reverse ++ 95 :: rest).takeWhile isDigit = (decimal n).reverse ∧
      ((decimal n).reverse ++ 95 :: rest).dropWhile isDigit = 95 :: rest := by
  have hall : ∀ b ∈ (decimal n).reverse, isDigit b = true :=
    fun b hb => isDigit_of_mem_decimal (List.mem_reverse.mp hb)
  constructor
  · rw [List.takeWhile_append_of_pos hall]
    simp [show isDigit 95 = false from rfl]
  · rw [List.dropWhile_append_of_pos hall]
    simp [show isDigit 95 = false from rfl]

theorem eq_of_stem_suffix {a b : ℕ} (h : l.stem a <:+ l.stem b) : l.stem a = l.stem b := by
  obtain ⟨front, h⟩ := h
  have hstem : ∀ n, (l.stem n).reverse = (decimal n).reverse ++ 95 ::
      (Storage.tablesDirectory l.walFilename ++ text "/table").reverse := by
    intro n
    have hname : text "/table_" = text "/table" ++ [95] := rfl
    simp [stem, hname]
  have hrev := congrArg List.reverse h
  rw [List.reverse_append, hstem, hstem, List.append_assoc, List.cons_append] at hrev
  have hdigits := (takeWhile_digits a _).1.symm.trans
    ((congrArg (List.takeWhile isDigit) hrev).trans (takeWhile_digits b _).1)
  have hrest := (takeWhile_digits a _).2.symm.trans
    ((congrArg (List.dropWhile isDigit) hrev).trans (takeWhile_digits b _).2)
  have hid : decimal a = decimal b := List.reverse_injective hdigits
  rw [stem, stem, hid]

/-- The end of a table path, cut off inside the path in front of the extension. -/
def Stray (l : Layout) (path : Bytes) : Prop :=
  ∃ id u, u <:+ l.stem id ∧ u ≠ l.stem id ∧ path = u ++ text ".sst"

theorem Stray.ne_tableFilename {path : Bytes} (h : l.Stray path) (id : ℕ) :
    path ≠ l.tableFilename id := by
  obtain ⟨id', u, hsuffix, hne, rfl⟩ := h
  intro heq
  rw [tableFilename_eq] at heq
  have hu := List.append_cancel_right heq
  subst hu
  exact hne (eq_of_stem_suffix hsuffix)

theorem Stray.sst_suffix {path : Bytes} (h : l.Stray path) : text ".sst" <:+ path := by
  obtain ⟨-, u, -, -, rfl⟩ := h
  exact List.suffix_append _ _

theorem plain_stem (hplain : l.Plain) (id : ℕ) : ∀ b ∈ l.stem id, isSpace b = false := by
  intro b hb
  apply (isWord_tableFilename hplain id).2
  rw [tableFilename_eq]
  exact List.mem_append_left _ hb

end Layout

namespace Manifest

variable {l : Layout}

/-- A table of an empty compaction: no key range and no entry. -/
def Keyless (table : SSTableMetadata) : Prop :=
  table.smallestKey = [] ∧ table.largestKey = [] ∧ table.entryCount = 0

/-- The lines a run can write. -/
structure Line (l : Layout) (table : SSTableMetadata) : Prop where
  id_lt : table.id < 2 ^ 64
  placed : table.filename = l.tableFilename table.id
  keys : WordBounds table ∨ Keyless table

private theorem head_blank (s : Bytes) : ∀ b ∈ (blank :: s).head?, isSpace b = true := by
  intro b hb
  cases hb
  rfl

private theorem head_newline (s : Bytes) : ∀ b ∈ (newline :: s).head?, isSpace b = true := by
  intro b hb
  cases hb
  rfl

theorem isWord_decimal (n : ℕ) : IsWord (decimal n) :=
  ⟨decimal_ne_nil n, fun _ hb => isSpace_of_isDigit (isDigit_of_mem_decimal hb)⟩

theorem extractWord_blank {w : Bytes} (hw : IsWord w) (s : Bytes) :
    extractWord (blank :: (w ++ blank :: s)) = some (w, blank :: s) := by
  rw [extractWord_cons_space _ rfl, extractWord_append hw (head_blank s)]

theorem readTable_line (hplain : l.Plain) {t : SSTableMetadata} (h : Line l t) (rest : Bytes) :
    readTable (newline :: (tableLine t ++ rest)) = (do
      let (smallestKey, s) ← extractWord (blank :: (t.smallestKey ++ blank :: (t.largestKey ++
        blank :: (decimal t.entryCount ++ newline :: rest))))
      let (largestKey, s) ← extractWord s
      let (entryCount, s) ← extractUint64 s
      return (⟨t.id, t.filename, smallestKey, largestKey, entryCount⟩, s)) := by
  have hline : tableLine t ++ rest = decimal t.id ++ blank :: (t.filename ++ blank ::
      (t.smallestKey ++ blank :: (t.largestKey ++ blank ::
        (decimal t.entryCount ++ newline :: rest)))) := by
    simp [tableLine]
  have hword : IsWord t.filename := by
    rw [h.placed]
    exact Layout.isWord_tableFilename hplain t.id
  rw [hline, readTable, extractUint64_cons_space _ rfl,
    extractUint64_decimal h.id_lt (head_blank _)]
  simp only [Option.bind_eq_bind, Option.bind_some, extractWord_blank hword]

/-- A line with keys is read back, unless its entry count is out of range. -/
theorem readTable_keyed (hplain : l.Plain) {t : SSTableMetadata} (h : Line l t)
    (hkeys : WordBounds t) (rest : Bytes) :
    readTable (newline :: (tableLine t ++ rest)) =
      if t.entryCount < 2 ^ 64 then some (t, newline :: rest) else none := by
  rw [readTable_line hplain h, extractWord_blank hkeys.1]
  simp only [Option.bind_eq_bind, Option.bind_some, extractWord_blank hkeys.2]
  rw [extractUint64_cons_space _ rfl]
  split
  · next hcount =>
    rw [extractUint64_decimal hcount (head_newline rest)]
    rfl
  · next hcount =>
    rw [extractUint64_large (not_lt.mp hcount) (head_newline rest)]
    rfl

theorem readTable_keyless_last (hplain : l.Plain) {t : SSTableMetadata} (h : Line l t)
    (hkeys : Keyless t) : readTable (newline :: (tableLine t ++ [])) = none := by
  obtain ⟨hsmallest, hlargest, hcount⟩ := hkeys
  rw [readTable_line hplain h, hsmallest, hlargest, hcount]
  rfl

/-- A line without keys takes the next line's id for a key and the start of its path for the
count: what is left is the end of that path. -/
theorem readTable_keyless {rest s : Bytes} {t next t' : SSTableMetadata} (hplain : l.Plain)
    (h : Line l t) (hkeys : Keyless t) (hnext : Line l next)
    (hread : readTable (newline :: (tableLine t ++ (tableLine next ++ rest))) = some (t', s)) :
    ∃ u rest', u <:+ l.stem next.id ∧ u ≠ l.stem next.id ∧ s = u ++ text ".sst" ++ blank :: rest' := by
  obtain ⟨hsmallest, hlargest, hcount⟩ := hkeys
  have hzero : extractWord (blank :: (t.smallestKey ++ blank :: (t.largestKey ++ blank ::
      (decimal t.entryCount ++ newline :: (tableLine next ++ rest))))) =
      some (decimal t.entryCount, newline :: (tableLine next ++ rest)) := by
    rw [hsmallest, hlargest, List.nil_append, List.nil_append]
    rw [extractWord_cons_space _ rfl, extractWord_cons_space _ rfl, extractWord_cons_space _ rfl]
    exact extractWord_append (isWord_decimal _) (head_newline _)
  have hline : tableLine next ++ rest = decimal next.id ++ blank :: (l.stem next.id ++
      46 :: (text "sst" ++ blank :: (next.smallestKey ++ blank :: (next.largestKey ++
        blank :: (decimal next.entryCount ++ newline :: rest))))) := by
    have hsst : text ".sst" = 46 :: text "sst" := rfl
    simp [tableLine, hnext.placed, Layout.tableFilename_eq, hsst]
  rw [readTable_line hplain h, hzero] at hread
  simp only [Option.bind_eq_bind, Option.bind_some] at hread
  rw [hline, extractWord_cons_space _ rfl,
    extractWord_append (isWord_decimal _) (head_blank _)] at hread
  simp only [Option.bind_some, extractUint64_cons_space (b := blank) _ rfl] at hread
  obtain ⟨⟨count, s'⟩, hcountRead, hreturn⟩ := Option.bind_eq_some_iff.mp hread
  obtain ⟨-, rfl⟩ := Prod.mk.inj (Option.some.inj hreturn)
  obtain ⟨u, rfl, hsuffix, hne⟩ :=
    extractUint64_inside (Layout.plain_stem hplain next.id) rfl hcountRead
  exact ⟨u, _, hsuffix, hne, by rw [List.append_assoc]; rfl⟩

theorem readTable_stray {u rest s : Bytes} {id : ℕ} {t : SSTableMetadata} (hplain : l.Plain)
    (hsuffix : u <:+ l.stem id) (hne : u ≠ l.stem id)
    (hread : readTable (u ++ text ".sst" ++ blank :: rest) = some (t, s)) : l.Stray t.filename := by
  simp only [readTable, Option.bind_eq_bind, Option.bind_eq_some_iff] at hread
  obtain ⟨⟨n, s₁⟩, hid, ⟨filename, s₂⟩, hfilename, _, -, _, -, _, -, hreturn⟩ := hread
  obtain ⟨rfl, -⟩ := Prod.mk.inj (Option.some.inj hreturn)
  have hplainStem := Layout.plain_stem hplain id
  have hplainU : ∀ b ∈ u, isSpace b = false := fun b hb => hplainStem b (hsuffix.subset hb)
  rw [List.append_assoc] at hid
  obtain ⟨u', rfl, hsuffix', hne'⟩ := extractUint64_inside (b := 46) hplainU rfl hid
  have hword : IsWord (u' ++ text ".sst") := by
    refine ⟨by simp [text], ?_⟩
    intro b hb
    rcases List.mem_append.mp hb with hb | hb
    · exact hplainU b (hsuffix'.subset hb)
    · have hsst : ∀ b ∈ text ".sst", isSpace b = false := by decide +kernel
      exact hsst b hb
  have hfile : extractWord (u' ++ text ".sst" ++ blank :: rest) = some (filename, s₂) := by
    rw [List.append_assoc]
    exact hfilename
  rw [extractWord_append hword (head_blank rest)] at hfile
  obtain ⟨rfl, -⟩ := Prod.mk.inj (Option.some.inj hfile)
  refine ⟨id, u', hsuffix'.trans hsuffix, ?_, rfl⟩
  intro heq
  exact hne (hsuffix.eq_of_length_le (heq ▸ hsuffix'.length_le))

/-- The lines of a run are read back, or the reading gives up, or it finds a stray path. -/
theorem readTables_run (hplain : l.Plain) (tables : List SSTableMetadata)
    (h : ∀ t ∈ tables, Line l t) {found : List SSTableMetadata} {s : Bytes}
    (hread : readTables tables.length (newline :: (tables.map tableLine).flatten) = some (found, s)) :
    found = tables ∨ ∃ t ∈ found, l.Stray t.filename := by
  induction tables generalizing found s with
  | nil =>
    obtain ⟨rfl, -⟩ := Prod.mk.inj (Option.some.inj hread)
    exact Or.inl rfl
  | cons t tables ih =>
    have ht := h t List.mem_cons_self
    have hrest : ∀ t' ∈ tables, Line l t' := fun t' ht' => h t' (List.mem_cons_of_mem _ ht')
    rw [List.map_cons, List.flatten_cons, List.length_cons, readTables] at hread
    obtain ⟨⟨first, s₁⟩, hfirst, hread⟩ := Option.bind_eq_some_iff.mp hread
    obtain ⟨⟨others, s₂⟩, hothers, hreturn⟩ := Option.bind_eq_some_iff.mp hread
    obtain ⟨rfl, -⟩ := Prod.mk.inj (Option.some.inj hreturn)
    rcases ht.keys with hkeys | hkeys
    · rw [readTable_keyed hplain ht hkeys] at hfirst
      split at hfirst
      · obtain ⟨rfl, rfl⟩ := Prod.mk.inj (Option.some.inj hfirst)
        rcases ih hrest hothers with rfl | ⟨t', ht', hstray⟩
        · exact Or.inl rfl
        · exact Or.inr ⟨t', List.mem_cons_of_mem _ ht', hstray⟩
      · cases hfirst
    · cases tables with
      | nil =>
        rw [List.map_nil, List.flatten_nil, readTable_keyless_last hplain ht hkeys] at hfirst
        cases hfirst
      | cons next tables =>
        have hnext := hrest next List.mem_cons_self
        rw [List.map_cons, List.flatten_cons] at hfirst
        obtain ⟨u, rest', hsuffix, hne, rfl⟩ := readTable_keyless hplain ht hkeys hnext hfirst
        rw [List.length_cons, readTables] at hothers
        obtain ⟨⟨second, s₃⟩, hsecond, hothers⟩ := Option.bind_eq_some_iff.mp hothers
        obtain ⟨⟨others', s₄⟩, -, hreturn'⟩ := Option.bind_eq_some_iff.mp hothers
        obtain ⟨rfl, -⟩ := Prod.mk.inj (Option.some.inj hreturn')
        exact Or.inr ⟨second, List.mem_cons_of_mem _ List.mem_cons_self,
          readTable_stray hplain hsuffix hne hsecond⟩

/-- A text that can be read at all has a count that fits, and the next id is read back. -/
theorem parse_numbers {m m' : Manifest} (hnext : m.nextTableId < 2 ^ 64)
    (hparse : parse m.filename m.manifestText = .ok m') :
    m.tables.length < 2 ^ 64 ∧ m'.filename = m.filename ∧ m'.nextTableId = m.nextTableId := by
  by_cases hlength : m.tables.length < 2 ^ 64
  · rw [parse_lines m.filename hnext hlength] at hparse
    refine ⟨hlength, ?_⟩
    cases hread : readTables m.tables.length (newline :: (m.tables.map tableLine).flatten) with
    | none => simp [hread] at hparse
    | some p =>
      simp only [hread] at hparse
      split at hparse
      · cases hparse
      · cases hparse
        exact ⟨rfl, rfl⟩
  · have hfirst : extractUint64 m.manifestText = some (m.nextTableId,
        newline :: (decimal m.tables.length ++ (newline :: (m.tables.map tableLine).flatten))) := by
      have h := extractUint64_decimal hnext (head_newline
        (decimal m.tables.length ++ (newline :: (m.tables.map tableLine).flatten)))
      rwa [manifestText, List.append_assoc]
    have hsecond : extractUint64
        (newline :: (decimal m.tables.length ++ (newline :: (m.tables.map tableLine).flatten))) =
        none := by
      rw [extractUint64_cons_space _ rfl, extractUint64_large (not_lt.mp hlength) (head_newline _)]
    simp only [parse, hfirst, hsecond, reduceCtorEq] at hparse

theorem parse_run (hplain : l.Plain) {m m' : Manifest} (hnext : m.nextTableId < 2 ^ 64)
    (hlength : m.tables.length < 2 ^ 64) (h : ∀ t ∈ m.tables, Line l t)
    (hparse : parse m.filename m.manifestText = .ok m') :
    m' = m ∨ (m'.filename = m.filename ∧ ∃ t ∈ m'.tables, l.Stray t.filename) := by
  rw [parse_lines m.filename hnext hlength] at hparse
  cases hread : readTables m.tables.length (newline :: (m.tables.map tableLine).flatten) with
  | none => simp [hread] at hparse
  | some p =>
    obtain ⟨found, s⟩ := p
    simp only [hread] at hparse
    split at hparse
    · cases hparse
    · cases hparse
      rcases readTables_run hplain m.tables h hread with rfl | hstray
      · exact Or.inl rfl
      · exact Or.inr ⟨rfl, hstray⟩

end Manifest
end ForgeDB
