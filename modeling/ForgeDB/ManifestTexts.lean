import ForgeDB.Manifests

/-!
# What the text of the table list can carry

The text separates raw keys by blanks, and the reader takes one word after the other. So
what it reads as a key is always a word, and a list is read back exactly when its key
bounds are words.
-/

namespace ForgeDB.Manifest
open CrashPrograms CrashPrograms.Io SSTables TextStreams

/-- A call of `SSTable::write` with data, a file name without blanks and numbers that
their types can hold. -/
structure WrittenTable where
  id : ℕ
  filename : Bytes
  data : Entries
  id_lt : id < 2 ^ 64
  filename_word : IsWord filename
  nonempty : data.entries ≠ []
  count_lt : data.entries.length < 2 ^ 64

def WrittenTable.metadata (t : WrittenTable) : SSTableMetadata := metadataOf t.id t.filename t.data

def WordBounds (table : SSTableMetadata) : Prop := IsWord table.smallestKey ∧ IsWord table.largestKey

theorem readable_metadata {t : WrittenTable} (h : WordBounds t.metadata) : Readable t.metadata where
  id_lt := t.id_lt
  filename_word := t.filename_word
  smallest_word := h.1
  largest_word := h.2
  count_lt := by
    rw [WrittenTable.metadata, metadataOf, length_sortEntries]
    exact t.count_lt

/-- Whatever a line reads as, the reader took its path and its key bounds as words. -/
theorem words_of_readTable {s rest : Bytes} {table : SSTableMetadata}
    (h : readTable s = some (table, rest)) : IsWord table.filename ∧ WordBounds table := by
  simp only [readTable, Option.bind_eq_bind, Option.bind_eq_some_iff] at h
  obtain ⟨⟨id, s₁⟩, -, ⟨filename, s₂⟩, hfilename, ⟨smallest, s₃⟩, hsmallest, ⟨largest, s₄⟩, hlargest,
    ⟨count, s₅⟩, -, hreturn⟩ := h
  obtain ⟨rfl, -⟩ := Prod.mk.inj (Option.some.inj hreturn)
  exact ⟨isWord_of_extractWord hfilename, isWord_of_extractWord hsmallest,
    isWord_of_extractWord hlargest⟩

theorem words_of_readTables {count : ℕ} {s rest : Bytes} {tables : List SSTableMetadata}
    (h : readTables count s = some (tables, rest)) :
    ∀ t ∈ tables, IsWord t.filename ∧ WordBounds t := by
  induction count generalizing s tables with
  | zero =>
    obtain ⟨rfl, -⟩ := Prod.mk.inj (Option.some.inj h)
    simp
  | succ count ih =>
    simp only [readTables, Option.bind_eq_bind, Option.bind_eq_some_iff] at h
    obtain ⟨⟨first, s₁⟩, hfirst, ⟨others, s₂⟩, hothers, hreturn⟩ := h
    obtain ⟨rfl, rfl⟩ := Prod.mk.inj (Option.some.inj hreturn)
    intro t ht
    rcases List.mem_cons.mp ht with rfl | ht
    · exact words_of_readTable hfirst
    · exact ih hothers t ht

theorem words_of_parse {filename s : Bytes} {m : Manifest} (h : parse filename s = .ok m) :
    ∀ t ∈ m.tables, IsWord t.filename ∧ WordBounds t := by
  rw [parse] at h
  cases hnext : extractUint64 s with
  | none => simp only [hnext, reduceCtorEq] at h
  | some p =>
    obtain ⟨next, s₁⟩ := p
    simp only [hnext] at h
    cases hcount : extractUint64 s₁ with
    | none => simp only [hcount, reduceCtorEq] at h
    | some p =>
      obtain ⟨count, s₂⟩ := p
      simp only [hcount] at h
      cases htables : readTables count s₂ with
      | none => simp only [htables, reduceCtorEq] at h
      | some p =>
        obtain ⟨tables, s₃⟩ := p
        simp only [htables] at h
        split at h
        · cases h
        · cases h
          exact words_of_readTables htables

theorem wordBounds_of_load {filename : Bytes} {m : Manifest} {d d' : Disk}
    (h : Succeeds (load filename) d (.ok m) d') : ∀ t ∈ m.tables, WordBounds t := by
  cases hfile : Disk.contents d filename with
  | none =>
    simp only [Succeeds, load, bind_run, consult_run_nil, getDisk_run, hfile, pure_run,
      Result.returned.injEq, Except.ok.injEq] at h
    rw [← h.1]
    simp
  | some s =>
    simp only [Succeeds, load, bind_run, consult_run_nil, getDisk_run, hfile, pure_run,
      Result.returned.injEq] at h
    exact fun t ht => (words_of_parse h.1 t ht).2

/-- The text file of a list of written tables restores the list exactly when every least
and every greatest key is a non-empty string without blanks. -/
theorem load_after_persist_iff (filename : Bytes) (nextTableId : ℕ) (hnext : nextTableId < 2 ^ 64)
    (written : List WrittenTable) (hlength : written.length < 2 ^ 64) (d : Disk) :
    ∃ d', Succeeds (persist ⟨filename, written.map WrittenTable.metadata, nextTableId⟩) d (.ok ()) d' ∧
      (Succeeds (load filename) d'
          (.ok ⟨filename, written.map WrittenTable.metadata, nextTableId⟩) d' ↔
        ∀ t ∈ written, IsWord t.metadata.smallestKey ∧ IsWord t.metadata.largestKey) := by
  obtain ⟨d', hpersist, hfile, -⟩ :=
    persist_succeeds ⟨filename, written.map WrittenTable.metadata, nextTableId⟩ d
  refine ⟨d', hpersist, ?_⟩
  constructor
  · intro hload t ht
    exact wordBounds_of_load hload t.metadata (List.mem_map_of_mem ht)
  · intro hwords
    refine load_succeeds (m := ⟨filename, written.map WrittenTable.metadata, nextTableId⟩) ?_ hfile
    refine ⟨hnext, by simpa using hlength, ?_⟩
    intro table htable
    obtain ⟨t, ht, rfl⟩ := List.mem_map.mp htable
    exact readable_metadata (hwords t ht)

private theorem isWord_sample : IsWord (text "d/tables/table_1.sst") :=
  ⟨by decide +kernel, by decide +kernel⟩

private theorem one_lt_uint64 : 1 < 2 ^ 64 := by norm_num

def singleTable (key : Bytes) : WrittenTable where
  id := 1
  filename := text "d/tables/table_1.sst"
  data := AList.singleton key ⟨text "v", false⟩
  id_lt := one_lt_uint64
  filename_word := isWord_sample
  nonempty := List.cons_ne_nil _ _
  count_lt := one_lt_uint64

theorem load_after_persist_iff_singleTable :
    ∃ d', Succeeds (persist ⟨text "d/MANIFEST", [singleTable (text "a")].map WrittenTable.metadata, 2⟩)
        ∅ (.ok ()) d' ∧
      (Succeeds (load (text "d/MANIFEST")) d'
          (.ok ⟨text "d/MANIFEST", [singleTable (text "a")].map WrittenTable.metadata, 2⟩) d' ↔
        ∀ t ∈ [singleTable (text "a")],
          IsWord t.metadata.smallestKey ∧ IsWord t.metadata.largestKey) :=
  load_after_persist_iff (text "d/MANIFEST") 2 (by decide) [singleTable (text "a")] (by decide) ∅

/-- A key with a blank in it: the second word of the key is read as the entry count. -/
theorem load_after_persist_blank_key :
    ∃ d', Succeeds (persist ⟨text "d/MANIFEST", [(singleTable (text "a b")).metadata], 2⟩) ∅ (.ok ()) d' ∧
      Succeeds (load (text "d/MANIFEST")) d' (.error (text "Invalid MANIFEST entry")) d' := by
  obtain ⟨d', hpersist, hfile, -⟩ :=
    persist_succeeds ⟨text "d/MANIFEST", [(singleTable (text "a b")).metadata], 2⟩ ∅
  refine ⟨d', hpersist, ?_⟩
  have hparse : parse (text "d/MANIFEST")
      (manifestText ⟨text "d/MANIFEST", [(singleTable (text "a b")).metadata], 2⟩) =
      .error (text "Invalid MANIFEST entry") := by decide +kernel
  simp [Succeeds, load, Disk.contents_of_lookup hfile, hparse]

end ForgeDB.Manifest
