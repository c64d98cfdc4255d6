import ForgeDB.ManifestLines
import ForgeDB.Reopening
import ForgeDB.TableFiles

/-!
# Lists of tables and their files

What stays true of the list in memory, the text file and the table files while tables are
written, listed, unlisted and deleted, with any of it failing: ids that increase below the
next one, files named by their ids, key ranges that cover the files. Listing the directory
brings all of it back.
-/

namespace ForgeDB.TableIds
open CommandParser CrashPrograms CrashPrograms.Io Database LayeredMaps SSTables TextStreams
open Manifest Reopening

section Files

variable {l : Layout} {created created' : ℕ} {d d' : Disk}

/-- A start on an empty directory: no log, no table list and no table file in the tree. -/
structure Vacant (l : Layout) (d : Disk) : Prop where
  fresh : Fresh l d
  tables_none : ∀ path, text ".sst" <:+ path → d.lookup path = none

/-- The table files carry ids of tables created so far, and whatever can be read from them is
entries under words. -/
structure Filed (l : Layout) (created : ℕ) (d : Disk) : Prop where
  named : ∀ path, text ".sst" <:+ path → d.lookup path ≠ none →
    ∃ id ≤ created, path = l.tableFilename id
  kept : ∀ id found, loadResult d (l.tableFilename id) = .ok found → ∀ e ∈ found.entries, Kept e

/-- What a step may do to a table file: leave it, delete it, or write one with an id of a
created table, perhaps not to its end. -/
def Changes (l : Layout) (created : ℕ) (d d' : Disk) : Prop :=
  ∀ path, text ".sst" <:+ path → d'.lookup path = d.lookup path ∨ d'.lookup path = none ∨
    ∃ id data part, id ≤ created ∧ path = l.tableFilename id ∧ (∀ e ∈ data.entries, Kept e) ∧
      part <+: tableContents data ∧ d'.lookup path = some (.regular part)

theorem changes_of_same {ps : List Bytes} (hsame : Disk.SameExcept ps d d')
    (hps : ∀ path ∈ ps, ¬ text ".sst" <:+ path) : Changes l created d d' :=
  fun path hpath => Or.inl (hsame path (fun hmem => hps path hmem hpath))

theorem Filed.changed (h : Filed l created d) (hle : created ≤ created')
    (hchanges : Changes l created' d d') : Filed l created' d' := by
  refine ⟨fun path hpath hsome => ?_, fun id found hload => ?_⟩
  · rcases hchanges path hpath with hsame | hnone | ⟨id, -, -, hid, hname, -⟩
    · rw [hsame] at hsome
      obtain ⟨id, hid, hname⟩ := h.named path hpath hsome
      exact ⟨id, hid.trans hle, hname⟩
    · exact absurd hnone hsome
    · exact ⟨id, hid, hname⟩
  · have hsst : text ".sst" <:+ l.tableFilename id := List.suffix_append _ _
    rcases hchanges _ hsst with hsame | hnone | ⟨-, data, part, -, -, hkept, hpart, hfile⟩
    · rw [loadResult_of_same hsame] at hload
      exact h.kept id found hload
    · rw [loadResult, Disk.contents, hnone] at hload
      cases hload
    · rw [loadResult_of_lookup hfile] at hload
      intro e he
      exact hkept e (TableFiles.mem_of_parseTable_prefix (fun e he => (hkept e he).2) hpart hload e he)

/-- The key range of the metadata covers whatever is read from the file. -/
def Covers (d : Disk) (t : SSTableMetadata) : Prop :=
  ∀ found, loadResult d t.filename = .ok found → ∀ e ∈ found.entries,
    t.entryCount ≠ 0 ∧ t.smallestKey ≤ e.1 ∧ e.1 ≤ t.largestKey

theorem Covers.of_kept {t : SSTableMetadata} (h : Covers d t)
    (hkeep : d'.lookup t.filename = d.lookup t.filename ∨ d'.lookup t.filename = none) :
    Covers d' t := by
  intro found hload
  rcases hkeep with hsame | hnone
  · rw [loadResult_of_same hsame] at hload
    exact h found hload
  · rw [loadResult, Disk.contents, hnone] at hload
    cases hload

/-- A table file, whole or torn, under the metadata of its write. -/
theorem covers_written (l : Layout) (m : Manifest) {data : Entries}
    (hkept : ∀ e ∈ data.entries, Kept e) {part : Bytes} (hpart : part <+: tableContents data)
    (hfile : d.lookup (l.tableFilename m.nextTableId) = some (.regular part)) :
    Covers d (Shows.nextTable l m data) := by
  intro found hload e he
  change loadResult d (l.tableFilename m.nextTableId) = .ok found at hload
  rw [loadResult_of_lookup hfile] at hload
  have hmem := TableFiles.mem_of_parseTable_prefix (fun e he => (hkept e he).2) hpart hload e he
  exact range_of_lookup m.nextTableId (l.tableFilename m.nextTableId) (AList.mem_lookup_iff.mpr hmem)

theorem Vacant.filed (h : Vacant l d) : Filed l 0 d := by
  refine ⟨fun path hpath hsome => absurd (h.tables_none path hpath) hsome, fun id found hload => ?_⟩
  have hnone := h.tables_none (l.tableFilename id) (List.suffix_append _ _)
  rw [loadResult, Disk.contents, hnone] at hload
  cases hload

/-- The text file and its temporary file do not look like table files. -/
theorem paths_apart {m : Manifest} (hname : m.filename = l.manifestFilename) :
    ∀ path ∈ m.paths, ¬ text ".sst" <:+ path := by
  rintro path hpath ⟨front, rfl⟩
  refine l.notMem_paths_of_getLast hname ?_ hpath
  rw [List.getLast?_append]
  rfl

end Files

section Lists

variable {l : Layout} {created created' : ℕ} {d d' : Disk} {m : Manifest} {data : Entries}

/-- A list whose ids increase and stay below the next one, of tables under their own names. -/
structure Numbered (l : Layout) (created : ℕ) (m : Manifest) : Prop where
  filename_eq : m.filename = l.manifestFilename
  placed : ∀ t ∈ m.tables, t.filename = l.tableFilename t.id
  keys : ∀ t ∈ m.tables, WordBounds t ∨ Keyless t
  increasing : m.tables.Pairwise (fun a b => a.id < b.id)
  ids_lt : ∀ t ∈ m.tables, t.id < m.nextTableId
  next_le : m.nextTableId ≤ created + 1

theorem Numbered.mono (h : Numbered l created m) (hle : created ≤ created') :
    Numbered l created' m :=
  ⟨h.filename_eq, h.placed, h.keys, h.increasing, h.ids_lt, h.next_le.trans (by omega)⟩

theorem numbered_empty (l : Layout) (created : ℕ) : Numbered l created ⟨l.manifestFilename, [], 1⟩ :=
  ⟨by with_reducible rfl, by simp, by simp, .nil, by simp, by simp⟩

theorem Numbered.ne_next (h : Numbered l created m) {t : SSTableMetadata} (ht : t ∈ m.tables) :
    t.filename ≠ l.tableFilename m.nextTableId := by
  rw [h.placed t ht]
  intro heq
  exact (h.ids_lt t ht).ne (l.tableFilename_injective heq)

theorem keys_nextTable (l : Layout) (m : Manifest) (hkept : ∀ e ∈ data.entries, Kept e) :
    WordBounds (Shows.nextTable l m data) ∨ Keyless (Shows.nextTable l m data) := by
  by_cases hne : data.entries = []
  · have hsort : sortEntries data = [] := by
      rw [← List.length_eq_zero_iff, length_sortEntries, hne, List.length_nil]
    refine Or.inr ⟨?_, ?_, ?_⟩
    · rw [Shows.nextTable, metadataOf, hsort]
      rfl
    · rw [Shows.nextTable, metadataOf, hsort]
      rfl
    · rw [Shows.nextTable, metadataOf, hsort]
      rfl
  · obtain ⟨⟨e, he, hsmallest⟩, e', he', hlargest⟩ :=
      exists_range m.nextTableId (l.tableFilename m.nextTableId) hne
    refine Or.inl ⟨?_, ?_⟩
    · rw [Shows.nextTable, hsmallest]
      exact (hkept e he).1
    · rw [Shows.nextTable, hlargest]
      exact (hkept e' he').1

theorem Numbered.pushed (h : Numbered l created m) (hroom : created + 2 < 2 ^ 64)
    (hkept : ∀ e ∈ data.entries, Kept e) :
    Numbered l (created + 1) (m.pushed (Shows.nextTable l m data)) := by
  have hle := h.next_le
  have hnext : (m.pushed (Shows.nextTable l m data)).nextTableId = m.nextTableId + 1 :=
    Shows.next_pushed data (by omega)
  refine ⟨h.filename_eq, placed_pushed h.placed, ?_, ?_, ?_, ?_⟩
  · intro t ht
    rcases List.mem_append.mp ht with ht | ht
    · exact h.keys t ht
    · rw [List.mem_singleton.mp ht]
      exact keys_nextTable l m hkept
  · refine List.pairwise_append.mpr ⟨h.increasing, List.pairwise_singleton _ _, ?_⟩
    intro t ht t' ht'
    rw [List.mem_singleton.mp ht']
    exact h.ids_lt t ht
  · intro t ht
    rw [hnext]
    rcases List.mem_append.mp ht with ht | ht
    · exact (h.ids_lt t ht).trans (Nat.lt_succ_self _)
    · rw [List.mem_singleton.mp ht]
      exact Nat.lt_succ_self _
  · rw [hnext]
    omega

/-- A refused table: the next id is one more, or one again when the list is empty. -/
theorem Numbered.popped (h : Numbered l created m) (hroom : created + 2 < 2 ^ 64) :
    Numbered l (created + 1) (m.popped (Shows.nextTable l m data)) := by
  have hle := h.next_le
  have hnext : (m.pushed (Shows.nextTable l m data)).nextTableId = m.nextTableId + 1 :=
    Shows.next_pushed data (by omega)
  refine ⟨h.filename_eq, h.placed, h.keys, h.increasing, ?_, ?_⟩
  · intro t ht
    change t ∈ m.tables at ht
    simp only [Manifest.popped, if_neg (List.ne_nil_of_mem ht), hnext]
    exact (h.ids_lt t ht).trans (Nat.lt_succ_self _)
  · simp only [Manifest.popped, hnext]
    split
    · omega
    · omega

theorem Numbered.without (h : Numbered l created m) (ids : List ℕ) :
    Numbered l created (m.without ids) := by
  have hsub : (m.without ids).tables.Sublist m.tables := List.filter_sublist
  exact ⟨h.filename_eq, fun t ht => h.placed t (hsub.subset ht), fun t ht => h.keys t (hsub.subset ht),
    h.increasing.sublist hsub, fun t ht => h.ids_lt t (hsub.subset ht), h.next_le⟩

theorem Numbered.line (h : Numbered l created m) (hroom : created + 1 < 2 ^ 64) :
    ∀ t ∈ m.tables, Line l t := by
  intro t ht
  have hid := h.ids_lt t ht
  have hle := h.next_le
  exact ⟨by omega, h.placed t ht, h.keys t ht⟩

/-- The text file holds the same tables as the list in memory, perhaps with another next id.
Before the first change of the list there is no file. -/
def Listed (l : Layout) (created : ℕ) (d : Disk) (tables : List SSTableMetadata) : Prop :=
  (d.lookup l.manifestFilename = none ∧ tables = []) ∨
    ∃ p, Numbered l created p ∧ p.tables = tables ∧
      d.lookup l.manifestFilename = some (.regular p.manifestText)

theorem Listed.of_same {tables : List SSTableMetadata} (h : Listed l created d tables)
    (hle : created ≤ created')
    (hsame : d'.lookup l.manifestFilename = d.lookup l.manifestFilename) :
    Listed l created' d' tables := by
  rw [Listed, hsame]
  rcases h with hnone | ⟨p, hp, htables, hfile⟩
  · exact Or.inl hnone
  · exact Or.inr ⟨p, hp.mono hle, htables, hfile⟩

/-- A list with the files it goes with. -/
structure Tracked (l : Layout) (created : ℕ) (m : Manifest) (d : Disk) : Prop where
  numbered : Numbered l created m
  listed : Listed l created d m.tables
  filed : Filed l created d
  covers : ∀ t ∈ m.tables, Covers d t

theorem Tracked.of_changes (h : Tracked l created m d) (hle : created ≤ created')
    (hchanges : Changes l created' d d')
    (hkeep : ∀ t ∈ m.tables, d'.lookup t.filename = d.lookup t.filename ∨
      d'.lookup t.filename = none)
    (hsame : d'.lookup l.manifestFilename = d.lookup l.manifestFilename) :
    Tracked l created' m d' :=
  ⟨h.numbered.mono hle, h.listed.of_same hle hsame, h.filed.changed hle hchanges,
    fun t ht => (h.covers t ht).of_kept (hkeep t ht)⟩

/-- The listed files do not change with files of other kinds. -/
theorem Numbered.keep (h : Numbered l created m) {ps : List Bytes}
    (hsame : Disk.SameExcept ps d d') (hps : ∀ path ∈ ps, ¬ text ".sst" <:+ path) :
    ∀ t ∈ m.tables, d'.lookup t.filename = d.lookup t.filename := by
  intro t ht
  apply hsame
  intro hmem
  apply hps t.filename hmem
  rw [h.placed t ht]
  exact List.suffix_append _ _

theorem Tracked.of_log (hapart : ¬ text ".sst" <:+ l.walFilename) (h : Tracked l created m d)
    (hsame : Disk.SameExcept [l.walFilename] d d') : Tracked l created m d' := by
  have hps : ∀ path ∈ [l.walFilename], ¬ text ".sst" <:+ path :=
    fun path hpath => List.mem_singleton.mp hpath ▸ hapart
  exact h.of_changes le_rfl (changes_of_same hsame hps)
    (fun t ht => Or.inl (h.numbered.keep hsame hps t ht))
    (hsame _ (by simpa using l.wal_ne_manifest.symm))

theorem Tracked.of_created (h : Tracked l created m d) (hkept : ∀ e ∈ data.entries, Kept e)
    (hsame : Disk.SameExcept [l.tableFilename m.nextTableId] d d')
    (hfile : ∃ part, part <+: tableContents data ∧
      d'.lookup (l.tableFilename m.nextTableId) = some (.regular part)) :
    Tracked l (created + 1) m d' := by
  obtain ⟨part, hpart, hfile⟩ := hfile
  have hne : l.manifestFilename ≠ l.tableFilename m.nextTableId :=
    Layout.manifest_ne_table l.walFilename m.nextTableId
  refine h.of_changes (Nat.le_succ _) (fun path _ => ?_)
    (fun t ht => Or.inl (hsame _ (by simpa using h.numbered.ne_next ht)))
    (hsame _ (by simpa using hne))
  by_cases hpath : path = l.tableFilename m.nextTableId
  · exact Or.inr (Or.inr ⟨m.nextTableId, data, part, h.numbered.next_le, hpath, hkept, hpart,
      hpath ▸ hfile⟩)
  · exact Or.inl (hsame path (by simpa using hpath))

/-- Paths are as they were, or were table files and are gone. -/
def Deleted (l : Layout) (d d' : Disk) : Prop :=
  ∀ path, d'.lookup path = d.lookup path ∨ (d'.lookup path = none ∧ ∃ id, path = l.tableFilename id)

theorem Deleted.wal (h : Deleted l d d') : d'.lookup l.walFilename = d.lookup l.walFilename := by
  rcases h l.walFilename with hsame | ⟨-, id, hid⟩
  · exact hsame
  · exact absurd hid (l.wal_ne_table id)

theorem remove_deleted (l : Layout) (id : ℕ) (d : Disk) :
    Ensures (remove (l.tableFilename id)) d (fun _ d' => Deleted l d d') (fun _ => True) := by
  refine .attempt (fun path => ?_) (fun _ path => Or.inl rfl) (fun _ => trivial)
  by_cases hpath : path = l.tableFilename id
  · rw [hpath, AList.lookup_erase]
    exact Or.inr ⟨rfl, id, rfl⟩
  · exact Or.inl (AList.lookup_erase_ne hpath)

theorem Tracked.of_deleted (h : Tracked l created m d)
    (hdeleted : Deleted l d d') : Tracked l created m d' := by
  refine h.of_changes le_rfl (fun path _ => ?_) (fun t _ => ?_) ?_
  · rcases hdeleted path with hsame | ⟨hnone, -⟩
    · exact Or.inl hsame
    · exact Or.inr (Or.inl hnone)
  · exact (hdeleted t.filename).imp_right And.left
  · rcases hdeleted l.manifestFilename with hsame | ⟨-, id, hid⟩
    · exact hsame
    · exact absurd hid (Layout.manifest_ne_table l.walFilename id)

theorem addTable_tracked (hnumbered : Numbered l created m) (h : Tracked l (created + 1) m d)
    (hroom : created + 2 < 2 ^ 64) (hkept : ∀ e ∈ data.entries, Kept e)
    (hfile : ∃ part, part <+: tableContents data ∧
      d.lookup (l.tableFilename m.nextTableId) = some (.regular part)) :
    Ensures (m.addTable (Shows.nextTable l m data)) d
      (fun r d' => Tracked l (created + 1) r.2 d' ∧ Disk.SameExcept m.paths d d') (fun _ => True) := by
  have hname := hnumbered.filename_eq
  obtain ⟨part, hpart, hfile⟩ := hfile
  refine (m.addTable_ensures _ d).mono ?_ (fun _ _ => trivial)
  rintro r d' ⟨hsame, hr⟩
  have hfiled' := h.filed.changed le_rfl (changes_of_same hsame (paths_apart hname))
  have hold : ∀ t ∈ m.tables, Covers d' t := fun t ht =>
    (h.covers t ht).of_kept (Or.inl (hnumbered.keep hsame (paths_apart hname) t ht))
  rcases hr with ⟨rfl, htext⟩ | ⟨⟨e, rfl⟩, htext⟩
  · have hpushed := hnumbered.pushed hroom hkept
    rw [hname] at htext
    refine ⟨⟨hpushed, Or.inr ⟨_, hpushed, rfl, htext⟩, hfiled', fun t ht => ?_⟩, hsame⟩
    rcases List.mem_append.mp ht with ht | ht
    · exact hold t ht
    · rw [List.mem_singleton.mp ht]
      exact covers_written l m hkept hpart ((hsame _ (l.table_notMem_paths hname _)).trans hfile)
  · rw [hname] at htext
    exact ⟨⟨hnumbered.popped hroom, h.listed.of_same le_rfl htext, hfiled', hold⟩, hsame⟩

theorem removeTables_tracked (h : Tracked l created m d) (ids : List ℕ) :
    Ensures (m.removeTables ids) d
      (fun r d' => Tracked l created r.2 d' ∧ Disk.SameExcept m.paths d d') (fun _ => True) := by
  have hname := h.numbered.filename_eq
  refine (m.removeTables_ensures ids d).mono ?_ (fun _ _ => trivial)
  rintro r d' ⟨hsame, hr⟩
  have hfiled' := h.filed.changed le_rfl (changes_of_same hsame (paths_apart hname))
  have hold : ∀ t ∈ m.tables, Covers d' t := fun t ht =>
    (h.covers t ht).of_kept (Or.inl (h.numbered.keep hsame (paths_apart hname) t ht))
  rcases hr with ⟨rfl, htext⟩ | ⟨⟨e, rfl⟩, htext⟩
  · have hwithout := h.numbered.without ids
    rw [hname] at htext
    exact ⟨⟨hwithout, Or.inr ⟨_, hwithout, rfl, htext⟩, hfiled',
      fun t ht => hold t (List.mem_of_mem_filter ht)⟩, hsame⟩
  · rw [hname] at htext
    exact ⟨⟨h.numbered, h.listed.of_same le_rfl htext, hfiled', hold⟩, hsame⟩

theorem removeFiles_deleted (tables : List SSTableMetadata)
    (hplaced : ∀ t ∈ tables, t.filename = l.tableFilename t.id) (d : Disk) :
    Ensures (Storage.removeFiles tables) d (fun _ d' => Deleted l d d') (fun _ => True) := by
  induction tables generalizing d with
  | nil => exact .pure (fun _ => Or.inl rfl)
  | cons table tables ih =>
    rw [Storage.removeFiles, hplaced table List.mem_cons_self]
    refine (remove_deleted l table.id d).bind ?_
    intro removed d₁ h₁
    refine (ih (fun t ht => hplaced t (List.mem_cons_of_mem _ ht)) d₁).mono ?_ (fun _ _ => trivial)
    intro _ d₂ h₂ path
    rcases h₂ path with hsame | hgone
    · rw [hsame]
      exact h₁ path
    · exact Or.inr hgone

end Lists

section Rebuilding

variable {l : Layout} {created : ℕ} {d : Disk} {m : Manifest} {tables : List SSTableMetadata}

theorem filenamePart_table (walFilename : Bytes) (id : ℕ) :
    FilePaths.filenamePart (Storage.tableFilename walFilename id) =
      text "table_" ++ (decimal id ++ text ".sst") := by
  have hsplit : Storage.tableFilename walFilename id = Storage.tablesDirectory walFilename ++
      FilePaths.separator :: (text "table_" ++ (decimal id ++ text ".sst")) := by
    have hslash : text "/table_" = FilePaths.separator :: text "table_" := rfl
    simp [Storage.tableFilename, hslash]
  rw [hsplit]
  apply FilePaths.filenamePart_append
  intro hmem
  rcases List.mem_append.mp hmem with hmem | hmem
  · exact absurd hmem (by decide)
  rcases List.mem_append.mp hmem with hmem | hmem
  · exact absurd (isDigit_of_mem_decimal hmem) (by decide)
  · exact absurd hmem (by decide)

theorem idText_table {id : ℕ} (hid : id < 2 ^ 64) :
    (extractUint64 (((text "table_" ++ (decimal id ++ text ".sst")).drop 6).take
      (sizeSub (text "table_" ++ (decimal id ++ text ".sst")).length 10))).map Prod.fst = some id := by
  have hlen : (text "table_" ++ (decimal id ++ text ".sst")).length = (decimal id).length + 10 := by
    simp only [List.length_append]
    rw [show (text "table_").length = 6 from rfl, show (text ".sst").length = 4 from rfl]
    omega
  have hdrop : (text "table_" ++ (decimal id ++ text ".sst")).drop 6 = decimal id ++ text ".sst" := rfl
  have hread : extractUint64 (decimal id) = some (id, []) := by
    have h : extractUint64 (decimal id ++ []) = some (id, []) := extractUint64_decimal hid (by simp)
    rwa [List.append_nil] at h
  rw [hlen, hdrop, sizeSub, if_pos (Nat.le_add_left 10 _), Nat.add_sub_cancel, List.take_left' rfl,
    hread]
  rfl

theorem eq_of_tableIdOf {id n : ℕ} {node : Node} (hid : id < 2 ^ 64)
    (h : tableIdOf (l.tableFilename id) node = some n) : n = id := by
  simp only [tableIdOf, Layout.tableFilename, filenamePart_table] at h
  rw [idText_table hid] at h
  split_ifs at h
  exact (Option.some.inj h).symm

theorem lookup_of_listDirectory {directory path : Bytes} {node : Node}
    (h : (path, node) ∈ listDirectory d directory) : d.lookup path = some node := by
  obtain ⟨e, he, hlisted⟩ := List.mem_filterMap.mp h
  split at hlisted
  · obtain ⟨rfl, rfl⟩ := Prod.mk.inj (Option.some.inj hlisted)
    exact AList.mem_lookup_iff.mpr he
  · cases hlisted

theorem nodup_listDirectory (d : Disk) (directory : Bytes) :
    ((listDirectory d directory).map Prod.fst).Nodup := by
  refine List.Nodup.sublist ?_ d.nodupKeys
  rw [listDirectory, List.keys]
  induction d.entries with
  | nil => exact .slnil
  | cons e es ih =>
    rw [List.filterMap_cons]
    split
    · next hnone => exact ih.cons _
    · next file hsome =>
      split at hsome
      · rw [← Option.some.inj hsome]
        exact ih.cons_cons _
      · cases hsome

/-- A rebuilt table stands under its own name, with an id of a created table. -/
theorem Filed.rebuilt (h : Filed l created d) (hroom : created + 1 < 2 ^ 64) {directory : Bytes}
    {t : SSTableMetadata} (ht : Rebuilt d (listDirectory d directory) t) :
    t.filename = l.tableFilename t.id ∧ t.id ≤ created := by
  obtain ⟨node, hlisted, hid⟩ := ht.listed
  have hsst := FilePaths.suffix_of_extension (extension_of_tableIdOf hid) (by decide)
  obtain ⟨id, hle, hname⟩ := h.named t.filename hsst (by simp [lookup_of_listDirectory hlisted])
  rw [hname] at hid
  rw [eq_of_tableIdOf (by omega) hid]
  exact ⟨hname, hle⟩

theorem foldl_kept {p : Bytes → Prop} (hp : ∀ key, p key → key ≠ []) {f : Bytes → Entry → Bytes}
    (hf : ∀ s e, f s e = e.1 ∨ (f s e = s ∧ s ≠ [])) (entries : List Entry)
    (hkeys : ∀ e ∈ entries, p e.1) (s : Bytes) (hs : s ≠ [] → p s)
    (hsome : s ≠ [] ∨ entries ≠ []) : p (entries.foldl f s) := by
  induction entries generalizing s with
  | nil => exact hs (by simpa using hsome)
  | cons e entries ih =>
    have hkey : p (f s e) := by
      rcases hf s e with heq | ⟨heq, hne⟩
      · rw [heq]
        exact hkeys e List.mem_cons_self
      · rw [heq]
        exact hs hne
    exact ih (fun e he => hkeys e (List.mem_cons_of_mem _ he)) _ (fun _ => hkey)
      (Or.inl (hp _ hkey))

theorem wordBounds_rebuilt (id : ℕ) (path : Bytes) {data : Entries} (hne : data.entries ≠ [])
    (hkept : ∀ e ∈ data.entries, Kept e) : WordBounds (rebuiltMetadata id path data) := by
  have hwords : ∀ e ∈ data.entries, IsWord e.1 := fun e he => (hkept e he).1
  constructor
  · refine foldl_kept (fun key hkey => hkey.1) (fun s e => ?_) data.entries hwords [] (by simp)
      (Or.inr hne)
    split
    · exact Or.inl rfl
    · next h => exact Or.inr ⟨rfl, fun hs => h (Or.inl hs)⟩
  · refine foldl_kept (fun key hkey => hkey.1) (fun s e => ?_) data.entries hwords [] (by simp)
      (Or.inr hne)
    split
    · exact Or.inl rfl
    · next h => exact Or.inr ⟨rfl, fun hs => h (Or.inl hs)⟩

/-- Running through keys and keeping the least, or the greatest: no key is beyond it. -/
theorem foldl_bound {r : Bytes → Bytes → Prop} (htrans : ∀ a b c, r a b → r b c → r a c)
    (hrefl : ∀ a, r a a) {f : Bytes → Entry → Bytes}
    (hf : ∀ s e, r (f s e) e.1 ∧ (s ≠ [] → r (f s e) s)) (hne : ∀ s e, e.1 ≠ [] → f s e ≠ [])
    (entries : List Entry) (hwords : ∀ e ∈ entries, e.1 ≠ []) (s : Bytes) :
    (s ≠ [] → r (entries.foldl f s) s) ∧ ∀ e ∈ entries, r (entries.foldl f s) e.1 := by
  induction entries generalizing s with
  | nil => exact ⟨fun _ => hrefl s, by simp⟩
  | cons e entries ih =>
    have hnext : f s e ≠ [] := hne s e (hwords e List.mem_cons_self)
    obtain ⟨hstart, hrest⟩ := ih (fun e he => hwords e (List.mem_cons_of_mem _ he)) (f s e)
    refine ⟨fun hs => htrans _ _ _ (hstart hnext) ((hf s e).2 hs), fun e' he' => ?_⟩
    rcases List.mem_cons.mp he' with rfl | he'
    · exact htrans _ _ _ (hstart hnext) (hf s e').1
    · exact hrest e' he'

theorem smallest_scanned {entries : List Entry} (hkeys : ∀ e ∈ entries, e.1 ≠ []) {e : Entry}
    (he : e ∈ entries) :
    entries.foldl (fun s e => if s = [] ∨ e.1 < s then e.1 else s) [] ≤ e.1 := by
  refine (foldl_bound (r := fun a b => a ≤ b) (fun _ _ _ => le_trans) le_refl (fun s e => ?_)
    (fun s e hkey => ?_) entries hkeys []).2 e he
  · split
    · next h =>
      exact ⟨le_rfl, fun hs => (h.resolve_left hs).le⟩
    · next h =>
      rw [not_or, not_lt] at h
      exact ⟨h.2, fun _ => le_rfl⟩
  · split
    · exact hkey
    · next h => exact (not_or.mp h).1

theorem largest_scanned {entries : List Entry} (hkeys : ∀ e ∈ entries, e.1 ≠ []) {e : Entry}
    (he : e ∈ entries) :
    e.1 ≤ entries.foldl (fun s e => if s = [] ∨ s < e.1 then e.1 else s) [] := by
  refine (foldl_bound (r := fun a b => b ≤ a) (fun _ _ _ hab hbc => hbc.trans hab) le_refl
    (fun s e => ?_) (fun s e hkey => ?_) entries hkeys []).2 e he
  · split
    · next h =>
      exact ⟨le_rfl, fun hs => (h.resolve_left hs).le⟩
    · next h =>
      rw [not_or, not_lt] at h
      exact ⟨h.2, fun _ => le_rfl⟩
  · split
    · exact hkey
    · next h => exact (not_or.mp h).1

theorem covers_rebuilt (id : ℕ) {path : Bytes} {data : Entries} (hload : loadResult d path = .ok data)
    (hne : data.entries ≠ []) (hkept : ∀ e ∈ data.entries, Kept e) :
    Covers d (rebuiltMetadata id path data) := by
  intro found hfound e he
  change loadResult d path = .ok found at hfound
  rw [hload] at hfound
  obtain rfl := Except.ok.inj hfound
  have hkeys : ∀ e ∈ data.entries, e.1 ≠ [] := fun e he => (hkept e he).1.1
  exact ⟨(List.length_pos_of_ne_nil hne).ne', smallest_scanned hkeys he, largest_scanned hkeys he⟩

theorem foldl_max (ids : List ℕ) (start : ℕ) :
    start ≤ ids.foldl max start ∧ (∀ id ∈ ids, id ≤ ids.foldl max start) ∧
      ∀ bound, start ≤ bound → (∀ id ∈ ids, id ≤ bound) → ids.foldl max start ≤ bound := by
  induction ids generalizing start with
  | nil => exact ⟨le_rfl, by simp, fun bound h _ => h⟩
  | cons id ids ih =>
    obtain ⟨hstart, hids, hbound⟩ := ih (max start id)
    refine ⟨(le_max_left _ _).trans hstart, ?_, ?_⟩
    · intro id' hid'
      rcases List.mem_cons.mp hid' with rfl | hid'
      · exact (le_max_right _ _).trans hstart
      · exact hids id' hid'
    · intro bound h hall
      exact hbound bound (max_le h (hall id List.mem_cons_self))
        (fun id' h' => hall id' (List.mem_cons_of_mem _ h'))

theorem numbered_rebuilt (hname : m.filename = l.manifestFilename) (h : Filed l created d)
    (hroom : created + 1 < 2 ^ 64) {directory : Bytes}
    (hsub : (tables.map SSTableMetadata.filename).Sublist ((listDirectory d directory).map Prod.fst))
    (hmade : ∀ t ∈ tables, Rebuilt d (listDirectory d directory) t) :
    Numbered l created (m.rebuilt tables) := by
  have hplaced : ∀ t ∈ tables, t.filename = l.tableFilename t.id ∧ t.id ≤ created :=
    fun t ht => h.rebuilt hroom (hmade t ht)
  obtain ⟨-, hle, hbound⟩ := foldl_max (tables.map SSTableMetadata.id) 0
  have hmax : (tables.map SSTableMetadata.id).foldl max 0 ≤ created := by
    refine hbound created (Nat.zero_le _) (fun id hid => ?_)
    obtain ⟨t, ht, rfl⟩ := List.mem_map.mp hid
    exact (hplaced t ht).2
  have hnext : (m.rebuilt tables).nextTableId = (tables.map SSTableMetadata.id).foldl max 0 + 1 := by
    have hmod : ((tables.map SSTableMetadata.id).foldl max 0 + 1) % 2 ^ 64 =
        (tables.map SSTableMetadata.id).foldl max 0 + 1 := Nat.mod_eq_of_lt (by omega)
    rw [Manifest.rebuilt]
    simp only [hmod]
    rw [if_neg (Nat.succ_ne_zero _)]
  refine ⟨hname, fun t ht => (hplaced t (mem_rebuilt.mp ht)).1, ?_, ?_, ?_, ?_⟩
  · intro t ht
    obtain ⟨data, hload, hne, hdata⟩ := (hmade t (mem_rebuilt.mp ht)).made
    rw [(hplaced t (mem_rebuilt.mp ht)).1] at hload
    rw [hdata]
    exact Or.inl (wordBounds_rebuilt _ _ hne (h.kept t.id data hload))
  · -- distinct names are distinct ids
    have hnames : (tables.map SSTableMetadata.filename).Nodup :=
      (nodup_listDirectory d directory).sublist hsub
    have hids : tables.Pairwise (fun a b => a.id ≠ b.id) := by
      refine (List.pairwise_map.mp hnames).imp_of_mem (fun {a b} ha hb hne heq => hne ?_)
      rw [(hplaced a ha).1, (hplaced b hb).1, heq]
    have hsorted : (m.rebuilt tables).tables.Pairwise (fun a b => a.id ≤ b.id) :=
      List.pairwise_insertionSort _ _
    have hdistinct : (m.rebuilt tables).tables.Pairwise (fun a b => a.id ≠ b.id) :=
      ((List.perm_insertionSort _ _).pairwise_iff (fun hab => hab.symm)).mpr hids
    exact hsorted.imp₂ (fun a b hle hne => lt_of_le_of_ne hle hne) hdistinct
  · intro t ht
    rw [hnext]
    exact Nat.lt_succ_of_le (hle t.id (List.mem_map_of_mem (mem_rebuilt.mp ht)))
  · rw [hnext]
    omega

end Rebuilding

end ForgeDB.TableIds
