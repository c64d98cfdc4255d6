import ForgeDB.StorageEngine

/-!
# What a list of tables shows

Next to the list in memory stands the list of the maps its files were written from.
Reading the tables, newest first or all of them oldest first, is then reading layered
maps.
-/

namespace ForgeDB
open CrashPrograms CrashPrograms.Io LayeredMaps SSTables TextStreams

/-- A log file name, apart from the other files of its data directory. -/
structure Layout where
  walFilename : Bytes
  ne_manifest : walFilename ≠ Storage.manifestFilename walFilename
  ne_temporary : walFilename ≠ Storage.manifestFilename walFilename ++ text ".tmp"
  ne_table : ∀ id, walFilename ≠ Storage.tableFilename walFilename id

namespace Layout

private theorem ne_of_getLast {p q : Bytes} {a b : Byte} (hp : p.getLast? = some a)
    (hq : q.getLast? = some b) (hab : a ≠ b) : p ≠ q := by
  intro h
  rw [h, hq] at hp
  exact hab (Option.some.inj hp).symm

private theorem getLast_manifest (w : Bytes) :
    (Storage.manifestFilename w).getLast? = some 84 := by
  rw [Storage.manifestFilename, FilePaths.joinPath_eq, List.getLast?_append]
  rfl

private theorem getLast_temporary (w : Bytes) :
    (Storage.manifestFilename w ++ text ".tmp").getLast? = some 112 := by
  rw [List.getLast?_append]
  rfl

private theorem getLast_table (w : Bytes) (id : ℕ) :
    (Storage.tableFilename w id).getLast? = some 116 := by
  rw [Storage.tableFilename, List.getLast?_append]
  rfl

theorem manifest_ne_table (w : Bytes) (id : ℕ) :
    Storage.manifestFilename w ≠ Storage.tableFilename w id :=
  ne_of_getLast (getLast_manifest w) (getLast_table w id) (by decide)

theorem temporary_ne_table (w : Bytes) (id : ℕ) :
    Storage.manifestFilename w ++ text ".tmp" ≠ Storage.tableFilename w id :=
  ne_of_getLast (getLast_temporary w) (getLast_table w id) (by decide)

/-- The layout every caller uses: the log is `wal/active.log` in the data directory. -/
def ofDirectory (directory : Bytes) : Layout where
  walFilename := directory ++ text "/wal/active.log"
  ne_manifest := ne_of_getLast (by rw [List.getLast?_append]; rfl) (getLast_manifest _)
    (by decide : (103 : Byte) ≠ 84)
  ne_temporary := ne_of_getLast (by rw [List.getLast?_append]; rfl) (getLast_temporary _)
    (by decide : (103 : Byte) ≠ 112)
  ne_table id := ne_of_getLast (by rw [List.getLast?_append]; rfl) (getLast_table _ id)
    (by decide : (103 : Byte) ≠ 116)

def manifestFilename (l : Layout) : Bytes := Storage.manifestFilename l.walFilename

def tableFilename (l : Layout) (id : ℕ) : Bytes := Storage.tableFilename l.walFilename id

theorem wal_ne_table (l : Layout) (id : ℕ) : l.walFilename ≠ l.tableFilename id := l.ne_table id

theorem wal_ne_manifest (l : Layout) : l.walFilename ≠ l.manifestFilename := l.ne_manifest

theorem table_notMem_paths (l : Layout) {m : Manifest} (hm : m.filename = l.manifestFilename)
    (id : ℕ) : l.tableFilename id ∉ m.paths := by
  rw [Manifest.paths, Manifest.temporary, hm]
  intro hmem
  rcases List.mem_pair.mp hmem with he | he
  · exact manifest_ne_table l.walFilename id he.symm
  · exact temporary_ne_table l.walFilename id he.symm

theorem wal_notMem_paths (l : Layout) {m : Manifest} (hm : m.filename = l.manifestFilename) :
    l.walFilename ∉ m.paths := by
  rw [Manifest.paths, Manifest.temporary, hm]
  intro hmem
  rcases List.mem_pair.mp hmem with he | he
  · exact l.ne_manifest he
  · exact l.ne_temporary he

/-- A path that ends like a table file is neither the list nor its temporary file. -/
theorem notMem_paths_of_getLast (l : Layout) {m : Manifest} (hm : m.filename = l.manifestFilename)
    {p : Bytes} (hlast : p.getLast? = some 116) : p ∉ m.paths := by
  rw [Manifest.paths, Manifest.temporary, hm]
  intro hmem
  rcases List.mem_pair.mp hmem with he | he
  · exact ne_of_getLast hlast (getLast_manifest l.walFilename) (by decide) he
  · exact ne_of_getLast hlast (getLast_temporary l.walFilename) (by decide) he

theorem sst_notMem_paths (l : Layout) {m : Manifest} (hm : m.filename = l.manifestFilename)
    {p : Bytes} (hp : FilePaths.extension (FilePaths.filenamePart p) = text ".sst") :
    p ∉ m.paths := by
  obtain ⟨front, rfl⟩ := FilePaths.suffix_of_extension hp (by decide)
  apply l.notMem_paths_of_getLast hm
  rw [List.getLast?_append]
  rfl

theorem tableFilename_injective (l : Layout) : Function.Injective l.tableFilename := by
  intro a b h
  simp only [tableFilename, Storage.tableFilename, List.append_assoc, List.append_cancel_left_eq]
    at h
  exact decimal_injective (List.append_cancel_right h)

/-- The path of the log, and so every path of the directory, is free of white space. -/
def Plain (l : Layout) : Prop := ∀ b ∈ l.walFilename, isSpace b = false

instance (l : Layout) : Decidable l.Plain := inferInstanceAs (Decidable (∀ b ∈ l.walFilename, _))

theorem isWord_tableFilename {l : Layout} (h : l.Plain) (id : ℕ) : IsWord (l.tableFilename id) := by
  have htext : ∀ b ∈ text "/table_" ++ text ".sst" ++ text "data" ++ text "/tables",
      isSpace b = false := by decide +kernel
  have hdata : ∀ b ∈ Storage.dataDirectory l.walFilename, isSpace b = false := by
    intro b hb
    simp only [Storage.dataDirectory] at hb
    split at hb
    · exact htext b (by simp [hb])
    · exact h b (FilePaths.mem_of_mem_parentPath (FilePaths.mem_of_mem_parentPath hb))
  refine ⟨by simp [tableFilename, Storage.tableFilename, text], ?_⟩
  intro b hb
  simp only [tableFilename, Storage.tableFilename, Storage.tablesDirectory, List.mem_append] at hb
  rcases hb with ((hb | hb) | hb) | hb
  · have hb' : b ∈ Storage.dataDirectory l.walFilename ∨ b ∈ text "/tables" := by
      rw [FilePaths.joinPath] at hb
      split at hb
      · rcases List.mem_append.mp hb with hb | hb
        · exact Or.inl hb
        · exact Or.inr (List.mem_cons_of_mem _ hb)
      · rcases List.mem_append.mp hb with hb | hb
        · exact Or.inl hb
        · exact Or.inr hb
    rcases hb' with hb | hb
    · exact hdata b hb
    · exact htext b (by simp [hb])
  · exact htext b (by simp [hb])
  · exact isSpace_of_isDigit (isDigit_of_mem_decimal hb)
  · exact htext b (by simp [hb])

end Layout

/-- The table's file and its metadata were written from the map `m`. -/
structure Holds (d : Disk) (table : SSTableMetadata) (m : Entries) : Prop where
  storable : Storable m
  metadata : table = metadataOf table.id table.filename m
  file : d.lookup table.filename = some (.regular (tableContents m))

theorem Holds.of_same {d d' : Disk} {table : SSTableMetadata} {m : Entries} (h : Holds d table m)
    (hsame : d'.lookup table.filename = d.lookup table.filename) : Holds d' table m :=
  ⟨h.storable, h.metadata, hsame.trans h.file⟩

section Reading

variable {d : Disk} {tables : List SSTableMetadata} {ms : List Entries}

theorem exists_holds (h : List.Forall₂ (Holds d) tables ms) {t : SSTableMetadata}
    (ht : t ∈ tables) : ∃ m ∈ ms, Holds d t m := by
  induction h with
  | nil => cases ht
  | @cons table m _ _ hfirst _ ih =>
    rcases List.mem_cons.mp ht with rfl | ht
    · exact ⟨m, List.mem_cons_self, hfirst⟩
    · obtain ⟨m', hm', hh⟩ := ih ht
      exact ⟨m', List.mem_cons_of_mem _ hm', hh⟩

theorem storable_of_mem (h : List.Forall₂ (Holds d) tables ms) {m : Entries} (hm : m ∈ ms) :
    Storable m := by
  induction h with
  | nil => cases hm
  | cons hfirst _ ih =>
    rcases List.mem_cons.mp hm with rfl | hm
    · exact hfirst.storable
    · exact ih hm

/-- Loading all tables changes no file, and a property of all that they hold is one of the
result. -/
theorem loadTables_forall {p : Entry → Prop} {d : Disk} {tables : List SSTableMetadata}
    {base : Entries} (hbase : ∀ e ∈ base.entries, p e) (htables : ∀ t ∈ tables, ∀ found,
      loadResult d t.filename = .ok found → ∀ e ∈ found.entries, p e) :
    Ensures (Storage.loadTables tables base) d
      (fun r d' => d' = d ∧ ∀ data, r = .ok data → ∀ e ∈ data.entries, p e) (fun d' => d' = d) := by
  induction tables generalizing base with
  | nil => exact .pure ⟨rfl, fun data hdata => Except.ok.inj hdata ▸ hbase⟩
  | cons table tables ih =>
    rw [Storage.loadTables]
    refine (load_reads d table).bind ?_
    rintro r d' ⟨rfl, hread⟩
    cases r with
    | error e => exact .pure ⟨rfl, by simp⟩
    | ok found =>
      exact ih (forall_mem_overwrite hbase (htables table List.mem_cons_self found (hread found rfl)))
        (fun t ht => htables t (List.mem_cons_of_mem _ ht))

theorem loadTables_total (d : Disk) (tables : List SSTableMetadata) (base : Entries) :
    ∃ r, Succeeds (Storage.loadTables tables base) d r d := by
  induction tables generalizing base with
  | nil => exact ⟨.ok base, .pure⟩
  | cons table tables ih =>
    have hload := load_eq d table
    cases hr : loadResult d table.filename with
    | error e =>
      rw [hr] at hload
      exact ⟨.error e, hload.bind .pure⟩
    | ok data =>
      rw [hr] at hload
      obtain ⟨r, hrest⟩ := ih (overwrite base data)
      exact ⟨r, hload.bind hrest⟩

theorem getFrom_succeeds (h : List.Forall₂ (Holds d) tables ms) (key : Bytes) :
    Succeeds (Storage.getFrom key tables) d
      (.ok ((ms.findSome? (fun m => m.lookup key)).map MemTableEntry.reported)) d := by
  induction h with
  | nil => exact .pure
  | @cons table m _ _ hfirst _ ih =>
    have hget := get_succeeds table.id hfirst.storable hfirst.file key
    rw [← hfirst.metadata] at hget
    rw [Storage.getFrom, List.findSome?_cons]
    cases hk : m.lookup key with
    | none =>
      rw [hk] at hget
      exact hget.bind ih
    | some e =>
      rw [hk] at hget
      exact hget.bind .pure

/-- Newest-first search finds what the newest layer with the key says. -/
theorem getFrom_reads (d : Disk) (tables : List SSTableMetadata) (key : Bytes) :
    Ensures (Storage.getFrom key tables) d (fun _ d' => d' = d) (fun d' => d' = d) := by
  induction tables with
  | nil => exact .pure rfl
  | cons table tables ih =>
    rw [Storage.getFrom]
    refine (get_reads d table key).bind ?_
    rintro r d' rfl
    rcases r with e | _ | entry
    · exact .pure rfl
    · exact ih
    · exact .pure rfl

theorem getFrom_reverse_succeeds (h : List.Forall₂ (Holds d) tables ms) (key : Bytes) :
    Succeeds (Storage.getFrom key tables.reverse) d
      (.ok ((newest ms key).map MemTableEntry.reported)) d :=
  getFrom_succeeds (List.rel_reverse h) key

/-- Loading all tables writes them over each other, oldest first. -/
theorem loadTables_succeeds (h : List.Forall₂ (Holds d) tables ms) (base : Entries) :
    Succeeds (Storage.loadTables tables base) d (.ok ((ms.map loadedEntries).foldl overwrite base))
      d := by
  induction h generalizing base with
  | nil => exact .pure
  | cons hfirst _ ih =>
    rw [Storage.loadTables]
    exact (load_succeeds hfirst.storable hfirst.file).bind (ih _)

theorem loadTables_ensures (h : List.Forall₂ (Holds d) tables ms) (base : Entries) :
    Ensures (Storage.loadTables tables base) d
      (fun r d' => (r = .ok ((ms.map loadedEntries).foldl overwrite base) ∨ ∃ e, r = .error e) ∧
        d' = d)
      (fun d' => d' = d) := by
  induction h generalizing base with
  | nil => exact .pure ⟨Or.inl rfl, rfl⟩
  | cons hfirst _ ih =>
    rw [Storage.loadTables]
    refine (load_ensures hfirst.storable hfirst.file).bind ?_
    intro r d' hr
    obtain ⟨rfl | ⟨e, rfl⟩, rfl⟩ := hr
    · exact ih _
    · exact .pure ⟨Or.inr ⟨e, rfl⟩, rfl⟩

theorem newest_loadedEntries (ms : List Entries) (key : Bytes) :
    newest (ms.map loadedEntries) key = newest ms key := by
  induction ms using List.reverseRecOn with
  | nil => rfl
  | append_singleton ms m ih =>
    rw [List.map_append, List.map_singleton, newest_append_singleton, newest_append_singleton, ih,
      lookup_loadedEntries]

theorem lookup_loadTables (ms : List Entries) (key : Bytes) :
    ((ms.map loadedEntries).foldl overwrite ∅).lookup key = newest ms key :=
  (lookup_mergeLayers _ key).trans (newest_loadedEntries ms key)

end Reading
end ForgeDB
