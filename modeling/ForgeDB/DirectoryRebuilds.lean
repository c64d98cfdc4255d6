import ForgeDB.ReadPaths
import ForgeDB.TableTracking

/-!
# The table list from the files alone

A rebuild iterates over the directory in whatever order the file system has, and over
each loaded map in whatever order the hash map has. The list that it makes depends on
neither: it is what the writers of the tables returned, by id. Files that are not
complete tables under a table's name, and tables without entries, are passed over.
-/

namespace ForgeDB.DirectoryRebuilds
open CrashPrograms CrashPrograms.Io Manifest ReadPaths SSTables TableFiles TableIds TextStreams

/-- The range of a table from its entries in the order in which they are visited; an empty bound
counts as not set yet. -/
def scannedMetadata (id : ℕ) (path : Bytes) (entries : List Entry) : SSTableMetadata where
  id := id
  filename := path
  smallestKey := entries.foldl (fun s e => if s = [] ∨ e.1 < s then e.1 else s) []
  largestKey := entries.foldl (fun s e => if s = [] ∨ s < e.1 then e.1 else s) []
  entryCount := entries.length

section Visiting

variable (visit : Entries → List Entry)

/-- The iteration over the directory, for any order in which a loaded map is visited. -/
def rebuildTablesBy : List (Bytes × Node) → Io (List SSTableMetadata)
  | [] => return []
  | (path, node) :: rest => do
    match tableIdOf path node with
    | none => rebuildTablesBy rest
    | some id =>
      match ← SSTables.load ⟨id, path, [], [], 0⟩ with
      | .error _ => rebuildTablesBy rest
      | .ok data =>
        if data.entries = [] then rebuildTablesBy rest
        else
          let tables ← rebuildTablesBy rest
          return scannedMetadata id path (visit data) :: tables

def rebuildFromDirectoryBy (m : Manifest) (tablesDirectory : Bytes) :
    Io (Except Bytes Unit × Manifest) := do
  let listed ← consult
  if !listed then
    return (.error (text "Failed to rebuild MANIFEST: "), m)
  let d ← getDisk
  let tables ← rebuildTablesBy visit (listDirectory d tablesDirectory)
  return (← (m.rebuilt tables).persist, m.rebuilt tables)

theorem rebuildTablesBy_entries (files : List (Bytes × Node)) :
    rebuildTablesBy AList.entries files = rebuildTables files := by
  induction files with
  | nil => rfl
  | cons file files ih =>
    rw [rebuildTablesBy, rebuildTables, ih]
    rfl

theorem rebuildFromDirectoryBy_entries (m : Manifest) (directory : Bytes) :
    rebuildFromDirectoryBy AList.entries m directory = m.rebuildFromDirectory directory := by
  simp only [rebuildFromDirectoryBy, rebuildFromDirectory, rebuildTablesBy_entries]
  rfl

/-- What one file of the directory adds to the list. -/
def foundTable (d : Disk) (file : Bytes × Node) : Option SSTableMetadata :=
  match tableIdOf file.1 file.2 with
  | none => none
  | some id =>
    match loadResult d file.1 with
    | .error _ => none
    | .ok data => if data.entries = [] then none else some (scannedMetadata id file.1 (visit data))

theorem rebuildTablesBy_succeeds (d : Disk) (files : List (Bytes × Node)) :
    Succeeds (rebuildTablesBy visit files) d (files.filterMap (foundTable visit d)) d := by
  induction files with
  | nil => rfl
  | cons file files ih =>
    obtain ⟨path, node⟩ := file
    rw [rebuildTablesBy, List.filterMap_cons]
    cases hid : tableIdOf path node with
    | none =>
      have hnone : foundTable visit d (path, node) = none := by rw [foundTable, hid]
      rw [hnone]
      exact ih
    | some id =>
      have hload := load_eq d ⟨id, path, [], [], 0⟩
      cases hr : loadResult d path with
      | error e =>
        have hnone : foundTable visit d (path, node) = none := by
          simp only [foundTable, hid, hr]
        rw [hr] at hload
        rw [hnone]
        exact hload.bind ih
      | ok data =>
        rw [hr] at hload
        by_cases hempty : data.entries = []
        · have hnone : foundTable visit d (path, node) = none := by
            simp only [foundTable, hid, hr, if_pos hempty]
          rw [hnone]
          refine hload.bind ?_
          simp only [if_pos hempty]
          exact ih
        · have hsome : foundTable visit d (path, node) =
              some (scannedMetadata id path (visit data)) := by
            simp only [foundTable, hid, hr, if_neg hempty]
          rw [hsome]
          refine hload.bind ?_
          simp only [if_neg hempty]
          exact ih.bind .pure

theorem rebuildFromDirectoryBy_succeeds (m : Manifest) (directory : Bytes) (d : Disk) :
    ∃ d', Succeeds (rebuildFromDirectoryBy visit m directory) d
        (.ok (), m.rebuilt ((listDirectory d directory).filterMap (foundTable visit d))) d' ∧
      d'.lookup m.filename = some (.regular (m.rebuilt
        ((listDirectory d directory).filterMap (foundTable visit d))).manifestText) := by
  obtain ⟨d', hpersist, hfile, -⟩ := persist_succeeds
    (m.rebuilt ((listDirectory d directory).filterMap (foundTable visit d))) d
  exact ⟨d', Succeeds.consult.bind (Succeeds.getDisk.bind
    ((rebuildTablesBy_succeeds visit d _).bind (hpersist.bind .pure))), hfile⟩

end Visiting

section Ranges

variable {data : Entries} {entries : List Entry}

theorem perm_loadedEntries (data : Entries) : (loadedEntries data).entries.Perm data.entries := by
  refine List.lookup_ext (loadedEntries data).nodupKeys data.nodupKeys (fun key entry => ?_)
  change entry ∈ (loadedEntries data).lookup key ↔ entry ∈ data.lookup key
  rw [lookup_loadedEntries]

private theorem keeps_keys (hkeys : ∀ e ∈ data.entries, e.1 ≠ []) :
    ∀ e ∈ data.entries, e.1 ≠ [] ∧ e.1 ∈ data := by
  intro e he
  exact ⟨hkeys e he, AList.mem_keys.mpr (List.mem_map_of_mem he)⟩

/-- Whatever the order of the visit, the scan finds what the writer took from the sorted
entries: the least and the greatest key are unique. -/
theorem scannedMetadata_eq (id : ℕ) (path : Bytes) (hne : data.entries ≠ [])
    (hkeys : ∀ e ∈ data.entries, e.1 ≠ []) (hperm : entries.Perm data.entries) :
    scannedMetadata id path entries = metadataOf id path data := by
  have hsome : entries ≠ [] := fun h => hne (List.nil_perm.mp (h ▸ hperm))
  have hnonempty : ∀ e ∈ entries, e.1 ≠ [] := fun e he => hkeys e (hperm.mem_iff.mp he)
  have hkept : ∀ e ∈ entries, e.1 ≠ [] ∧ e.1 ∈ data :=
    fun e he => keeps_keys hkeys e (hperm.mem_iff.mp he)
  have hentry : ∀ key ∈ data, ∃ e ∈ entries, e.1 = key := by
    intro key hkey
    obtain ⟨e, he, rfl⟩ := List.mem_map.mp (AList.mem_keys.mp hkey)
    exact ⟨e, hperm.mem_iff.mpr he, rfl⟩
  have hleast : IsLeast {key | key ∈ data} (scannedMetadata id path entries).smallestKey := by
    constructor
    · refine (foldl_kept (p := fun key => key ≠ [] ∧ key ∈ data) (fun key hkey => hkey.1)
        (fun s e => ?_) entries hkept [] (fun h => absurd rfl h) (Or.inr hsome)).2
      split
      · exact Or.inl rfl
      · next h => exact Or.inr ⟨rfl, fun hs => h (Or.inl hs)⟩
    · intro key hkey
      obtain ⟨e, he, rfl⟩ := hentry key hkey
      exact smallest_scanned hnonempty he
  have hgreatest : IsGreatest {key | key ∈ data} (scannedMetadata id path entries).largestKey := by
    constructor
    · refine (foldl_kept (p := fun key => key ≠ [] ∧ key ∈ data) (fun key hkey => hkey.1)
        (fun s e => ?_) entries hkept [] (fun h => absurd rfl h) (Or.inr hsome)).2
      split
      · exact Or.inl rfl
      · next h => exact Or.inr ⟨rfl, fun hs => h (Or.inl hs)⟩
    · intro key hkey
      obtain ⟨e, he, rfl⟩ := hentry key hkey
      exact largest_scanned hnonempty he
  have hcount : entries.length = (sortEntries data).length := by
    rw [length_sortEntries, hperm.length_eq]
  have hsmallest := hleast.unique (isLeast_smallestKey id path hne)
  have hlargest := hgreatest.unique (isGreatest_largestKey id path hne)
  rw [scannedMetadata] at hsmallest hlargest ⊢
  rw [metadataOf] at hsmallest hlargest ⊢
  rw [SSTableMetadata.mk.injEq]
  exact ⟨rfl, rfl, hsmallest, hlargest, hcount⟩

end Ranges

section Files

variable {d : Disk} {t : SSTableMetadata}

/-- A table as `SSTable::write` has left it: entries under keys that are not empty, small enough
for their size fields, and the metadata of the call. -/
structure Written (walFilename : Bytes) (d : Disk) (t : SSTableMetadata) : Prop where
  id_lt : t.id < 2 ^ 64 - 1
  written : ∃ (data : Entries) (before after : Disk), data.entries ≠ [] ∧
    (∀ e ∈ data.entries, e.1 ≠ [] ∧ e.1.length < 2 ^ 32 ∧ e.2.value.length < 2 ^ 32) ∧
    data.entries.length < 2 ^ 64 ∧
    Succeeds (SSTables.write (Storage.tableFilename walFilename t.id) t.id data) before (.ok t) after ∧
    d.lookup (Storage.tableFilename walFilename t.id) =
      after.lookup (Storage.tableFilename walFilename t.id)

/-- What else may stand in the directory: directories, files under other names, the beginning
of a table, and tables without entries. -/
def PassedOver (path : Bytes) (node : Node) : Prop :=
  node = .directory ∨ FilePaths.extension (FilePaths.filenamePart path) ≠ text ".sst" ∨
    ¬ text "table_" <+: FilePaths.filenamePart path ∨
    (∃ (data : Entries) (contents : Bytes),
      (∀ e ∈ data.entries, e.1.length < 2 ^ 32 ∧ e.2.value.length < 2 ^ 32) ∧
      data.entries.length < 2 ^ 64 ∧ node = .regular contents ∧
      contents <+: tableContents data ∧ contents ≠ tableContents data) ∨
    ∃ data : Entries, data.entries = [] ∧ node = .regular (tableContents data)

theorem joinPath_tablesDirectory (walFilename name : Bytes) :
    FilePaths.joinPath (Storage.tablesDirectory walFilename) name =
      Storage.tablesDirectory walFilename ++ FilePaths.separator :: name := by
  have hlast : (Storage.tablesDirectory walFilename).getLast? = some 115 := by
    rw [Storage.tablesDirectory, FilePaths.joinPath_eq]
    simp [text]
  rw [FilePaths.joinPath, if_neg]
  rintro (hempty | hslash)
  · rw [hempty] at hlast
    cases hlast
  · rw [hlast] at hslash
    exact absurd (Option.some.inj hslash) (by decide)

theorem mem_listDirectory_table {walFilename : Bytes} {id : ℕ} {node : Node}
    (h : d.lookup (Storage.tableFilename walFilename id) = some node) :
    (Storage.tableFilename walFilename id, node) ∈
      listDirectory d (Storage.tablesDirectory walFilename) := by
  refine List.mem_filterMap.mpr ⟨⟨_, node⟩, AList.mem_lookup_iff.mp h, if_pos ?_⟩
  have hslash : text "/table_" = FilePaths.separator :: text "table_" := rfl
  rw [joinPath_tablesDirectory, filenamePart_table]
  simp [Storage.tableFilename, hslash]

theorem extension_table (id : ℕ) :
    FilePaths.extension (text "table_" ++ (decimal id ++ text ".sst")) = text ".sst" := by
  have hrev : (text "table_" ++ (decimal id ++ text ".sst")).reverse =
      (text "sst").reverse ++ FilePaths.dot :: (text "table_" ++ decimal id).reverse := by
    have hdot : text ".sst" = FilePaths.dot :: text "sst" := rfl
    rw [hdot]
    simp
  have htail : (text "table_" ++ (decimal id ++ text ".sst")).reverse.takeWhile
      (fun b => b != FilePaths.dot) = (text "sst").reverse := by
    rw [hrev, List.takeWhile_append_of_pos (by decide +kernel)]
    simp
  have hlen : (text "sst").length + 1 < (text "table_" ++ (decimal id ++ text ".sst")).length := by
    simp only [List.length_append]
    rw [show (text "table_").length = 6 from rfl, show (text "sst").length = 3 from rfl]
    omega
  simp only [FilePaths.extension, htail, List.reverse_reverse, if_pos hlen]
  rfl

theorem tableIdOf_table (walFilename : Bytes) {id : ℕ} (hid : id < 2 ^ 64) (contents : Bytes) :
    tableIdOf (Storage.tableFilename walFilename id) (.regular contents) = some id := by
  simp only [tableIdOf, filenamePart_table, extension_table]
  rw [if_neg (by simp), if_neg (by simp), if_neg (by simp), idText_table hid]

/-- The metadata of a written table, and the bytes of its file. -/
theorem Written.file {walFilename : Bytes} (h : Written walFilename d t) :
    ∃ data : Entries, data.entries ≠ [] ∧ (∀ e ∈ data.entries, e.1 ≠ []) ∧ Storable data ∧
      t = metadataOf t.id (Storage.tableFilename walFilename t.id) data ∧
      d.lookup (Storage.tableFilename walFilename t.id) = some (.regular (tableContents data)) := by
  obtain ⟨data, before, after, hne, hentries, hcount, hwrite, hfile⟩ := h.written
  obtain ⟨after', hwrite', hfile', -⟩ :=
    write_succeeds before (Storage.tableFilename walFilename t.id) t.id data
  obtain ⟨hresult, rfl⟩ := hwrite.unique hwrite'
  exact ⟨data, hne, fun e he => (hentries e he).1, ⟨fun e he => (hentries e he).2, hcount⟩,
    Except.ok.inj hresult, hfile.trans hfile'⟩

variable {visit : Entries → List Entry}

theorem foundTable_written {walFilename : Bytes} (hvisit : ∀ data, (visit data).Perm data.entries)
    (h : Written walFilename d t) :
    ∃ node, (t.filename, node) ∈ listDirectory d (Storage.tablesDirectory walFilename) ∧
      foundTable visit d (t.filename, node) = some t := by
  obtain ⟨data, hne, hkeys, hstorable, hmeta, hfile⟩ := h.file
  have hname : t.filename = Storage.tableFilename walFilename t.id := by
    rw [hmeta, metadataOf]
  have hid : t.id < 2 ^ 64 := lt_of_lt_of_le h.id_lt (Nat.sub_le _ _)
  have hload : loadResult d t.filename = .ok (loadedEntries data) := by
    rw [hname, loadResult_of_lookup hfile, parseTable_tableContents hstorable]
  have hperm := perm_loadedEntries data
  have hsome : (loadedEntries data).entries ≠ [] := fun hnil => hne (List.nil_perm.mp (hnil ▸ hperm))
  refine ⟨.regular (tableContents data), ?_, ?_⟩
  · rw [hname]
    exact mem_listDirectory_table hfile
  · have hscan := scannedMetadata_eq t.id t.filename hne hkeys ((hvisit (loadedEntries data)).trans hperm)
    have hidOf : tableIdOf t.filename (.regular (tableContents data)) = some t.id := by
      rw [hname]
      exact tableIdOf_table walFilename hid _
    simp only [foundTable, hidOf, hload, if_neg hsome, hscan]
    rw [hname, ← hmeta]

theorem foundTable_passedOver {path : Bytes} {node : Node} (hlookup : d.lookup path = some node)
    (h : PassedOver path node) : foundTable visit d (path, node) = none := by
  have hunnamed : tableIdOf path node = none → foundTable visit d (path, node) = none := by
    intro hid
    rw [foundTable, hid]
  have hunread : (∀ data, loadResult d path = .ok data → data.entries = []) →
      foundTable visit d (path, node) = none := by
    intro hempty
    rw [foundTable]
    cases tableIdOf path node with
    | none => rfl
    | some id =>
      cases hload : loadResult d path with
      | error e => rfl
      | ok data => simp only [if_pos (hempty data hload)]
  rcases h with rfl | hext | hprefix | ⟨data, contents, hsmall, hcount, rfl, hpart, hcut⟩ |
    ⟨data, hempty, rfl⟩
  · exact hunnamed (by simp [tableIdOf])
  · apply hunnamed
    simp only [tableIdOf, if_pos hext, ite_self]
  · apply hunnamed
    have hstart : (text "table_").isPrefixOf (FilePaths.filenamePart path) = false := by
      rw [Bool.eq_false_iff, ne_eq, List.isPrefixOf_iff_prefix]
      exact hprefix
    simp only [tableIdOf, hstart, if_true, ite_self]
  · obtain ⟨error, htorn⟩ := parseTable_torn ⟨hsmall, hcount⟩ hpart hcut
    apply hunread
    intro found hload
    rw [loadResult_of_lookup hlookup, htorn] at hload
    cases hload
  · have hstorable : Storable data := ⟨by simp [hempty], by simp [hempty]⟩
    apply hunread
    intro found hload
    rw [loadResult_of_lookup hlookup, parseTable_tableContents hstorable] at hload
    rw [← Except.ok.inj hload]
    exact List.perm_nil.mp (hempty ▸ perm_loadedEntries data)

theorem filename_of_foundTable {file : Bytes × Node} (h : foundTable visit d file = some t) :
    t.filename = file.1 := by
  rw [foundTable] at h
  cases hid : tableIdOf file.1 file.2 with
  | none => simp only [hid, reduceCtorEq] at h
  | some id =>
    cases hload : loadResult d file.1 with
    | error e => simp only [hid, hload, reduceCtorEq] at h
    | ok data =>
      simp only [hid, hload] at h
      split at h
      · cases h
      · cases h
        rfl

/-- The iteration finds exactly the written tables, each once. -/
theorem perm_foundTables {walFilename : Bytes} {tables : List SSTableMetadata}
    (hvisit : ∀ data, (visit data).Perm data.entries)
    (hids : tables.Pairwise (fun a b => a.id < b.id)) (hwritten : ∀ t ∈ tables, Written walFilename d t)
    (hothers : ∀ path node, (path, node) ∈ listDirectory d (Storage.tablesDirectory walFilename) →
      (∃ t ∈ tables, path = t.filename) ∨ PassedOver path node) :
    ((listDirectory d (Storage.tablesDirectory walFilename)).filterMap (foundTable visit d)).Perm
      tables := by
  have hnames := List.pairwise_map.mp (nodup_listDirectory d (Storage.tablesDirectory walFilename))
  have hfound : ((listDirectory d (Storage.tablesDirectory walFilename)).filterMap
      (foundTable visit d)).Nodup := by
    refine hnames.filterMap _ (fun a b hne t ht t' ht' heq => hne ?_)
    rw [← filename_of_foundTable ht, ← filename_of_foundTable ht', heq]
  have hnodup : tables.Nodup := hids.imp (fun hlt heq => absurd (congrArg SSTableMetadata.id heq) hlt.ne)
  rw [List.perm_ext_iff_of_nodup hfound hnodup]
  intro t
  rw [List.mem_filterMap]
  constructor
  · rintro ⟨⟨path, node⟩, hfile, ht⟩
    rcases hothers path node hfile with ⟨t', ht', hpath⟩ | hpassed
    · -- the file of a written table holds what was found in it
      obtain ⟨node', hfile', hfound'⟩ := foundTable_written hvisit (hwritten t' ht')
      have hnode : some node = some node' := by
        rw [← lookup_of_listDirectory hfile, hpath, lookup_of_listDirectory hfile']
      rw [hpath, Option.some.inj hnode, hfound'] at ht
      exact Option.some.inj ht ▸ ht'
    · rw [foundTable_passedOver (lookup_of_listDirectory hfile) hpassed] at ht
      cases ht
  · intro ht
    obtain ⟨node, hfile, hfound⟩ := foundTable_written hvisit (hwritten t ht)
    exact ⟨_, hfile, hfound⟩

end Files

section Lists

variable {tables found : List SSTableMetadata}

theorem rebuilt_tables (m : Manifest) (hids : tables.Pairwise (fun a b => a.id < b.id))
    (hperm : found.Perm tables) : (m.rebuilt found).tables = tables := by
  have hsorted : (m.rebuilt found).tables.Pairwise (fun a b => a.id ≤ b.id) :=
    List.pairwise_insertionSort _ _
  have hsame : (m.rebuilt found).tables.Perm tables := (List.perm_insertionSort _ _).trans hperm
  have hdistinct : (tables.map SSTableMetadata.id).Nodup :=
    List.pairwise_map.mpr (hids.imp (fun hlt => hlt.ne))
  refine hsame.eq_of_pairwise ?_ hsorted (hids.imp le_of_lt)
  intro a b ha hb hab hba
  exact List.inj_on_of_nodup_map hdistinct (hsame.mem_iff.mp ha) hb (le_antisymm hab hba)

theorem rebuilt_nextTableId (m : Manifest) (hids : tables.Pairwise (fun a b => a.id < b.id))
    (hlt : ∀ t ∈ tables, t.id < 2 ^ 64 - 1) (hperm : found.Perm tables) :
    (m.rebuilt found).nextTableId = (tables.getLast?.map (fun t => t.id + 1)).getD 1 := by
  obtain ⟨-, hle, hbound⟩ := foldl_max (found.map SSTableMetadata.id) 0
  have hgreatest : (found.map SSTableMetadata.id).foldl max 0 + 1 =
      (tables.getLast?.map (fun t => t.id + 1)).getD 1 := by
    rcases List.eq_nil_or_concat' tables with rfl | ⟨front, last, rfl⟩
    · rw [List.perm_nil.mp hperm]
      rfl
    · have hlast : last.id ≤ (found.map SSTableMetadata.id).foldl max 0 :=
        hle last.id (List.mem_map_of_mem (hperm.mem_iff.mpr (by simp)))
      have hall : (found.map SSTableMetadata.id).foldl max 0 ≤ last.id := by
        refine hbound last.id (Nat.zero_le _) (fun id hid => ?_)
        obtain ⟨t, ht, rfl⟩ := List.mem_map.mp hid
        rcases List.mem_append.mp (hperm.mem_iff.mp ht) with ht | ht
        · exact ((List.pairwise_append.mp hids).2.2 t ht last (by simp)).le
        · rw [List.mem_singleton.mp ht]
      simp [le_antisymm hall hlast]
  have hroom : (tables.getLast?.map (fun t => t.id + 1)).getD 1 < 2 ^ 64 := by
    cases hlast : tables.getLast? with
    | none => exact (by omega : 1 < 2 ^ 64)
    | some t =>
      have ht := hlt t (List.mem_of_getLast? hlast)
      simp only [Option.map_some, Option.getD_some]
      omega
  have hpos : (tables.getLast?.map (fun t => t.id + 1)).getD 1 ≠ 0 := by
    rw [← hgreatest]
    exact Nat.succ_ne_zero _
  simp only [Manifest.rebuilt, hgreatest, Nat.mod_eq_of_lt hroom, if_neg hpos]

end Lists

/-- The list that a rebuild makes of written tables and files that are passed over. A disk is its
paths in any order, so this is for every order of the directory iteration. -/
theorem rebuild_restores_list (walFilename : Bytes) (m : Manifest) (d : Disk)
    (tables : List SSTableMetadata) (visit : Entries → List Entry)
    (hvisit : ∀ data, (visit data).Perm data.entries)
    (hids : tables.Pairwise (fun a b => a.id < b.id)) (hwritten : ∀ t ∈ tables, Written walFilename d t)
    (hothers : ∀ path node, (path, node) ∈ listDirectory d (Storage.tablesDirectory walFilename) →
      (∃ t ∈ tables, path = t.filename) ∨ PassedOver path node) :
    ∃ m' d', Succeeds (rebuildFromDirectoryBy visit m (Storage.tablesDirectory walFilename)) d
        (.ok (), m') d' ∧
      m'.tables = tables ∧ m'.nextTableId = (tables.getLast?.map (fun t => t.id + 1)).getD 1 ∧
      d'.lookup m.filename = some (.regular m'.manifestText) := by
  have hperm := perm_foundTables hvisit hids hwritten hothers
  obtain ⟨d', hrun, hfile⟩ :=
    rebuildFromDirectoryBy_succeeds visit m (Storage.tablesDirectory walFilename) d
  exact ⟨_, d', hrun, rebuilt_tables m hids hperm,
    rebuilt_nextTableId m hids (fun t ht => (hwritten t ht).id_lt) hperm, hfile⟩

def sampleLog : Bytes := text "d/wal/active.log"

def sampleEntry (key : Bytes) : Entries := AList.singleton key ⟨text "x", false⟩

def sampleTable (id : ℕ) (key : Bytes) : SSTableMetadata :=
  metadataOf id (Storage.tableFilename sampleLog id) (sampleEntry key)

/-- Two tables, the beginning of a third, a table without entries and a directory. -/
def mixedDirectory : Disk :=
  Disk.put (Storage.tableFilename sampleLog 12) (tableContents (sampleEntry (text "a")))
    (Disk.put (Storage.tableFilename sampleLog 7) ((tableContents (sampleEntry (text "c"))).take 21)
      (Disk.put (Storage.tableFilename sampleLog 3) (tableContents (sampleEntry (text "b")))
        (Disk.put (Storage.tableFilename sampleLog 9) (tableContents ∅)
          (AList.singleton (text "d/tables/old") .directory))))

theorem written_sampleTable {d : Disk} {id : ℕ} {key : Bytes} (hid : id < 2 ^ 64 - 1)
    (hkey : key ≠ [] ∧ key.length < 2 ^ 32)
    (hfile : d.lookup (Storage.tableFilename sampleLog id) =
      some (.regular (tableContents (sampleEntry key)))) :
    Written sampleLog d (sampleTable id key) := by
  obtain ⟨after, hwrite, hafter, -⟩ :=
    write_succeeds ∅ (Storage.tableFilename sampleLog id) id (sampleEntry key)
  refine ⟨hid, sampleEntry key, ∅, after, List.cons_ne_nil _ _, ?_, (by decide : 1 < 2 ^ 64),
    hwrite, hfile.trans hafter.symm⟩
  intro e he
  rw [List.mem_singleton.mp he]
  exact ⟨hkey.1, hkey.2, (by decide : 1 < 2 ^ 32)⟩

/-- Every map visited backwards. -/
theorem rebuild_restores_list_mixed :
    ∃ m' d', Succeeds (rebuildFromDirectoryBy (fun data => data.entries.reverse)
        ⟨text "d/MANIFEST", [], 1⟩ (Storage.tablesDirectory sampleLog)) mixedDirectory (.ok (), m') d' ∧
      m'.tables = [sampleTable 3 (text "b"), sampleTable 12 (text "a")] ∧ m'.nextTableId = 13 ∧
      d'.lookup (text "d/MANIFEST") = some (.regular m'.manifestText) := by
  have hlist : listDirectory mixedDirectory (Storage.tablesDirectory sampleLog) =
      [(Storage.tableFilename sampleLog 12, .regular (tableContents (sampleEntry (text "a")))),
        (Storage.tableFilename sampleLog 7, .regular ((tableContents (sampleEntry (text "c"))).take 21)),
        (Storage.tableFilename sampleLog 3, .regular (tableContents (sampleEntry (text "b")))),
        (Storage.tableFilename sampleLog 9, .regular (tableContents ∅)),
        (text "d/tables/old", .directory)] := by decide +kernel
  refine rebuild_restores_list sampleLog ⟨text "d/MANIFEST", [], 1⟩ mixedDirectory
    [sampleTable 3 (text "b"), sampleTable 12 (text "a")] (fun data => data.entries.reverse)
    (fun data => List.reverse_perm _) (by decide +kernel) ?_ ?_
  · intro t ht
    rcases List.mem_pair.mp ht with rfl | rfl
    · exact written_sampleTable (by decide) (by decide +kernel) (by decide +kernel)
    · exact written_sampleTable (by decide) (by decide +kernel) (by decide +kernel)
  · intro path node hfile
    rw [hlist] at hfile
    simp only [List.mem_cons, List.not_mem_nil, or_false, Prod.mk.injEq] at hfile
    rcases hfile with ⟨rfl, -⟩ | ⟨-, rfl⟩ | ⟨rfl, -⟩ | ⟨-, rfl⟩ | ⟨-, rfl⟩
    · exact Or.inl ⟨sampleTable 12 (text "a"), by simp, rfl⟩
    · exact Or.inr (Or.inr (Or.inr (Or.inr (Or.inl ⟨sampleEntry (text "c"), _, by decide +kernel,
        by decide +kernel, rfl, List.take_prefix _ _, by decide +kernel⟩))))
    · exact Or.inl ⟨sampleTable 3 (text "b"), by simp, rfl⟩
    · exact Or.inr (Or.inr (Or.inr (Or.inr (Or.inr ⟨∅, rfl, rfl⟩))))
    · exact Or.inr (Or.inl rfl)

/-- A value of four gibibytes is read back as an entry of its own, so the greatest key of the
rebuilt table is not the one that was written. -/
theorem rebuild_misreads_long_value :
    ∃ (data : Entries) (t : SSTableMetadata) (d : Disk), data.entries ≠ [] ∧
      (∀ e ∈ data.entries, e.1 ≠ []) ∧
      Succeeds (SSTables.write (Storage.tableFilename sampleLog 1) 1 data) ∅ (.ok t) d ∧
      ∃ m' d', Succeeds (rebuildFromDirectory ⟨text "d/MANIFEST", [], 1⟩
          (Storage.tablesDirectory sampleLog)) d (.ok (), m') d' ∧
        m'.tables ≠ [t] := by
  obtain ⟨filler, hfiller⟩ : ∃ filler : Bytes, filler.length = 2 ^ 32 - 11 :=
    ⟨List.replicate _ 0, List.length_replicate⟩
  have hsorted := sortEntries_twoEntries (show text "b" < text "c" by decide) (longValue filler) []
  have hstray := sortEntries_twoEntries (show text "b" < text "zz" by decide) [] (strayValue filler)
  have hne := twoEntries_ne_nil (text "b") (longValue filler) (text "c") []
  have hne' := twoEntries_ne_nil (text "b") [] (text "zz") (strayValue filler)
  have hkeys : ∀ e ∈ (twoEntries (text "b") (longValue filler) (text "c") []).entries, e.1 ≠ [] :=
    forall_mem_twoEntries (by decide) (by decide : text "b" ≠ []) (by decide : text "c" ≠ [])
  have hkeys' : ∀ e ∈ (twoEntries (text "b") [] (text "zz") (strayValue filler)).entries,
      e.1 ≠ [] :=
    forall_mem_twoEntries (by decide) (by decide : text "b" ≠ []) (by decide : text "zz" ≠ [])
  generalize hdata : twoEntries (text "b") (longValue filler) (text "c") [] = data
    at hsorted hne hkeys
  generalize hread : twoEntries (text "b") [] (text "zz") (strayValue filler) = stray
    at hstray hne' hkeys'
  have hstorable : Storable stray := hread ▸ storable_strayValue hfiller
  have hcontents : tableContents data = tableContents stray :=
    hdata ▸ hread ▸ tableContents_longValue hfiller
  obtain ⟨d, hwrite, hfile, hsame⟩ :=
    write_succeeds ∅ (Storage.tableFilename sampleLog 1) 1 data
  rw [hcontents] at hfile
  -- the file is also what writing the other map leaves
  have hwritten : Written sampleLog d (metadataOf 1 (Storage.tableFilename sampleLog 1) stray) := by
    obtain ⟨after, hwrite', hafter, -⟩ :=
      write_succeeds ∅ (Storage.tableFilename sampleLog 1) 1 stray
    exact ⟨(by decide : 1 < 2 ^ 64 - 1), stray, ∅, after, hne',
      fun e he => ⟨hkeys' e he, hstorable.small e he⟩, hstorable.count_lt, hwrite',
      hfile.trans hafter.symm⟩
  have hothers : ∀ path node, (path, node) ∈ listDirectory d (Storage.tablesDirectory sampleLog) →
      (∃ t ∈ [metadataOf 1 (Storage.tableFilename sampleLog 1) stray], path = t.filename) ∨
        PassedOver path node := by
    intro path node hlisted
    by_cases hpath : path = Storage.tableFilename sampleLog 1
    · exact Or.inl ⟨_, List.mem_singleton_self _, hpath⟩
    · have hnone := (hsame path (by simpa using hpath)).symm.trans (lookup_of_listDirectory hlisted)
      cases hnone
  have hvisit : ∀ data : Entries, (AList.entries data).Perm data.entries := fun _ => .refl _
  have hperm := perm_foundTables hvisit (List.pairwise_singleton _ _) (by simpa using hwritten) hothers
  obtain ⟨d', hrun, -⟩ := rebuildFromDirectoryBy_succeeds AList.entries
    ⟨text "d/MANIFEST", [], 1⟩ (Storage.tablesDirectory sampleLog) d
  rw [rebuildFromDirectoryBy_entries] at hrun
  refine ⟨data, _, d, hne, hkeys, hwrite, _, d', hrun, ?_⟩
  rw [rebuilt_tables _ (List.pairwise_singleton _ _) hperm]
  intro heq
  have hlargest := congrArg SSTableMetadata.largestKey (List.singleton_inj.mp heq)
  rw [metadataOf, metadataOf, hsorted, hstray] at hlargest
  exact absurd hlargest (by decide : text "zz" ≠ text "c")

end ForgeDB.DirectoryRebuilds
