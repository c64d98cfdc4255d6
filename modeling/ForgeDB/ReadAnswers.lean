import ForgeDB.CompactionSteps
import ForgeDB.TableTracking

/-!
# What a read answers

The answer to a `GET` as a function of the table in memory, the list of tables and their
files. It depends on no other file, a table that was written completely adds its own map to
it, and tables that can all be read answer as layered maps.
-/

namespace ForgeDB.ReadAnswers
open CrashPrograms CrashPrograms.Io Database LayeredMaps Reopening SSTables TableIds

/-- What one table has for a key, as far as its key range lets the search look. -/
def tableResult (d : Disk) (key : Bytes) (table : SSTableMetadata) :
    Except Bytes (Option MemTableEntry) :=
  if table.entryCount = 0 then .ok none
  else if key < table.smallestKey ∨ table.largestKey < key then .ok none
  else
    match loadResult d table.filename with
    | .error e => .error e
    | .ok data => .ok ((data.lookup key).map MemTableEntry.reported)

/-- The first table of the list that has the key or cannot be read. -/
def searchResult (d : Disk) (key : Bytes) :
    List SSTableMetadata → Except Bytes (Option MemTableEntry)
  | [] => .ok none
  | table :: tables =>
    match tableResult d key table with
    | .error e => .error e
    | .ok (some entry) => .ok (some entry)
    | .ok none => searchResult d key tables

/-- The response to what the search of the tables has come to. -/
def respond : Except Bytes (Option MemTableEntry) → Bytes
  | .error e => text "ERROR read failed: " ++ e
  | .ok found => answer found

def answered (db : Database) (d : Disk) (key : Bytes) : Bytes :=
  match db.memtable.get key with
  | some entry => answer (some entry)
  | none => respond (searchResult d key db.storage.manifest.tables.reverse)

section Reading

variable {hc : HeaderConstants} {d d' : Disk} {db db' : Database} {key : Bytes}
  {table : SSTableMetadata} {tables : List SSTableMetadata} {data : Entries} {ds : List Entries}

theorem get_eq (d : Disk) (table : SSTableMetadata) (key : Bytes) :
    Succeeds (get table key) d (tableResult d key table) d := by
  rw [SSTables.get, tableResult]
  split
  · exact .pure
  split
  · exact .pure
  have hload := load_eq d table
  cases hr : loadResult d table.filename with
  | error e =>
    rw [hr] at hload
    exact hload.bind .pure
  | ok data =>
    rw [hr] at hload
    exact hload.bind .pure

theorem getFrom_eq (d : Disk) (tables : List SSTableMetadata) (key : Bytes) :
    Succeeds (Storage.getFrom key tables) d (searchResult d key tables) d := by
  induction tables with
  | nil => exact .pure
  | cons table tables ih =>
    have hget := get_eq d table key
    rw [Storage.getFrom, searchResult]
    rcases hr : tableResult d key table with e | _ | entry
    · rw [hr] at hget
      exact hget.bind .pure
    · rw [hr] at hget
      exact hget.bind ih
    · rw [hr] at hget
      exact hget.bind .pure

theorem execute_get (hc : HeaderConstants) (db : Database) (d : Disk) (key : Bytes) :
    Succeeds (db.execute hc ⟨.get, key, []⟩) d (answered db d key, db) d := by
  have hget : Succeeds (db.executeGet ⟨.get, key, []⟩) d (answered db d key) d := by
    rw [executeGet, answered]
    cases db.memtable.get key with
    | some entry => exact .pure
    | none =>
      have hfrom := getFrom_eq d db.storage.manifest.tables.reverse key
      refine hfrom.bind ?_
      cases searchResult d key db.storage.manifest.tables.reverse with
      | error e => exact .pure
      | ok found => exact .pure
  exact hget.bind .pure

theorem execute_get_iff {response : Bytes} :
    Succeeds (db.execute hc ⟨.get, key, []⟩) d (response, db) d ↔ answered db d key = response := by
  have h := execute_get hc db d key
  constructor
  · intro h'
    exact (Prod.mk.inj (h.unique h').1).1
  · rintro rfl
    exact h

/-- Every `GET` has the same answer in both states. -/
def SameReads (hc : HeaderConstants) (db : Database) (d : Disk) (db' : Database) (d' : Disk) : Prop :=
  ∀ key response, Succeeds (db.execute hc ⟨.get, key, []⟩) d (response, db) d ↔
    Succeeds (db'.execute hc ⟨.get, key, []⟩) d' (response, db') d'

theorem sameReads_iff :
    SameReads hc db d db' d' ↔ ∀ key, answered db' d' key = answered db d key := by
  constructor
  · intro h key
    exact execute_get_iff.mp ((h key _).mp (execute_get hc db d key))
  · intro h key response
    rw [execute_get_iff, execute_get_iff, h key]

theorem searchResult_congr (key : Bytes)
    (h : ∀ t ∈ tables, d'.lookup t.filename = d.lookup t.filename) :
    searchResult d' key tables = searchResult d key tables := by
  induction tables with
  | nil => rfl
  | cons table tables ih =>
    have hfirst : tableResult d' key table = tableResult d key table := by
      rw [tableResult, tableResult, loadResult_of_same (h table List.mem_cons_self)]
    rw [searchResult, searchResult, hfirst, ih (fun t ht => h t (List.mem_cons_of_mem _ ht))]

/-- The answers follow the table in memory, the list and its files. -/
theorem answered_congr (hmem : db'.memtable = db.memtable)
    (hlist : db'.storage.manifest.tables = db.storage.manifest.tables)
    (hfiles : ∀ t ∈ db.storage.manifest.tables, d'.lookup t.filename = d.lookup t.filename)
    (key : Bytes) : answered db' d' key = answered db d key := by
  rw [answered, answered, hmem, hlist,
    searchResult_congr key (fun t ht => hfiles t (List.mem_reverse.mp ht))]

theorem tableResult_written (id : ℕ) {filename : Bytes} (hdata : Storable data)
    (hfile : d.lookup filename = some (.regular (tableContents data))) (key : Bytes) :
    tableResult d key (metadataOf id filename data) =
      .ok ((data.lookup key).map MemTableEntry.reported) :=
  ((get_eq d _ key).unique (get_succeeds id hdata hfile key)).1

/-- A table that can be read and whose key range covers its file. -/
theorem tableResult_covers (hcovers : Covers d table) (hload : loadResult d table.filename = .ok data)
    (key : Bytes) : tableResult d key table = .ok ((data.lookup key).map MemTableEntry.reported) := by
  simp only [tableResult, hload]
  cases hk : data.lookup key with
  | none => simp
  | some entry =>
    obtain ⟨hcount, hsmall, hlarge⟩ := hcovers data hload ⟨key, entry⟩ (AList.mem_lookup_iff.mp hk)
    rw [if_neg hcount, if_neg (by simp [not_lt.mpr hsmall, not_lt.mpr hlarge])]

/-- The maps that the files of a list are read as. -/
def Loads (d : Disk) : List SSTableMetadata → List Entries → Prop :=
  List.Forall₂ (fun table data => loadResult d table.filename = .ok data)

theorem Loads.of_same (h : Loads d tables ds)
    (hsame : ∀ t ∈ tables, d'.lookup t.filename = d.lookup t.filename) : Loads d' tables ds := by
  induction h with
  | nil => exact .nil
  | @cons table _ _ _ hfirst _ ih =>
    refine .cons ?_ (ih (fun t ht => hsame t (List.mem_cons_of_mem _ ht)))
    rw [loadResult_of_same (hsame table List.mem_cons_self), hfirst]

theorem Loads.of_append_singleton (h : Loads d (tables ++ [table]) ds) :
    ∃ front data, ds = front ++ [data] ∧ Loads d tables front ∧
      loadResult d table.filename = .ok data := by
  have hfront := List.forall₂_take_append _ _ _ h.flip
  have hlast := List.forall₂_drop_append _ _ _ h.flip
  generalize hdrop : ds.drop tables.length = last at hlast
  cases hlast with
  | @cons data _ _ _ hdata hnil =>
    cases hnil
    refine ⟨ds.take tables.length, data, ?_, hfront.flip, hdata⟩
    rw [← hdrop, List.take_append_drop]

theorem searchResult_loads (h : Loads d tables ds) (hcovers : ∀ t ∈ tables, Covers d t)
    (key : Bytes) :
    searchResult d key tables =
      .ok ((ds.findSome? (fun m => m.lookup key)).map MemTableEntry.reported) := by
  induction h with
  | nil => rfl
  | @cons table data _ _ hfirst _ ih =>
    rw [searchResult, tableResult_covers (hcovers table List.mem_cons_self) hfirst,
      List.findSome?_cons]
    cases data.lookup key with
    | none => exact ih (fun t ht => hcovers t (List.mem_cons_of_mem _ ht))
    | some entry => rfl

theorem searchResult_reverse_loads (h : Loads d tables ds) (hcovers : ∀ t ∈ tables, Covers d t)
    (key : Bytes) :
    searchResult d key tables.reverse = .ok ((newest ds key).map MemTableEntry.reported) :=
  searchResult_loads (List.rel_reverse h) (fun t ht => hcovers t (List.mem_reverse.mp ht)) key

/-- Loading all tables, if it works, writes these maps over each other. -/
theorem loadTables_loads (d : Disk) (tables : List SSTableMetadata) (base : Entries) :
    Ensures (Storage.loadTables tables base) d
      (fun r d' => d' = d ∧ ∀ data, r = .ok data →
        ∃ ds, Loads d tables ds ∧ data = ds.foldl overwrite base)
      (fun d' => d' = d) := by
  induction tables generalizing base with
  | nil =>
    refine .pure ⟨rfl, fun data hdata => ⟨[], .nil, ?_⟩⟩
    exact (Except.ok.inj hdata).symm
  | cons table tables ih =>
    rw [Storage.loadTables]
    refine (load_reads d table).bind ?_
    rintro r d' ⟨rfl, hread⟩
    cases r with
    | error e => exact .pure ⟨rfl, by simp⟩
    | ok first =>
      refine (ih (overwrite base first)).mono ?_ (fun _ hd' => hd')
      rintro r d₁ ⟨rfl, hrest⟩
      refine ⟨rfl, fun data hdata => ?_⟩
      obtain ⟨ds, hloads, rfl⟩ := hrest data hdata
      exact ⟨first :: ds, .cons (hread first rfl) hloads, rfl⟩

theorem loadTables_run (h : Loads d tables ds) (base : Entries) :
    Succeeds (Storage.loadTables tables base) d (.ok (ds.foldl overwrite base)) d := by
  induction h generalizing base with
  | nil => exact .pure
  | @cons table data _ _ hfirst _ ih =>
    have hload := load_eq d table
    rw [hfirst] at hload
    exact hload.bind (ih (overwrite base data))

end Reading
end ForgeDB.ReadAnswers
