import ForgeDB.Manifests
import ForgeDB.WalRecovery

/-!
# The storage engine

The log, the table list and the table files of one data directory, with the operations
the database calls: append, load everything, flush, look up in the tables, compact.
-/

namespace ForgeDB
open CrashPrograms CrashPrograms.Io LayeredMaps TextStreams WalRecovery

/-- An initialized engine. The other paths follow from the log's. -/
structure Storage where
  walFilename : Bytes
  durabilityMode : DurabilityMode
  wal : Wal
  manifest : Manifest
  deriving DecidableEq

namespace Storage

def dataDirectory (walFilename : Bytes) : Bytes :=
  let directory := FilePaths.parentPath (FilePaths.parentPath walFilename)
  if directory = [] then text "data" else directory

def tablesDirectory (walFilename : Bytes) : Bytes :=
  FilePaths.joinPath (dataDirectory walFilename) (text "tables")

def manifestFilename (walFilename : Bytes) : Bytes :=
  FilePaths.joinPath (dataDirectory walFilename) (text "MANIFEST")

def tableFilename (walFilename : Bytes) (tableId : ℕ) : Bytes :=
  tablesDirectory walFilename ++ text "/table_" ++ decimal tableId ++ text ".sst"

/-- The directories made here are not tracked: each step succeeds or fails. -/
def ensureDirectories (walFilename : Bytes) : Io Bool := do
  let made ← Wal.makeParent walFilename
  if !made then
    return false
  let made ← consult
  if !made then
    return false
  Wal.makeParent (manifestFilename walFilename)

/-- `Storage::initialize` on a new object. -/
def initializeStorage (walFilename : Bytes) (mode : DurabilityMode) :
    Io (Except Bytes Storage) := do
  let made ← ensureDirectories walFilename
  if !made then
    return .error (text "Failed to create storage directories: ")
  let wal ← Wal.create walFilename mode
  match ← Manifest.load (manifestFilename walFilename) with
  | .error e => return .error e
  | .ok manifest =>
    let d ← getDisk
    -- a listed table without its file makes the directory the authority
    if manifest.tables.all (fun table => (d.lookup table.filename).isSome) then
      return .ok ⟨walFilename, mode, wal, manifest⟩
    match ← manifest.rebuildFromDirectory (tablesDirectory walFilename) with
    | (.error e, _) => return .error e
    | (.ok _, manifest) => return .ok ⟨walFilename, mode, wal, manifest⟩

def appendPut (hc : HeaderConstants) (s : Storage) (key value : Bytes) : Io (Bool × Storage) := do
  let (ok, wal) ← s.wal.appendPut hc key value
  return (ok, { s with wal := wal })

def appendDelete (hc : HeaderConstants) (s : Storage) (key : Bytes) : Io (Bool × Storage) := do
  let (ok, wal) ← s.wal.appendDelete hc key
  return (ok, { s with wal := wal })

/-- The tables of a list written over each other, the oldest first. -/
def loadTables : List SSTableMetadata → Entries → Io (Except Bytes Entries)
  | [], data => return .ok data
  | table :: tables, data => do
    match ← SSTables.load table with
    | .error e => return .error e
    | .ok tableData => loadTables tables (overwrite data tableData)

def load (hc : HeaderConstants) (s : Storage) : Io (Except Bytes Entries) := do
  match ← loadTables s.manifest.tables ∅ with
  | .error e => return .error e
  | .ok data =>
    let (result, walData) ← recoverWal hc s.wal.filename
    match result.status with
    | .success | .recoveredIncompleteTail => return .ok (overwrite data walData)
    | .corrupted | .ioError => return .error result.message

def resetWal (s : Storage) : Io (Except Bytes Unit × Storage) := do
  let (ok, wal) ← s.wal.truncate 0
  if ok then
    return (.ok (), { s with wal := wal })
  else
    return (.error (text "Failed to reset WAL"), { s with wal := wal })

def flushMemtable (s : Storage) (data : Entries) : Io (Except Bytes Unit × Storage) := do
  if data.entries = [] then
    return (.ok (), s)
  let tableId := s.manifest.nextTableId
  let filename := tableFilename s.walFilename tableId
  match ← SSTables.write filename tableId data with
  | .error e => return (.error e, s)
  | .ok metadata =>
    match ← s.manifest.addTable metadata with
    | (.error e, manifest) => do
      let _ ← remove filename
      return (.error e, { s with manifest := manifest })
    | (.ok _, manifest) => resetWal { s with manifest := manifest }

/-- The first table of the list that has the key, tombstones included. -/
def getFrom (key : Bytes) : List SSTableMetadata → Io (Except Bytes (Option MemTableEntry))
  | [] => return .ok none
  | table :: tables => do
    match ← SSTables.get table key with
    | .error e => return .error e
    | .ok (some entry) => return .ok (some entry)
    | .ok none => getFrom key tables

def getFromSstables (s : Storage) (key : Bytes) : Io (Except Bytes (Option MemTableEntry)) :=
  getFrom key s.manifest.tables.reverse

def dropTombstones (data : Entries) : Entries := keepIf (fun entry => !entry.deleted) data

/-- Write the replacement table, list it, and take the old tables off the list. -/
def replaceTables (s : Storage) (merged : Entries) : Io (Except Bytes Unit × Storage) := do
  let newTableId := s.manifest.nextTableId
  let newFilename := tableFilename s.walFilename newTableId
  match ← SSTables.write newFilename newTableId merged with
  | .error e => return (.error e, s)
  | .ok newMetadata =>
    let oldIds := s.manifest.tables.map SSTableMetadata.id
    match ← s.manifest.addTable newMetadata with
    | (.error e, manifest) => do
      let _ ← remove newFilename
      return (.error e, { s with manifest := manifest })
    | (.ok _, manifest) =>
      let (removed, manifest) ← manifest.removeTables oldIds
      return (removed, { s with manifest := manifest })

/-- `Storage::compact` up to the loop that deletes files. -/
def mergeTables (s : Storage) : Io (Except Bytes Unit × Storage) := do
  match ← loadTables s.manifest.tables ∅ with
  | .error e => return (.error e, s)
  | .ok merged => s.replaceTables (dropTombstones merged)

def removeFiles : List SSTableMetadata → Io Unit
  | [] => return ()
  | table :: tables => do
    let _ ← remove table.filename
    removeFiles tables

/-- The deleting loop runs over a reference to the list of the manifest, so over the list
as `remove_tables` has left it. -/
def compact (s : Storage) : Io (Except Bytes Unit × Storage) := do
  if s.manifest.tables.length < 2 then
    return (.ok (), s)
  match ← s.mergeTables with
  | (.error e, s) => return (.error e, s)
  | (.ok _, s) => do
    removeFiles s.manifest.tables
    return (.ok (), s)

def tableCount (s : Storage) : ℕ := s.manifest.tables.length

end Storage
end ForgeDB
