import ForgeDB.FlushSteps
import ForgeDB.LogOperations

/-!
# The database

One command at a time: a write goes to the log, then to the table in memory, which is
flushed when it is large and may trigger a compaction; a read looks into the table in
memory and then into the table files.
-/

namespace ForgeDB
open CrashPrograms CrashPrograms.Io LayeredMaps SSTables

/-- An initialized database. -/
structure Database where
  memtable : MemTable
  storage : Storage
  deriving DecidableEq

namespace Database

/-- `Database::initialize` on a new object. -/
def initializeDatabase (hc : HeaderConstants) (walFilename : Bytes) (mode : DurabilityMode) :
    Io (Except Bytes Database) := do
  match ← Storage.initializeStorage walFilename mode with
  | .error e => return .error e
  | .ok storage =>
    match ← storage.load hc with
    | .error e => return .error e
    | .ok recovered => return .ok ⟨MemTable.empty.replace recovered, storage⟩

def flushMemtable (db : Database) : Io (Except Bytes Unit × Database) := do
  let snapshot := db.memtable.snapshot
  if snapshot.entries = [] then
    return (.ok (), db)
  match ← db.storage.flushMemtable snapshot with
  | (.error e, storage) => return (.error e, { db with storage := storage })
  | (.ok _, storage) => return (.ok (), ⟨db.memtable.clear, storage⟩)

def shouldCompact (hc : HeaderConstants) (s : Storage) : Bool :=
  s.tableCount ≥ hc.compactionTableThreshold

def maybeCompact (hc : HeaderConstants) (db : Database) : Io (Except Bytes Unit × Database) := do
  if !shouldCompact hc db.storage then
    return (.ok (), db)
  let (result, storage) ← db.storage.compact
  return (result, { db with storage := storage })

/-- The common end of a write. -/
def flushIfDue (hc : HeaderConstants) (db : Database) : Io (Bytes × Database) := do
  if db.memtable.sizeInBytes < hc.memtableFlushThreshold then
    return (text "OK", db)
  match ← db.flushMemtable with
  | (.error e, db) => return (text "ERROR flush failed: " ++ e, db)
  | (.ok _, db) =>
    match ← db.maybeCompact hc with
    | (.error e, db) => return (text "ERROR compaction failed: " ++ e, db)
    | (.ok _, db) => return (text "OK", db)

def executePut (hc : HeaderConstants) (db : Database) (command : Command) :
    Io (Bytes × Database) := do
  let (ok, storage) ← db.storage.appendPut hc command.key command.value
  if !ok then
    return (text "ERROR failed to write WAL", { db with storage := storage })
  flushIfDue hc ⟨db.memtable.put command.key command.value, storage⟩

def executeDelete (hc : HeaderConstants) (db : Database) (command : Command) :
    Io (Bytes × Database) := do
  let (ok, storage) ← db.storage.appendDelete hc command.key
  if !ok then
    return (text "ERROR failed to write WAL", { db with storage := storage })
  flushIfDue hc ⟨db.memtable.erase command.key, storage⟩

def answer : Option MemTableEntry → Bytes
  | some ⟨value, false⟩ => value
  | _ => text "NOT_FOUND"

def executeGet (db : Database) (command : Command) : Io Bytes := do
  match db.memtable.get command.key with
  | some entry => return answer (some entry)
  | none =>
    match ← db.storage.getFromSstables command.key with
    | .error e => return text "ERROR read failed: " ++ e
    | .ok found => return answer found

def execute (hc : HeaderConstants) (db : Database) (command : Command) : Io (Bytes × Database) := do
  match command.type with
  | .put => db.executePut hc command
  | .get => do
    let response ← db.executeGet command
    return (response, db)
  | .deleteKey => db.executeDelete hc command
  | .exit => return (text "BYE", db)
  | .invalid => return (text "ERROR invalid command", db)

/-- Commands one after the other, with their responses. -/
def executeAll (hc : HeaderConstants) (db : Database) : List Command → Io (List Bytes × Database)
  | [] => return ([], db)
  | command :: commands => do
    let (response, db) ← db.execute hc command
    let (responses, db) ← db.executeAll hc commands
    return (response :: responses, db)

/-- The entry a read finds: the table in memory first, then the table files. -/
def view (db : Database) (ms : List Entries) (key : Bytes) : Option MemTableEntry :=
  (db.memtable.data.lookup key).or (newest ms key)

@[simp] theorem answer_map_reported (e : Option MemTableEntry) :
    answer (e.map MemTableEntry.reported) = answer e := by
  rcases e with _ | ⟨value, _ | _⟩ <;> rfl

/-- The value of a key that is there and not deleted. -/
def live : Option MemTableEntry → Option Bytes
  | some ⟨value, false⟩ => some value
  | _ => none

theorem answer_eq_live (e : Option MemTableEntry) :
    answer e = (live e).getD (text "NOT_FOUND") := by
  rcases e with _ | ⟨value, _ | _⟩ <;> rfl

section Reading

variable {l : Layout} {d : Disk} {db : Database} {ms : List Entries}

theorem executeGet_succeeds (hs : Shows l d db.storage.manifest ms) (command : Command) :
    Succeeds (db.executeGet command) d (answer (db.view ms command.key)) d := by
  rw [executeGet, MemTable.get, view]
  cases hk : db.memtable.data.lookup command.key with
  | some e =>
    rw [Option.some_or, ← answer_map_reported]
    exact .pure
  | none =>
    rw [Option.none_or, ← answer_map_reported]
    exact (getFrom_reverse_succeeds hs.holds command.key).bind .pure

end Reading

theorem executeGet_reads (db : Database) (command : Command) (d : Disk) :
    Ensures (db.executeGet command) d (fun _ d' => d' = d) (fun d' => d' = d) := by
  rw [executeGet]
  cases db.memtable.get command.key with
  | some e => exact .pure rfl
  | none =>
    refine (getFrom_reads d db.storage.manifest.tables.reverse command.key).bind ?_
    rintro r d' rfl
    cases r with
    | error e => exact .pure rfl
    | ok found => exact .pure rfl

/-- The write a command stands for. -/
def operation (command : Command) : Option LogOperation :=
  match command.type with
  | .put => some (.put command.key command.value)
  | .deleteKey => some (.delete command.key)
  | _ => none

theorem operation_eq_some {command : Command} {op : LogOperation}
    (h : operation command = some op) :
    (command.type = .put ∧ op = .put command.key command.value) ∨
      (command.type = .deleteKey ∧ op = .delete command.key) := by
  rw [operation] at h
  cases ht : command.type <;> simp only [ht, Option.some.injEq, reduceCtorEq] at h
  · exact Or.inl ⟨rfl, h.symm⟩
  · exact Or.inr ⟨rfl, h.symm⟩

theorem operation_eq_none {command : Command} (h : operation command = none) :
    command.type = .get ∨ command.type = .exit ∨ command.type = .invalid := by
  rw [operation] at h
  cases ht : command.type <;> simp only [ht, reduceCtorEq] at h
  · exact Or.inl rfl
  · exact Or.inr (Or.inl rfl)
  · exact Or.inr (Or.inr rfl)

/-- The database once the log has the write and the table in memory too. -/
def written (db : Database) (wal : Wal) (op : LogOperation) : Database :=
  ⟨op.apply db.memtable, { db.storage with wal := wal }⟩

theorem view_written (db : Database) (wal : Wal) (op : LogOperation) (ms : List Entries)
    (key : Bytes) :
    (db.written wal op).view ms key =
      if key = op.key then some op.entry else db.view ms key := by
  unfold view written
  rw [LogOperation.apply_data_eq, lookup_insert_eq]
  split
  · rfl
  · rfl

theorem written_nonempty (db : Database) (wal : Wal) (op : LogOperation) :
    (db.written wal op).memtable.data.entries ≠ [] := by
  rw [written]
  rw [LogOperation.apply_data_eq]
  exact List.cons_ne_nil _ _

/-- Moving the table in memory to the top of the tables changes no read. -/
theorem view_flushed {db db' : Database} (h : db'.memtable = db.memtable.clear)
    (ms : List Entries) (key : Bytes) :
    db'.view (ms ++ [db.memtable.data]) key = db.view ms key := by
  rw [view, view, h, newest_append_singleton]
  rfl

theorem execute_write (hc : HeaderConstants) (db : Database) {command : Command}
    {op : LogOperation} (h : operation command = some op) :
    db.execute hc command = (do
      let (ok, wal) ← op.append hc db.storage.wal
      if !ok then
        return (text "ERROR failed to write WAL", { db with storage := { db.storage with wal := wal } })
      flushIfDue hc (db.written wal op)) := by
  funext w
  rcases operation_eq_some h with ⟨ht, rfl⟩ | ⟨ht, rfl⟩
  · simp only [execute, ht, executePut, Storage.appendPut, LogOperation.append, bind_run]
    cases hr : db.storage.wal.appendPut hc command.key command.value w <;> rfl
  · simp only [execute, ht, executeDelete, Storage.appendDelete, LogOperation.append, bind_run]
    cases hr : db.storage.wal.appendDelete hc command.key w <;> rfl

/-- The ways the end of a write can go: there is nothing to do, the flush fails, or it works and a
compaction may follow. -/
theorem flushIfDue_returned {hc : HeaderConstants} {db db' : Database} {w w' : World}
    {response : Bytes} (hrun : flushIfDue hc db w = .returned (response, db') w') :
    (db.memtable.sizeInBytes < hc.memtableFlushThreshold ∧ response = text "OK" ∧ db' = db ∧
        w' = w) ∨
      (hc.memtableFlushThreshold ≤ db.memtable.sizeInBytes ∧
        ∃ e, db.flushMemtable w = .returned (.error e, db') w' ∧
          response = text "ERROR flush failed: " ++ e) ∨
      (hc.memtableFlushThreshold ≤ db.memtable.sizeInBytes ∧
        ∃ r db₁ w₁, db.flushMemtable w = .returned (.ok (), db₁) w₁ ∧
          db₁.maybeCompact hc w₁ = .returned (r, db') w' ∧
          ((r = .ok () ∧ response = text "OK") ∨
            ∃ e, r = .error e ∧ response = text "ERROR compaction failed: " ++ e)) := by
  rw [flushIfDue] at hrun
  split at hrun
  · next hsmall =>
    cases hrun
    exact Or.inl ⟨hsmall, rfl, rfl, rfl⟩
  next hdue =>
  obtain ⟨⟨flushed, db₁⟩, w₁, hflush, hrun⟩ := bind_returned hrun
  cases flushed with
  | error e =>
    cases hrun
    exact Or.inr (Or.inl ⟨not_lt.mp hdue, e, hflush, rfl⟩)
  | ok u =>
    obtain ⟨⟨r, db₂⟩, w₂, hcompact, hrun⟩ := bind_returned hrun
    cases r with
    | error e =>
      cases hrun
      exact Or.inr (Or.inr ⟨not_lt.mp hdue, _, db₁, w₁, hflush, hcompact, Or.inr ⟨e, rfl, rfl⟩⟩)
    | ok u =>
      cases hrun
      exact Or.inr (Or.inr ⟨not_lt.mp hdue, _, db₁, w₁, hflush, hcompact, Or.inl ⟨rfl, rfl⟩⟩)

theorem execute_other_ensures (hc : HeaderConstants) (db : Database) {command : Command}
    (h : operation command = none) (d : Disk) :
    Ensures (db.execute hc command) d (fun r d' => r.2 = db ∧ d' = d) (fun _ => True) := by
  rw [execute]
  rcases operation_eq_none h with ht | ht | ht <;> simp only [ht]
  · refine ((db.executeGet_reads command d).mono (fun _ _ h => h) (fun _ _ => trivial)).bind ?_
    intro response d' hd'
    exact .pure ⟨rfl, hd'⟩
  · exact .pure ⟨rfl, rfl⟩
  · exact .pure ⟨rfl, rfl⟩

theorem execute_other (hc : HeaderConstants) (db : Database) {command : Command}
    (h : operation command = none) {d d' : Disk} {db' : Database} {response : Bytes}
    (hrun : Succeeds (db.execute hc command) d (response, db') d') : db' = db ∧ d' = d :=
  (execute_other_ensures hc db h d).of_succeeds hrun

/-- The flush a write may cause does not make the list of tables long enough to compact. -/
def Quiet (hc : HeaderConstants) (db : Database) (command : Command) : Prop :=
  ∀ op ∈ operation command, hc.memtableFlushThreshold ≤ (op.apply db.memtable).sizeInBytes →
    db.storage.tableCount + 1 < hc.compactionTableThreshold

instance (hc : HeaderConstants) (db : Database) (command : Command) :
    Decidable (Quiet hc db command) :=
  inferInstanceAs (Decidable (∀ op ∈ operation command, _ → _))

section Flushing

variable {hc : HeaderConstants} {l : Layout} {d : Disk} {db : Database} {ms : List Entries}
  {log : Bytes}

theorem flushMemtable_nonempty (hne : db.memtable.data.entries ≠ []) :
    db.flushMemtable = (do
      match ← db.storage.flushMemtable db.memtable.data with
      | (.error e, storage) => return (.error e, { db with storage := storage })
      | (.ok _, storage) => return (.ok (), ⟨db.memtable.clear, storage⟩)) := if_neg hne

theorem maybeCompact_quiet (h : db.storage.tableCount < hc.compactionTableThreshold) :
    db.maybeCompact hc = return (.ok (), db) := by
  have hno : shouldCompact hc db.storage = false := by simpa [shouldCompact] using h
  rw [maybeCompact, hno]
  rfl

/-- The end of a write with every step succeeding: nothing happens, or the table in memory
becomes the newest layer. -/
theorem flushIfDue_succeeds (hc : HeaderConstants) (hw : Wired l db.storage)
    (hs : Shows l d db.storage.manifest ms)
    (hcar : db.storage.wal.Carries d log) (hne : db.memtable.data.entries ≠ [])
    (hdue : hc.memtableFlushThreshold ≤ db.memtable.sizeInBytes → Storable db.memtable.data ∧
      db.storage.manifest.nextTableId + 1 < 2 ^ 64 ∧
      db.storage.tableCount + 1 < hc.compactionTableThreshold) :
    ∃ db' d', Succeeds (flushIfDue hc db) d (text "OK", db') d' ∧
      ((db.memtable.sizeInBytes < hc.memtableFlushThreshold ∧ db' = db ∧ d' = d) ∨
        (hc.memtableFlushThreshold ≤ db.memtable.sizeInBytes ∧
          db'.memtable = db.memtable.clear ∧ Wired l db'.storage ∧
          Shows l d' db'.storage.manifest (ms ++ [db.memtable.data]) ∧
          db'.storage.wal.Carries d' [] ∧ db.storage.wal.SameFile db'.storage.wal ∧
          db'.storage.manifest =
            db.storage.manifest.pushed (Shows.nextTable l db.storage.manifest db.memtable.data) ∧
          d'.lookup l.manifestFilename = some (.regular db'.storage.manifest.manifestText))) := by
  rw [flushIfDue]
  by_cases hlt : db.memtable.sizeInBytes < hc.memtableFlushThreshold
  · rw [if_pos hlt]
    exact ⟨db, d, .pure, Or.inl ⟨hlt, rfl, rfl⟩⟩
  · obtain ⟨hdata, hroom, hquiet⟩ := hdue (not_lt.mp hlt)
    obtain ⟨s', d', hflush, hw', hs', hcar', hfile', hman, htext⟩ :=
      flushMemtable_succeeds hw hs hcar hdata hne hroom
    have hcount : s'.tableCount < hc.compactionTableThreshold := by
      rw [Storage.tableCount, hman, Manifest.pushed, List.length_append, List.length_singleton]
      exact hquiet
    refine ⟨⟨db.memtable.clear, s'⟩, d', ?_,
      Or.inr ⟨not_lt.mp hlt, rfl, hw', hs', hcar', hfile', hman, htext⟩⟩
    have hdb : Succeeds db.flushMemtable d (.ok (), ⟨db.memtable.clear, s'⟩) d' := by
      rw [flushMemtable_nonempty hne]
      exact hflush.bind .pure
    have hno : Succeeds (maybeCompact hc ⟨db.memtable.clear, s'⟩) d'
        (.ok (), ⟨db.memtable.clear, s'⟩) d' := by
      rw [maybeCompact_quiet hcount]
      exact .pure
    rw [if_neg hlt]
    exact hdb.bind (hno.bind .pure)

end Flushing

end Database
end ForgeDB
