import ForgeDB.Restarts

/-!
# The running database is a map

Without compaction and with every step succeeding, the responses to any commands are
those of a plain map: a read gives the last value written to its key, whether that write
is still in memory or in one of the table files.
-/

namespace ForgeDB.MapRefinement
open CrashPrograms CrashPrograms.Io Database LayeredMaps SSTables WalRecovery

/-- The value of the last write to the key, if there was one and it was no deletion. -/
def lastWrite (earlier : List Command) (key : Bytes) : Option Bytes :=
  match earlier.reverse.find? (fun c => c.key = key && (operation c).isSome) with
  | some c => if c.type = .put then some c.value else none
  | none => none

def plainResponse (earlier : List Command) (command : Command) : Bytes :=
  match command.type with
  | .put | .deleteKey => text "OK"
  | .get => (lastWrite earlier command.key).getD (text "NOT_FOUND")
  | .exit => text "BYE"
  | .invalid => text "ERROR invalid command"

def plainResponses : List Command → List Command → List Bytes
  | _, [] => []
  | earlier, command :: commands =>
    plainResponse earlier command :: plainResponses (earlier ++ [command]) commands

/-- No flush of the run makes the list of tables long enough to compact. -/
def staysQuiet (hc : HeaderConstants) : Database → Disk → List Command → Bool
  | _, _, [] => true
  | db, d, command :: commands =>
    decide (Quiet hc db command) &&
      match db.execute hc command ⟨d, []⟩ with
      | .returned (_, db) w => staysQuiet hc db w.disk commands
      | .died _ => true

/-- A new database and the responses to some commands. -/
def session (hc : HeaderConstants) (walFilename : Bytes) (mode : DurabilityMode)
    (commands : List Command) : Io (Except Bytes (List Bytes)) := do
  match ← initializeDatabase hc walFilename mode with
  | .error e => return .error e
  | .ok db =>
    let (responses, _) ← db.executeAll hc commands
    return .ok responses

def sessionQuiet (hc : HeaderConstants) (walFilename : Bytes) (mode : DurabilityMode) (d : Disk)
    (commands : List Command) : Bool :=
  match initializeDatabase hc walFilename mode ⟨d, []⟩ with
  | .returned (.ok db) w => staysQuiet hc db w.disk commands
  | _ => true

/-- The invariant of a run: layers, sizes and what they show together. -/
structure Refines (hc : HeaderConstants) (l : Layout) (d : Disk) (db : Database)
    (earlier : List Command) (ms : List Entries) (log : Bytes) : Prop where
  wired : Wired l db.storage
  shows : Shows l d db.storage.manifest ms
  carries : db.storage.wal.Carries d log
  next_eq : db.storage.manifest.nextTableId = db.storage.tableCount + 1
  count_lt : db.storage.tableCount < hc.compactionTableThreshold
  sizeExact : db.memtable.SizeExact
  below : db.memtable.sizeInBytes < hc.memtableFlushThreshold
  small : ∀ e ∈ db.memtable.data.entries, SmallEntry e
  view_eq : ∀ key, live (db.view ms key) = lastWrite earlier key

theorem lastWrite_append_write {earlier : List Command} {command : Command} {op : LogOperation}
    (h : operation command = some op) (key : Bytes) :
    lastWrite (earlier ++ [command]) key =
      if key = op.key then live (some op.entry) else lastWrite earlier key := by
  have hop : op.key = command.key ∧
      live (some op.entry) = if command.type = .put then some command.value else none := by
    rcases operation_eq_some h with ⟨ht, rfl⟩ | ⟨ht, rfl⟩
    · rw [ht]
      exact ⟨rfl, rfl⟩
    · rw [ht]
      exact ⟨rfl, rfl⟩
  unfold lastWrite
  rw [List.reverse_append, List.reverse_singleton, List.singleton_append, List.find?_cons]
  by_cases hk : key = op.key
  · have hmatch : (decide (command.key = key) && (operation command).isSome) = true := by
      simp [h, hk, hop.1]
    rw [hmatch, if_pos hk, hop.2]
  · have hmatch : (decide (command.key = key) && (operation command).isSome) = false := by
      rw [hop.1] at hk
      simp [Ne.symm hk]
    rw [hmatch, if_neg hk]

theorem lastWrite_append_other {earlier : List Command} {command : Command}
    (h : operation command = none) (key : Bytes) :
    lastWrite (earlier ++ [command]) key = lastWrite earlier key := by
  unfold lastWrite
  rw [List.reverse_append, List.reverse_singleton, List.singleton_append, List.find?_cons, h]
  simp

section Steps

variable {hc : HeaderConstants} {l : Layout} {d : Disk} {db : Database} {earlier : List Command}
  {ms : List Entries} {log : Bytes} {command : Command}

def SmallCommand (command : Command) : Prop :=
  command.key.length < 2 ^ 32 ∧ command.value.length < 2 ^ 32

theorem smallEntry_of_operation {op : LogOperation} (hsmall : SmallCommand command)
    (h : operation command = some op) : SmallEntry ⟨op.key, op.entry⟩ := by
  rcases operation_eq_some h with ⟨-, rfl⟩ | ⟨-, rfl⟩
  · exact hsmall
  · exact ⟨hsmall.1, by norm_num [LogOperation.entry]⟩

/-- The table in memory can be written to a table file right after any write. -/
theorem storable_written (h : Refines hc l d db earlier ms log) (wal : Wal) {op : LogOperation}
    (hop : SmallEntry ⟨op.key, op.entry⟩) : Storable (db.written wal op).memtable.data := by
  rw [written]
  rw [LogOperation.apply_data_eq]
  refine ⟨forall_mem_insert h.small hop, ?_⟩
  -- fewer than 2 ^ 64 bytes were in memory before the write, so far fewer keys
  have hgrow := MemTable.length_insert_le db.memtable.data op.key op.entry
  have hcount := MemTable.length_le_totalSize db.memtable.data
  have hexact : db.memtable.sizeInBytes = MemTable.totalSize db.memtable.data := h.sizeExact
  have hbelow := h.below
  have hlt := hc.flushThreshold_lt
  omega

theorem refines_write (h : Refines hc l d db earlier ms log) (hsmall : SmallCommand command)
    (hquiet : Quiet hc db command) {op : LogOperation} (hop : operation command = some op) :
    ∃ db' d' ms' log', Succeeds (db.execute hc command) d (text "OK", db') d' ∧
      Refines hc l d' db' (earlier ++ [command]) ms' log' := by
  have hentry := smallEntry_of_operation hsmall hop
  obtain ⟨wal, d₁, happend, hcar, ⟨hname, hmode⟩, hsame⟩ :=
    Wal.appendRecord_succeeds hc h.carries op.record
  rw [h.wired.wal_eq] at hsame
  have hw₁ : Wired l (db.written wal op).storage := ⟨h.wired.walFilename_eq, hname.trans h.wired.wal_eq⟩
  have hs₁ : Shows l d₁ (db.written wal op).storage.manifest ms := h.shows.frame_wal hsame
  have hstore := storable_written h wal hentry
  have hexact : (db.written wal op).memtable.SizeExact := LogOperation.sizeExact_apply h.sizeExact op
  have hroom : hc.memtableFlushThreshold ≤ (db.written wal op).memtable.sizeInBytes →
      db.storage.manifest.nextTableId + 1 < 2 ^ 64 := by
    intro hdue
    have hq := hquiet op hop hdue
    have hthr := hc.compactionThreshold_lt
    rw [h.next_eq]
    omega
  obtain ⟨db', d', hflush, hcases⟩ := flushIfDue_succeeds hc hw₁ hs₁ hcar
    (written_nonempty db wal op) (fun hdue => ⟨hstore, hroom hdue, hquiet op hop hdue⟩)
  have hrun : Succeeds (db.execute hc command) d (text "OK", db') d' := by
    rw [execute_write hc db hop, LogOperation.append_eq]
    exact happend.bind hflush
  have hview : ∀ key, live ((db.written wal op).view ms key) =
      lastWrite (earlier ++ [command]) key := by
    intro key
    rw [view_written, lastWrite_append_write hop, ← h.view_eq]
    split <;> rfl
  rcases hcases with ⟨hlt, rfl, rfl⟩ | ⟨hdue, hmem, hw', hs', hcar', -, hman, -⟩
  · exact ⟨db.written wal op, d', ms, _, hrun, hw₁, hs₁, hcar, h.next_eq, h.count_lt, hexact, hlt,
      hstore.small, hview⟩
  · have hcount' : db'.storage.tableCount = db.storage.tableCount + 1 := by
      rw [Storage.tableCount, hman, Manifest.pushed, List.length_append]
      rfl
    refine ⟨db', d', _, [], hrun, hw', hs', hcar', ?_, ?_, ?_, ?_, ?_, ?_⟩
    · have hnext := Shows.next_pushed (l := l) (db.written wal op).memtable.data (hroom hdue)
      rw [hcount', hman, ← h.next_eq]
      exact hnext
    · rw [hcount']
      exact hquiet op hop hdue
    · rw [hmem]
      exact MemTable.sizeExact_clear _
    · rw [hmem]
      exact hc.flushThreshold_pos
    · rw [hmem]
      exact fun e he => absurd he (List.not_mem_nil)
    · intro key
      rw [view_flushed hmem, hview]

theorem refines_step (h : Refines hc l d db earlier ms log) (hsmall : SmallCommand command)
    (hquiet : Quiet hc db command) :
    ∃ db' d' ms' log', Succeeds (db.execute hc command) d (plainResponse earlier command, db') d' ∧
      Refines hc l d' db' (earlier ++ [command]) ms' log' := by
  cases hop : operation command with
  | some op =>
    have hok : plainResponse earlier command = text "OK" := by
      rw [plainResponse]
      rcases operation_eq_some hop with ⟨ht, -⟩ | ⟨ht, -⟩ <;> rw [ht]
    rw [hok]
    exact refines_write h hsmall hquiet hop
  | none =>
    refine ⟨db, d, ms, log, ?_, h.wired, h.shows, h.carries, h.next_eq, h.count_lt, h.sizeExact,
      h.below, h.small, fun key => (h.view_eq key).trans (lastWrite_append_other hop key).symm⟩
    rw [execute, plainResponse]
    rcases operation_eq_none hop with ht | ht | ht <;> simp only [ht]
    · rw [← h.view_eq, ← answer_eq_live]
      exact (executeGet_succeeds h.shows command).bind .pure
    · exact .pure
    · exact .pure

theorem refines_run (commands : List Command) (h : Refines hc l d db earlier ms log)
    (hsmall : ∀ c ∈ commands, SmallCommand c) (hquiet : staysQuiet hc db d commands = true) :
    ∃ db' d', Succeeds (db.executeAll hc commands) d (plainResponses earlier commands, db') d' := by
  induction commands generalizing db d earlier ms log with
  | nil => exact ⟨db, d, .pure⟩
  | cons command commands ih =>
    rw [staysQuiet, Bool.and_eq_true, decide_eq_true_eq] at hquiet
    obtain ⟨hfirst, hrest⟩ := hquiet
    obtain ⟨db₁, d₁, ms₁, log₁, hrun, h₁⟩ :=
      refines_step h (hsmall command List.mem_cons_self) hfirst
    have hrun' := hrun
    rw [Succeeds] at hrun'
    rw [hrun'] at hrest
    obtain ⟨db₂, d₂, hruns⟩ :=
      ih h₁ (fun c hc => hsmall c (List.mem_cons_of_mem _ hc)) hrest
    exact ⟨db₂, d₂, hrun.bind (hruns.bind .pure)⟩

theorem refines_initial (hc : HeaderConstants) (mode : DurabilityMode) (hd : Fresh l d) :
    ∃ db d' ms log, Succeeds (initializeDatabase hc l.walFilename mode) d (.ok db) d' ∧
      Refines hc l d' db [] ms log := by
  have hs := Shows.empty l d
  obtain ⟨db, d', hinit, hw, hman, hcar, -, hsame, hmem⟩ := initialize_succeeds hc mode
    (Or.inr ⟨hd.manifest_none, rfl⟩) hs (Or.inr ⟨hd.wal_none, rfl⟩) (Or.inl rfl)
  have hempty : db.memtable = MemTable.empty := hmem
  refine ⟨db, d', [], [], hinit, hw, hman ▸ hs.frame_wal hsame, hcar, ?_, ?_, ?_, ?_, ?_, ?_⟩
  · rw [Storage.tableCount, hman]
    rfl
  · rw [Storage.tableCount, hman]
    exact hc.compactionThreshold_pos
  · rw [hempty]
    exact MemTable.sizeExact_empty
  · rw [hempty]
    exact hc.flushThreshold_pos
  · rw [hempty]
    exact fun e he => absurd he List.not_mem_nil
  · intro key
    rw [view, hempty]
    rfl

end Steps

/-- Every response of a new database is the response of a plain map. -/
theorem session_refines_map (hc : HeaderConstants) (l : Layout) (mode : DurabilityMode) (d : Disk)
    (hd : Fresh l d) (commands : List Command)
    (hsmall : ∀ c ∈ commands, c.key.length < 2 ^ 32 ∧ c.value.length < 2 ^ 32)
    (hquiet : sessionQuiet hc l.walFilename mode d commands = true) :
    ∃ d', Succeeds (session hc l.walFilename mode commands) d
      (.ok (plainResponses [] commands)) d' := by
  obtain ⟨db, d₁, ms, log, hinit, href⟩ := refines_initial hc mode hd
  have hinit' := hinit
  rw [Succeeds] at hinit'
  rw [sessionQuiet, hinit'] at hquiet
  obtain ⟨db', d', hrun⟩ := refines_run commands href hsmall hquiet
  exact ⟨d', hinit.bind (hrun.bind .pure)⟩

/-- A write that is flushed, read back from its table file. -/
theorem session_refines_map_flushed :
    ∃ d', Succeeds (session .least (Layout.ofDirectory (text "d")).walFilename .sync
        [⟨.put, text "a", text "b"⟩, ⟨.get, text "a", []⟩, ⟨.get, text "c", []⟩]) ∅
      (.ok [text "OK", text "b", text "NOT_FOUND"]) d' :=
  session_refines_map .least (Layout.ofDirectory (text "d")) .sync ∅ ⟨rfl, rfl⟩
    [⟨.put, text "a", text "b"⟩, ⟨.get, text "a", []⟩, ⟨.get, text "c", []⟩] (by decide)
    (by decide +kernel)

end ForgeDB.MapRefinement
