import ForgeDB.ReachedStates

/-!
# Answers across restarts and broken flushes

The runs of a synchronous database from an empty directory: parsed commands, restarts,
flushes that fail or die at any step. A restart answers every read as before, and so does
whatever is left by a flush.
-/

namespace ForgeDB.RestartAnswers
open CommandParser CrashPrograms CrashPrograms.Io Database LayeredMaps ReachedStates TextStreams
open WalRecovery

/-- A command that fits the log, leaves fewer entries in memory than `std::size_t` counts,
and starts no compaction. -/
structure Acceptable (hc : HeaderConstants) (db : Database) (command : Command) : Prop where
  payload : ∀ op ∈ operation command,
    9 + op.record.key.length + op.record.value.length ≤ maxRecordSize
  countable : ∀ op ∈ operation command, (op.apply db.memtable).data.entries.length < 2 ^ 64
  quiet : Quiet hc db command

instance (hc : HeaderConstants) (db : Database) (command : Command) :
    Decidable (Acceptable hc db command) :=
  decidable_of_iff
    ((∀ op ∈ operation command, 9 + op.record.key.length + op.record.value.length ≤ maxRecordSize) ∧
      (∀ op ∈ operation command, (op.apply db.memtable).data.entries.length < 2 ^ 64) ∧
      Quiet hc db command)
    ⟨fun h => ⟨h.1, h.2.1, h.2.2⟩, fun h => ⟨h.payload, h.countable, h.quiet⟩⟩

/-- A write that has reached the log and the memory, up to the flush it may cause. -/
structure Midway (hc : HeaderConstants) (db : Database) (d : Disk) (input : Bytes) (mid : Database)
    (d₁ : Disk) : Prop where
  acceptable : Acceptable hc db (parseCommand input)
  appended : ∃ op wal, operation (parseCommand input) = some op ∧
    Succeeds (op.append hc db.storage.wal) d (true, wal) d₁ ∧ mid = db.written wal op

/-- The databases and files of all runs, with the number of writes whose end failed. Every
such write may use up a table id, which has 64 bits. -/
inductive Reached (hc : HeaderConstants) (l : Layout) : ℕ → Database → Disk → Prop
  | start {d d' : Disk} {db : Database} : Fresh l d →
      Succeeds (initializeDatabase hc l.walFilename .sync) d (.ok db) d' → Reached hc l 0 db d'
  | command {spent : ℕ} {db db' : Database} {d d' : Disk} (input response : Bytes) :
      Reached hc l spent db d → Acceptable hc db (parseCommand input) →
      Succeeds (db.execute hc (parseCommand input)) d (response, db') d' →
      Reached hc l spent db' d'
  | restart {spent : ℕ} {db db' : Database} {d d' : Disk} : Reached hc l spent db d →
      Succeeds (initializeDatabase hc l.walFilename .sync) d (.ok db') d' → Reached hc l spent db' d'
  | interrupted {spent : ℕ} {db mid db' : Database} {d d₁ : Disk} {input response : Bytes}
      {plan : List Outcome} {w : World} : Reached hc l spent db d →
      hc.compactionTableThreshold + (spent + 1) < 2 ^ 64 → Midway hc db d input mid d₁ →
      flushIfDue hc mid ⟨d₁, plan⟩ = .returned (response, db') w →
      Reached hc l (spent + 1) db' w.disk
  | crashed {spent : ℕ} {db mid db' : Database} {d d₁ d₂ d' : Disk} {input : Bytes}
      {plan : List Outcome} : Reached hc l spent db d → Midway hc db d input mid d₁ →
      flushIfDue hc mid ⟨d₁, plan⟩ = .died d₂ →
      Succeeds (initializeDatabase hc l.walFilename .sync) d₂ (.ok db') d' →
      Reached hc l spent db' d'

section Runs

variable {hc : HeaderConstants} {l : Layout} {spent : ℕ} {db mid : Database} {d d₁ : Disk}
  {input : Bytes} {ms : List Entries} {rs : List WalRecord}

theorem Reached.ids_lt (h : Reached hc l spent db d) :
    hc.compactionTableThreshold + spent < 2 ^ 64 := by
  induction h with
  | start => exact hc.compactionThreshold_lt
  | command _ _ _ _ _ ih => exact ih
  | restart _ _ ih => exact ih
  | interrupted _ hids => exact hids
  | crashed _ _ _ _ ih => exact ih

/-- A parsed write of an acceptable command is an entry that fits. -/
theorem fit_operation (hacc : Acceptable hc db (parseCommand input)) {op : LogOperation}
    (hop : operation (parseCommand input) = some op) : Fit ⟨op.key, op.entry⟩ := by
  have hpayload := hacc.payload op hop
  rw [← LogOperation.entry_value] at hpayload
  exact ⟨isWord_key hop, hpayload⟩

theorem Midway.consistent (h : Consistent hc l d spent db ms rs)
    (hmid : Midway hc db d input mid d₁) :
    (∃ rs', Consistent hc l d₁ spent mid ms rs') ∧ mid.memtable.data.entries ≠ [] ∧
      mid.memtable.data.entries.length < 2 ^ 64 ∧
      (hc.memtableFlushThreshold ≤ mid.memtable.sizeInBytes →
        mid.storage.tableCount + 1 < hc.compactionTableThreshold) := by
  obtain ⟨op, wal, hop, happend, rfl⟩ := hmid.appended
  exact ⟨⟨_, h.written (fit_operation hmid.acceptable hop) happend⟩, written_nonempty db wal op,
    hmid.acceptable.countable op hop, hmid.acceptable.quiet op hop⟩

theorem Midway.flushIfDue_ensures (hplain : l.Plain) (h : Consistent hc l d spent db ms rs)
    (hids : hc.compactionTableThreshold + spent < 2 ^ 64) (hmid : Midway hc db d input mid d₁) :
    Ensures (flushIfDue hc mid) d₁
      (fun r d' => ∃ spent' ms' rs', spent' ≤ spent + 1 ∧ Consistent hc l d' spent' r.2 ms' rs' ∧
        (∀ key, r.2.view ms' key = mid.view ms key) ∧ (r.1 = text "OK" → spent' = spent))
      (fun d' => ∃ ms' rs', Recoverable hc l d' spent ms' rs' (mid.view ms)) := by
  obtain ⟨⟨rs', hcons⟩, hne, hcount, hquiet⟩ := hmid.consistent h
  exact hcons.flushIfDue_ensures hplain hne hcount hquiet hids

theorem consistent_command (hplain : l.Plain) (h : Consistent hc l d spent db ms rs)
    (hids : hc.compactionTableThreshold + spent < 2 ^ 64)
    (hacc : Acceptable hc db (parseCommand input)) {response : Bytes} {db' : Database} {d' : Disk}
    (hrun : Succeeds (db.execute hc (parseCommand input)) d (response, db') d') :
    ∃ ms' rs', Consistent hc l d' spent db' ms' rs' := by
  cases hop : operation (parseCommand input) with
  | none =>
    obtain ⟨rfl, rfl⟩ := execute_other hc db hop hrun
    exact ⟨ms, rs, h⟩
  | some op =>
    obtain ⟨wal, d₁, happend, -⟩ := Wal.appendRecord_succeeds hc h.standing.carries op.record
    rw [← LogOperation.append_eq] at happend
    have hmid : Midway hc db d input (db.written wal op) d₁ := ⟨hacc, op, wal, hop, happend, rfl⟩
    obtain ⟨⟨rs₁, h₁⟩, hne, hcount, hquiet⟩ := hmid.consistent h
    have hroom : hc.memtableFlushThreshold ≤ (db.written wal op).memtable.sizeInBytes →
        (db.written wal op).storage.manifest.nextTableId + 1 < 2 ^ 64 := by
      intro hdue
      have hfew := hquiet hdue
      rw [h₁.length_tables] at hfew
      exact h₁.room (by omega)
    obtain ⟨db₂, d₂, hflush, -⟩ := flushIfDue_succeeds hc h₁.standing.wired h₁.standing.shows
      h₁.standing.carries hne (fun hdue => ⟨h₁.storable hcount, hroom hdue, hquiet hdue⟩)
    have hexec : Succeeds (db.execute hc (parseCommand input)) d (text "OK", db₂) d₂ := by
      rw [execute_write hc db hop]
      exact happend.bind hflush
    obtain ⟨hresponse, rfl⟩ := hrun.unique hexec
    obtain ⟨rfl, rfl⟩ := Prod.mk.inj hresponse
    obtain ⟨spent', ms', rs', -, hcons, -, hok⟩ :=
      (hmid.flushIfDue_ensures hplain h hids).of_succeeds hflush
    rw [hok rfl] at hcons
    exact ⟨ms', rs', hcons⟩

theorem Reached.consistent (hplain : l.Plain) (h : Reached hc l spent db d) :
    ∃ ms rs, Consistent hc l d spent db ms rs := by
  induction h with
  | start hd hinit =>
    obtain ⟨db', d', hinit', hcons, -⟩ := (recoverable_fresh hc hd).start
    obtain ⟨hdb, rfl⟩ := hinit.unique hinit'
    cases hdb
    exact ⟨_, _, hcons⟩
  | command input response hreached hacc hrun ih =>
    obtain ⟨ms, rs, h⟩ := ih
    exact consistent_command hplain h hreached.ids_lt hacc hrun
  | restart _ hinit ih =>
    obtain ⟨ms, rs, h⟩ := ih
    obtain ⟨db', d', hinit', hcons, -⟩ := h.recoverable.start
    obtain ⟨hdb, rfl⟩ := hinit.unique hinit'
    cases hdb
    exact ⟨_, _, hcons⟩
  | interrupted hreached _ hmid hflush ih =>
    obtain ⟨ms, rs, h⟩ := ih
    obtain ⟨spent', ms', rs', hle, hcons, -⟩ :=
      (hmid.flushIfDue_ensures hplain h hreached.ids_lt).of_returned hflush
    exact ⟨ms', rs', hcons.mono hle⟩
  | crashed hreached hmid hdied hinit ih =>
    obtain ⟨ms, rs, h⟩ := ih
    obtain ⟨ms', rs', hrec⟩ := (hmid.flushIfDue_ensures hplain h hreached.ids_lt).of_died hdied
    obtain ⟨db', d', hinit', hcons, -⟩ := hrec.start
    obtain ⟨hdb, rfl⟩ := hinit.unique hinit'
    cases hdb
    exact ⟨_, _, hcons⟩

end Runs

def directory : Layout := Layout.ofDirectory (text "d")

/-- Four bytes fill the table in memory and four tables are too many. -/
def fewBytes : HeaderConstants := .ofThresholds 4 4 (by decide) (by decide)

def opened : Database where
  memtable := MemTable.empty
  storage := ⟨directory.walFilename, .sync, ⟨directory.walFilename, .sync, true, true, []⟩,
    ⟨directory.manifestFilename, [], 1⟩⟩

def openedDisk : Disk := AList.singleton directory.walFilename (.regular [])

theorem reached_opened : Reached fewBytes directory 0 opened openedDisk :=
  .start (d := ∅) ⟨rfl, rfl⟩ (by decide +kernel)

def firstTable : Entries := AList.singleton (text "b") ⟨text "yyy", false⟩

def flushed : Database where
  memtable := MemTable.empty
  storage := { opened.storage with
    manifest := ⟨directory.manifestFilename,
      [SSTables.metadataOf 1 (directory.tableFilename 1) firstTable], 2⟩ }

def flushedDisk : Disk :=
  match opened.execute fewBytes (parseCommand (text "put b yyy")) ⟨openedDisk, []⟩ with
  | .returned _ w => w.disk
  | .died d => d

def deleted : Database := { flushed with memtable := flushed.memtable.erase (text "b") }

def deletedDisk : Disk :=
  match flushed.execute fewBytes (parseCommand (text "DEL b")) ⟨flushedDisk, []⟩ with
  | .returned _ w => w.disk
  | .died d => d

theorem reached_deleted : Reached fewBytes directory 0 deleted deletedDisk := by
  have hflushed : Reached fewBytes directory 0 flushed flushedDisk :=
    reached_opened.command (text "put b yyy") (text "OK") (by decide +kernel) (by decide +kernel)
  exact hflushed.command (text "DEL b") (text "OK") (by decide +kernel) (by decide +kernel)

/-- After every run, a restart succeeds and answers every read as the database would have. -/
theorem restart_keeps_answers (hc : HeaderConstants) (l : Layout) (hplain : l.Plain) (spent : ℕ)
    (db : Database) (d : Disk) (h : Reached hc l spent db d) :
    ∃ db' d', Succeeds (initializeDatabase hc l.walFilename .sync) d (.ok db') d' ∧
      SameReads hc db d db' d' := by
  obtain ⟨ms, rs, hcons⟩ := h.consistent hplain
  exact hcons.recoverable.sameReads hcons

/-- A key that is in a table and deleted in the log. -/
theorem restart_keeps_answers_deleted :
    ∃ db' d', Succeeds (initializeDatabase fewBytes directory.walFilename .sync) deletedDisk
        (.ok db') d' ∧ SameReads fewBytes deleted deletedDisk db' d' :=
  restart_keeps_answers fewBytes directory (by decide +kernel) 0 deleted deletedDisk reached_deleted

/-- A flush that stops anywhere, by the plan, loses no answer: not to a restart after a death,
not to the database that goes on, and not to a later flush. -/
theorem flush_keeps_answers (hc : HeaderConstants) (l : Layout) (hplain : l.Plain) (spent : ℕ)
    (db : Database) (d : Disk) (h : Reached hc l spent db d) (input : Bytes) (mid : Database)
    (d₁ : Disk) (hmid : Midway hc db d input mid d₁)
    (hdue : hc.memtableFlushThreshold ≤ mid.memtable.sizeInBytes) (plan : List Outcome) :
    (∀ d₂, mid.flushMemtable ⟨d₁, plan⟩ = .died d₂ →
      ∃ db' d', Succeeds (initializeDatabase hc l.walFilename .sync) d₂ (.ok db') d' ∧
        SameReads hc mid d₁ db' d') ∧
    ∀ result db' w, mid.flushMemtable ⟨d₁, plan⟩ = .returned (result, db') w →
      SameReads hc mid d₁ db' w.disk ∧
      (∃ db'' d'', Succeeds (initializeDatabase hc l.walFilename .sync) w.disk (.ok db'') d'' ∧
        SameReads hc mid d₁ db'' d'') ∧
      ∀ e, result = .error e → hc.compactionTableThreshold + (spent + 1) < 2 ^ 64 →
        Reached hc l (spent + 1) db' w.disk ∧
        (∃ db'' d'', Succeeds db'.flushMemtable w.disk (.ok (), db'') d'') ∧
        ∀ plan' db'' w', db'.flushMemtable ⟨w.disk, plan'⟩ = .returned (.ok (), db'') w' →
          SameReads hc mid d₁ db'' w'.disk := by
  obtain ⟨ms, rs, hcons⟩ := h.consistent hplain
  obtain ⟨⟨rs₁, h₁⟩, hne, hcount, hquiet⟩ := hmid.consistent hcons
  have hfew := hquiet hdue
  rw [h₁.length_tables] at hfew
  have hids := h.ids_lt
  have hensures := h₁.flushMemtable_ensures hplain hne hcount (by omega)
  constructor
  · intro d₂ hdied
    obtain ⟨ms', rs', hrec⟩ := hensures.of_died hdied
    exact hrec.sameReads h₁
  · intro result db' w hret
    obtain ⟨spent', ms', rs', hlength, -, h', hview, hmem, -⟩ := hensures.of_returned hret
    refine ⟨sameReads_of_view h₁ h' hview, ?_, ?_⟩
    · have hrec := h'.recoverable
      rw [show db'.view ms' = mid.view ms from funext hview] at hrec
      exact hrec.sameReads h₁
    · rintro e rfl hmore
      have hmem' := hmem e rfl
      have hne' : db'.memtable.data.entries ≠ [] := by rwa [hmem']
      have hcount' : db'.memtable.data.entries.length < 2 ^ 64 := by rwa [hmem']
      have hend : flushIfDue hc mid ⟨d₁, plan⟩ =
          .returned (text "ERROR flush failed: " ++ e, db') w := by
        rw [flushIfDue, if_neg (not_lt.mpr hdue), bind_run, hret]
        rfl
      refine ⟨h.interrupted hmore hmid hend, h'.flushMemtable_succeeds hne' hcount' (by omega), ?_⟩
      intro plan' db'' w' hret'
      obtain ⟨_, ms'', _, -, -, h'', hview', -⟩ :=
        (h'.flushMemtable_ensures hplain hne' hcount' (by omega)).of_returned hret'
      exact sameReads_of_view h₁ h'' (fun key => (hview' key).trans (hview key))

def midway : Database := opened.written opened.storage.wal (.put (text "b") (text "yyy"))

def midwayDisk : Disk :=
  AList.singleton directory.walFilename
    (.regular (Wal.frame fewBytes ⟨.put, text "b", text "yyy"⟩))

theorem midway_opened :
    Midway fewBytes opened openedDisk (text "put b yyy") midway midwayDisk :=
  ⟨by decide +kernel, .put (text "b") (text "yyy"), opened.storage.wal, by decide +kernel,
    by decide +kernel, rfl⟩

/-- A death in the middle of the table file, and a log that cannot be emptied. -/
theorem flush_keeps_answers_opened :
    (∃ d₂, midway.flushMemtable ⟨midwayDisk, [.succeeds, .dies 3]⟩ = .died d₂ ∧
      ∃ db' d', Succeeds (initializeDatabase fewBytes directory.walFilename .sync) d₂ (.ok db') d' ∧
        SameReads fewBytes midway midwayDisk db' d') ∧
    ∃ db' w, midway.flushMemtable ⟨midwayDisk, List.replicate 6 .succeeds ++ [.fails 0]⟩ =
        .returned (.error (text "Failed to reset WAL"), db') w ∧
      SameReads fewBytes midway midwayDisk db' w.disk := by
  have hflush := flush_keeps_answers fewBytes directory (by decide +kernel) 0 opened openedDisk
    reached_opened (text "put b yyy") midway midwayDisk midway_opened (by decide +kernel)
  have hdied : ∃ d₂, midway.flushMemtable ⟨midwayDisk, [.succeeds, .dies 3]⟩ = .died d₂ := ⟨_, rfl⟩
  have hfailed : ∃ db' w, midway.flushMemtable
      ⟨midwayDisk, List.replicate 6 .succeeds ++ [.fails 0]⟩ =
        .returned (.error (text "Failed to reset WAL"), db') w := ⟨_, _, rfl⟩
  obtain ⟨d₂, hdied⟩ := hdied
  obtain ⟨db', w, hfailed⟩ := hfailed
  exact ⟨⟨d₂, hdied, (hflush _).1 d₂ hdied⟩, db', w, hfailed, ((hflush _).2 _ _ _ hfailed).1⟩

end ForgeDB.RestartAnswers
