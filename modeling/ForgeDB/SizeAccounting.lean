import ForgeDB.CleanTables

/-!
# The size of the table in memory

Over a whole run the recorded size is the number of key and value bytes held. Writes
change it by differences, a start counts anew by another formula, and the two agree
because no tombstone ever carries a value: not in memory, not in the table files, and not
in what the log is replayed to. So an acknowledged write leaves the size below the
threshold for a flush.
-/

namespace ForgeDB.SizeAccounting
open CleanTables CommandParser CrashPrograms CrashPrograms.Io Database LayeredMaps SSTables
open ReachedStates Reopening RestartAnswers StartupDamage TableIds TextStreams WalRecovery

/-- A running database with an exact size and clean entries everywhere. The log is in order
unless it has failed. -/
structure SizeExactDatabase (hc : HeaderConstants) (l : Layout) (intact : Bool) (db : Database)
    (d : Disk) : Prop where
  engine : CleanStorage l db.storage d
  clean : ∀ e ∈ db.memtable.data.entries, Clean e
  exact : db.memtable.SizeExact
  log : intact = true → Logged hc db.storage.wal d

section Steps

variable {hc : HeaderConstants} {l : Layout} {intact : Bool} {d : Disk} {db db' : Database}
  {w w' : World} {op : LogOperation}

theorem clean_operation (h : Kept ⟨op.key, op.entry⟩) : Clean ⟨op.key, op.entry⟩ := by
  refine ⟨h, ?_⟩
  cases op with
  | put key value =>
    intro hdeleted
    cases hdeleted
  | delete key => exact fun _ => rfl

theorem SizeExactDatabase.appended (hl : Apart l) (h : SizeExactDatabase hc l intact db w.disk)
    (hop : Kept ⟨op.key, op.entry⟩) {ok : Bool} {wal : Wal}
    (hrun : op.append hc db.storage.wal w = .returned (ok, wal) w') :
    SizeExactDatabase hc l (intact && ok) (TableIds.appended db op ok wal) w'.disk := by
  rw [LogOperation.append_eq] at hrun
  obtain ⟨⟨hname, -⟩, hsame⟩ :=
    (Wal.appendRecord_frame hc db.storage.wal op.record w.disk).of_run hrun
  rw [h.engine.wired.wal_eq] at hsame
  have hmanifest := h.engine.clean.of_log hl hsame
  have hwal : wal.filename = l.walFilename := hname.trans h.engine.wired.wal_eq
  cases ok with
  | false =>
    exact ⟨⟨⟨h.engine.wired.walFilename_eq, hwal⟩, hmanifest⟩, h.clean, h.exact, by simp⟩
  | true =>
    refine ⟨⟨⟨h.engine.wired.walFilename_eq, hwal⟩, hmanifest⟩, ?_,
      LogOperation.sizeExact_apply h.exact op, fun hintact => ?_⟩
    · change ∀ e ∈ (db.written wal op).memtable.data.entries, Clean e
      rw [Database.written, LogOperation.apply_data_eq]
      exact forall_mem_insert h.clean (clean_operation hop)
    · exact logged_appended (h.log (by simpa using hintact)) hop hrun

theorem SizeExactDatabase.flushed (hl : Apart l) (h : SizeExactDatabase hc l intact db w.disk)
    {r : Except Bytes Unit} (hrun : db.flushMemtable w = .returned (r, db') w') :
    SizeExactDatabase hc l (intact && r ≠ .error (text "Failed to reset WAL")) db' w'.disk ∧
      (r = .ok () → db'.memtable.sizeInBytes = 0) := by
  by_cases hne : db.memtable.data.entries = []
  · have hnothing : db.flushMemtable = return (.ok (), db) := if_pos hne
    rw [hnothing] at hrun
    cases hrun
    refine ⟨⟨h.engine, h.clean, h.exact, fun hintact => h.log (by simpa using hintact)⟩, fun _ => ?_⟩
    rw [h.exact, MemTable.totalSize, hne]
    rfl
  rw [flushMemtable_nonempty hne] at hrun
  obtain ⟨⟨result, s'⟩, w₁, hflush, hrest⟩ := bind_returned hrun
  obtain ⟨hengine, hlog⟩ := (flush_clean hl h.engine h.clean hne).of_run hflush
  cases result with
  | error e =>
    cases hrest
    refine ⟨⟨hengine, h.clean, h.exact, fun hintact => ?_⟩, by simp⟩
    rw [Bool.and_eq_true, decide_eq_true_eq] at hintact
    exact logged_failed h.engine.wired (h.log hintact.1) hlog hintact.2
  | ok u =>
    cases hrest
    refine ⟨⟨hengine, fun e he => absurd he List.not_mem_nil, MemTable.sizeExact_clear db.memtable,
      fun hintact => ?_⟩, fun _ => rfl⟩
    rw [Bool.and_eq_true] at hintact
    exact logged_flushed (h.log hintact.1) hlog

/-- Any compaction, or none. The table in memory is not touched. -/
theorem SizeExactDatabase.compacted (hl : Apart l) (h : SizeExactDatabase hc l intact db w.disk)
    {r : Except Bytes Unit} (hrun : db.maybeCompact hc w = .returned (r, db') w') :
    SizeExactDatabase hc l intact db' w'.disk ∧ db'.memtable = db.memtable := by
  rw [maybeCompact] at hrun
  split at hrun
  · cases hrun
    exact ⟨h, rfl⟩
  obtain ⟨⟨result, s'⟩, w₁, hcompact, hrest⟩ := bind_returned hrun
  cases hrest
  obtain ⟨hengine, hwal, hlookup⟩ := (compact_clean hl h.engine).of_run hcompact
  exact ⟨⟨hengine, h.clean, h.exact,
    fun hintact => logged_same h.engine.wired (h.log hintact) hwal hlookup⟩, rfl⟩

/-- The answers of a write that leaves the log in order. -/
def logTaken (response : Bytes) : Bool :=
  response ≠ text "ERROR failed to write WAL" ∧
    response ≠ text "ERROR flush failed: " ++ text "Failed to reset WAL"

/-- A command with this answer leaves the log in order. A lookup always does, whatever the value
it returns says. -/
def keepsLog (command : Command) (response : Bytes) : Bool :=
  (operation command).isNone || logTaken response

/-- The end of a write. A write that is acknowledged leaves the size below the threshold: the table
in memory was small enough, or the flush has emptied it. -/
theorem SizeExactDatabase.flushIfDue (hl : Apart l) (h : SizeExactDatabase hc l intact db w.disk)
    {response : Bytes} (hrun : Database.flushIfDue hc db w = .returned (response, db') w') :
    SizeExactDatabase hc l (intact && logTaken response) db' w'.disk ∧
      (response = text "OK" → db'.memtable.sizeInBytes < hc.memtableFlushThreshold) := by
  rcases flushIfDue_returned hrun with ⟨hsmall, -, rfl, rfl⟩ | ⟨-, e, hflush, rfl⟩ |
    ⟨-, r, db₁, w₁, hflush, hcompact, -⟩
  · exact ⟨⟨h.engine, h.clean, h.exact, fun hintact => h.log (Bool.and_eq_true_iff.mp hintact).1⟩,
      fun _ => hsmall⟩
  · obtain ⟨h₁, -⟩ := h.flushed hl hflush
    refine ⟨⟨h₁.engine, h₁.clean, h₁.exact, fun hintact => h₁.log ?_⟩, fun hok => ?_⟩
    · rw [Bool.and_eq_true, logTaken, decide_eq_true_eq] at hintact
      rw [Bool.and_eq_true, decide_eq_true_eq]
      refine ⟨hintact.1, fun hreset => hintact.2.2 ?_⟩
      rw [Except.error.inj hreset]
    · exact absurd (congrArg List.head? hok) (by simp [text])
  · obtain ⟨h₁, hempty⟩ := h.flushed hl hflush
    have h₁' : SizeExactDatabase hc l intact db₁ w₁.disk :=
      ⟨h₁.engine, h₁.clean, h₁.exact, fun hintact => h₁.log (by simp [hintact])⟩
    obtain ⟨h₂, hsame⟩ := h₁'.compacted hl hcompact
    refine ⟨⟨h₂.engine, h₂.clean, h₂.exact,
      fun hintact => h₂.log (Bool.and_eq_true_iff.mp hintact).1⟩, fun _ => ?_⟩
    rw [hsame, hempty rfl]
    exact hc.flushThreshold_pos

theorem SizeExactDatabase.command (hl : Apart l) (h : SizeExactDatabase hc l intact db w.disk)
    {input response : Bytes}
    (hsmall : (parseCommand input).key.length < 2 ^ 32 ∧ (parseCommand input).value.length < 2 ^ 32)
    (hrun : db.execute hc (parseCommand input) w = .returned (response, db') w') :
    SizeExactDatabase hc l (intact && keepsLog (parseCommand input) response) db' w'.disk ∧
      ((operation (parseCommand input)).isSome = true → response = text "OK" →
        db'.memtable.sizeInBytes < hc.memtableFlushThreshold) := by
  cases hop : operation (parseCommand input) with
  | none =>
    obtain ⟨rfl, hdisk⟩ := (execute_other_ensures hc db hop w.disk).of_run hrun
    rw [hdisk]
    exact ⟨⟨h.engine, h.clean, h.exact, fun hintact => h.log (Bool.and_eq_true_iff.mp hintact).1⟩,
      by simp⟩
  | some op =>
    have hkept : Kept ⟨op.key, op.entry⟩ := by
      refine ⟨isWord_key hop, ?_⟩
      rcases operation_eq_some hop with ⟨-, rfl⟩ | ⟨-, rfl⟩
      · exact hsmall
      · exact ⟨hsmall.1, Nat.two_pow_pos 32⟩
    have hkeeps : keepsLog (parseCommand input) response = logTaken response := by
      rw [keepsLog, hop]
      rfl
    rw [hkeeps]
    rw [execute_write hc db hop] at hrun
    obtain ⟨⟨ok, wal⟩, w₁, happend, hrun⟩ := bind_returned hrun
    have h₁ := h.appended hl hkept happend
    cases ok with
    | false =>
      cases hrun
      refine ⟨⟨h₁.engine, h₁.clean, h₁.exact, fun hintact => ?_⟩, fun _ hok => ?_⟩
      · rw [Bool.and_eq_true, logTaken, decide_eq_true_eq] at hintact
        exact absurd rfl hintact.2.1
      · exact absurd (congrArg List.head? hok) (by simp [text])
    | true =>
      rw [Bool.and_true] at h₁
      obtain ⟨h₂, hbelow⟩ := SizeExactDatabase.flushIfDue hl h₁ hrun
      exact ⟨h₂, fun _ => hbelow⟩

end Steps

/-- An empty directory. With white space in its path the words of the text file can be paths of
other files; none of these is a table. -/
structure Empty (l : Layout) (d : Disk) : Prop where
  vacant : Vacant l d
  unread : ¬ l.Plain → ∀ path, IsWord path → ∀ found, loadResult d path ≠ .ok found

/-- The states of a run that starts on an empty directory: commands whose keys and values are
shorter than `2 ^ 32` bytes, with whatever becomes of their steps, and restarts. Commands are
what the parser returns, for nothing else is executed; a key with white space in it could
make the list name any file. The flag says that the log has taken every write and every
reset; only then may the process be stopped and started again, and the start has to succeed. -/
inductive Served (hc : HeaderConstants) (l : Layout) : Bool → Database → Disk → Prop
  | start {d d' : Disk} {db : Database} (mode : DurabilityMode) : Empty l d →
      Succeeds (initializeDatabase hc l.walFilename mode) d (.ok db) d' → Served hc l true db d'
  | command {intact : Bool} {db db' : Database} {w w' : World} {response : Bytes} (input : Bytes) :
      Served hc l intact db w.disk →
      (parseCommand input).key.length < 2 ^ 32 ∧ (parseCommand input).value.length < 2 ^ 32 →
      db.execute hc (parseCommand input) w = .returned (response, db') w' →
      Served hc l (intact && keepsLog (parseCommand input) response) db' w'.disk
  | restart {db db' : Database} {d d₁ d₂ : Disk} {wal : Wal} (mode : DurabilityMode) :
      Served hc l true db d → Succeeds db.storage.wal.close d wal d₁ →
      Succeeds (initializeDatabase hc l.walFilename mode) d₁ (.ok db') d₂ → Served hc l true db' d₂

section Runs

variable {hc : HeaderConstants} {l : Layout} {intact : Bool} {d d' : Disk} {db db' : Database}

theorem sizeExact_start (hl : Apart l) (htext : TextKept l d) (hfiles : CleanFiles l d)
    {ops : List LogOperation} (hlog : LogFile l d (frames hc (ops.map LogOperation.record)))
    (hops : ∀ op ∈ ops, Kept ⟨op.key, op.entry⟩) {mode : DurabilityMode}
    (hinit : Succeeds (initializeDatabase hc l.walFilename mode) d (.ok db) d') :
    SizeExactDatabase hc l true db d' := by
  obtain ⟨r, d₁, hstorage, hr⟩ := initializeStorage_clean hl htext hfiles hlog mode
  obtain ⟨s, rfl⟩ := storage_of_initialize hinit hstorage
  obtain ⟨hw, hmanifest, hcar, hfile⟩ := hr s rfl
  obtain ⟨rfl, data, hload, rfl⟩ := memtable_of_initialize hinit hstorage (hw.wal_eq ▸ hfile)
  rcases hmanifest with hmanifest | ⟨t, ht, hrejected⟩
  · obtain ⟨-, htables⟩ := hmanifest.load_clean.of_succeeds hload
    have hreplayed := replayed_forall hc hops (fun op hop => clean_operation (hops op hop))
    have hclean := forall_mem_overwrite (htables data rfl) hreplayed
    exact ⟨⟨hw, hmanifest⟩, hclean, MemTable.sizeExact_replace .empty (fun e he => (hclean e he).2),
      fun _ => ⟨ops, hcar, hops⟩⟩
  · -- a listed file that cannot be read would have stopped the start
    obtain ⟨e, hstop⟩ := loadTables_rejected ht hrejected ∅
    cases (hload.unique hstop).1

theorem Empty.files (h : Empty l d) : CleanFiles l d := by
  refine ⟨fun path hsst hsome => absurd (h.vacant.tables_none path hsst) hsome, ?_, h.unread⟩
  intro id found hload
  exact absurd hload (loadResult_none (h.vacant.tables_none _ (List.suffix_append _ _)) found)

theorem Served.sizeExact (hl : Apart l)
    (h : Served hc l intact db d) : SizeExactDatabase hc l intact db d := by
  induction h with
  | start mode hempty hinit =>
    have hnone : ∀ op ∈ ([] : List LogOperation), Kept ⟨op.key, op.entry⟩ := by simp
    exact sizeExact_start hl (Or.inl hempty.vacant.fresh.manifest_none) hempty.files
      (Or.inr ⟨hempty.vacant.fresh.wal_none, rfl⟩) hnone hinit
  | command input _ hsmall hrun ih => exact (ih.command hl hsmall hrun).1
  | restart mode _ hclose hinit ih =>
    obtain ⟨hsame, ops, hlog, hops⟩ := logged_closed ih.engine.wired (ih.log rfl) hclose
    have hmanifest := ih.engine.clean.of_log hl hsame
    exact sizeExact_start hl hmanifest.listed hmanifest.files hlog hops hinit

end Runs

def roomy : HeaderConstants := .ofThresholds 100 100 (by decide) (by decide)

def opened (d : Disk) : Database × Disk :=
  match initializeDatabase roomy directory.walFilename .sync ⟨d, []⟩ with
  | .returned (.ok db) w => (db, w.disk)
  | .returned (.error _) w => (listing [] 1, w.disk)
  | .died d => (listing [] 1, d)

end ForgeDB.SizeAccounting
