import ForgeDB.Deaths
import ForgeDB.StorageCrashes
import ForgeDB.UnflushedWrites

/-!
# A death in the middle of a command

The process may die in any step of a command, after failures of other steps or without any:
in its log record, in the flush that it causes, or in the compaction behind the flush, also
after earlier compactions. A start on what is left reads the commands without this one or
with it.
-/

namespace ForgeDB.CompactionRuns
open CommandParser CompactionSteps CrashPrograms CrashPrograms.Io Database DirectoryRebuilds
open LayeredMaps Manifest MapRefinement ReachedStates Reopening RestartAnswers SSTables TableIds
open TextStreams WalCuts WalRecovery

/-- Files on which a start reads the values of `f`. -/
def Leaves (hc : HeaderConstants) (l : Layout) (d : Disk) (f : Bytes → Option MemTableEntry) :
    Prop :=
  ∃ ts ms ops n, Boots l d ts ms ∧
    (∀ op ∈ ops, 9 + op.record.key.length + op.record.value.length ≤ maxRecordSize) ∧
    LogFile l d ((frames hc (ops.map LogOperation.record)).take n) ∧
    ∀ key, live (((replay ∅ ((completeWithin hc n ops).map LogOperation.record)).lookup key).or
      (newest ms key)) = live (f key)

section Commands

variable {hc : HeaderConstants} {l : Layout} {d d' : Disk} {db : Database}
  {ops : List LogOperation} {ts : List SSTableMetadata} {ms : List Entries} {input : Bytes}
  {f : Bytes → Option MemTableEntry}

theorem Leaves.restarted (hplain : l.Plain) (hapart : ¬ text ".sst" <:+ l.walFilename)
    (h : Leaves hc l d f) (mode : DurabilityMode) :
    ∃ db d', Succeeds (initializeDatabase hc l.walFilename mode) d (.ok db) d' ∧
      ∀ key, Succeeds (db.execute hc ⟨.get, key, []⟩) d' (answer (f key), db) d' := by
  obtain ⟨ts, ms, ops, n, hboots, hpayload, hlog, hlive⟩ := h
  obtain ⟨db, d', hinit, hshows, hview⟩ := hboots.restarted_cut hplain hapart hpayload hlog mode
  refine ⟨db, d', hinit, fun key => ?_⟩
  have hread := executeGet_succeeds hshows ⟨.get, key, []⟩
  rw [answer_eq_live, hview, hlive, ← answer_eq_live] at hread
  exact hread.bind .pure

theorem leaves_of_whole (hboots : Boots l d ts ms)
    (hpayload : ∀ op ∈ ops, 9 + op.record.key.length + op.record.value.length ≤ maxRecordSize)
    (hlog : d.lookup l.walFilename = some (.regular (frames hc (ops.map LogOperation.record))))
    (hlive : ∀ key, live (((replay ∅ (ops.map LogOperation.record)).lookup key).or
      (newest ms key)) = live (f key)) : Leaves hc l d f := by
  refine ⟨ts, ms, ops, (frames hc (ops.map LogOperation.record)).length, hboots, hpayload, ?_, ?_⟩
  · rw [List.take_length]
    exact Or.inl hlog
  · rw [completeWithin_all (le_refl _)]
    exact hlive

theorem DirectoryComplete.logFile (h : DirectoryComplete hc l d db ops ts ms)
    (hsync : db.storage.wal.durabilityMode = .sync) :
    d.lookup l.walFilename = some (.regular (frames hc (ops.map LogOperation.record))) := by
  have hlog := h.reopenable.carries.lookup_of_sync hsync
  rwa [h.reopenable.wired.wal_eq] at hlog

theorem DirectoryComplete.leaves (hapart : ¬ text ".sst" <:+ l.walFilename)
    (h : DirectoryComplete hc l d db ops ts ms) (hsync : db.storage.wal.durabilityMode = .sync) :
    Leaves hc l d (db.view ms) :=
  leaves_of_whole (h.boots hapart .refl) h.reopenable.payload (h.logFile hsync)
    (fun key => congrArg live (h.agrees key))

theorem completeWithin_append (hc : HeaderConstants) (ops rest : List LogOperation) (n : ℕ) :
    completeWithin hc ((frames hc (ops.map LogOperation.record)).length + n) (ops ++ rest) =
      ops ++ completeWithin hc n rest := by
  induction ops with
  | nil => rw [List.map_nil, frames_nil, List.length_nil, Nat.zero_add, List.nil_append,
      List.nil_append]
  | cons op ops ih =>
    rw [List.map_cons, frames_cons, List.length_append, List.cons_append, completeWithin,
      if_pos (by omega), Nat.add_assoc, Nat.add_sub_cancel_left, ih, List.cons_append]

/-- Dead in its log record, the process leaves the record or nothing of it. -/
theorem DirectoryComplete.append_died (hapart : ¬ text ".sst" <:+ l.walFilename)
    (h : DirectoryComplete hc l d db ops ts ms) (hsync : db.storage.wal.durabilityMode = .sync)
    {op : LogOperation} (hop : 9 + op.record.key.length + op.record.value.length ≤ maxRecordSize)
    {plan : List Outcome} (hdied : op.append hc db.storage.wal ⟨d, plan⟩ = .died d') :
    Leaves hc l d' (db.view ms) ∨ Leaves hc l d' (viewAfter op (db.view ms)) := by
  rw [LogOperation.append_eq] at hdied
  obtain ⟨⟨n, hlog⟩, hsame⟩ :=
    (Wal.appendRecord_dies hc h.reopenable.carries hsync op.record).of_died hdied
  rw [h.reopenable.wired.wal_eq] at hlog hsame
  have hpayload : ∀ op' ∈ ops ++ [op],
      9 + op'.record.key.length + op'.record.value.length ≤ maxRecordSize := by
    intro op' hop'
    rcases List.mem_append.mp hop' with hop' | hop'
    · exact h.reopenable.payload op' hop'
    · rw [List.mem_singleton.mp hop']
      exact hop
  have htake : (frames hc ((ops ++ [op]).map LogOperation.record)).take
      ((frames hc (ops.map LogOperation.record)).length + n) =
        frames hc (ops.map LogOperation.record) ++ (Wal.frame hc op.record).take n := by
    rw [List.map_append, frames_append, List.take_length_add_append, List.map_singleton,
      frames_cons, frames_nil, List.append_nil]
  have hleaves : ∀ {f}, (∀ key, live (((replay ∅ ((ops ++ completeWithin hc n [op]).map
      LogOperation.record)).lookup key).or (newest ms key)) = live (f key)) → Leaves hc l d' f := by
    intro f hlive
    refine ⟨ts, ms, ops ++ [op], _, h.boots hapart hsame, hpayload,
      Or.inl (hlog.trans (congrArg (fun bytes => some (Node.regular bytes)) htake.symm)), ?_⟩
    rw [completeWithin_append]
    exact hlive
  by_cases hfits : (Wal.frame hc op.record).length ≤ n
  · -- the whole record
    refine Or.inr (hleaves (fun key => ?_))
    rw [completeWithin, if_pos hfits, completeWithin, List.map_append, List.map_singleton,
      lookup_replay_append, viewAfter, ← h.agrees]
    split <;> rfl
  · refine Or.inl (hleaves (fun key => ?_))
    rw [completeWithin, if_neg hfits, List.append_nil, h.agrees]

theorem DirectoryComplete.missing_beside (h : DirectoryComplete hc l d db ops ts ms)
    {gone : SSTableMetadata}
    (hgone : gone ∈ db.storage.manifest.tables) (hname : gone.filename = l.tableFilename gone.id)
    (hids : ∀ t ∈ ts, t.id ≠ gone.id)
    (hsame : Disk.SameExcept (l.tableFilename db.storage.manifest.nextTableId :: l.walFilename ::
      db.storage.manifest.paths) d d') : d'.lookup gone.filename = none := by
  rw [hsame _ ?_, h.missing hname hids]
  rw [hname, List.mem_cons, List.mem_cons, not_or, not_or]
  exact ⟨fun he => (h.listed_lt gone hgone).ne (l.tableFilename_injective he),
    (l.wal_ne_table gone.id).symm,
    l.table_notMem_paths h.reopenable.persisted.filename_eq gone.id⟩

theorem DirectoryComplete.covered_cut (hapart : ¬ text ".sst" <:+ l.walFilename)
    (h : DirectoryComplete hc l d db ops ts ms) (hcount : db.memtable.data.entries.length < 2 ^ 64)
    (hcut : TableCut l d d' db.storage.manifest db.memtable.data) :
    Covered d' ts ∨ d'.lookup (l.tableFilename db.storage.manifest.nextTableId) =
      some (.regular (tableContents db.memtable.data)) := by
  have hsame := hcut.beside
  have hothers : (∀ node, d'.lookup (l.tableFilename db.storage.manifest.nextTableId) = some node →
      (∃ t ∈ ts, l.tableFilename db.storage.manifest.nextTableId = t.filename) ∨
        PassedOver (l.tableFilename db.storage.manifest.nextTableId) node) → Covered d' ts := by
    intro hown path node hpath hlookup
    by_cases hnew : path = l.tableFilename db.storage.manifest.nextTableId
    · subst hnew
      exact hown node hlookup
    · exact Or.inl (h.only_beside hapart hsame hpath (by simp [hlookup]) hnew)
  obtain hold | ⟨n, htorn⟩ := hcut.file
  · refine Or.inl (hothers (fun node hlookup => Or.inl (h.only _ (List.suffix_append _ _) ?_)))
    rw [← hold, hlookup]
    exact Option.some_ne_none node
  · by_cases hwhole : (tableContents db.memtable.data).length ≤ n
    · rw [List.take_of_length_le hwhole] at htorn
      exact Or.inr htorn
    · refine Or.inl (hothers (fun node hlookup => Or.inr ?_))
      obtain rfl := Option.some.inj (htorn.symm.trans hlookup)
      refine Or.inr (Or.inr (Or.inr (Or.inl ⟨db.memtable.data, _,
        fun e he => (h.reopenable.kept e he).2, hcount, rfl, List.take_prefix _ _, ?_⟩)))
      intro heq
      have hlength := congrArg List.length heq
      rw [List.length_take] at hlength
      omega

theorem DirectoryComplete.covered_pushed (hapart : ¬ text ".sst" <:+ l.walFilename)
    (h : DirectoryComplete hc l d db ops ts ms)
    (hsame : Disk.SameExcept (l.tableFilename db.storage.manifest.nextTableId :: l.walFilename ::
      db.storage.manifest.paths) d d') :
    Covered d' (ts ++ [Shows.nextTable l db.storage.manifest db.memtable.data]) := by
  intro path node hpath hlookup
  by_cases hnew : path = l.tableFilename db.storage.manifest.nextTableId
  · exact Or.inl ⟨_, List.mem_append_right _ List.mem_cons_self, hnew⟩
  · obtain ⟨t, ht, hfile⟩ := h.only_beside hapart hsame hpath (by simp [hlookup]) hnew
    exact Or.inl ⟨t, List.mem_append_left _ ht, hfile⟩

/-- A start on the old list reads the old tables, and perhaps the new one. -/
theorem DirectoryComplete.boots_cut (hapart : ¬ text ".sst" <:+ l.walFilename)
    (h : DirectoryComplete hc l d db ops ts ms) (hne : db.memtable.data.entries ≠ [])
    (hcount : db.memtable.data.entries.length < 2 ^ 64)
    (hroom : db.storage.manifest.nextTableId + 1 < 2 ^ 64)
    (hcut : TableCut l d d' db.storage.manifest db.memtable.data) :
    Boots l d' ts ms ∨
      Boots l d' (ts ++ [Shows.nextTable l db.storage.manifest db.memtable.data])
        (ms ++ [db.memtable.data]) := by
  have hsame := hcut.beside
  have hname := h.reopenable.persisted.filename_eq
  have hp := h.reopenable.persisted.of_same (hname ▸ hcut.list)
  have hshows := h.shows_beside hsame
  obtain rfl | ⟨gone, hgone, hgonename, hids⟩ := h.listed_or_gone
  · exact Or.inl (.listed hp rfl hshows)
  have hnone := h.missing_beside hgone hgonename hids hsame
  obtain hcovered | hfile := h.covered_cut hapart hcount hcut
  · exact Or.inl (.found hp hgone hgonename hnone hshows h.words hcovered)
  · exact Or.inr (.found hp hgone hgonename hnone (h.shows_pushed hcount hroom hsame hfile)
      (h.words_pushed hne) (h.covered_pushed hapart hsame))

theorem DirectoryComplete.boots_listed (hplain : l.Plain) (hapart : ¬ text ".sst" <:+ l.walFilename)
    (h : DirectoryComplete hc l d db ops ts ms) (hne : db.memtable.data.entries ≠ [])
    (hcount : db.memtable.data.entries.length < 2 ^ 64)
    (hlen : db.storage.tableCount + 1 < 2 ^ 64)
    (hroom : db.storage.manifest.nextTableId + 1 < 2 ^ 64) {log : Bytes}
    (hlisted : TableListed l d d' db.storage.manifest db.memtable.data log) :
    Boots l d' (ts ++ [Shows.nextTable l db.storage.manifest db.memtable.data])
      (ms ++ [db.memtable.data]) := by
  have hname := h.reopenable.persisted.filename_eq
  have hp : Persisted l d'
      (db.storage.manifest.pushed (Shows.nextTable l db.storage.manifest db.memtable.data)) :=
    Or.inl ⟨hname ▸ hlisted.list, printable_pushed hplain h.reopenable.persisted.printable hlen
      h.reopenable.kept hcount hne, hname⟩
  have hshows := h.shows_pushed hcount hroom hlisted.same hlisted.file
  obtain rfl | ⟨gone, hgone, hgonename, hids⟩ := h.listed_or_gone
  · exact .listed hp rfl hshows
  · exact .found hp (List.mem_append_left _ hgone) hgonename
      (h.missing_beside hgone hgonename hids hlisted.same) hshows (h.words_pushed hne)
      (h.covered_pushed hapart hlisted.same)

theorem DirectoryComplete.agrees_pushed (h : DirectoryComplete hc l d db ops ts ms) (key : Bytes) :
    ((replay ∅ (ops.map LogOperation.record)).lookup key).or
      (newest (ms ++ [db.memtable.data]) key) = db.view ms key := by
  have hnew : newest (ms ++ [db.memtable.data]) key = db.view ms key := newest_append_singleton _ _ _
  have hagrees := h.agrees key
  rw [hnew]
  cases hlog : (replay ∅ (ops.map LogOperation.record)).lookup key with
  | none => rw [Option.none_or]
  | some e =>
    rw [hlog, Option.some_or] at hagrees
    rw [Option.some_or, hagrees]

theorem leaves_of_tables (hboots : Boots l d ts ms)
    (hlog : d.lookup l.walFilename = some (.regular []))
    (hlive : ∀ key, live (newest ms key) = live (f key)) : Leaves hc l d f := by
  have hnone : ∀ op ∈ ([] : List LogOperation),
      9 + op.record.key.length + op.record.value.length ≤ maxRecordSize := by simp
  exact leaves_of_whole hboots hnone hlog hlive

/-- Dead in a flush, the process leaves all that it has stored. -/
theorem DirectoryComplete.flush_ensures (hplain : l.Plain) (hapart : ¬ text ".sst" <:+ l.walFilename)
    (h : DirectoryComplete hc l d db ops ts ms) (hsync : db.storage.wal.durabilityMode = .sync)
    (hne : db.memtable.data.entries ≠ []) (hcount : db.memtable.data.entries.length < 2 ^ 64)
    (hlen : db.storage.tableCount + 1 < 2 ^ 64)
    (hroom : db.storage.manifest.nextTableId + 1 < 2 ^ 64) :
    Ensures db.flushMemtable d
      (fun r d' => r.1 = .ok () →
        r.2.storage.manifest = db.storage.manifest.pushed
          (Shows.nextTable l db.storage.manifest db.memtable.data) ∧
        Wired l r.2.storage ∧ TableListed l d d' db.storage.manifest db.memtable.data [])
      (fun d' => Leaves hc l d' (db.view ms)) := by
  have hname := h.reopenable.persisted.filename_eq
  rw [flushMemtable_nonempty hne]
  refine ((flushMemtable_cut h.reopenable.wired hname h.reopenable.carries hsync hne).mono
    (fun _ _ hr => hr) (fun d' hd' => ?_)).bind ?_
  · obtain hcut | ⟨log', hlog', hlisted⟩ := hd'
    · have hlog : d'.lookup l.walFilename =
          some (.regular (frames hc (ops.map LogOperation.record))) := by
        rw [hcut.same _ ?_, h.logFile hsync]
        rw [List.mem_cons, not_or]
        exact ⟨l.wal_ne_table _, l.wal_notMem_paths hname⟩
      obtain hold | hnew := h.boots_cut hapart hne hcount hroom hcut
      · exact leaves_of_whole hold h.reopenable.payload hlog (fun key => congrArg live (h.agrees key))
      · exact leaves_of_whole hnew h.reopenable.payload hlog
          (fun key => congrArg live (h.agrees_pushed key))
    · have hboots := h.boots_listed hplain hapart hne hcount hlen hroom hlisted
      have hlog := hlisted.log
      obtain rfl | rfl := hlog'
      · exact leaves_of_whole hboots h.reopenable.payload hlog
          (fun key => congrArg live (h.agrees_pushed key))
      · exact leaves_of_tables hboots hlog
          (fun key => congrArg live (newest_append_singleton _ _ _))
  · rintro ⟨r, s'⟩ d₁ hr
    cases r with
    | error e => exact .pure (by simp)
    | ok u => exact .pure hr

/-- Dead in the compaction behind a flush, the process leaves all that it has stored. -/
theorem DirectoryComplete.compact_ensures (hplain : l.Plain)
    (hapart : ¬ text ".sst" <:+ l.walFilename)
    (h : DirectoryComplete hc l d db ops ts ms) (hne : db.memtable.data.entries ≠ [])
    (hcount : db.memtable.data.entries.length < 2 ^ 64)
    (hlen : db.storage.tableCount + 2 < 2 ^ 64)
    (hroom : db.storage.manifest.nextTableId + 2 < 2 ^ 64) {s' : Storage} (hw : Wired l s')
    (hman : s'.manifest = db.storage.manifest.pushed
      (Shows.nextTable l db.storage.manifest db.memtable.data))
    (hlisted : TableListed l d d' db.storage.manifest db.memtable.data [])
    (hlive : db.storage.manifest.tables = ts → 2 ≤ s'.manifest.tables.length →
      (mergedLive (ms ++ [db.memtable.data])).entries.length < 2 ^ 64 ∧
        (mergedLive (ms ++ [db.memtable.data])).entries ≠ []) :
    Ensures s'.compact d' (fun _ _ => True) (fun d₁ => Leaves hc l d₁ (db.view ms)) := by
  have hname := h.reopenable.persisted.filename_eq
  have hview : ∀ key, live (newest (ms ++ [db.memtable.data]) key) = live (db.view ms key) :=
    fun key => congrArg live (newest_append_singleton _ _ _)
  have hshows := h.shows_pushed hcount (by omega) hlisted.same hlisted.file
  obtain rfl | ⟨gone, hgone, hgonename, hids⟩ := h.listed_or_gone
  · have hs' : Shows l d' s'.manifest (ms ++ [db.memtable.data]) := by
      rw [hman]
      exact hshows
    have hprint : s'.manifest.Printable := by
      rw [hman]
      exact printable_pushed hplain h.reopenable.persisted.printable
        (by rw [← Storage.tableCount]; omega) h.reopenable.kept hcount hne
    have hnext : s'.manifest.nextTableId = db.storage.manifest.nextTableId + 1 := by
      rw [hman]
      exact Shows.next_pushed db.memtable.data (by omega)
    have hlength : s'.manifest.tables.length = db.storage.tableCount + 1 := by
      rw [hman, Manifest.pushed, List.length_append, List.length_singleton, Storage.tableCount]
    refine (compact_cut hplain hw hs' ?_ hprint (by omega) (by omega)
      (fun m hm => (h.words_pushed hne m hm).2) (hlive rfl)).mono (fun _ _ h => h) ?_
    · rw [hman, ← hname]
      exact hlisted.list
    · rintro d₁ ⟨⟨ts', ms', hlayers, hboots⟩, hwal⟩
      refine leaves_of_tables hboots (hwal.trans hlisted.log) (fun key => ?_)
      rw [live_newest_of_layers hlayers, hview]
  · have hgone' : gone ∈ s'.manifest.tables := by
      rw [hman]
      exact List.mem_append_left _ hgone
    refine (compact_gone hgone' (h.missing_beside hgone hgonename hids hlisted.same)).mono
      (fun _ _ h => h) ?_
    rintro d₁ rfl
    exact leaves_of_tables (h.boots_listed hplain hapart hne hcount (by omega) (by omega) hlisted)
      hlisted.log hview

theorem DirectoryComplete.flushIfDue_ensures (hplain : l.Plain)
    (hapart : ¬ text ".sst" <:+ l.walFilename)
    (h : DirectoryComplete hc l d db ops ts ms) (hsync : db.storage.wal.durabilityMode = .sync)
    (hne : db.memtable.data.entries ≠ []) (hcount : db.memtable.data.entries.length < 2 ^ 64)
    (hlen : db.storage.tableCount + 2 < 2 ^ 64)
    (hroom : db.storage.manifest.nextTableId + 2 < 2 ^ 64)
    (hlive : ∀ db' d', Succeeds db.flushMemtable d (.ok (), db') d' →
      hc.memtableFlushThreshold ≤ db.memtable.sizeInBytes →
      hc.compactionTableThreshold ≤ db'.storage.tableCount → 2 ≤ db'.storage.tableCount →
      ∀ data ∈ merging db'.storage d', data.entries.length < 2 ^ 64 ∧ HasLive data) :
    Ensures (Database.flushIfDue hc db) d (fun _ _ => True)
      (fun d' => Leaves hc l d' (db.view ms)) := by
  rw [Database.flushIfDue]
  by_cases hlt : db.memtable.sizeInBytes < hc.memtableFlushThreshold
  · rw [if_pos hlt]
    exact .pure trivial
  rw [if_neg hlt]
  have hflush := h.flush_ensures hplain hapart hsync hne hcount (by omega) (by omega)
  refine hflush.bind ?_
  rintro ⟨r, db₁⟩ d₁ hr
  cases r with
  | error e => exact .pure trivial
  | ok u =>
    obtain ⟨hman, hw, hlisted⟩ := hr rfl
    refine .seq (fun _ _ => True) ?_ ?_
    · rw [maybeCompact]
      cases hcompact : shouldCompact hc db₁.storage with
      | false => exact .pure trivial
      | true =>
        refine (h.compact_ensures hplain hapart hne hcount hlen hroom hw hman hlisted ?_).bind
          (fun _ _ _ => .pure trivial)
        intro htables htwo
        subst htables
        -- the counts are those of the compaction that the run without failures comes to
        obtain ⟨db₂, d₂, t, hrun, -, -, -, -⟩ :=
          h.flushed hplain hapart hne hcount (by omega) (by omega)
        obtain ⟨hman₂, -, hlisted₂⟩ := hflush.of_succeeds hrun rfl
        have hs₂ : Shows l d₂ db₂.storage.manifest (ms ++ [db.memtable.data]) := by
          rw [hman₂]
          exact h.shows_pushed hcount (by omega) hlisted₂.same hlisted₂.file
        have hsame : db₂.storage.tableCount = db₁.storage.tableCount := by
          rw [Storage.tableCount, Storage.tableCount, hman, hman₂]
        have hthreshold : hc.compactionTableThreshold ≤ db₂.storage.tableCount := by
          rw [hsame]
          simpa [shouldCompact] using hcompact
        obtain ⟨hfit, hhas⟩ := hlive db₂ d₂ hrun (not_lt.mp hlt) hthreshold (hsame ▸ htwo) _
          (merging_of_succeeds (loadTables_succeeds hs₂.holds ∅))
        exact ⟨(length_keepIf_le _ _).trans_lt hfit, dropTombstones_ne_nil hhas⟩
    · rintro ⟨r, db₂⟩ d₂ -
      cases r with
      | error e => exact .pure trivial
      | ok u => exact .pure trivial

/-- Dead in a command, the process leaves what was stored before it or after it. -/
theorem DirectoryComplete.command_died (hplain : l.Plain) (hapart : ¬ text ".sst" <:+ l.walFilename)
    (h : DirectoryComplete hc l d db ops ts ms) (hsync : db.storage.wal.durabilityMode = .sync)
    (hroomy : Roomy hc db d (parseCommand input)) {plan : List Outcome}
    (hdied : db.execute hc (parseCommand input) ⟨d, plan⟩ = .died d') :
    Leaves hc l d' (db.view ms) ∨ ∃ op, operation (parseCommand input) = some op ∧
      Leaves hc l d' (viewAfter op (db.view ms)) := by
  cases hop : operation (parseCommand input) with
  | none =>
    obtain rfl := execute_other_died hop hdied
    exact Or.inl (h.leaves hapart hsync)
  | some op =>
    rw [execute_write hc db hop, bind_run] at hdied
    cases hrun : op.append hc db.storage.wal ⟨d, plan⟩ with
    | died d₁ =>
      rw [hrun] at hdied
      cases hdied
      exact (h.append_died hapart hsync (hroomy.payload op hop) hrun).imp_right
        (fun hleaves => ⟨op, rfl, hleaves⟩)
    | returned out w =>
      obtain ⟨ok, wal⟩ := out
      rw [hrun] at hdied
      cases ok with
      | false => cases hdied
      | true =>
        -- the record is in the log, so the process dies behind it
        have hsucceeds := (Wal.appendRecord_dies hc h.reopenable.carries hsync
          op.record).of_returned (LogOperation.append_eq hc _ op ▸ hrun) rfl
        obtain ⟨wal', d₁, hrecord, -, ⟨-, hmode⟩, -⟩ :=
          Wal.appendRecord_succeeds hc h.reopenable.carries op.record
        obtain ⟨hout, -⟩ := hsucceeds.unique hrecord
        obtain rfl : wal = wal' := (Prod.mk.inj hout).2
        rw [← LogOperation.append_eq] at hsucceeds
        obtain ⟨wal₂, d₂, happend, h₁⟩ :=
          h.written hapart (hroomy.payload op hop) (ReachedStates.isWord_key hop)
        obtain ⟨hout₂, rfl⟩ := hsucceeds.unique happend
        obtain rfl : wal = wal₂ := (Prod.mk.inj hout₂).2
        have hend := h₁.flushIfDue_ensures hplain hapart (hmode.trans hsync)
          (written_nonempty db wal op) (hroomy.memory op hop) hroomy.tables hroomy.ids
          (fun db₂ d₂ hflush hdue hthreshold htwo data hdata => by
            have hof := mem_compactionOf hop happend hflush hdue hthreshold htwo
            exact ⟨hroomy.merged _ hof data hdata, hroomy.live _ hof data hdata⟩)
        refine Or.inr ⟨op, rfl, ?_⟩
        have hview : (db.written wal op).view ms = viewAfter op (db.view ms) :=
          funext (fun key => view_written db wal op ms key)
        rw [← hview]
        exact hend.of_died hdied

end Commands

/-- A synchronous process may die in any step of a command, after failures of others: the next
start reads the commands without this one, or with it. -/
theorem command_crash_keeps_or_adds (hc : HeaderConstants) (directory : Bytes)
    (hplain : ∀ b ∈ directory, isSpace b = false) (db : Database) (d : Disk)
    (earlier : List Command) (h : Compacting hc (Layout.ofDirectory directory) db d earlier)
    (hsync : db.storage.wal.durabilityMode = .sync) (input : Bytes)
    (hroomy : Roomy hc db d (parseCommand input)) (plan : List Outcome) (d' : Disk)
    (hdied : db.execute hc (parseCommand input) ⟨d, plan⟩ = .died d') :
    ∃ commands, (commands = earlier ∨ commands = earlier ++ [parseCommand input]) ∧
      ∀ mode, ∃ db' d₁, Succeeds
        (initializeDatabase hc (Layout.ofDirectory directory).walFilename mode) d' (.ok db') d₁ ∧
        ∀ key, Succeeds (db'.execute hc ⟨.get, key, []⟩) d₁
          ((lastWrite commands key).getD (text "NOT_FOUND"), db') d₁ := by
  have hplain' := plain_ofDirectory hplain
  have hapart := ofDirectory_apart directory
  obtain ⟨ops, ts, ms, hcomplete, hstored⟩ := h.directoryComplete hplain' hapart
  obtain hbefore | ⟨op, hop, hafter⟩ := hcomplete.command_died hplain' hapart hsync hroomy hdied
  · refine ⟨earlier, Or.inl rfl, fun mode => ?_⟩
    obtain ⟨db', d₁, hinit, hread⟩ := hbefore.restarted hplain' hapart mode
    refine ⟨db', d₁, hinit, fun key => ?_⟩
    rw [← hcomplete.live_view hstored, ← answer_eq_live]
    exact hread key
  · refine ⟨earlier ++ [parseCommand input], Or.inr rfl, fun mode => ?_⟩
    obtain ⟨db', d₁, hinit, hread⟩ := hafter.restarted hplain' hapart mode
    refine ⟨db', d₁, hinit, fun key => ?_⟩
    have hkey : live (viewAfter op (db.view ms) key) =
        lastWrite (earlier ++ [parseCommand input]) key := by
      rw [lastWrite_append_write hop, ← hcomplete.live_view hstored, viewAfter]
      split <;> rfl
    rw [← hkey, ← answer_eq_live]
    exact hread key

/-- The list names the compaction's own table, which has no file. -/
def merged : Database × Disk :=
  entered .least (entered .least (opened, openedDisk) (text "PUT a x")) (text "PUT b x")

theorem compacting_merged : Compacting .least directory merged.1 merged.2
    [parseCommand (text "PUT a x"), parseCommand (text "PUT b x")] := by
  have hvacant : Vacant directory ∅ := ⟨⟨rfl, rfl⟩, fun _ _ => rfl⟩
  have hstart : Compacting .least directory opened openedDisk [] :=
    .start .sync hvacant (by decide +kernel)
  have hfirst : Compacting .least directory
      (entered .least (opened, openedDisk) (text "PUT a x")).1
      (entered .least (opened, openedDisk) (text "PUT a x")).2
      ([] ++ [parseCommand (text "PUT a x")]) :=
    hstart.command (text "PUT a x") (text "OK") (by decide +kernel) (by decide +kernel)
  exact hfirst.command (text "PUT b x") (text "OK") (by decide +kernel) (by decide +kernel)

/-- The files after nine bytes of the next table. -/
def tornDisk : Disk :=
  match merged.1.execute .least (parseCommand (text "PUT c x"))
    ⟨merged.2, [.succeeds, .succeeds, .succeeds, .dies 9]⟩ with
  | .returned _ w => w.disk
  | .died d => d

/-- The start takes the tables from the directory and passes over the beginning of one. -/
theorem command_crash_keeps_or_adds_torn :
    tornDisk.lookup (directory.tableFilename 4) =
        some (.regular ((tableContents (AList.singleton (text "c") value)).take 9)) ∧
      ∃ commands, (commands = [parseCommand (text "PUT a x"), parseCommand (text "PUT b x")] ∨
          commands = [parseCommand (text "PUT a x"), parseCommand (text "PUT b x")] ++
            [parseCommand (text "PUT c x")]) ∧
        ∀ mode, ∃ db' d₁, Succeeds (initializeDatabase .least directory.walFilename mode) tornDisk
          (.ok db') d₁ ∧ ∀ key, Succeeds (db'.execute .least ⟨.get, key, []⟩) d₁
            ((lastWrite commands key).getD (text "NOT_FOUND"), db') d₁ :=
  ⟨by decide +kernel, command_crash_keeps_or_adds .least (text "d") (by decide +kernel) merged.1
    merged.2 _ compacting_merged (by decide +kernel) (text "PUT c x") (by decide +kernel)
    [.succeeds, .succeeds, .succeeds, .dies 9] tornDisk (by decide +kernel)⟩

end ForgeDB.CompactionRuns
