import ForgeDB.CompactedFiles
import ForgeDB.DirectoryRebuilds
import ForgeDB.MapRefinement

/-!
# Runs with compactions

Commands, flushes, compactions and restarts in any order, with every step succeeding. No
answer is ever wrong: a command is answered as by a plain map or fails over a table that a
compaction has deleted. And nothing is lost: a start finds the older tables in the
directory, and then every read is answered.
-/

namespace ForgeDB.CompactionRuns
open CommandParser CompactionSteps CrashPrograms CrashPrograms.Io Database DirectoryRebuilds
open LayeredMaps Manifest MapRefinement ReadAnswers Reopening RestartAnswers SSTables TableIds
open TextStreams WalRecovery

section Starts

variable {hc : HeaderConstants} {l : Layout} {d d' : Disk} {db : Database} {m : Manifest}
  {ops : List LogOperation} {ts : List SSTableMetadata} {ms : List Entries}

theorem kept_logged {op : LogOperation}
    (hop : 9 + op.record.key.length + op.record.value.length ≤ maxRecordSize)
    (hword : IsWord op.key) : Kept ⟨op.key, op.entry⟩ := by
  rw [maxRecordSize] at hop
  refine ⟨hword, ?_, ?_⟩
  · change op.record.key.length < 2 ^ 32
    omega
  · rw [LogOperation.entry_value]
    omega

theorem recoverFrom_logged (hc : HeaderConstants)
    (hops : ∀ op ∈ ops, 9 + op.record.key.length + op.record.value.length ≤ maxRecordSize) :
    recoverFrom hc ∅ (frames hc (ops.map LogOperation.record)) =
      (⟨.success, []⟩, replay ∅ (ops.map LogOperation.record)) := by
  have hloggable : ∀ r ∈ ops.map LogOperation.record, Loggable r :=
    List.forall_mem_map.mpr (fun op hop => LogOperation.loggable (hops op hop))
  have hframes : recoverFrom hc ∅ (frames hc (ops.map LogOperation.record) ++ []) =
      recoverFrom hc (replay ∅ (ops.map LogOperation.record)) [] :=
    recoverFrom_frames _ hloggable ∅ []
  rwa [List.append_nil, recoverFrom_nil] at hframes

theorem mem_replay (data : Entries) {op : LogOperation} (hop : op ∈ ops) :
    op.key ∈ replay data (ops.map LogOperation.record) := by
  induction ops using List.reverseRecOn with
  | nil => cases hop
  | append_singleton ops last ih =>
    have hlast : replay data ((ops ++ [last]).map LogOperation.record) =
        (replay data (ops.map LogOperation.record)).insert last.key last.entry := by
      rw [List.map_append, List.map_singleton, ← LogOperation.applyRecord_record]
      exact List.foldl_append
    rw [hlast, AList.mem_insert]
    rcases List.mem_append.mp hop with hop | hop
    · exact Or.inr (ih hop)
    · exact Or.inl (congrArg LogOperation.key (List.mem_singleton.mp hop))

theorem mem_overwrite {base new : Entries} {key : Bytes} (h : key ∈ new) :
    key ∈ overwrite base new := by
  rw [← AList.lookup_isSome] at h ⊢
  rw [lookup_overwrite, Option.isSome_or, h, Bool.true_or]

/-- What a start makes of a list of tables with files and of a log. -/
theorem directoryComplete_started {s : Storage} (hp : Persisted l d s.manifest)
    (hs : Shows l d s.manifest ms)
    (hwords : ∀ m ∈ ms, m.entries ≠ [] ∧ ∀ e ∈ m.entries, Kept e)
    (honly : Only d s.manifest.tables) (hw : Wired l s)
    (hcar : s.wal.Carries d (frames hc (ops.map LogOperation.record)))
    (hops : ∀ op ∈ ops, 9 + op.record.key.length + op.record.value.length ≤ maxRecordSize)
    (hlogged : ∀ op ∈ ops, IsWord op.key) :
    DirectoryComplete hc l d ⟨MemTable.empty.replace
      (overwrite ((ms.map loadedEntries).foldl overwrite ∅)
        (replay ∅ (ops.map LogOperation.record))), s⟩ ops s.manifest.tables ms := by
  have hkept : ∀ op ∈ ops, Kept ⟨op.key, op.entry⟩ :=
    fun op hop => kept_logged (hops op hop) (hlogged op hop)
  have hreplayed := replayed_forall hc hkept hkept
  rw [recoverFrom_logged hc hops] at hreplayed
  have hmerged : ∀ e ∈ ((ms.map loadedEntries).foldl overwrite ∅ : Entries).entries, Kept e := by
    rintro ⟨key, e⟩ he
    have hk := AList.mem_lookup_iff.mpr he
    rw [lookup_loadTables] at hk
    obtain ⟨m, hm, hkey⟩ := exists_lookup_of_newest hk
    exact (hwords m hm).2 _ (AList.mem_lookup_iff.mp hkey)
  refine ⟨⟨hw, hp, hs.placed, fun t ht => ?_, hcar, hops, forall_mem_overwrite hmerged hreplayed⟩,
    hs, hwords, honly, hlogged, .all _ _, hs.ids_lt, fun op hop => mem_overwrite (mem_replay ∅ hop),
    fun key => ?_⟩
  · obtain ⟨m, hm, hholds⟩ := exists_holds hs.holds ht
    exact sound_written (hwords m hm).2 hholds.storable.count_lt hholds.file
  · rw [view, MemTable.replace_data, lookup_overwrite, lookup_loadTables]
    cases (replay ∅ (ops.map LogOperation.record)).lookup key <;> cases newest ms key <;> rfl

theorem written_of_holds (hs : Shows l d m ms)
    (hwords : ∀ m ∈ ms, m.entries ≠ [] ∧ ∀ e ∈ m.entries, Kept e) {t : SSTableMetadata}
    (ht : t ∈ m.tables) : Written l.walFilename d t := by
  obtain ⟨data, hdata, hholds⟩ := exists_holds hs.holds ht
  obtain ⟨hne, hkept⟩ := hwords data hdata
  have hname : t.filename = Storage.tableFilename l.walFilename t.id := hs.placed t ht
  obtain ⟨after, hwrite, hfile, -⟩ :=
    write_succeeds ∅ (Storage.tableFilename l.walFilename t.id) t.id data
  have hmeta := hholds.metadata
  have hheld := hholds.file
  rw [hname] at hmeta hheld
  refine ⟨by have := hs.ids_lt t ht; have := hs.next_lt; omega, data, ∅, after, hne,
    fun e he => ⟨(hkept e he).1.1, (hkept e he).2⟩, hholds.storable.count_lt, ?_,
    hheld.trans hfile.symm⟩
  rw [hmeta]
  exact hwrite

theorem readable_of_holds (hplain : l.Plain) (hs : Shows l d m ms)
    (hwords : ∀ m ∈ ms, m.entries ≠ [] ∧ ∀ e ∈ m.entries, Kept e) {t : SSTableMetadata}
    (ht : t ∈ m.tables) : Readable t := by
  obtain ⟨data, hdata, hholds⟩ := exists_holds hs.holds ht
  obtain ⟨hne, hkept⟩ := hwords data hdata
  have hnext : Readable (Shows.nextTable l { m with nextTableId := t.id } data) :=
    readable_nextTable hplain ((hs.ids_lt t ht).trans hs.next_lt) hholds.storable hne
      (fun e he => (hkept e he).1)
  have hmeta := hholds.metadata
  rw [hs.placed t ht] at hmeta
  rw [hmeta]
  exact hnext

/-- One above the last id is above every id, and not above a number that is. -/
theorem last_id {n : ℕ} (hids : ts.Pairwise (fun a b => a.id < b.id)) (hlt : ∀ t ∈ ts, t.id < n) :
    (∀ t ∈ ts, t.id < (ts.getLast?.map (fun t => t.id + 1)).getD 1) ∧
      (ts.getLast?.map (fun t => t.id + 1)).getD 1 ≤ max 1 n := by
  rcases List.eq_nil_or_concat' ts with rfl | ⟨front, last, rfl⟩
  · exact ⟨by simp, le_max_left _ _⟩
  · rw [List.getLast?_concat, Option.map_some, Option.getD_some]
    refine ⟨fun t ht => ?_, (hlt last (by simp)).trans_le (le_max_right _ _)⟩
    rcases List.mem_append.mp ht with ht | ht
    · exact ((List.pairwise_append.mp hids).2.2 t ht last (by simp)).trans (Nat.lt_succ_self _)
    · rw [List.mem_singleton.mp ht]
      exact Nat.lt_succ_self _

/-- Every table file is one of `ts`, or is passed over when the directory is listed. -/
def Covered (d : Disk) (ts : List SSTableMetadata) : Prop :=
  ∀ path node, text ".sst" <:+ path → d.lookup path = some node →
    (∃ t ∈ ts, path = t.filename) ∨ PassedOver path node

theorem Only.covered (h : Only d ts) : Covered d ts := by
  intro path node hpath hlookup
  refine Or.inl (h path hpath ?_)
  rw [hlookup]
  exact Option.some_ne_none node

theorem Covered.of_same (h : Covered d ts) {ps : List Bytes} (hsame : Disk.SameExcept ps d d')
    (hps : ∀ path ∈ ps, ¬ text ".sst" <:+ path) : Covered d' ts := by
  intro path node hpath hlookup
  rw [hsame path (fun hmem => hps path hmem hpath)] at hlookup
  exact h path node hpath hlookup

/-- The list of the directory is the list of the tables with files. -/
theorem rebuild_run (hplain : l.Plain) (hname : m.filename = l.manifestFilename) {next : ℕ}
    (hs : Shows l d ⟨m.filename, ts, next⟩ ms)
    (hwords : ∀ m ∈ ms, m.entries ≠ [] ∧ ∀ e ∈ m.entries, Kept e) (hcovered : Covered d ts) :
    ∃ m' d', Succeeds (m.rebuildFromDirectory (Storage.tablesDirectory l.walFilename)) d
        (.ok (), m') d' ∧ m'.tables = ts ∧ Persisted l d' m' ∧ Shows l d' m' ms ∧
      Disk.SameExcept m.paths d d' := by
  have hothers : ∀ path node,
      (path, node) ∈ listDirectory d (Storage.tablesDirectory l.walFilename) →
      (∃ t ∈ ts, path = t.filename) ∨ PassedOver path node := by
    intro path node hfile
    by_cases hext : FilePaths.extension (FilePaths.filenamePart path) = text ".sst"
    · exact hcovered path node (FilePaths.suffix_of_extension hext (by decide))
        (lookup_of_listDirectory hfile)
    · exact Or.inr (Or.inr (Or.inl hext))
  obtain ⟨m', d', hrun, htables, hnext, hfile⟩ := rebuild_restores_list l.walFilename m d ts
    AList.entries (fun _ => .refl _) hs.increasing (fun t ht => written_of_holds hs hwords ht) hothers
  rw [rebuildFromDirectoryBy_entries] at hrun
  obtain ⟨found, d₁, -, -, hrun₁, -, hsame⟩ :=
    m.rebuildFromDirectory_run (Storage.tablesDirectory l.walFilename) d
  obtain ⟨hresult, rfl⟩ := hrun.unique hrun₁
  have hname' : m'.filename = l.manifestFilename := by
    rw [(Prod.mk.inj hresult).2]
    exact hname
  obtain ⟨hids, hle⟩ := last_id hs.increasing hs.ids_lt
  rw [← hnext] at hids hle
  have hlt : m'.nextTableId < 2 ^ 64 := hle.trans_lt (max_lt (by norm_num) hs.next_lt)
  have hshows : Shows l d' m' ms := by
    have hframe := hs.frame_manifest hname hsame
    exact ⟨hname', htables ▸ hframe.holds, htables ▸ hframe.placed, htables ▸ hframe.increasing,
      htables ▸ hids, hlt⟩
  refine ⟨m', d', hrun, htables, Or.inl ⟨hname ▸ hfile, ⟨hlt, ?_, ?_⟩, hname'⟩, hshows, hsame⟩
  · exact hshows.length_le.trans_lt hlt
  · exact fun t ht => readable_of_holds hplain hshows hwords ht

/-- Files on which a start finds the tables `ts`: they are the list, or the directory has them
where a listed file is missing. -/
inductive Boots (l : Layout) (d : Disk) (ts : List SSTableMetadata) (ms : List Entries) : Prop
  | listed {m : Manifest} : Persisted l d m → m.tables = ts → Shows l d m ms → Boots l d ts ms
  | found {m : Manifest} {gone : SSTableMetadata} {next : ℕ} : Persisted l d m → gone ∈ m.tables →
      gone.filename = l.tableFilename gone.id → d.lookup gone.filename = none →
      Shows l d ⟨m.filename, ts, next⟩ ms →
      (∀ m ∈ ms, m.entries ≠ [] ∧ ∀ e ∈ m.entries, Kept e) → Covered d ts → Boots l d ts ms

theorem Boots.initializes (hplain : l.Plain) (hapart : ¬ text ".sst" <:+ l.walFilename)
    (h : Boots l d ts ms) {log : Bytes} (hlog : LogFile l d log) (mode : DurabilityMode) :
    ∃ s d', Succeeds (Storage.initializeStorage l.walFilename mode) d (.ok s) d' ∧ Wired l s ∧
      s.manifest.tables = ts ∧ Persisted l d' s.manifest ∧ Shows l d' s.manifest ms ∧
      s.wal.Carries d' log ∧ d'.lookup l.walFilename = some (.regular log) ∧
      Disk.SameExcept (l.walFilename :: s.manifest.paths) d d' := by
  cases h with
  | listed hp htables hshows =>
    obtain ⟨s, d', hinit, hw, rfl, hcar, -, hfile, hsame⟩ :=
      initializeStorage_succeeds mode hp hshows hlog
    exact ⟨s, d', hinit, hw, htables, hp.of_same (hsame _ (by simpa using l.wal_ne_manifest.symm)),
      hshows.frame_wal hsame, hcar, hfile, hsame.mono (by simp)⟩
  | @found m gone next hp hgone hgonename hnone hshows hwords hcovered =>
    have hname := hp.filename_eq
    obtain ⟨w, d₂, hcreate, hcar, hwname, -, hfile, hother⟩ :=
      Wal.create_succeeds l.walFilename mode d log hlog
    have hsame₂ : Disk.SameExcept [l.walFilename] d d₂ := fun q hq => hother q (by simpa using hq)
    have hp₂ := hp.of_same (hother _ l.wal_ne_manifest.symm)
    have hnone₂ : d₂.lookup gone.filename = none := by
      rw [hother _ (by rw [hgonename]; exact (l.wal_ne_table gone.id).symm), hnone]
    have hnotall : ¬ m.tables.all (fun table => (d₂.lookup table.filename).isSome) = true := by
      intro hall
      have hsome := List.all_eq_true.mp hall gone hgone
      rw [hnone₂] at hsome
      cases hsome
    obtain ⟨m', d', hrebuild, htables, hp', hshows', hsame'⟩ :=
      rebuild_run hplain hname (hshows.frame_wal hsame₂) hwords
        (hcovered.of_same hsame₂ (log_apart hapart))
    have hwal := hsame' _ (l.wal_notMem_paths hname)
    have hpaths : m'.paths = m.paths := by
      rw [paths, paths, temporary, temporary, hp'.filename_eq, hname]
    refine ⟨⟨l.walFilename, mode, w, m'⟩, d',
      initializeStorage_rebuilt hcreate hp₂.load hnotall hrebuild, ⟨rfl, hwname⟩, htables, hp',
      hshows', hcar.of_same (by rw [hwname]; exact hwal), hwal.trans hfile, ?_⟩
    rw [hpaths]
    exact (hsame₂.mono (by simp)).trans (hsame'.mono (fun _ => List.mem_cons_of_mem _))

/-- A start on the files of a run finds all tables that have files. -/
theorem DirectoryComplete.boots (hapart : ¬ text ".sst" <:+ l.walFilename)
    (h : DirectoryComplete hc l d db ops ts ms)
    {d₁ : Disk} (hsame : Disk.SameExcept [l.walFilename] d d₁) : Boots l d₁ ts ms := by
  have hp := h.reopenable.persisted.of_same (hsame _ (by simpa using l.wal_ne_manifest.symm))
  have hshows := h.shows.frame_wal hsame
  obtain rfl | ⟨gone, hgone, hgonename, hids⟩ := h.listed_or_gone
  · exact .listed hp rfl hshows
  · -- the list names a table without a file
    have hnone : d₁.lookup gone.filename = none := by
      rw [hsame _ ?_, h.missing hgonename hids]
      rw [List.mem_singleton, hgonename]
      exact (l.wal_ne_table gone.id).symm
    exact .found hp hgone hgonename hnone hshows h.words
      (h.only.of_same hsame (log_apart hapart)).covered

/-- A start on the files of a run reads all that the run has stored. -/
theorem DirectoryComplete.restarted (hplain : l.Plain) (hapart : ¬ text ".sst" <:+ l.walFilename)
    (h : DirectoryComplete hc l d db ops ts ms) {d₁ : Disk}
    (hsame : Disk.SameExcept [l.walFilename] d d₁)
    (hlog : LogFile l d₁ (frames hc (ops.map LogOperation.record))) (mode : DurabilityMode) :
    ∃ db' d', Succeeds (initializeDatabase hc l.walFilename mode) d₁ (.ok db') d' ∧
      DirectoryComplete hc l d' db' ops ts ms ∧ db'.storage.manifest.tables = ts ∧
      ∀ key, db'.view ms key = db.view ms key := by
  obtain ⟨s, d', hinit, hw, rfl, hp, hshows, hcar, hfile, hsame'⟩ :=
    (h.boots hapart hsame).initializes hplain hapart hlog mode
  have honly := (h.only.of_same hsame (log_apart hapart)).of_same hsame' (fun path hmem =>
    (List.mem_cons.mp hmem).elim (fun he => he ▸ hapart) (paths_apart hp.filename_eq path))
  have hrecover : Succeeds (recoverWal hc s.wal.filename) d'
      (⟨.success, []⟩, replay ∅ (ops.map LogOperation.record)) d' := by
    rw [← recoverFrom_logged hc h.reopenable.payload, hw.wal_eq]
    exact recoverWal_succeeds hfile
  have hload := load_recovered (loadTables_succeeds hshows.holds ∅) hrecover (Or.inl rfl)
  have hstarted := directoryComplete_started hp hshows h.words honly hw hcar h.reopenable.payload
    h.logged
  exact ⟨_, d', hinit.bind (hload.bind .pure), hstarted, rfl,
    fun key => (hstarted.agrees key).symm.trans (h.agrees key)⟩

theorem DirectoryComplete.closed (h : DirectoryComplete hc l d db ops ts ms) :
    ∃ wal d₁, Succeeds db.storage.wal.close d wal d₁ ∧ Disk.SameExcept [l.walFilename] d d₁ ∧
      LogFile l d₁ (frames hc (ops.map LogOperation.record)) := by
  obtain ⟨wal, d₁, hclose, hcar, ⟨hname, -⟩, hsame, hclosed⟩ :=
    Wal.close_succeeds h.reopenable.carries
  rw [h.reopenable.wired.wal_eq] at hname hsame
  obtain ⟨c, hfile, hlog⟩ := hcar.stored
  rw [hcar.empty_of_closed hclosed, List.append_nil] at hlog
  rw [hname, hlog] at hfile
  exact ⟨wal, d₁, hclose, hsame, Or.inl hfile⟩

theorem directoryComplete_vacant (hapart : ¬ text ".sst" <:+ l.walFilename) (hvacant : Vacant l d)
    (mode : DurabilityMode) (hinit : Succeeds (initializeDatabase hc l.walFilename mode) d (.ok db) d') :
    DirectoryComplete hc l d' db [] [] [] ∧ ∀ key, db.view [] key = none := by
  have hp : Persisted l d ⟨l.manifestFilename, [], 1⟩ := Or.inr ⟨hvacant.fresh.manifest_none, rfl⟩
  obtain ⟨db', d₁, hinit', -, hman, -, -, hsame, hmem⟩ :=
    initialize_succeeds hc mode hp (.empty l d) (Or.inr ⟨hvacant.fresh.wal_none, rfl⟩) (Or.inl rfl)
  obtain ⟨hdb, rfl⟩ := hinit.unique hinit'
  cases hdb
  have hview : ∀ key, db.view [] key = none := by
    intro key
    rw [view, hmem]
    rfl
  have honly : Only d [] :=
    fun path hpath hsome => absurd (hvacant.tables_none path hpath) hsome
  refine ⟨⟨reopenable_start hvacant.fresh hinit, ?_, by simp, honly.of_same hsame (log_apart hapart),
    by simp, ?_, by simp [hman], by simp, fun key => (hview key).symm⟩, hview⟩
  · rw [hman]
    exact .empty l d'
  · rw [hman]
    exact .all [] []

end Starts

/-- The command fits the log, the counts and the ids stay in the range of their types, and a
compaction that can read its tables finds a live key in them. -/
structure Roomy (hc : HeaderConstants) (db : Database) (d : Disk) (command : Command) : Prop
    extends Within hc db d command where
  ids : db.storage.manifest.nextTableId + 2 < 2 ^ 64
  live : ∀ c ∈ compactionOf hc db d command, ∀ data ∈ merging c.1 c.2, HasLive data

instance (hc : HeaderConstants) (db : Database) (d : Disk) (command : Command) :
    Decidable (Roomy hc db d command) :=
  decidable_of_iff
    (Within hc db d command ∧ db.storage.manifest.nextTableId + 2 < 2 ^ 64 ∧
      ∀ c ∈ compactionOf hc db d command, ∀ data ∈ merging c.1 c.2, HasLive data)
    ⟨fun h => ⟨h.1, h.2.1, h.2.2⟩, fun h => ⟨h.toWithin, h.ids, h.live⟩⟩

/-- Runs from an empty directory with the commands so far: any lines within the limits,
whatever flushes and compactions they cause, and the end of the process and its next start
at any point. -/
inductive Compacting (hc : HeaderConstants) (l : Layout) : Database → Disk → List Command → Prop
  | start {d d' : Disk} {db : Database} (mode : DurabilityMode) : Vacant l d →
      Succeeds (initializeDatabase hc l.walFilename mode) d (.ok db) d' → Compacting hc l db d' []
  | command {db db' : Database} {d d' : Disk} {earlier : List Command} (input response : Bytes) :
      Compacting hc l db d earlier → Roomy hc db d (parseCommand input) →
      Succeeds (db.execute hc (parseCommand input)) d (response, db') d' →
      Compacting hc l db' d' (earlier ++ [parseCommand input])
  | restart {db db' : Database} {d d₁ d₂ : Disk} {wal : Wal} {earlier : List Command}
      (mode : DurabilityMode) : Compacting hc l db d earlier →
      Succeeds db.storage.wal.close d wal d₁ →
      Succeeds (initializeDatabase hc l.walFilename mode) d₁ (.ok db') d₂ →
      Compacting hc l db' d₂ earlier

section Runs

variable {hc : HeaderConstants} {l : Layout} {d : Disk} {db : Database}
  {ops : List LogOperation} {ts : List SSTableMetadata} {ms : List Entries} {input : Bytes}
  {earlier : List Command}

theorem DirectoryComplete.flushIfDue (hplain : l.Plain) (hapart : ¬ text ".sst" <:+ l.walFilename)
    (h : DirectoryComplete hc l d db ops ts ms) (hne : db.memtable.data.entries ≠ [])
    (hcount : db.memtable.data.entries.length < 2 ^ 64)
    (hlen : db.storage.tableCount + 2 < 2 ^ 64)
    (hids : db.storage.manifest.nextTableId + 2 < 2 ^ 64)
    (hlive : ∀ db' d', Succeeds db.flushMemtable d (.ok (), db') d' →
      hc.memtableFlushThreshold ≤ db.memtable.sizeInBytes →
      hc.compactionTableThreshold ≤ db'.storage.tableCount → 2 ≤ db'.storage.tableCount →
      ∀ data ∈ merging db'.storage d', data.entries.length < 2 ^ 64 ∧ HasLive data) :
    ∃ response db' d' ops' ts' ms', Succeeds (Database.flushIfDue hc db) d (response, db') d' ∧
      DirectoryComplete hc l d' db' ops' ts' ms' ∧ (ops' = ops ∧ ms' = ms ∨ ops' = []) ∧
      (∀ key, db'.view ms' key = db.view ms key) ∧
      (response = text "OK" ∨ Fails d' db' (text "ERROR compaction failed: ") response) := by
  rw [Database.flushIfDue]
  by_cases hlt : db.memtable.sizeInBytes < hc.memtableFlushThreshold
  · rw [if_pos hlt]
    exact ⟨_, db, d, ops, ts, ms, .pure, h, Or.inl ⟨rfl, rfl⟩, fun _ => rfl, Or.inl rfl⟩
  rw [if_neg hlt]
  obtain ⟨db₁, d₁, t, hflush, h₁, hview, hnext, hcount₁⟩ :=
    h.flushed hplain hapart hne hcount (by omega) (by omega)
  by_cases hcompact : shouldCompact hc db₁.storage = true
  · -- a compaction follows
    have hthreshold : hc.compactionTableThreshold ≤ db₁.storage.tableCount := by
      simpa [shouldCompact] using hcompact
    have hmerged : 2 ≤ db₁.storage.tableCount → ∀ merged,
        Succeeds (Storage.loadTables db₁.storage.manifest.tables ∅) d₁ (.ok merged) d₁ →
        merged.entries.length < 2 ^ 64 ∧ (Storage.dropTombstones merged).entries ≠ [] := by
      intro htwo merged hload
      obtain ⟨hfit, hhas⟩ := hlive db₁ d₁ hflush (not_lt.mp hlt) hthreshold htwo merged
        (merging_of_succeeds hload)
      exact ⟨hfit, dropTombstones_ne_nil hhas⟩
    obtain ⟨r, s', d₂, hrun, h₂, hanswer⟩ := h₁.compacted hplain (by omega) (by omega) hmerged
    have hmaybe : Succeeds (db₁.maybeCompact hc) d₁ (r, { db₁ with storage := s' }) d₂ := by
      rw [maybeCompact, hcompact]
      exact hrun.bind .pure
    rcases hanswer with rfl | ⟨gone, hgone, hnone, rfl⟩
    · exact ⟨_, _, d₂, _, _, _, hflush.bind (hmaybe.bind .pure), h₂, Or.inr rfl, hview, Or.inl rfl⟩
    · exact ⟨_, _, d₂, _, _, _, hflush.bind (hmaybe.bind .pure), h₂, Or.inr rfl, hview,
        Or.inr ⟨gone, hgone, hnone, rfl⟩⟩
  · have hno : Succeeds (db₁.maybeCompact hc) d₁ (.ok (), db₁) d₁ := by
      rw [maybeCompact, Bool.eq_false_iff.mpr hcompact]
      exact .pure
    exact ⟨_, db₁, d₁, _, _, _, hflush.bind (hno.bind .pure), h₁, Or.inr rfl, hview, Or.inl rfl⟩

theorem mem_compactionOf {command : Command} {op : LogOperation} {wal : Wal} {db' : Database}
    {d₁ d' : Disk} (hop : operation command = some op)
    (happend : Succeeds (op.append hc db.storage.wal) d (true, wal) d₁)
    (hflush : Succeeds (db.written wal op).flushMemtable d₁ (.ok (), db') d')
    (hdue : hc.memtableFlushThreshold ≤ (db.written wal op).memtable.sizeInBytes)
    (hthreshold : hc.compactionTableThreshold ≤ db'.storage.tableCount)
    (htwo : 2 ≤ db'.storage.tableCount) : (db'.storage, d') ∈ compactionOf hc db d command := by
  have hcompact : shouldCompact hc db'.storage = true := by simpa [shouldCompact] using hthreshold
  rw [Succeeds] at happend hflush
  simp [compactionOf, hop, happend, not_lt.mpr hdue, hflush, hcompact, htwo]

theorem DirectoryComplete.write (hplain : l.Plain) (hapart : ¬ text ".sst" <:+ l.walFilename)
    (h : DirectoryComplete hc l d db ops ts ms) (hroomy : Roomy hc db d (parseCommand input))
    {op : LogOperation} (hop : operation (parseCommand input) = some op) :
    ∃ response db' d' ops' ts' ms',
      Succeeds (db.execute hc (parseCommand input)) d (response, db') d' ∧
      DirectoryComplete hc l d' db' ops' ts' ms' ∧ (ops' = ops ++ [op] ∧ ms' = ms ∨ ops' = []) ∧
      (∀ key, db'.view ms' key = if key = op.key then some op.entry else db.view ms key) ∧
      (response = text "OK" ∨ Fails d' db' (text "ERROR compaction failed: ") response) := by
  obtain ⟨wal, d₁, happend, h₁⟩ :=
    h.written hapart (hroomy.payload op hop) (ReachedStates.isWord_key hop)
  obtain ⟨response, db', d', ops', ts', ms', hend, h', hops, hview, hresponse⟩ :=
    h₁.flushIfDue hplain hapart (written_nonempty db wal op) (hroomy.memory op hop) hroomy.tables
      hroomy.ids (fun db₂ d₂ hflush hdue hthreshold htwo data hdata => by
        have hof := mem_compactionOf hop happend hflush hdue hthreshold htwo
        exact ⟨hroomy.merged _ hof data hdata, hroomy.live _ hof data hdata⟩)
  refine ⟨response, db', d', ops', ts', ms', ?_, h', hops, fun key => ?_, hresponse⟩
  · rw [execute_write hc db hop]
    exact happend.bind hend
  · rw [hview, view_written]

theorem operations_append (since : List Command) (command : Command) :
    (since ++ [command]).filterMap operation =
      since.filterMap operation ++ (operation command).toList := by
  rw [List.filterMap_append, List.filterMap_cons]
  cases operation command <;> rfl

theorem live_replayed {before : List Command}
    (h : ∀ key, live (newest ms key) = lastWrite before key) (since : List Command) (key : Bytes) :
    live (((replay ∅ ((since.filterMap operation).map LogOperation.record)).lookup key).or
      (newest ms key)) = lastWrite (before ++ since) key := by
  induction since using List.reverseRecOn with
  | nil =>
    rw [List.append_nil, ← h]
    rfl
  | append_singleton since command ih =>
    rw [← List.append_assoc, operations_append]
    cases hop : operation command with
    | none =>
      rw [lastWrite_append_other hop, ← ih, Option.toList_none, List.append_nil]
    | some op =>
      rw [lastWrite_append_write hop, ← ih, Option.toList_some, List.map_append,
        List.map_singleton, lookup_replay_append]
      split <;> rfl

/-- The commands are those that the tables show, and after them those whose writes the log has. -/
def Stored (earlier : List Command) (ops : List LogOperation) (ms : List Entries) : Prop :=
  ∃ before since, earlier = before ++ since ∧ since.filterMap operation = ops ∧
    ∀ key, live (newest ms key) = lastWrite before key

theorem DirectoryComplete.live_view (h : DirectoryComplete hc l d db ops ts ms)
    (hstored : Stored earlier ops ms)
    (key : Bytes) : live (db.view ms key) = lastWrite earlier key := by
  obtain ⟨before, since, rfl, rfl, hlive⟩ := hstored
  rw [← h.agrees]
  exact live_replayed hlive since key

theorem DirectoryComplete.stored (h : DirectoryComplete hc l d db [] ts ms)
    (hlive : ∀ key, live (db.view ms key) = lastWrite earlier key) : Stored earlier [] ms := by
  refine ⟨earlier, [], (List.append_nil _).symm, rfl, fun key => ?_⟩
  rw [← hlive, ← h.agrees]
  rfl

theorem Stored.command (h : Stored earlier ops ms) (command : Command) :
    Stored (earlier ++ [command]) (ops ++ (operation command).toList) ms := by
  obtain ⟨before, since, rfl, rfl, hlive⟩ := h
  exact ⟨before, since ++ [command], List.append_assoc _ _ _,
    operations_append since command, hlive⟩

/-- The answer of the plain map, or an error that names a listed table without a file. -/
def Honest (earlier : List Command) (command : Command) (d : Disk) (db : Database)
    (response : Bytes) : Prop :=
  response = plainResponse earlier command ∨ Fails d db (text "ERROR read failed: ") response ∨
    Fails d db (text "ERROR compaction failed: ") response

theorem execute_read {command : Command} (ht : command.type = .get) :
    Succeeds (db.execute hc command) d (ReadAnswers.answered db d command.key, db) d := by
  have hget := execute_get hc db d command.key
  rw [execute] at hget ⊢
  simp only [ht]
  exact hget

/-- One command: its answer, and what the files and the memory hold after it. -/
theorem DirectoryComplete.command (hplain : l.Plain) (hapart : ¬ text ".sst" <:+ l.walFilename)
    (h : DirectoryComplete hc l d db ops ts ms) (hstored : Stored earlier ops ms)
    (hroomy : Roomy hc db d (parseCommand input)) :
    ∃ response db' d' ops' ts' ms',
      Succeeds (db.execute hc (parseCommand input)) d (response, db') d' ∧
      DirectoryComplete hc l d' db' ops' ts' ms' ∧ Stored (earlier ++ [parseCommand input]) ops' ms' ∧
      Honest earlier (parseCommand input) d' db' response := by
  have hmore := hstored.command (parseCommand input)
  cases hop : operation (parseCommand input) with
  | some op =>
    rw [hop, Option.toList_some] at hmore
    obtain ⟨response, db', d', ops', ts', ms', hrun, h', hops, hview, hresponse⟩ :=
      h.write hplain hapart hroomy hop
    have hok : plainResponse earlier (parseCommand input) = text "OK" := by
      rw [plainResponse]
      obtain ⟨ht, -⟩ | ⟨ht, -⟩ := operation_eq_some hop <;> rw [ht]
    refine ⟨response, db', d', ops', ts', ms', hrun, h', ?_, ?_⟩
    · obtain ⟨rfl, rfl⟩ | rfl := hops
      · exact hmore
      · refine h'.stored (fun key => ?_)
        rw [hview, lastWrite_append_write hop, ← h.live_view hstored]
        split <;> rfl
    · rw [Honest, hok]
      exact hresponse.imp_right Or.inr
  | none =>
    rw [hop, Option.toList_none, List.append_nil] at hmore
    obtain ht | ht | ht := operation_eq_none hop
    · refine ⟨_, db, d, ops, ts, ms, execute_read ht, h, hmore, ?_⟩
      rw [Honest, plainResponse, ht]
      refine (h.answered (parseCommand input).key).imp (fun hanswer => ?_) Or.inl
      rw [hanswer, answer_eq_live, h.live_view hstored]
    · refine ⟨text "BYE", db, d, ops, ts, ms, ?_, h, hmore, Or.inl ?_⟩
      · rw [execute, ht]
        exact .pure
      · rw [plainResponse, ht]
    · refine ⟨text "ERROR invalid command", db, d, ops, ts, ms, ?_, h, hmore, Or.inl ?_⟩
      · rw [execute, ht]
        exact .pure
      · rw [plainResponse, ht]

/-- In every state of every run, the table files and the log hold all writes. -/
theorem Compacting.directoryComplete (hplain : l.Plain) (hapart : ¬ text ".sst" <:+ l.walFilename)
    (h : Compacting hc l db d earlier) :
    ∃ ops ts ms, DirectoryComplete hc l d db ops ts ms ∧ Stored earlier ops ms := by
  induction h with
  | start mode hvacant hinit =>
    obtain ⟨h, hview⟩ := directoryComplete_vacant hapart hvacant mode hinit
    refine ⟨[], [], [], h, h.stored (fun key => ?_)⟩
    rw [hview]
    rfl
  | command input response _ hroomy hrun ih =>
    obtain ⟨ops, ts, ms, h, hstored⟩ := ih
    obtain ⟨response', db', d', ops', ts', ms', hrun', h', hstored', -⟩ :=
      h.command hplain hapart hstored hroomy
    obtain ⟨hresult, rfl⟩ := hrun.unique hrun'
    obtain ⟨-, rfl⟩ := Prod.mk.inj hresult
    exact ⟨ops', ts', ms', h', hstored'⟩
  | restart mode _ hclose hinit ih =>
    obtain ⟨ops, ts, ms, h, hstored⟩ := ih
    obtain ⟨wal', d₁, hclose', hsame, hlog⟩ := h.closed
    obtain ⟨-, rfl⟩ := hclose.unique hclose'
    obtain ⟨db', d', hinit', h', -, -⟩ := h.restarted hplain hapart hsame hlog mode
    obtain ⟨hdb, rfl⟩ := hinit.unique hinit'
    cases hdb
    exact ⟨ops, ts, ms, h', hstored⟩

end Runs

/-- After every run the next command has the answer of the plain map or fails over a listed
table without a file, and a start on the files answers every read as the plain map. -/
theorem compactions_never_mislead (hc : HeaderConstants) (directory : Bytes)
    (hplain : ∀ b ∈ directory, isSpace b = false) (db : Database) (d : Disk)
    (earlier : List Command) (h : Compacting hc (Layout.ofDirectory directory) db d earlier) :
    (∀ input, Roomy hc db d (parseCommand input) → ∃ response db' d',
      Succeeds (db.execute hc (parseCommand input)) d (response, db') d' ∧
        Honest earlier (parseCommand input) d' db' response) ∧
    ∀ mode, ∃ wal d₁ db' d', Succeeds db.storage.wal.close d wal d₁ ∧
      Succeeds (initializeDatabase hc (Layout.ofDirectory directory).walFilename mode) d₁ (.ok db')
        d' ∧
      ∀ key, Succeeds (db'.execute hc ⟨.get, key, []⟩) d'
        ((lastWrite earlier key).getD (text "NOT_FOUND"), db') d' := by
  have hplain' := plain_ofDirectory hplain
  have hapart := ofDirectory_apart directory
  obtain ⟨ops, ts, ms, hcomplete, hstored⟩ := h.directoryComplete hplain' hapart
  constructor
  · intro input hroomy
    obtain ⟨response, db', d', -, -, -, hrun, -, -, hhonest⟩ :=
      hcomplete.command hplain' hapart hstored hroomy
    exact ⟨response, db', d', hrun, hhonest⟩
  · intro mode
    obtain ⟨wal, d₁, hclose, hsame, hlog⟩ := hcomplete.closed
    obtain ⟨db', d', hinit, hstarted, rfl, hview⟩ :=
      hcomplete.restarted hplain' hapart hsame hlog mode
    refine ⟨wal, d₁, db', d', hclose, hinit, fun key => ?_⟩
    rw [← hcomplete.live_view hstored, ← hview, ← answer_eq_live]
    exact (executeGet_succeeds hstarted.shows ⟨.get, key, []⟩).bind .pure

/-- The compaction's own table, listed without a file. -/
def compacted : Database :=
  listing [table 3 ((AList.singleton (text "a") value : Entries).insert (text "b") value)] 4

theorem compacting_compacted :
    Compacting .least directory compacted compactedDisk
      [parseCommand (text "PUT a x"), parseCommand (text "PUT b x")] := by
  have hvacant : Vacant directory ∅ := ⟨⟨rfl, rfl⟩, fun _ _ => rfl⟩
  have hstart : Compacting .least directory (listing [] 1) openedDisk [] :=
    .start .async hvacant (by decide +kernel)
  have hfirst : Compacting .least directory (listing [table 1 (AList.singleton (text "a") value)] 2)
      (entered .least (listing [] 1, openedDisk) (text "PUT a x")).2
      ([] ++ [parseCommand (text "PUT a x")]) :=
    hstart.command (text "PUT a x") (text "OK") (by decide +kernel) (by decide +kernel)
  exact hfirst.command (text "PUT b x") (text "OK") (by decide +kernel) (by decide +kernel)

/-- A read that needs the deleted file fails, and after a restart it is answered. -/
theorem compactions_never_mislead_compacted :
    Succeeds (compacted.execute .least (parseCommand (text "GET a"))) compactedDisk
        (text "ERROR read failed: Failed to open SSTable: d/tables/table_3.sst", compacted)
        compactedDisk ∧
      ∃ wal d₁ db' d', Succeeds compacted.storage.wal.close compactedDisk wal d₁ ∧
        Succeeds (initializeDatabase .least directory.walFilename .sync) d₁ (.ok db') d' ∧
        ∀ key, Succeeds (db'.execute .least ⟨.get, key, []⟩) d'
          ((lastWrite [parseCommand (text "PUT a x"), parseCommand (text "PUT b x")] key).getD
            (text "NOT_FOUND"), db') d' :=
  ⟨by decide +kernel, (compactions_never_mislead .least (text "d") (by decide +kernel) compacted
    compactedDisk _ compacting_compacted).2 .sync⟩

end ForgeDB.CompactionRuns
