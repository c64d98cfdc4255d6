import ForgeDB.Databases

/-!
# Starting on the files of a directory

A start reads the table list, loads all tables over each other, replays the log over
them and keeps the result as the table in memory. On files that fit together it
succeeds, and what it shows is the log over the tables.
-/

namespace ForgeDB
open CrashPrograms CrashPrograms.Io LayeredMaps SSTables WalRecovery

/-- The text file on disk stands for the list `m`; no file stands for the empty list. -/
def Persisted (l : Layout) (d : Disk) (m : Manifest) : Prop :=
  (d.lookup l.manifestFilename = some (.regular m.manifestText) ∧ m.Printable ∧
      m.filename = l.manifestFilename) ∨
    (d.lookup l.manifestFilename = none ∧ m = ⟨l.manifestFilename, [], 1⟩)

namespace Persisted

variable {l : Layout} {d d' : Disk} {m : Manifest}

theorem of_same (h : Persisted l d m)
    (hsame : d'.lookup l.manifestFilename = d.lookup l.manifestFilename) : Persisted l d' m := by
  rw [Persisted, hsame]
  exact h

theorem filename_eq (h : Persisted l d m) : m.filename = l.manifestFilename := by
  rcases h with ⟨-, -, hname⟩ | ⟨-, hempty⟩
  · exact hname
  · rw [hempty]

theorem printable (h : Persisted l d m) : m.Printable := by
  rcases h with ⟨-, hprint, -⟩ | ⟨-, rfl⟩
  · exact hprint
  · exact ⟨by norm_num, by simp, by simp⟩

theorem load (h : Persisted l d m) : Succeeds (Manifest.load l.manifestFilename) d (.ok m) d := by
  rcases h with ⟨hfile, hprint, hname⟩ | ⟨hnone, rfl⟩
  · rw [← hname] at hfile ⊢
    exact Manifest.load_succeeds hprint hfile
  · exact Manifest.load_missing hnone

end Persisted

/-- The bytes of the log; no file stands for the empty log. -/
def LogFile (l : Layout) (d : Disk) (log : Bytes) : Prop :=
  d.lookup l.walFilename = some (.regular log) ∨ (d.lookup l.walFilename = none ∧ log = [])

/-- A directory without log and table list. -/
structure Fresh (l : Layout) (d : Disk) : Prop where
  wal_none : d.lookup l.walFilename = none
  manifest_none : d.lookup l.manifestFilename = none

section Start

variable {hc : HeaderConstants} {l : Layout} {d : Disk} {m : Manifest} {ms : List Entries}
  {log : Bytes}

theorem ensureDirectories_succeeds (walFilename : Bytes) (d : Disk) :
    Succeeds (Storage.ensureDirectories walFilename) d true d := by
  have hmake : ∀ p, Wal.makeParent p ⟨d, []⟩ = .returned true ⟨d, []⟩ := by
    intro p
    rw [Wal.makeParent]
    split
    · rfl
    · rfl
  simp [Succeeds, Storage.ensureDirectories, hmake]

section Routes

variable {walFilename e : Bytes} {mode : DurabilityMode} {w : Wal} {d₁ d₂ : Disk} {m' : Manifest}

theorem initializeStorage_unlisted (hcreate : Succeeds (Wal.create walFilename mode) d w d₁)
    (hload : Succeeds (Manifest.load (Storage.manifestFilename walFilename)) d₁ (.error e) d₁) :
    Succeeds (Storage.initializeStorage walFilename mode) d (.error e) d₁ :=
  (ensureDirectories_succeeds _ _).bind (hcreate.bind (hload.bind .pure))

theorem initializeStorage_listed (hcreate : Succeeds (Wal.create walFilename mode) d w d₁)
    (hload : Succeeds (Manifest.load (Storage.manifestFilename walFilename)) d₁ (.ok m) d₁)
    (hall : m.tables.all (fun table => (d₁.lookup table.filename).isSome) = true) :
    Succeeds (Storage.initializeStorage walFilename mode) d (.ok ⟨walFilename, mode, w, m⟩) d₁ := by
  refine (ensureDirectories_succeeds _ _).bind (hcreate.bind (hload.bind ?_))
  apply Succeeds.getDisk.bind
  rw [if_pos hall]
  exact .pure

/-- A listed file is missing, and the directory is listed instead. -/
theorem initializeStorage_rebuilt (hcreate : Succeeds (Wal.create walFilename mode) d w d₁)
    (hload : Succeeds (Manifest.load (Storage.manifestFilename walFilename)) d₁ (.ok m) d₁)
    (hmissing : ¬ m.tables.all (fun table => (d₁.lookup table.filename).isSome) = true)
    (hrebuild : Succeeds (m.rebuildFromDirectory (Storage.tablesDirectory walFilename)) d₁
      (.ok (), m') d₂) :
    Succeeds (Storage.initializeStorage walFilename mode) d (.ok ⟨walFilename, mode, w, m'⟩) d₂ := by
  refine (ensureDirectories_succeeds _ _).bind (hcreate.bind (hload.bind ?_))
  apply Succeeds.getDisk.bind
  rw [if_neg hmissing]
  exact hrebuild.bind .pure

end Routes

/-- What a start makes of its list: a property of the list as it is read, when all its files are
there, and of the list of the directory. -/
theorem initializeStorage_ensures {G : Manifest → Disk → Prop} (mode : DurabilityMode)
    (hlog : LogFile l d log)
    (hroutes : ∀ d₁, Disk.SameExcept [l.walFilename] d d₁ →
      ∃ loaded, Succeeds (Manifest.load l.manifestFilename) d₁ loaded d₁ ∧
        ∀ m, loaded = .ok m → m.filename = l.manifestFilename ∧
          (m.tables.all (fun table => (d₁.lookup table.filename).isSome) = true → G m d₁) ∧
          ∃ m' d₂, Succeeds (m.rebuildFromDirectory (Storage.tablesDirectory l.walFilename)) d₁
            (.ok (), m') d₂ ∧ G m' d₂ ∧ Disk.SameExcept m.paths d₁ d₂) :
    ∃ r d', Succeeds (Storage.initializeStorage l.walFilename mode) d r d' ∧
      ∀ s, r = .ok s → Wired l s ∧ G s.manifest d' ∧ s.wal.Carries d' log ∧
        d'.lookup l.walFilename = some (.regular log) := by
  obtain ⟨w, d₁, hcreate, hcar, hname, -, hfile, hother⟩ :=
    Wal.create_succeeds l.walFilename mode d log hlog
  obtain ⟨loaded, hload, hm⟩ := hroutes d₁ (fun q hq => hother q (by simpa using hq))
  cases loaded with
  | error e => exact ⟨.error e, d₁, initializeStorage_unlisted hcreate hload, by simp⟩
  | ok m =>
    obtain ⟨hman, hlisted, m', d₂, hrebuild, hrebuilt, hsame⟩ := hm m rfl
    by_cases hall : m.tables.all (fun table => (d₁.lookup table.filename).isSome) = true
    · refine ⟨.ok ⟨l.walFilename, mode, w, m⟩, d₁, initializeStorage_listed hcreate hload hall, ?_⟩
      intro s hs
      cases hs
      exact ⟨⟨rfl, hname⟩, hlisted hall, hcar, hfile⟩
    · have hwal := hsame _ (l.wal_notMem_paths hman)
      refine ⟨.ok ⟨l.walFilename, mode, w, m'⟩, d₂,
        initializeStorage_rebuilt hcreate hload hall hrebuild, ?_⟩
      intro s hs
      cases hs
      exact ⟨⟨rfl, hname⟩, hrebuilt, hcar.of_same (by rw [hname]; exact hwal), hwal.trans hfile⟩

/-- The engine's own start, when every listed file is there. -/
theorem initializeStorage_succeeds (mode : DurabilityMode) (hp : Persisted l d m)
    (hs : Shows l d m ms) (hlog : LogFile l d log) :
    ∃ s d', Succeeds (Storage.initializeStorage l.walFilename mode) d (.ok s) d' ∧ Wired l s ∧
      s.manifest = m ∧ s.wal.Carries d' log ∧ s.wal.durabilityMode = mode ∧
      d'.lookup l.walFilename = some (.regular log) ∧ Disk.SameExcept [l.walFilename] d d' := by
  obtain ⟨w, d', hcreate, hcar, hname, hmode, hfile, hother⟩ :=
    Wal.create_succeeds l.walFilename mode d log hlog
  have hsame : Disk.SameExcept [l.walFilename] d d' := fun q hq => hother q (by simpa using hq)
  have hs' := hs.frame_wal hsame
  have hp' := hp.of_same (hother _ l.wal_ne_manifest.symm)
  have hall : m.tables.all (fun table => (d'.lookup table.filename).isSome) = true := by
    rw [List.all_eq_true]
    intro t ht
    obtain ⟨m', -, hm'⟩ := exists_holds hs'.holds ht
    rw [hm'.file]
    rfl
  exact ⟨⟨l.walFilename, mode, w, m⟩, d', initializeStorage_listed hcreate hp'.load hall,
    ⟨rfl, hname⟩, rfl, hcar, hmode, hfile, hsame⟩

/-- The engine's start, and what it reads from the tables and the log. -/
theorem initialize_parts (hc : HeaderConstants) (mode : DurabilityMode) (hp : Persisted l d m)
    (hs : Shows l d m ms) (hlog : LogFile l d log) :
    ∃ s d', Succeeds (Storage.initializeStorage l.walFilename mode) d (.ok s) d' ∧ Wired l s ∧
      s.manifest = m ∧ s.wal.Carries d' log ∧ s.wal.durabilityMode = mode ∧
      Disk.SameExcept [l.walFilename] d d' ∧
      Succeeds (Storage.loadTables s.manifest.tables ∅) d'
        (.ok ((ms.map loadedEntries).foldl overwrite ∅)) d' ∧
      Succeeds (recoverWal hc s.wal.filename) d' (recoverFrom hc ∅ log) d' := by
  obtain ⟨s, d', hinit, hw, hman, hcar, hmode, hfile, hsame⟩ :=
    initializeStorage_succeeds mode hp hs hlog
  refine ⟨s, d', hinit, hw, hman, hcar, hmode, hsame, ?_, ?_⟩
  · rw [hman]
    exact loadTables_succeeds (hs.frame_wal hsame).holds ∅
  · rw [hw.wal_eq]
    exact recoverWal_succeeds hfile

theorem load_recovered {s : Storage} {data walData : Entries} {result : RecoveryResult}
    (htables : Succeeds (Storage.loadTables s.manifest.tables ∅) d (.ok data) d)
    (hrec : Succeeds (recoverWal hc s.wal.filename) d (result, walData) d)
    (hstatus : result.status = .success ∨ result.status = .recoveredIncompleteTail) :
    Succeeds (s.load hc) d (.ok (overwrite data walData)) d := by
  refine htables.bind (hrec.bind ?_)
  obtain ⟨status, message⟩ := result
  rcases hstatus with h | h
  · cases h
    exact .pure
  · cases h
    exact .pure

theorem admitted_or_refused (status : RecoveryStatus) :
    (status = .success ∨ status = .recoveredIncompleteTail) ∨
      status = .corrupted ∨ status = .ioError := by
  cases status with
  | success => exact Or.inl (Or.inl rfl)
  | recoveredIncompleteTail => exact Or.inl (Or.inr rfl)
  | corrupted => exact Or.inr (Or.inl rfl)
  | ioError => exact Or.inr (Or.inr rfl)

theorem load_refused {s : Storage} {data walData : Entries} {result : RecoveryResult}
    (htables : Succeeds (Storage.loadTables s.manifest.tables ∅) d (.ok data) d)
    (hrec : Succeeds (recoverWal hc s.wal.filename) d (result, walData) d)
    (hstatus : result.status = .corrupted ∨ result.status = .ioError) :
    Succeeds (s.load hc) d (.error result.message) d := by
  refine htables.bind (hrec.bind ?_)
  obtain ⟨status, message⟩ := result
  rcases hstatus with h | h
  · cases h
    exact .pure
  · cases h
    exact .pure

theorem storage_of_initialize {walFilename : Bytes} {mode : DurabilityMode} {db : Database} {d' d₁ : Disk}
    {r : Except Bytes Storage}
    (hinit : Succeeds (Database.initializeDatabase hc walFilename mode) d (.ok db) d')
    (hstorage : Succeeds (Storage.initializeStorage walFilename mode) d r d₁) : ∃ s, r = .ok s := by
  cases r with
  | ok s => exact ⟨s, rfl⟩
  | error e =>
    have herror : Succeeds (Database.initializeDatabase hc walFilename mode) d (.error e) d₁ :=
      hstorage.bind .pure
    cases (hinit.unique herror).1

/-- What a start that works has in memory: the replayed log over the tables. -/
theorem memtable_of_initialize {walFilename : Bytes} {mode : DurabilityMode} {db : Database}
    {d' d₁ : Disk} {s : Storage}
    (hinit : Succeeds (Database.initializeDatabase hc walFilename mode) d (.ok db) d')
    (hstorage : Succeeds (Storage.initializeStorage walFilename mode) d (.ok s) d₁)
    (hfile : d₁.lookup s.wal.filename = some (.regular log)) :
    d' = d₁ ∧ ∃ data, Succeeds (Storage.loadTables s.manifest.tables ∅) d₁ (.ok data) d₁ ∧
      db = ⟨MemTable.empty.replace (overwrite data (recoverFrom hc ∅ log).2), s⟩ := by
  obtain ⟨loaded, hload⟩ := loadTables_total d₁ s.manifest.tables ∅
  have hrecover : Succeeds (recoverWal hc s.wal.filename) d₁ (recoverFrom hc ∅ log) d₁ :=
    recoverWal_succeeds hfile
  generalize recoverFrom hc ∅ log = recovered at hrecover ⊢
  obtain ⟨⟨status, message⟩, walData⟩ := recovered
  cases loaded with
  | error e =>
    have hstop : Succeeds (s.load hc) d₁ (.error e) d₁ := hload.bind .pure
    have herror : Succeeds (Database.initializeDatabase hc walFilename mode) d (.error e) d₁ :=
      hstorage.bind (hstop.bind .pure)
    cases (hinit.unique herror).1
  | ok data =>
    rcases admitted_or_refused status with hstatus | hrefused
    · have hrun : Succeeds (Database.initializeDatabase hc walFilename mode) d
          (.ok ⟨MemTable.empty.replace (overwrite data walData), s⟩) d₁ :=
        hstorage.bind ((load_recovered hload hrecover hstatus).bind .pure)
      obtain ⟨hdb, hdisk⟩ := hinit.unique hrun
      exact ⟨hdisk, data, hload, Except.ok.inj hdb⟩
    · have herror : Succeeds (Database.initializeDatabase hc walFilename mode) d (.error message) d₁ :=
        hstorage.bind ((load_refused hload hrecover hrefused).bind .pure)
      cases (hinit.unique herror).1

theorem initialize_succeeds (hc : HeaderConstants) (mode : DurabilityMode) (hp : Persisted l d m)
    (hs : Shows l d m ms) (hlog : LogFile l d log)
    (hstatus : (recoverFrom hc ∅ log).1.status = .success ∨
      (recoverFrom hc ∅ log).1.status = .recoveredIncompleteTail) :
    ∃ db d', Succeeds (Database.initializeDatabase hc l.walFilename mode) d (.ok db) d' ∧
      Wired l db.storage ∧ db.storage.manifest = m ∧ db.storage.wal.Carries d' log ∧
      db.storage.wal.durabilityMode = mode ∧ Disk.SameExcept [l.walFilename] d d' ∧
      db.memtable = MemTable.empty.replace (overwrite ((ms.map loadedEntries).foldl overwrite ∅)
        (recoverFrom hc ∅ log).2) := by
  obtain ⟨s, d', hinit, hw, hman, hcar, hmode, hsame, htables, hrec⟩ :=
    initialize_parts hc mode hp hs hlog
  refine ⟨⟨MemTable.empty.replace (overwrite ((ms.map loadedEntries).foldl overwrite ∅)
    (recoverFrom hc ∅ log).2), s⟩, d', ?_, hw, hman, hcar, hmode, hsame, rfl⟩
  exact hinit.bind ((load_recovered htables hrec hstatus).bind .pure)

theorem initialize_refused (hc : HeaderConstants) (mode : DurabilityMode) (hp : Persisted l d m)
    (hs : Shows l d m ms) (hlog : LogFile l d log)
    (hstatus : (recoverFrom hc ∅ log).1.status = .corrupted ∨
      (recoverFrom hc ∅ log).1.status = .ioError) :
    ∃ d', Succeeds (Database.initializeDatabase hc l.walFilename mode) d
      (.error (recoverFrom hc ∅ log).1.message) d' := by
  obtain ⟨s, d', hinit, -, -, -, -, -, htables, hrec⟩ := initialize_parts hc mode hp hs hlog
  exact ⟨d', hinit.bind ((load_refused htables hrec hstatus).bind .pure)⟩

end Start
end ForgeDB
