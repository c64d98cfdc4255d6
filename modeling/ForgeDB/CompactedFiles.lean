import ForgeDB.ReadAnswers
import ForgeDB.TableIds

/-!
# What compactions leave

A compaction deletes the table that it has just written and leaves the files of the tables
that it has taken off the list. A read that needs the deleted file fails from then on, and
so does the next compaction; every other read still finds what was written. Writes, flushes
and compactions keep the files in this shape.
-/

namespace ForgeDB.CompactionRuns
open CompactionSteps CrashPrograms CrashPrograms.Io Database LayeredMaps ReadAnswers Reopening
open SSTables TableIds TextStreams WalRecovery

/-- The list next to the tables that have files: it names all of them, or it names, below
newer ones, one table without a file that stands for the older ones. -/
inductive Lists (l : Layout) : List SSTableMetadata → List SSTableMetadata → List Entries → Prop
  | all (tables : List SSTableMetadata) (ms : List Entries) : Lists l tables tables ms
  | merged {gone : SSTableMetadata} {old new : List SSTableMetadata} {older newer : List Entries} :
      gone = metadataOf gone.id (l.tableFilename gone.id) (mergedLive older) →
      (∀ t ∈ old ++ new, t.id ≠ gone.id) → old.length = older.length →
      Lists l (gone :: new) (old ++ new) (older ++ newer)

/-- There is no table file besides those of `ts`. -/
def Only (d : Disk) (ts : List SSTableMetadata) : Prop :=
  ∀ path, text ".sst" <:+ path → d.lookup path ≠ none → ∃ t ∈ ts, path = t.filename

/-- A database whose table files are those of `ts`, whatever compactions have made of the
list. The log is that of `ops`. -/
structure DirectoryComplete (hc : HeaderConstants) (l : Layout) (d : Disk) (db : Database)
    (ops : List LogOperation) (ts : List SSTableMetadata) (ms : List Entries) : Prop where
  reopenable : Reopenable hc l d db ops
  shows : Shows l d { db.storage.manifest with tables := ts } ms
  words : ∀ m ∈ ms, m.entries ≠ [] ∧ ∀ e ∈ m.entries, Kept e
  only : Only d ts
  logged : ∀ op ∈ ops, IsWord op.key
  lists : Lists l db.storage.manifest.tables ts ms
  listed_lt : ∀ t ∈ db.storage.manifest.tables, t.id < db.storage.manifest.nextTableId
  held : ∀ op ∈ ops, op.key ∈ db.memtable.data
  agrees : ∀ key, ((replay ∅ (ops.map LogOperation.record)).lookup key).or (newest ms key) =
    db.view ms key

section Reading

variable {l : Layout} {d : Disk} {db : Database} {tables : List SSTableMetadata}
  {ms : List Entries} {data : Entries} {filename : Bytes}

theorem searchResult_append (d : Disk) (key : Bytes) (front back : List SSTableMetadata) :
    searchResult d key (front ++ back) =
      match searchResult d key front with
      | .ok none => searchResult d key back
      | found => found := by
  induction front with
  | nil => rfl
  | cons table front ih =>
    rw [List.cons_append, searchResult, searchResult]
    rcases tableResult d key table with e | _ | entry
    · rfl
    · exact ih
    · rfl

theorem searchResult_holds (h : List.Forall₂ (Holds d) tables ms) (key : Bytes) :
    searchResult d key tables.reverse = .ok ((newest ms key).map MemTableEntry.reported) :=
  ((getFrom_eq d tables.reverse key).unique (getFrom_reverse_succeeds h key)).1

theorem loadResult_missing (hnone : d.lookup filename = none) :
    loadResult d filename = .error (text "Failed to open SSTable: " ++ filename) := by
  rw [loadResult, Disk.contents, hnone]

/-- A table without a file fails, except for keys that its metadata excludes. -/
theorem tableResult_missing (id : ℕ) (hnone : d.lookup filename = none) (key : Bytes) :
    tableResult d key (metadataOf id filename data) =
        .error (text "Failed to open SSTable: " ++ filename) ∨
      (tableResult d key (metadataOf id filename data) = .ok none ∧ data.lookup key = none) := by
  have hmiss : ∀ entry, data.lookup key = some entry →
      (metadataOf id filename data).entryCount ≠ 0 ∧
        (metadataOf id filename data).smallestKey ≤ key ∧
        key ≤ (metadataOf id filename data).largestKey :=
    fun entry hentry => range_of_lookup id filename hentry
  have hload : loadResult d (metadataOf id filename data).filename =
      .error (text "Failed to open SSTable: " ++ filename) := loadResult_missing hnone
  rw [tableResult, hload]
  split
  · next hempty =>
    refine Or.inr ⟨rfl, Option.eq_none_iff_forall_ne_some.mpr (fun entry hentry => ?_)⟩
    exact (hmiss entry hentry).1 hempty
  · split
    · next hrange =>
      refine Or.inr ⟨rfl, Option.eq_none_iff_forall_ne_some.mpr (fun entry hentry => ?_)⟩
      obtain ⟨-, hsmall, hlarge⟩ := hmiss entry hentry
      exact hrange.elim (not_lt.mpr hsmall) (not_lt.mpr hlarge)
    · exact Or.inl rfl

/-- Two lists of equal length side by side, cut at the same place. -/
theorem holds_cut {old new : List SSTableMetadata} {older newer : List Entries}
    (h : List.Forall₂ (Holds d) (old ++ new) (older ++ newer)) (hlength : old.length = older.length) :
    List.Forall₂ (Holds d) old older ∧ List.Forall₂ (Holds d) new newer := by
  have hfront := List.forall₂_take_append _ _ _ h
  have hback := List.forall₂_drop_append _ _ _ h
  rw [← hlength, List.take_left] at hfront
  rw [← hlength, List.drop_left] at hback
  exact ⟨hfront, hback⟩

end Reading

section Answers

variable {hc : HeaderConstants} {l : Layout} {d : Disk} {db : Database} {ops : List LogOperation}
  {ts : List SSTableMetadata} {ms : List Entries}

/-- The list names the tables that have files, or one that has none. -/
theorem DirectoryComplete.listed_or_gone (h : DirectoryComplete hc l d db ops ts ms) :
    db.storage.manifest.tables = ts ∨ ∃ gone ∈ db.storage.manifest.tables,
      gone.filename = l.tableFilename gone.id ∧ ∀ t ∈ ts, t.id ≠ gone.id := by
  have hlists := h.lists
  generalize db.storage.manifest.tables = listed at hlists
  cases hlists with
  | all => exact Or.inl rfl
  | @merged gone old new older newer hgone hids hlength =>
    exact Or.inr ⟨gone, List.mem_cons_self, by rw [hgone, metadataOf], hids⟩

theorem DirectoryComplete.missing (h : DirectoryComplete hc l d db ops ts ms)
    {gone : SSTableMetadata}
    (hname : gone.filename = l.tableFilename gone.id) (hids : ∀ t ∈ ts, t.id ≠ gone.id) :
    d.lookup gone.filename = none := by
  by_contra hsome
  have hsst : text ".sst" <:+ gone.filename := by
    rw [hname]
    exact List.suffix_append _ _
  obtain ⟨t, ht, hpath⟩ := h.only gone.filename hsst hsome
  rw [hname, h.shows.placed t ht] at hpath
  exact hids t ht (l.tableFilename_injective hpath).symm

theorem answered_of_search {key : Bytes} {found : Option MemTableEntry}
    (hsearch : searchResult d key db.storage.manifest.tables.reverse = .ok found)
    (hlive : live found = live (newest ms key)) : answered db d key = answer (db.view ms key) := by
  rw [answered, MemTable.get, view, hsearch]
  cases db.memtable.data.lookup key with
  | some entry =>
    rw [Option.some_or, ← answer_map_reported (some entry)]
    rfl
  | none =>
    rw [Option.none_or, answer_eq_live, ← hlive, ← answer_eq_live]
    rfl

/-- A search that fails is not looked at when the key is in memory. -/
theorem answered_of_error {key error : Bytes}
    (hsearch : searchResult d key db.storage.manifest.tables.reverse = .error error) :
    answered db d key = answer (db.view ms key) ∨
      answered db d key = text "ERROR read failed: " ++ error := by
  rw [answered, MemTable.get, view, hsearch]
  cases db.memtable.data.lookup key with
  | some entry =>
    rw [Option.some_or, ← answer_map_reported (some entry)]
    exact Or.inl rfl
  | none => exact Or.inr rfl

/-- A listed table has no file, and the answer says so. -/
def Fails (d : Disk) (db : Database) (context response : Bytes) : Prop :=
  ∃ t ∈ db.storage.manifest.tables, d.lookup t.filename = none ∧
    response = context ++ (text "Failed to open SSTable: " ++ t.filename)

/-- A read answers by the view, or it needs the missing file. -/
theorem DirectoryComplete.answered (h : DirectoryComplete hc l d db ops ts ms) (key : Bytes) :
    ReadAnswers.answered db d key = answer (db.view ms key) ∨
      Fails d db (text "ERROR read failed: ") (ReadAnswers.answered db d key) := by
  have hholds := h.shows.holds
  have hmissing := @h.missing
  have hlists := h.lists
  generalize hlisted : db.storage.manifest.tables = listed at hlists
  cases hlists with
  | all =>
    refine Or.inl (answered_of_search ?_ (live_map_reported _))
    rw [hlisted]
    exact searchResult_holds hholds key
  | @merged gone old new older newer hgone hids hlength =>
    obtain ⟨-, hnew⟩ := holds_cut hholds hlength
    have hname : gone.filename = l.tableFilename gone.id := by rw [hgone, metadataOf]
    have hnone := hmissing hname hids
    cases hfound : newest newer key with
    | some entry =>
      have hsearch : searchResult d key db.storage.manifest.tables.reverse =
          .ok (some entry.reported) := by
        rw [hlisted, List.reverse_cons, searchResult_append, searchResult_holds hnew, hfound]
        rfl
      refine Or.inl (answered_of_search hsearch ?_)
      rw [newest_append, hfound, Option.some_or]
      exact live_map_reported (some entry)
    | none =>
      -- the newer tables do not have the key
      have hsearch : searchResult d key db.storage.manifest.tables.reverse =
          searchResult d key [gone] := by
        rw [hlisted, List.reverse_cons, searchResult_append, searchResult_holds hnew, hfound]
        rfl
      rw [hname] at hnone
      rw [hgone, searchResult] at hsearch
      rcases tableResult_missing gone.id hnone key with herror | ⟨hpassed, hunmerged⟩
      · rw [herror] at hsearch
        refine (answered_of_error hsearch).imp_right (fun hanswer => ⟨gone, ?_, ?_, ?_⟩)
        · rw [hlisted]
          exact List.mem_cons_self
        · rw [hname, hnone]
        · rw [hanswer, hname]
      · rw [hpassed] at hsearch
        refine Or.inl (answered_of_search hsearch ?_)
        rw [newest_append, hfound, Option.none_or, ← live_filter (newest older key),
          ← lookup_mergedLive, hunmerged]

end Answers

section Steps

variable {hc : HeaderConstants} {l : Layout} {d d' : Disk} {db : Database}
  {ops : List LogOperation} {ts listed : List SSTableMetadata} {ms : List Entries}

theorem Only.of_same (h : Only d ts) {ps : List Bytes} (hsame : Disk.SameExcept ps d d')
    (hps : ∀ path ∈ ps, ¬ text ".sst" <:+ path) : Only d' ts := by
  intro path hpath hsome
  rw [hsame path (fun hmem => hps path hmem hpath)] at hsome
  exact h path hpath hsome

theorem log_apart (hapart : ¬ text ".sst" <:+ l.walFilename) :
    ∀ path ∈ [l.walFilename], ¬ text ".sst" <:+ path :=
  fun _ hpath => List.mem_singleton.mp hpath ▸ hapart

theorem lookup_replay_append (rs : List WalRecord) (op : LogOperation) (key : Bytes) :
    (replay ∅ (rs ++ [op.record])).lookup key =
      if key = op.key then some op.entry else (replay ∅ rs).lookup key := by
  have hlast : replay ∅ (rs ++ [op.record]) = (replay ∅ rs).insert op.key op.entry := by
    rw [← LogOperation.applyRecord_record]
    exact List.foldl_append
  rw [hlast, lookup_insert_eq]

theorem DirectoryComplete.written (hapart : ¬ text ".sst" <:+ l.walFilename)
    (h : DirectoryComplete hc l d db ops ts ms) {op : LogOperation}
    (hop : 9 + op.record.key.length + op.record.value.length ≤ maxRecordSize)
    (hword : IsWord op.key) :
    ∃ wal d', Succeeds (op.append hc db.storage.wal) d (true, wal) d' ∧
      DirectoryComplete hc l d' (db.written wal op) (ops ++ [op]) ts ms := by
  obtain ⟨wal, d', happend, hopen⟩ := h.reopenable.written hop hword
  obtain ⟨wal', d₁, happend', -, -, hsame⟩ :=
    Wal.appendRecord_succeeds hc h.reopenable.carries op.record
  rw [← LogOperation.append_eq] at happend'
  obtain ⟨-, rfl⟩ := happend.unique happend'
  rw [h.reopenable.wired.wal_eq] at hsame
  refine ⟨wal, d', happend, hopen, h.shows.frame_wal hsame, h.words,
    h.only.of_same hsame (log_apart hapart), ?_, h.lists, h.listed_lt, ?_, fun key => ?_⟩
  · intro op' hop'
    rcases List.mem_append.mp hop' with hop' | hop'
    · exact h.logged op' hop'
    · rw [List.mem_singleton.mp hop']
      exact hword
  · intro op' hop'
    rw [Database.written, LogOperation.apply_data_eq, AList.mem_insert]
    rcases List.mem_append.mp hop' with hop' | hop'
    · exact Or.inr (h.held op' hop')
    · exact Or.inl (congrArg LogOperation.key (List.mem_singleton.mp hop'))
  · rw [List.map_append, List.map_singleton, lookup_replay_append, view_written, ← h.agrees]
    split <;> rfl

theorem Lists.pushed (h : Lists l listed ts ms) {t : SSTableMetadata}
    (ht : ∀ t' ∈ listed, t'.id < t.id) (m : Entries) :
    Lists l (listed ++ [t]) (ts ++ [t]) (ms ++ [m]) := by
  cases h with
  | all => exact .all _ _
  | @merged gone old new older newer hgone hids hlength =>
    have hmore : ∀ t' ∈ old ++ (new ++ [t]), t'.id ≠ gone.id := by
      intro t' ht'
      rw [← List.append_assoc] at ht'
      rcases List.mem_append.mp ht' with ht' | ht'
      · exact hids t' ht'
      · rw [List.mem_singleton.mp ht']
        exact (ht gone List.mem_cons_self).ne'
    rw [List.append_assoc, List.append_assoc]
    exact .merged hgone hmore hlength

theorem DirectoryComplete.words_pushed (h : DirectoryComplete hc l d db ops ts ms)
    (hne : db.memtable.data.entries ≠ []) :
    ∀ m ∈ ms ++ [db.memtable.data], m.entries ≠ [] ∧ ∀ e ∈ m.entries, Kept e := by
  intro m hm
  rcases List.mem_append.mp hm with hm | hm
  · exact h.words m hm
  · rw [List.mem_singleton.mp hm]
    exact ⟨hne, h.reopenable.kept⟩

theorem DirectoryComplete.shows_beside (h : DirectoryComplete hc l d db ops ts ms)
    (hsame : Disk.SameExcept (l.tableFilename db.storage.manifest.nextTableId :: l.walFilename ::
      db.storage.manifest.paths) d d') : Shows l d' { db.storage.manifest with tables := ts } ms := by
  refine h.shows.frame hsame (fun t ht hmem => ?_)
  have hne_next := h.shows.ne_next ht
  rw [List.mem_cons, List.mem_cons] at hmem
  rcases hmem with he | he | he
  · exact hne_next he
  · exact l.wal_ne_table t.id (h.shows.placed t ht ▸ he.symm)
  · exact l.table_notMem_paths h.reopenable.persisted.filename_eq t.id (h.shows.placed t ht ▸ he)

theorem DirectoryComplete.storable (h : DirectoryComplete hc l d db ops ts ms)
    (hcount : db.memtable.data.entries.length < 2 ^ 64) : Storable db.memtable.data :=
  ⟨fun e he => (h.reopenable.kept e he).2, hcount⟩

theorem DirectoryComplete.shows_pushed (h : DirectoryComplete hc l d db ops ts ms)
    (hcount : db.memtable.data.entries.length < 2 ^ 64)
    (hroom : db.storage.manifest.nextTableId + 1 < 2 ^ 64)
    (hsame : Disk.SameExcept (l.tableFilename db.storage.manifest.nextTableId :: l.walFilename ::
      db.storage.manifest.paths) d d')
    (hfile : d'.lookup (l.tableFilename db.storage.manifest.nextTableId) =
      some (.regular (tableContents db.memtable.data))) :
    Shows l d' (({ db.storage.manifest with tables := ts } : Manifest).pushed
      (Shows.nextTable l db.storage.manifest db.memtable.data)) (ms ++ [db.memtable.data]) :=
  (h.shows_beside hsame).pushed hroom (h.storable hcount) hfile

theorem DirectoryComplete.only_beside (hapart : ¬ text ".sst" <:+ l.walFilename)
    (h : DirectoryComplete hc l d db ops ts ms)
    (hsame : Disk.SameExcept (l.tableFilename db.storage.manifest.nextTableId :: l.walFilename ::
      db.storage.manifest.paths) d d') {path : Bytes} (hpath : text ".sst" <:+ path)
    (hsome : d'.lookup path ≠ none)
    (hnew : path ≠ l.tableFilename db.storage.manifest.nextTableId) :
    ∃ t ∈ ts, path = t.filename := by
  refine h.only path hpath ?_
  rwa [← hsame path ?_]
  rw [List.mem_cons, List.mem_cons, not_or, not_or]
  exact ⟨hnew, fun he => hapart (he ▸ hpath),
    fun hmem => paths_apart h.reopenable.persisted.filename_eq path hmem hpath⟩

theorem DirectoryComplete.flushed (hplain : l.Plain) (hapart : ¬ text ".sst" <:+ l.walFilename)
    (h : DirectoryComplete hc l d db ops ts ms) (hne : db.memtable.data.entries ≠ [])
    (hcount : db.memtable.data.entries.length < 2 ^ 64)
    (hlen : db.storage.tableCount + 1 < 2 ^ 64)
    (hroom : db.storage.manifest.nextTableId + 1 < 2 ^ 64) :
    ∃ db' d' t, Succeeds db.flushMemtable d (.ok (), db') d' ∧
      DirectoryComplete hc l d' db' [] (ts ++ [t]) (ms ++ [db.memtable.data]) ∧
      (∀ key, db'.view (ms ++ [db.memtable.data]) key = db.view ms key) ∧
      db'.storage.manifest.nextTableId = db.storage.manifest.nextTableId + 1 ∧
      db'.storage.tableCount = db.storage.tableCount + 1 := by
  have hname := h.reopenable.persisted.filename_eq
  obtain ⟨db', d', hrun, hopen, hcount'⟩ := h.reopenable.flushed hplain hne hcount hlen
  obtain ⟨s', d₁, hflush, -, -, -, hman, htable, -, hsame⟩ :=
    flushMemtable_run h.reopenable.wired hname h.reopenable.carries hne
  have hrun' : Succeeds db.flushMemtable d (.ok (), ⟨db.memtable.clear, s'⟩) d₁ := by
    rw [flushMemtable_nonempty hne]
    exact hflush.bind .pure
  obtain ⟨hresult, rfl⟩ := hrun.unique hrun'
  obtain ⟨-, rfl⟩ := Prod.mk.inj hresult
  have hview : ∀ key, view ⟨db.memtable.clear, s'⟩ (ms ++ [db.memtable.data]) key = db.view ms key :=
    fun key => view_flushed rfl ms key
  have hnext : s'.manifest.nextTableId = db.storage.manifest.nextTableId + 1 := by
    rw [hman]
    exact Shows.next_pushed db.memtable.data hroom
  refine ⟨_, d', Shows.nextTable l db.storage.manifest db.memtable.data, hrun, ⟨hopen, ?_,
    h.words_pushed hne, ?_, by simp, ?_, ?_, by simp, fun key => rfl⟩, hview, hnext, hcount'⟩
  · rw [hman]
    exact h.shows_pushed hcount hroom hsame htable
  · intro path hpath hsome
    by_cases hnew : path = l.tableFilename db.storage.manifest.nextTableId
    · exact ⟨_, List.mem_append_right _ (List.mem_singleton_self _), hnew⟩
    · obtain ⟨t, ht, hfile⟩ := h.only_beside hapart hsame hpath hsome hnew
      exact ⟨t, List.mem_append_left _ ht, hfile⟩
  · rw [hman]
    exact h.lists.pushed h.listed_lt _
  · intro t ht
    rw [hnext]
    rw [hman] at ht
    rcases List.mem_append.mp ht with ht | ht
    · exact (h.listed_lt t ht).trans (Nat.lt_succ_self _)
    · rw [List.mem_singleton.mp ht]
      exact Nat.lt_succ_self _

/-- The replacement is listed, its file is deleted, and the old files stay. -/
theorem compact_run (hw : db.storage.walFilename = l.walFilename)
    (hs : Shows l d db.storage.manifest ms) (htwo : ¬ db.storage.manifest.tables.length < 2) :
    ∃ d', Succeeds db.storage.compact d
        (.ok (), { db.storage with manifest := relisted l db.storage.manifest (mergedLive ms) }) d' ∧
      (relisted l db.storage.manifest (mergedLive ms)).tables =
        [Shows.nextTable l db.storage.manifest (mergedLive ms)] ∧
      d'.lookup (l.tableFilename db.storage.manifest.nextTableId) = none ∧
      Disk.SameExcept (l.tableFilename db.storage.manifest.nextTableId :: db.storage.manifest.paths)
        d d' := by
  have htables : (relisted l db.storage.manifest (mergedLive ms)).tables =
      [Shows.nextTable l db.storage.manifest (mergedLive ms)] := without_old hs (mergedLive ms)
  obtain ⟨d₁, hreplace, -, hsame₁⟩ := replaceTables_run hw (mergedLive ms) d
  obtain ⟨d₂, hremove, hnone, hsame₂⟩ :=
    removeFiles_succeeds (relisted l db.storage.manifest (mergedLive ms)).tables d₁
  rw [htables] at hnone hsame₂
  have hmerge : Succeeds db.storage.mergeTables d
      (.ok (), { db.storage with manifest := relisted l db.storage.manifest (mergedLive ms) }) d₁ :=
    (loadTables_succeeds hs.holds ∅).bind hreplace
  refine ⟨d₂, ?_, htables, hnone _ (List.mem_singleton_self _), fun path hpath => ?_⟩
  · rw [Storage.compact, if_neg htwo]
    exact hmerge.bind (hremove.bind .pure)
  · have hother : path ∉ [l.tableFilename db.storage.manifest.nextTableId] := by
      rw [List.mem_singleton]
      exact fun he => hpath (he ▸ List.mem_cons_self)
    rw [hsame₂ path hother, hsame₁ path hpath]

theorem shows_raised {m : Manifest} (h : Shows l d m ms) {next : ℕ} (hle : m.nextTableId ≤ next)
    (hlt : next < 2 ^ 64) : Shows l d { m with nextTableId := next } ms :=
  ⟨h.filename_eq, h.holds, h.placed, h.increasing, fun t ht => (h.ids_lt t ht).trans_le hle, hlt⟩

def Compacted (d : Disk) (s : Storage) (r : Except Bytes Unit) : Prop :=
  r = .ok () ∨ ∃ t ∈ s.manifest.tables, d.lookup t.filename = none ∧
    r = .error (text "Failed to open SSTable: " ++ t.filename)

theorem DirectoryComplete.replaced (h : DirectoryComplete hc l d db ops ts ms)
    (htables : db.storage.manifest.tables = ts) (htwo : ¬ db.storage.manifest.tables.length < 2)
    (hroom : db.storage.manifest.nextTableId + 1 < 2 ^ 64) {r : Except Bytes Unit} {s' : Storage}
    (hrun : Succeeds db.storage.compact d (r, s') d')
    (hopen : Reopenable hc l d' { db with storage := s' } ops) :
    DirectoryComplete hc l d' { db with storage := s' } ops ts ms ∧ Compacted d' s' r := by
  subst htables
  obtain ⟨d₁, hrun', htables, hnone, hsame⟩ :=
    compact_run h.reopenable.wired.walFilename_eq h.shows htwo
  obtain ⟨hresult, rfl⟩ := hrun.unique hrun'
  obtain ⟨rfl, rfl⟩ := Prod.mk.inj hresult
  have hname := h.reopenable.persisted.filename_eq
  have hnext : (relisted l db.storage.manifest (mergedLive ms)).nextTableId =
      db.storage.manifest.nextTableId + 1 := Shows.next_pushed (mergedLive ms) hroom
  have hshows : Shows l d' db.storage.manifest ms := by
    refine h.shows.frame hsame (fun t ht hmem => ?_)
    rcases List.mem_cons.mp hmem with he | hmem
    · exact h.shows.ne_next ht he
    · exact l.table_notMem_paths hname t.id (h.shows.placed t ht ▸ hmem)
  have hraised := shows_raised hshows (Nat.le_add_right _ 1) hroom
  have hlists : Lists l [Shows.nextTable l db.storage.manifest (mergedLive ms)]
      (db.storage.manifest.tables ++ []) (ms ++ []) := by
    refine .merged rfl (fun t ht => ?_) h.shows.holds.length_eq
    rw [List.append_nil] at ht
    exact (h.shows.ids_lt t ht).ne
  rw [List.append_nil, List.append_nil] at hlists
  refine ⟨⟨hopen, ?_, h.words, fun path hpath hsome => ?_, h.logged, ?_, ?_, h.held, h.agrees⟩,
    Or.inl rfl⟩
  · rw [← hnext] at hraised
    exact hraised
  · have hother : path ∉ l.tableFilename db.storage.manifest.nextTableId ::
        db.storage.manifest.paths := by
      rw [List.mem_cons, not_or]
      exact ⟨fun he => hsome (he ▸ hnone), fun hmem => paths_apart hname path hmem hpath⟩
    rw [hsame path hother] at hsome
    exact h.only path hpath hsome
  · rw [htables]
    exact hlists
  · intro t ht
    rw [hnext]
    rw [htables] at ht
    rw [List.mem_singleton.mp ht]
    exact Nat.lt_succ_self _

theorem DirectoryComplete.compacted (hplain : l.Plain) (h : DirectoryComplete hc l d db ops ts ms)
    (hlen : db.storage.tableCount + 1 < 2 ^ 64)
    (hroom : db.storage.manifest.nextTableId + 1 < 2 ^ 64)
    (hlive : 2 ≤ db.storage.tableCount → ∀ merged,
      Succeeds (Storage.loadTables db.storage.manifest.tables ∅) d (.ok merged) d →
      merged.entries.length < 2 ^ 64 ∧ (Storage.dropTombstones merged).entries ≠ []) :
    ∃ r s' d', Succeeds db.storage.compact d (r, s') d' ∧
      DirectoryComplete hc l d' { db with storage := s' } ops ts ms ∧ Compacted d' s' r := by
  obtain ⟨r, s', d', hrun, hopen⟩ := h.reopenable.compacted hplain hlen hlive
  by_cases hfew : db.storage.manifest.tables.length < 2
  · have hnothing : Succeeds db.storage.compact d (.ok (), db.storage) d := by
      rw [Storage.compact, if_pos hfew]
      exact .pure
    exact ⟨_, _, _, hnothing, h, Or.inl rfl⟩
  have hlists := h.lists
  have hmissing := @h.missing
  generalize hlisted : db.storage.manifest.tables = listed at hlists
  cases hlists with
  | all => exact ⟨r, s', d', hrun, h.replaced hlisted hfew hroom hrun hopen⟩
  | @merged gone old new older newer hgone hids hlength =>
    -- the first table of the list cannot be loaded
    have hname : gone.filename = l.tableFilename gone.id := by rw [hgone, metadataOf]
    have hnone := hmissing hname hids
    have hload := load_eq d gone
    rw [loadResult_missing hnone] at hload
    have hloads : Succeeds (Storage.loadTables db.storage.manifest.tables ∅) d
        (.error (text "Failed to open SSTable: " ++ gone.filename)) d := by
      rw [hlisted]
      exact hload.bind .pure
    have hmerge : Succeeds db.storage.mergeTables d
        (.error (text "Failed to open SSTable: " ++ gone.filename), db.storage) d :=
      hloads.bind .pure
    refine ⟨.error _, db.storage, d, ?_, h, Or.inr ⟨gone, ?_, hnone, rfl⟩⟩
    · rw [Storage.compact, if_neg hfew]
      exact hmerge.bind .pure
    · rw [hlisted]
      exact List.mem_cons_self

end Steps

end ForgeDB.CompactionRuns
