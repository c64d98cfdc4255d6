import ForgeDB.CommandParser
import ForgeDB.FlushCrashes

/-!
# States of a synchronous database

The states reached by parsed commands, restarts, failed flushes and crashes inside a
flush. In all of them memory and disk show the same: what the log holds is in memory
too, and the rest of the memory repeats the tables.
-/

namespace ForgeDB.ReachedStates
open CommandParser CrashPrograms CrashPrograms.Io Database LayeredMaps SSTables TextStreams
open WalRecovery

/-- Entries that fit a log record and a line of the table list. -/
def Fit (e : Entry) : Prop :=
  IsWord e.1 ∧ 9 + e.1.length + e.2.value.length ≤ maxRecordSize

theorem Fit.smallEntry {e : Entry} (h : Fit e) : SmallEntry e := by
  obtain ⟨-, h⟩ := h
  rw [maxRecordSize] at h
  exact ⟨by omega, by omega⟩

theorem isWord_key {input : Bytes} {op : LogOperation}
    (hop : operation (parseCommand input) = some op) : IsWord op.key := by
  have hkeyed := keyed_parseCommand input
  rcases operation_eq_some hop with ⟨ht, rfl⟩ | ⟨ht, rfl⟩
  · exact hkeyed (Or.inl ht)
  · exact hkeyed (Or.inr (Or.inr ht))

/-- Files that show the view `f` to a start. -/
structure Recoverable (hc : HeaderConstants) (l : Layout) (d : Disk) (spent : ℕ)
    (ms : List Entries) (rs : List WalRecord) (f : Bytes → Option MemTableEntry) : Prop where
  survives : Survives l d spent ms (frames hc rs)
  loggable : ∀ r ∈ rs, Loggable r
  records_fit : ∀ key e, (replay ∅ rs).lookup key = some e → Fit ⟨key, e⟩
  tables_fit : ∀ m ∈ ms, ∀ e ∈ m.entries, Fit e
  shown : ∀ key, ((replay ∅ rs).lookup key).or (newest ms key) = f key

/-- A running database in step with its files. -/
structure Consistent (hc : HeaderConstants) (l : Layout) (d : Disk) (spent : ℕ) (db : Database)
    (ms : List Entries) (rs : List WalRecord) : Prop where
  standing : Standing l d spent db.storage ms (frames hc rs)
  loggable : ∀ r ∈ rs, Loggable r
  held : ∀ key e, (replay ∅ rs).lookup key = some e → db.memtable.data.lookup key = some e
  agrees : ∀ key, ((replay ∅ rs).lookup key).or (newest ms key) = db.view ms key
  fit : ∀ e ∈ db.memtable.data.entries, Fit e
  tables_fit : ∀ m ∈ ms, ∀ e ∈ m.entries, Fit e

section Invariant

variable {hc : HeaderConstants} {l : Layout} {d : Disk} {spent : ℕ} {db : Database} {ms : List Entries}
  {rs : List WalRecord} {f : Bytes → Option MemTableEntry}

theorem Consistent.fit_lookup (h : Consistent hc l d spent db ms rs) {key : Bytes} {e : MemTableEntry}
    (hk : db.memtable.data.lookup key = some e) : Fit ⟨key, e⟩ :=
  h.fit _ (AList.mem_lookup_iff.mp hk)

theorem Consistent.recoverable (h : Consistent hc l d spent db ms rs) :
    Recoverable hc l d spent ms rs (db.view ms) :=
  ⟨h.standing.survives, h.loggable, fun _ _ hk => h.fit_lookup (h.held _ _ hk), h.tables_fit,
    h.agrees⟩

theorem Recoverable.start (h : Recoverable hc l d spent ms rs f) :
    ∃ db d', Succeeds (initializeDatabase hc l.walFilename .sync) d (.ok db) d' ∧
      Consistent hc l d' spent db ms rs ∧ ∀ key, db.view ms key = f key := by
  obtain ⟨⟨m, hp, hs, hnext⟩, hlog⟩ := h.survives
  have hrec : recoverFrom hc ∅ (frames hc rs) = (⟨.success, []⟩, replay ∅ rs) := by
    have hframes : recoverFrom hc ∅ (frames hc rs ++ []) = recoverFrom hc (replay ∅ rs) [] :=
      recoverFrom_frames rs h.loggable ∅ []
    rwa [List.append_nil, recoverFrom_nil] at hframes
  obtain ⟨db, d', hinit, hw, hman, hcar, hsync, hsame, hmem⟩ :=
    initialize_succeeds hc .sync hp hs hlog (by rw [hrec]; exact Or.inl rfl)
  have hs' := hs.frame_wal hsame
  have hp' := hp.of_same (hsame _ (by simpa using l.wal_ne_manifest.symm))
  have hlookup : ∀ key, db.memtable.data.lookup key =
      ((replay ∅ rs).lookup key).or (newest ms key) := by
    intro key
    rw [hmem, hrec, MemTable.replace_data, lookup_overwrite, lookup_loadTables]
  have hview : ∀ key, db.view ms key = ((replay ∅ rs).lookup key).or (newest ms key) := by
    intro key
    rw [view, hlookup]
    cases (replay ∅ rs).lookup key <;> cases newest ms key <;> rfl
  refine ⟨db, d', hinit, ⟨⟨hw, hsync, hman ▸ hs', hman ▸ hnext, hcar, m, hp', hs', hnext, by rw [hman]⟩,
    h.loggable, ?_, fun key => (hview key).symm, ?_, h.tables_fit⟩, fun key => (hview key).trans (h.shown key)⟩
  · intro key e hk
    rw [hlookup, hk, Option.some_or]
  · intro e he
    obtain ⟨key, entry⟩ := e
    have hk : db.memtable.data.lookup key = some entry := AList.mem_lookup_iff.mpr he
    rw [hlookup] at hk
    cases hr : (replay ∅ rs).lookup key with
    | some e' =>
      rw [hr, Option.some_or] at hk
      cases hk
      exact h.records_fit key _ hr
    | none =>
      rw [hr, Option.none_or] at hk
      obtain ⟨m', hm', hkey⟩ := exists_lookup_of_newest hk
      exact h.tables_fit m' hm' _ (AList.mem_lookup_iff.mp hkey)

theorem recoverable_fresh (hc : HeaderConstants) (hd : Fresh l d) :
    Recoverable hc l d 0 [] [] (fun _ => none) := by
  exact ⟨⟨⟨_, Or.inr ⟨hd.manifest_none, rfl⟩, .empty l d, le_rfl⟩, Or.inr ⟨hd.wal_none, rfl⟩⟩, by simp,
    by simp [replay], by simp, fun _ => rfl⟩

def SameReads (hc : HeaderConstants) (db : Database) (d : Disk) (db' : Database) (d' : Disk) : Prop :=
  ∀ key, ∃ response, Succeeds (db.execute hc ⟨.get, key, []⟩) d (response, db) d ∧
    Succeeds (db'.execute hc ⟨.get, key, []⟩) d' (response, db') d'

theorem Consistent.read (h : Consistent hc l d spent db ms rs) (key : Bytes) :
    Succeeds (db.execute hc ⟨.get, key, []⟩) d (answer (db.view ms key), db) d :=
  (executeGet_succeeds h.standing.shows ⟨.get, key, []⟩).bind .pure

theorem sameReads_of_view {d' : Disk} {spent' : ℕ} {db' : Database} {ms' : List Entries}
    {rs' : List WalRecord} (h : Consistent hc l d spent db ms rs)
    (h' : Consistent hc l d' spent' db' ms' rs')
    (hview : ∀ key, db'.view ms' key = db.view ms key) : SameReads hc db d db' d' := by
  intro key
  refine ⟨answer (db.view ms key), h.read key, ?_⟩
  rw [← hview]
  exact h'.read key

theorem Recoverable.sameReads {d₁ : Disk} {db₁ : Database} {ms₁ : List Entries}
    {rs₁ : List WalRecord} {spent₁ : ℕ} (h₁ : Consistent hc l d₁ spent₁ db₁ ms₁ rs₁)
    (h : Recoverable hc l d spent ms rs (db₁.view ms₁)) :
    ∃ db' d', Succeeds (initializeDatabase hc l.walFilename .sync) d (.ok db') d' ∧
      SameReads hc db₁ d₁ db' d' := by
  obtain ⟨db', d', hinit, hcons, hview⟩ := h.start
  exact ⟨db', d', hinit, sameReads_of_view h₁ hcons hview⟩

theorem Consistent.written (h : Consistent hc l d spent db ms rs) {op : LogOperation}
    (hop : Fit ⟨op.key, op.entry⟩) {wal : Wal} {d' : Disk}
    (happend : Succeeds (op.append hc db.storage.wal) d (true, wal) d') :
    Consistent hc l d' spent (db.written wal op) ms (rs ++ [op.record]) := by
  obtain ⟨wal', d₁, happend', hcar, hfile, hsame⟩ :=
    Wal.appendRecord_succeeds hc h.standing.carries op.record
  rw [LogOperation.append_eq] at happend
  obtain ⟨hw, rfl⟩ := happend.unique happend'
  obtain ⟨-, rfl⟩ := Prod.mk.inj hw
  have hreplay : ∀ key, (replay ∅ (rs ++ [op.record])).lookup key =
      if key = op.key then some op.entry else (replay ∅ rs).lookup key := by
    intro key
    have hlast : replay ∅ (rs ++ [op.record]) = (replay ∅ rs).insert op.key op.entry := by
      rw [← LogOperation.applyRecord_record]
      exact List.foldl_append
    rw [hlast, lookup_insert_eq]
  have hlookup : ∀ key, (db.written wal op).memtable.data.lookup key =
      if key = op.key then some op.entry else db.memtable.data.lookup key := by
    intro key
    rw [Database.written, LogOperation.apply_data_eq, lookup_insert_eq]
  have hstand := h.standing.with_wal hcar hfile hsame
  refine ⟨?_, ?_, ?_, ?_, ?_, h.tables_fit⟩
  · rw [frames_append, frames_cons, frames_nil, List.append_nil]
    exact hstand
  · intro r hr
    rcases List.mem_append.mp hr with hr | hr
    · exact h.loggable r hr
    · rw [List.mem_singleton.mp hr]
      apply LogOperation.loggable
      rw [← LogOperation.entry_value]
      exact hop.2
  · intro key e hk
    rw [hreplay] at hk
    rw [hlookup]
    split at hk
    · next heq => rw [if_pos heq, hk]
    · next hneq => rw [if_neg hneq, h.held key e hk]
  · intro key
    rw [hreplay, view_written, ← h.agrees]
    split <;> rfl
  · rw [Database.written, LogOperation.apply_data_eq]
    exact forall_mem_insert h.fit hop

/-- The memory as the newest layer, below what the log still holds. -/
theorem Consistent.shown_flushed (h : Consistent hc l d spent db ms rs) {rs' : List WalRecord}
    (hrs : rs' = rs ∨ rs' = []) (key : Bytes) :
    ((replay ∅ rs').lookup key).or (newest (ms ++ [db.memtable.data]) key) = db.view ms key := by
  rw [newest_append_singleton, ← view]
  rcases hrs with rfl | rfl
  · cases hk : (replay ∅ rs').lookup key with
    | none => rfl
    | some e =>
      rw [view, h.held key e hk]
      rfl
  · rfl

theorem Consistent.tables_fit_flushed (h : Consistent hc l d spent db ms rs) :
    ∀ m ∈ ms ++ [db.memtable.data], ∀ e ∈ m.entries, Fit e := by
  intro m hm
  rcases List.mem_append.mp hm with hm | hm
  · exact h.tables_fit m hm
  · rw [List.mem_singleton.mp hm]
    exact h.fit

theorem Consistent.storable (h : Consistent hc l d spent db ms rs)
    (hcount : db.memtable.data.entries.length < 2 ^ 64) : Storable db.memtable.data :=
  ⟨fun e he => (h.fit e he).smallEntry, hcount⟩

theorem Consistent.recoverable_of_survives (h : Consistent hc l d spent db ms rs) {d' : Disk}
    (hs : Survives l d' spent ms (frames hc rs) ∨ ∃ log', (log' = frames hc rs ∨ log' = []) ∧
      Survives l d' spent (ms ++ [db.memtable.data]) log') :
    ∃ ms' rs', Recoverable hc l d' spent ms' rs' (db.view ms) := by
  have hfit : ∀ key e, (replay ∅ rs).lookup key = some e → Fit ⟨key, e⟩ :=
    fun key e hk => h.fit_lookup (h.held key e hk)
  rcases hs with hs | ⟨log', rfl | rfl, hs⟩
  · exact ⟨ms, rs, hs, h.loggable, hfit, h.tables_fit, h.agrees⟩
  · exact ⟨_, rs, hs, h.loggable, hfit, h.tables_fit_flushed, h.shown_flushed (Or.inl rfl)⟩
  · exact ⟨_, [], hs, by simp, by simp [replay], h.tables_fit_flushed,
      h.shown_flushed (Or.inr rfl)⟩

theorem Consistent.mono {spent' : ℕ} (h : Consistent hc l d spent db ms rs) (hle : spent ≤ spent') :
    Consistent hc l d spent' db ms rs :=
  ⟨h.standing.mono hle, h.loggable, h.held, h.agrees, h.fit, h.tables_fit⟩

theorem Consistent.length_tables (h : Consistent hc l d spent db ms rs) :
    db.storage.tableCount = ms.length := h.standing.shows.holds.length_eq

theorem Consistent.room (h : Consistent hc l d spent db ms rs)
    (hids : ms.length + spent + 2 < 2 ^ 64) : db.storage.manifest.nextTableId + 1 < 2 ^ 64 := by
  have hnext : db.storage.manifest.nextTableId ≤ db.storage.tableCount + 1 + spent :=
    h.standing.next_le
  rw [h.length_tables] at hnext
  omega

theorem Consistent.keep (h : Consistent hc l d spent db ms rs) {d' : Disk} {s' : Storage}
    (hs : Standing l d' (spent + 1) s' ms (frames hc rs) ∨
      ∃ log', (log' = frames hc rs ∨ log' = []) ∧
        Standing l d' spent s' (ms ++ [db.memtable.data]) log') :
    ∃ spent' ms' rs', ms'.length + spent' = ms.length + spent + 1 ∧ spent' ≤ spent + 1 ∧
      Consistent hc l d' spent' { db with storage := s' } ms' rs' ∧
      ∀ key, view { db with storage := s' } ms' key = db.view ms key := by
  have hview : ∀ key, view { db with storage := s' } (ms ++ [db.memtable.data]) key =
      db.view ms key := by
    intro key
    rw [view, newest_append_singleton, view]
    cases db.memtable.data.lookup key <;> rfl
  have hlength : (ms ++ [db.memtable.data]).length + spent = ms.length + spent + 1 := by
    rw [List.length_append, List.length_singleton]
    omega
  rcases hs with hs | ⟨log', rfl | rfl, hs⟩
  · exact ⟨spent + 1, ms, rs, rfl, le_rfl, ⟨hs, h.loggable, h.held, h.agrees, h.fit, h.tables_fit⟩,
      fun _ => rfl⟩
  · exact ⟨spent, _, rs, hlength, Nat.le_succ _, ⟨hs, h.loggable, h.held, fun key =>
      (h.shown_flushed (Or.inl rfl) key).trans (hview key).symm, h.fit, h.tables_fit_flushed⟩, hview⟩
  · exact ⟨spent, _, [], hlength, Nat.le_succ _, ⟨hs, by simp, by simp [replay], fun key =>
      (h.shown_flushed (Or.inr rfl) key).trans (hview key).symm, h.fit, h.tables_fit_flushed⟩, hview⟩

theorem Consistent.clear (h : Consistent hc l d spent db ms rs) {d' : Disk} {s' : Storage}
    (hs : Standing l d' spent s' (ms ++ [db.memtable.data]) []) :
    Consistent hc l d' spent ⟨db.memtable.clear, s'⟩ (ms ++ [db.memtable.data]) [] ∧
      ∀ key, view ⟨db.memtable.clear, s'⟩ (ms ++ [db.memtable.data]) key = db.view ms key :=
  ⟨⟨hs, by simp, by simp [replay], fun _ => rfl, fun e he => absurd he List.not_mem_nil,
    h.tables_fit_flushed⟩, fun key => view_flushed rfl ms key⟩

theorem Consistent.flushMemtable_ensures (hplain : l.Plain) (h : Consistent hc l d spent db ms rs)
    (hne : db.memtable.data.entries ≠ []) (hcount : db.memtable.data.entries.length < 2 ^ 64)
    (hids : ms.length + spent + 2 < 2 ^ 64) :
    Ensures db.flushMemtable d
      (fun r d' => ∃ spent' ms' rs', ms'.length + spent' = ms.length + spent + 1 ∧
        spent' ≤ spent + 1 ∧ Consistent hc l d' spent' r.2 ms' rs' ∧
        (∀ key, r.2.view ms' key = db.view ms key) ∧
        (∀ e, r.1 = .error e → r.2.memtable = db.memtable) ∧ (r.1 = .ok () → spent' = spent))
      (fun d' => ∃ ms' rs', Recoverable hc l d' spent ms' rs' (db.view ms)) := by
  rw [flushMemtable_nonempty hne]
  refine ((ForgeDB.flushMemtable_ensures hplain h.standing (h.room hids) (h.storable hcount) hne
    (fun e he => (h.fit e he).1)).mono (fun _ _ hr => hr)
    (fun d' hd' => h.recoverable_of_survives hd')).bind ?_
  intro r d' hr
  obtain ⟨result, s'⟩ := r
  cases result with
  | error e =>
    have hkeep : Standing l d' (spent + 1) s' ms (frames hc rs) ∨
        ∃ log', (log' = frames hc rs ∨ log' = []) ∧
          Standing l d' spent s' (ms ++ [db.memtable.data]) log' := by
      rcases hr with ⟨-, hs⟩ | ⟨log', hlog, -, hs⟩
      · exact Or.inl hs
      · exact Or.inr ⟨log', hlog, hs⟩
    obtain ⟨spent', ms', rs', hlength, hle, hcons, hview⟩ := h.keep hkeep
    exact .pure ⟨spent', ms', rs', hlength, hle, hcons, hview, fun _ _ => rfl, by simp⟩
  | ok u =>
    rcases hr with ⟨⟨e, he⟩, -⟩ | ⟨log', -, hempty, hs⟩
    · cases he
    · rw [hempty rfl] at hs
      obtain ⟨hcons, hview⟩ := h.clear hs
      refine .pure ⟨spent, _, [], ?_, Nat.le_succ _, hcons, hview, by simp, fun _ => rfl⟩
      rw [List.length_append, List.length_singleton]
      omega

theorem Consistent.flushMemtable_succeeds (h : Consistent hc l d spent db ms rs)
    (hne : db.memtable.data.entries ≠ []) (hcount : db.memtable.data.entries.length < 2 ^ 64)
    (hids : ms.length + spent + 2 < 2 ^ 64) :
    ∃ db' d', Succeeds db.flushMemtable d (.ok (), db') d' := by
  obtain ⟨s', d', hflush, -⟩ := ForgeDB.flushMemtable_succeeds h.standing.wired h.standing.shows
    h.standing.carries (h.storable hcount) hne (h.room hids)
  refine ⟨⟨db.memtable.clear, s'⟩, d', ?_⟩
  rw [flushMemtable_nonempty hne]
  exact hflush.bind .pure

private theorem flushError_ne (e : Bytes) : text "ERROR flush failed: " ++ e ≠ text "OK" := by
  intro h
  have hhead := congrArg List.head? h
  rw [List.head?_append_of_ne_nil _ (by decide)] at hhead
  exact absurd hhead (by decide)

theorem Consistent.flushIfDue_ensures (hplain : l.Plain) (h : Consistent hc l d spent db ms rs)
    (hne : db.memtable.data.entries ≠ []) (hcount : db.memtable.data.entries.length < 2 ^ 64)
    (hquiet : hc.memtableFlushThreshold ≤ db.memtable.sizeInBytes →
      db.storage.tableCount + 1 < hc.compactionTableThreshold)
    (hids : hc.compactionTableThreshold + spent < 2 ^ 64) :
    Ensures (flushIfDue hc db) d
      (fun r d' => ∃ spent' ms' rs', spent' ≤ spent + 1 ∧ Consistent hc l d' spent' r.2 ms' rs' ∧
        (∀ key, r.2.view ms' key = db.view ms key) ∧ (r.1 = text "OK" → spent' = spent))
      (fun d' => ∃ ms' rs', Recoverable hc l d' spent ms' rs' (db.view ms)) := by
  rw [flushIfDue]
  by_cases hlt : db.memtable.sizeInBytes < hc.memtableFlushThreshold
  · rw [if_pos hlt]
    exact .pure ⟨spent, ms, rs, Nat.le_succ _, h, fun _ => rfl, fun _ => rfl⟩
  rw [if_neg hlt]
  have hfew := hquiet (not_lt.mp hlt)
  rw [h.length_tables] at hfew
  refine (h.flushMemtable_ensures hplain hne hcount (by omega)).bind ?_
  intro r d' hr
  obtain ⟨result, db'⟩ := r
  obtain ⟨spent', ms', rs', hlength, hle, hcons, hview, -, hok⟩ := hr
  cases result with
  | error e =>
    exact .pure ⟨spent', ms', rs', hle, hcons, hview, fun he => absurd he (flushError_ne e)⟩
  | ok u =>
    have hsame := hok rfl
    have hno : db'.maybeCompact hc = return (.ok (), db') := by
      apply maybeCompact_quiet
      rw [hcons.length_tables]
      omega
    simp only [hno]
    exact .pure ⟨spent', ms', rs', hle, hcons, hview, fun _ => hsame⟩

end Invariant
end ForgeDB.ReachedStates
