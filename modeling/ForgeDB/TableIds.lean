import ForgeDB.TableTracking
import ForgeDB.WalLimits

/-!
# Table ids

The ids of the listed tables increase along the list and stay below the next id, in memory
and in the text file, however table writes and changes of the list end. A start reads the
text back or lists the directory, where every table file still carries its id in its name.
So the file that is created next is never one that a list refers to.
-/

namespace ForgeDB.TableIds
open CommandParser CrashPrograms CrashPrograms.Io Database LayeredMaps SSTables TextStreams
open Manifest ReachedStates Reopening RestartAnswers WalRecovery

/-- The log holds exactly the records of some writes. -/
def Logged (hc : HeaderConstants) (wal : Wal) (d : Disk) : Prop :=
  ∃ ops : List LogOperation, wal.Carries d (frames hc (ops.map LogOperation.record)) ∧
    ∀ op ∈ ops, Kept ⟨op.key, op.entry⟩

/-- A running database with its lists and its table files in order, and its log too, unless
the log has failed. -/
structure TrackedDatabase (hc : HeaderConstants) (l : Layout) (intact : Bool) (created : ℕ)
    (db : Database) (d : Disk) : Prop where
  wired : Wired l db.storage
  tracked : Tracked l created db.storage.manifest d
  kept : ∀ e ∈ db.memtable.data.entries, Kept e
  log : intact = true → Logged hc db.storage.wal d

/-- The tables a flush creates: the file of its table, if there is something to flush. -/
def flushCreations (db : Database) (w : World) : ℕ :=
  if db.memtable.data.entries = [] then 0
  else creations (Storage.tableFilename db.storage.walFilename db.storage.manifest.nextTableId) w

/-- The tables a compaction creates: the file of its replacement, once all tables are read. -/
def compactionCreations (hc : HeaderConstants) (db : Database) (w : World) : ℕ :=
  if !shouldCompact hc db.storage ∨ db.storage.manifest.tables.length < 2 then 0
  else
    match Storage.loadTables db.storage.manifest.tables ∅ w with
    | .returned (.ok _) w' =>
      creations (Storage.tableFilename db.storage.walFilename db.storage.manifest.nextTableId) w'
    | _ => 0

section Steps

variable {hc : HeaderConstants} {l : Layout} {intact : Bool} {created : ℕ} {d : Disk}
  {db db' : Database} {s : Storage} {data : Entries} {w w' : World}

theorem kept_operation {input : Bytes} (hsmall : input.length < 2 ^ 32) {op : LogOperation}
    (hop : operation (parseCommand input) = some op) : Kept ⟨op.key, op.entry⟩ := by
  have hword := isWord_key hop
  have hlen := length_parseCommand input
  refine ⟨hword, ?_⟩
  rcases operation_eq_some hop with ⟨-, rfl⟩ | ⟨-, rfl⟩
  · constructor
    · change (parseCommand input).key.length < 2 ^ 32
      omega
    · change (parseCommand input).value.length < 2 ^ 32
      omega
  · constructor
    · change (parseCommand input).key.length < 2 ^ 32
      omega
    · exact Nat.two_pow_pos 32

/-- The database after the log was asked to take a write. -/
def appended (db : Database) (op : LogOperation) (ok : Bool) (wal : Wal) : Database :=
  if ok then db.written wal op else { db with storage := { db.storage with wal := wal } }

theorem logged_appended {wal wal' : Wal} (h : Logged hc wal w.disk) {op : LogOperation}
    (hop : Kept ⟨op.key, op.entry⟩)
    (hrun : wal.appendRecord hc op.record w = .returned (true, wal') w') : Logged hc wal' w'.disk := by
  obtain ⟨ops, hcar, hkept⟩ := h
  obtain ⟨hcar', -⟩ := (WalLimits.appendRecord_acknowledged hc (Or.inl hcar) op.record).of_run hrun rfl
  refine ⟨ops ++ [op], ?_, ?_⟩
  · rw [List.map_append, List.map_singleton, frames_append, frames_cons, frames_nil, List.append_nil]
    exact hcar'
  · intro op' hop'
    rcases List.mem_append.mp hop' with hop' | hop'
    · exact hkept op' hop'
    · rw [List.mem_singleton.mp hop']
      exact hop

theorem TrackedDatabase.appended (hapart : ¬ text ".sst" <:+ l.walFilename)
    (h : TrackedDatabase hc l intact created db w.disk) {op : LogOperation}
    (hop : Kept ⟨op.key, op.entry⟩)
    {ok : Bool} {wal : Wal} (hrun : op.append hc db.storage.wal w = .returned (ok, wal) w') :
    TrackedDatabase hc l (intact && ok) created (TableIds.appended db op ok wal) w'.disk := by
  rw [LogOperation.append_eq] at hrun
  obtain ⟨⟨hname, -⟩, hsame⟩ :=
    (Wal.appendRecord_frame hc db.storage.wal op.record w.disk).of_run hrun
  rw [h.wired.wal_eq] at hsame
  have htracked := h.tracked.of_log hapart hsame
  have hwal : wal.filename = l.walFilename := hname.trans h.wired.wal_eq
  cases ok with
  | false => exact ⟨⟨h.wired.walFilename_eq, hwal⟩, htracked, h.kept, by simp⟩
  | true =>
    refine ⟨⟨h.wired.walFilename_eq, hwal⟩, htracked, ?_, fun hintact => ?_⟩
    · change ∀ e ∈ (db.written wal op).memtable.data.entries, Kept e
      rw [Database.written, LogOperation.apply_data_eq]
      exact forall_mem_insert h.kept hop
    · exact logged_appended (h.log (by simpa using hintact)) hop hrun

/-- The engine's own state and files, with whatever the log is now. -/
structure TrackedStorage (l : Layout) (created : ℕ) (s : Storage) (d : Disk) : Prop where
  wired : Wired l s
  tracked : Tracked l created s.manifest d

/-- What a flush has done to a log whose stream has lost nothing. -/
def LogAfter (l : Layout) (s : Storage) (d : Disk) (r : Except Bytes Unit) (s' : Storage)
    (d' : Disk) : Prop :=
  (r = .ok () ∧ ((s.wal.isOpen = false → s.wal.buffered = []) → s'.wal.Carries d' [])) ∨
    r = .error (text "Failed to reset WAL") ∨
    ((∃ e, r = .error e) ∧ s'.wal = s.wal ∧ d'.lookup l.walFilename = d.lookup l.walFilename)

theorem LogAfter.of_same {d₁ d' : Disk} {r : Except Bytes Unit} {s' : Storage}
    (h : LogAfter l s d₁ r s' d') (hsame : d₁.lookup l.walFilename = d.lookup l.walFilename) :
    LogAfter l s d r s' d' := by
  rcases h with hok | hreset | ⟨herr, hwal, hlookup⟩
  · exact Or.inl hok
  · exact Or.inr (Or.inl hreset)
  · exact Or.inr (Or.inr ⟨herr, hwal, hlookup.trans hsame⟩)

theorem logged_same {s' : Storage} {d' : Disk} (hw : Wired l s) (h : Logged hc s.wal d)
    (hwal : s'.wal = s.wal) (hlookup : d'.lookup l.walFilename = d.lookup l.walFilename) :
    Logged hc s'.wal d' := by
  obtain ⟨ops, hcar, hops⟩ := h
  rw [hwal]
  exact ⟨ops, hcar.of_same (by rw [hw.wal_eq]; exact hlookup), hops⟩

theorem logged_failed {s' : Storage} {d' : Disk} {e : Bytes} (hw : Wired l s) (h : Logged hc s.wal d)
    (hlog : LogAfter l s d (.error e) s' d')
    (hne : (Except.error e : Except Bytes Unit) ≠ .error (text "Failed to reset WAL")) :
    Logged hc s'.wal d' := by
  rcases hlog with ⟨hok, -⟩ | herr | ⟨-, hwal, hlookup⟩
  · cases hok
  · exact absurd herr hne
  · exact logged_same hw h hwal hlookup

theorem logged_flushed {s' : Storage} {d' : Disk} (h : Logged hc s.wal d)
    (hlog : LogAfter l s d (.ok ()) s' d') : Logged hc s'.wal d' := by
  obtain ⟨ops, hcar, -⟩ := h
  rcases hlog with ⟨-, hempty⟩ | herr | ⟨⟨e, herr⟩, -⟩
  · exact ⟨[], hempty hcar.empty_of_closed, by simp⟩
  · cases herr
  · cases herr

theorem logged_closed {wal : Wal} {d' : Disk} (hw : Wired l s) (h : Logged hc s.wal d)
    (hclose : Succeeds s.wal.close d wal d') :
    Disk.SameExcept [l.walFilename] d d' ∧ ∃ ops : List LogOperation,
      LogFile l d' (frames hc (ops.map LogOperation.record)) ∧
        ∀ op ∈ ops, Kept ⟨op.key, op.entry⟩ := by
  obtain ⟨ops, hcar, hops⟩ := h
  obtain ⟨wal', d₁, hclose', hcar', ⟨hname, -⟩, hsame, hclosed⟩ := Wal.close_succeeds hcar
  obtain ⟨-, rfl⟩ := hclose.unique hclose'
  rw [hw.wal_eq] at hname hsame
  obtain ⟨c, hfile, hc'⟩ := hcar'.stored
  rw [hcar'.empty_of_closed hclosed, List.append_nil] at hc'
  rw [hname, hc'] at hfile
  exact ⟨hsame, ops, Or.inl hfile, hops⟩

theorem resetWal_ensures (hw : Wired l s) (d : Disk) :
    Ensures s.resetWal d
      (fun r d' => Wired l r.2 ∧ r.2.manifest = s.manifest ∧ Disk.SameExcept [l.walFilename] d d' ∧
        ((r.1 = .ok () ∧ ((s.wal.isOpen = false → s.wal.buffered = []) → r.2.wal.Carries d' [])) ∨
          r.1 = .error (text "Failed to reset WAL"))) (fun _ => True) := by
  have hempties : Ensures (s.wal.truncate 0) d (fun out d' => out.1 = true →
      (s.wal.isOpen = false → s.wal.buffered = []) → out.2.Carries d' []) (fun _ => True) := by
    by_cases hclosed : s.wal.isOpen = false → s.wal.buffered = []
    · exact (WalLimits.truncate_acknowledged hclosed).mono (fun _ _ h hok _ => h hok)
        (fun _ h => h)
    · exact (Wal.truncate_frame s.wal 0 d).mono (fun _ _ _ _ h => absurd h hclosed)
        (fun _ _ => trivial)
  have htruncate := (Wal.truncate_frame s.wal 0 d).and hempties
  rw [hw.wal_eq] at htruncate
  refine (htruncate.mono (fun _ _ h => h) (fun _ _ => trivial)).bind ?_
  rintro ⟨ok, wal⟩ d' ⟨⟨⟨hname, -⟩, hsame⟩, hempty⟩
  cases ok with
  | true => exact .pure ⟨⟨hw.walFilename_eq, hname.trans hw.wal_eq⟩, rfl, hsame, Or.inl ⟨rfl, hempty rfl⟩⟩
  | false => exact .pure ⟨⟨hw.walFilename_eq, hname.trans hw.wal_eq⟩, rfl, hsame, Or.inr rfl⟩

/-- A property of the list and the files that survives deleting table files and taking tables off
the list. -/
structure DeletionStable (l : Layout) (T : Manifest → Disk → Prop) : Prop where
  named : ∀ m d, T m d → m.filename = l.manifestFilename
  deleted : ∀ m d d', T m d → Deleted l d d' → T m d'
  unlisted : ∀ m d ids, T m d → Ensures (m.removeTables ids) d
    (fun r d' => T r.2 d' ∧ Disk.SameExcept m.paths d d') (fun _ => True)

theorem deletionStable_tracked (l : Layout) (created : ℕ) : DeletionStable l
    (Tracked l created) where
  named := fun _ _ h => h.numbered.filename_eq
  deleted := fun _ _ _ h hdeleted => h.of_deleted hdeleted
  unlisted := fun _ _ ids h => removeTables_tracked h ids

section Listing

variable {T : Manifest → Disk → Prop} {t : SSTableMetadata}

theorem list_ensures (hT : DeletionStable l T)
    (hlog : ∀ m d d', T m d → Disk.SameExcept [l.walFilename] d d' → T m d') (hw : Wired l s)
    (hman : s.manifest.filename = l.manifestFilename)
    (hadd : Ensures (s.manifest.addTable t) d
      (fun r d' => T r.2 d' ∧ Disk.SameExcept s.manifest.paths d d') (fun _ => True)) :
    Ensures (do
        match ← s.manifest.addTable t with
        | (.error e, manifest) => do
          let _ ← remove (l.tableFilename s.manifest.nextTableId)
          return (.error e, { s with manifest := manifest })
        | (.ok _, manifest) => Storage.resetWal { s with manifest := manifest }) d
      (fun r d' => Wired l r.2 ∧ T r.2.manifest d' ∧ LogAfter l s d r.1 r.2 d') (fun _ => True) := by
  refine hadd.bind ?_
  rintro ⟨result, m⟩ d₁ ⟨h₁, hsame₁⟩
  have hwal₁ := hsame₁ _ (l.wal_notMem_paths hman)
  have hwired : Wired l { s with manifest := m } := ⟨hw.walFilename_eq, hw.wal_eq⟩
  cases result with
  | error e =>
    refine (remove_deleted l s.manifest.nextTableId d₁).bind ?_
    intro removed d₂ hdeleted
    exact .pure ⟨hwired, hT.deleted m d₁ d₂ h₁ hdeleted,
      Or.inr (Or.inr ⟨⟨e, rfl⟩, rfl, hdeleted.wal.trans hwal₁⟩)⟩
  | ok u =>
    refine (resetWal_ensures hwired d₁).mono ?_ (fun _ _ => trivial)
    rintro ⟨r, s'⟩ d₂ ⟨hw', hsameList, hsame₂, hafter⟩
    have h₂ : T s'.manifest d₂ := by
      rw [show s'.manifest = m from hsameList]
      exact hlog m d₁ d₂ h₁ hsame₂
    exact ⟨hw', h₂, hafter.imp_right Or.inl⟩

/-- Listing the replacement and unlisting the tables it replaces. -/
theorem relist_ensures (hT : DeletionStable l T) (hw : Wired l s)
    (hman : s.manifest.filename = l.manifestFilename)
    (hadd : Ensures (s.manifest.addTable t) d
      (fun r d' => T r.2 d' ∧ Disk.SameExcept s.manifest.paths d d') (fun _ => True)) :
    Ensures (do
        match ← s.manifest.addTable t with
        | (.error e, manifest) => do
          let _ ← remove (l.tableFilename s.manifest.nextTableId)
          return (.error e, { s with manifest := manifest })
        | (.ok _, manifest) =>
          let (removed, manifest) ← manifest.removeTables (s.manifest.tables.map SSTableMetadata.id)
          return (removed, { s with manifest := manifest })) d
      (fun r d' => Wired l r.2 ∧ T r.2.manifest d' ∧ r.2.wal = s.wal ∧
        d'.lookup l.walFilename = d.lookup l.walFilename) (fun _ => True) := by
  refine hadd.bind ?_
  rintro ⟨result, m⟩ d₁ ⟨h₁, hsame₁⟩
  have hwal₁ := hsame₁ _ (l.wal_notMem_paths hman)
  cases result with
  | error e =>
    refine (remove_deleted l s.manifest.nextTableId d₁).bind ?_
    intro removed d₂ hdeleted
    exact .pure ⟨⟨hw.walFilename_eq, hw.wal_eq⟩, hT.deleted m d₁ d₂ h₁ hdeleted, rfl,
      hdeleted.wal.trans hwal₁⟩
  | ok u =>
    refine (hT.unlisted m d₁ _ h₁).bind ?_
    rintro ⟨removed, m'⟩ d₂ ⟨h₂, hsame₂⟩
    have hwal₂ := hsame₂ _ (l.wal_notMem_paths (hT.named m d₁ h₁))
    exact .pure ⟨⟨hw.walFilename_eq, hw.wal_eq⟩, h₂, rfl, hwal₂.trans hwal₁⟩

end Listing

/-- A flush of the engine: nothing has happened, or one table was created. -/
theorem flush_returned (hapart : ¬ text ".sst" <:+ l.walFilename) (hw : Wired l s)
    (h : Tracked l created s.manifest w.disk)
    (hroom : creations (l.tableFilename s.manifest.nextTableId) w = 1 → created + 2 < 2 ^ 64)
    (hkept : ∀ e ∈ data.entries, Kept e) (hne : data.entries ≠ []) {r : Except Bytes Unit}
    {s' : Storage} (hrun : s.flushMemtable data w = .returned (r, s') w') :
    TrackedStorage l (created + creations (l.tableFilename s.manifest.nextTableId) w) s' w'.disk ∧
      LogAfter l s w.disk r s' w'.disk := by
  rw [Storage.flushMemtable, if_neg hne, hw.tableFilename_eq] at hrun
  obtain ⟨result, w₁, hwrite, hrest⟩ := bind_returned hrun
  rcases write_returned hwrite with ⟨hzero, hdisk, e, rfl⟩ | ⟨hone, hresult, hsame, hpart⟩
  · -- the file could not be created
    cases hrest
    rw [hzero, hdisk]
    exact ⟨⟨hw, h⟩, Or.inr (Or.inr ⟨⟨e, rfl⟩, rfl, rfl⟩)⟩
  · have hcreated := h.of_created hkept hsame hpart
    have hwal := hsame l.walFilename (by simpa using l.wal_ne_table s.manifest.nextTableId)
    rw [hone] at hroom ⊢
    rcases hresult with rfl | ⟨e, rfl⟩
    · have hadd := addTable_tracked h.numbered hcreated (hroom rfl) hkept hpart
      obtain ⟨hw', h', hlog⟩ := (list_ensures (deletionStable_tracked l (created + 1))
        (fun _ _ _ h hsame => h.of_log hapart hsame) hw h.numbered.filename_eq hadd).of_run hrest
      exact ⟨⟨hw', h'⟩, hlog.of_same hwal⟩
    · cases hrest
      exact ⟨⟨hw, hcreated⟩, Or.inr (Or.inr ⟨⟨e, rfl⟩, rfl, hwal⟩)⟩

/-- Any flush. The log stays in order unless its reset has failed. -/
theorem TrackedDatabase.flushed (hapart : ¬ text ".sst" <:+ l.walFilename)
    (h : TrackedDatabase hc l intact created db w.disk) {r : Except Bytes Unit}
    (hrun : db.flushMemtable w = .returned (r, db') w')
    (hroom : created + flushCreations db w + 1 < 2 ^ 64) :
    TrackedDatabase hc l (intact && r ≠ .error (text "Failed to reset WAL"))
      (created + flushCreations db w) db' w'.disk := by
  by_cases hne : db.memtable.data.entries = []
  · have hnothing : db.flushMemtable = return (.ok (), db) := if_pos hne
    rw [hnothing] at hrun
    cases hrun
    rw [flushCreations, if_pos hne]
    exact ⟨h.wired, h.tracked, h.kept, fun hintact => h.log (by simpa using hintact)⟩
  rw [flushMemtable_nonempty hne] at hrun
  rw [flushCreations, if_neg hne, h.wired.tableFilename_eq] at hroom ⊢
  obtain ⟨⟨result, s'⟩, w₁, hflush, hrest⟩ := bind_returned hrun
  obtain ⟨⟨hw', h'⟩, hlog⟩ := flush_returned hapart h.wired h.tracked
    (fun hone => by rw [hone] at hroom; omega) h.kept hne hflush
  cases result with
  | error e =>
    cases hrest
    refine ⟨hw', h', h.kept, fun hintact => ?_⟩
    rw [Bool.and_eq_true, decide_eq_true_eq] at hintact
    exact logged_failed h.wired (h.log hintact.1) hlog hintact.2
  | ok u =>
    cases hrest
    refine ⟨hw', h', fun e he => absurd he List.not_mem_nil, fun hintact => ?_⟩
    rw [Bool.and_eq_true] at hintact
    exact logged_flushed (h.log hintact.1) hlog

/-- Writing the replacement: nothing has happened, or one table was created. -/
theorem replace_returned (hw : Wired l s) (h : Tracked l created s.manifest w.disk)
    (hroom : creations (l.tableFilename s.manifest.nextTableId) w = 1 → created + 2 < 2 ^ 64)
    (hkept : ∀ e ∈ data.entries, Kept e) {r : Except Bytes Unit} {s' : Storage}
    (hrun : s.replaceTables data w = .returned (r, s') w') :
    TrackedStorage l (created + creations (l.tableFilename s.manifest.nextTableId) w) s' w'.disk ∧
      s'.wal = s.wal ∧ w'.disk.lookup l.walFilename = w.disk.lookup l.walFilename := by
  rw [Storage.replaceTables, hw.tableFilename_eq] at hrun
  obtain ⟨result, w₁, hwrite, hrest⟩ := bind_returned hrun
  rcases write_returned hwrite with ⟨hzero, hdisk, e, rfl⟩ | ⟨hone, hresult, hsame, hpart⟩
  · cases hrest
    rw [hzero, hdisk]
    exact ⟨⟨hw, h⟩, rfl, rfl⟩
  · have hcreated := h.of_created hkept hsame hpart
    have hwal := hsame l.walFilename (by simpa using l.wal_ne_table s.manifest.nextTableId)
    rw [hone] at hroom ⊢
    rcases hresult with rfl | ⟨e, rfl⟩
    · have hadd := addTable_tracked h.numbered hcreated (hroom rfl) hkept hpart
      obtain ⟨hw', h', hsameWal, hlookup⟩ := (relist_ensures (deletionStable_tracked l (created + 1)) hw
        h.numbered.filename_eq hadd).of_run hrest
      exact ⟨⟨hw', h'⟩, hsameWal, hlookup.trans hwal⟩
    · cases hrest
      exact ⟨⟨hw, hcreated⟩, rfl, hwal⟩

theorem Tracked.load_kept {m : Manifest} (h : Tracked l created m d) :
    Ensures (Storage.loadTables m.tables ∅) d
      (fun r d' => d' = d ∧ ∀ data, r = .ok data → ∀ e ∈ data.entries, Kept e)
      (fun d' => d' = d) := by
  refine loadTables_forall (fun e he => absurd he List.not_mem_nil) (fun t ht found hfound => ?_)
  rw [h.numbered.placed t ht] at hfound
  exact h.filed.kept t.id found hfound

theorem TrackedDatabase.compacted (h : TrackedDatabase hc l intact created db w.disk)
    {r : Except Bytes Unit} (hrun : db.maybeCompact hc w = .returned (r, db') w')
    (hroom : created + compactionCreations hc db w + 1 < 2 ^ 64) :
    TrackedDatabase hc l intact (created + compactionCreations hc db w) db' w'.disk := by
  -- the parts of the state that a compaction leaves alone
  have hfinish : ∀ {n : ℕ} {s' : Storage} {d' : Disk}, TrackedStorage l n s' d' →
      s'.wal = db.storage.wal → d'.lookup l.walFilename = w.disk.lookup l.walFilename →
      TrackedDatabase hc l intact n { db with storage := s' } d' := by
    intro n s' d' hstorage hsameWal hlookup
    exact ⟨hstorage.wired, hstorage.tracked, h.kept,
      fun hintact => logged_same h.wired (h.log hintact) hsameWal hlookup⟩
  rw [maybeCompact] at hrun
  by_cases hdue : shouldCompact hc db.storage = true
  swap
  · rw [if_pos (by simpa using hdue)] at hrun
    cases hrun
    rw [compactionCreations, if_pos (Or.inl (by simpa using hdue))]
    exact h
  rw [if_neg (by simpa using hdue)] at hrun
  obtain ⟨⟨result, s'⟩, w₁, hcompact, hrest⟩ := bind_returned hrun
  cases hrest
  rw [Storage.compact] at hcompact
  by_cases hfew : db.storage.manifest.tables.length < 2
  · rw [if_pos hfew] at hcompact
    cases hcompact
    rw [compactionCreations, if_pos (Or.inr hfew)]
    exact h
  rw [if_neg hfew] at hcompact
  obtain ⟨⟨merged, s₁⟩, w₂, hmerge, hdelete⟩ := bind_returned hcompact
  obtain ⟨loaded, w₃, hload, hreplace⟩ := bind_returned hmerge
  obtain ⟨hdisk₃, hkept⟩ := h.tracked.load_kept.of_run hload
  rw [compactionCreations, if_neg (by simp [hdue, hfew]), hload, h.wired.tableFilename_eq] at hroom ⊢
  cases loaded with
  | error e =>
    cases hreplace
    cases hdelete
    rw [hdisk₃]
    exact h
  | ok data =>
    have htracked : Tracked l created db.storage.manifest w₃.disk := by
      rw [hdisk₃]
      exact h.tracked
    have hlive : ∀ e ∈ (Storage.dropTombstones data).entries, Kept e :=
      fun e he => hkept data rfl e (List.mem_of_mem_filter he)
    obtain ⟨hstorage, hsameWal, hlookup⟩ := replace_returned h.wired htracked
      (fun hone => by simp only [hone] at hroom; omega) hlive hreplace
    rw [hdisk₃] at hlookup
    cases merged with
    | error e =>
      cases hdelete
      exact hfinish hstorage hsameWal hlookup
    | ok u =>
      obtain ⟨_, w₄, hremove, hend⟩ := bind_returned hdelete
      cases hend
      have hdeleted := (removeFiles_deleted _ hstorage.tracked.numbered.placed w₂.disk).of_run hremove
      exact hfinish ⟨hstorage.wired, hstorage.tracked.of_deleted hdeleted⟩ hsameWal
        (hdeleted.wal.trans hlookup)

end Steps

section Starts

variable {hc : HeaderConstants} {l : Layout} {created : ℕ} {d d' : Disk} {db : Database}
  {m : Manifest} {tables : List SSTableMetadata} {log : Bytes}

/-- A start whose list has a missing file takes its list from the directory. -/
theorem rebuild_tracked (hname : m.filename = l.manifestFilename) (hfiled : Filed l created d)
    (hroom : created + 1 < 2 ^ 64) :
    ∃ m' d', Succeeds (m.rebuildFromDirectory (Storage.tablesDirectory l.walFilename)) d
        (.ok (), m') d' ∧ Tracked l created m' d' ∧ Disk.SameExcept m.paths d d' := by
  obtain ⟨tables, d', hsub, hmade, hrun, hfile, hsame⟩ :=
    m.rebuildFromDirectory_run (Storage.tablesDirectory l.walFilename) d
  have hnumbered := numbered_rebuilt hname hfiled hroom hsub hmade
  rw [hname] at hfile
  refine ⟨_, d', hrun, ⟨hnumbered, Or.inr ⟨_, hnumbered, rfl, hfile⟩,
    hfiled.changed le_rfl (changes_of_same hsame (paths_apart hname)), fun t ht => ?_⟩, hsame⟩
  obtain ⟨data, hload, hne, hdata⟩ := (hmade t (mem_rebuilt.mp ht)).made
  have hkept : ∀ e ∈ data.entries, Kept e := by
    rw [hnumbered.placed t ht] at hload
    exact hfiled.kept t.id data hload
  have hcovers : Covers d t := by
    rw [hdata]
    exact covers_rebuilt t.id hload hne hkept
  exact hcovers.of_kept (Or.inl (hnumbered.keep hsame (paths_apart hname) t ht))

/-- A list read back from a text of the run, all of whose files are there, is the list the text
was written from. -/
theorem eq_of_all_present (hplain : l.Plain) (hroom : created + 1 < 2 ^ 64) {p : Manifest}
    (hp : Numbered l created p) (hfiled : Filed l created d)
    (hparse : parse l.manifestFilename p.manifestText = .ok m) :
    m.filename = l.manifestFilename ∧
      (m.tables.all (fun table => (d.lookup table.filename).isSome) = true → m = p) := by
  have hnext := hp.next_le
  have hlength := (p.length_le_nextTableId hp.increasing hp.ids_lt).trans hnext
  rw [← hp.filename_eq] at hparse
  rcases parse_run hplain (by omega) (by omega) (hp.line hroom) hparse with rfl | ⟨hname, t, ht, hstray⟩
  · exact ⟨hp.filename_eq, fun _ => rfl⟩
  · refine ⟨hname.trans hp.filename_eq, fun hall => ?_⟩
    -- the stray path names no file
    have hsome := List.all_eq_true.mp hall t ht
    obtain ⟨id, -, hid⟩ := hfiled.named t.filename hstray.sst_suffix
      (fun hnone => by simp [hnone] at hsome)
    exact absurd hid (hstray.ne_tableFilename id)

theorem initializeStorage_tracked (hplain : l.Plain) (hapart : ¬ text ".sst" <:+ l.walFilename)
    (hroom : created + 1 < 2 ^ 64) (hlisted : Listed l created d tables)
    (hfiled : Filed l created d) (hcovers : ∀ t ∈ tables, Covers d t) (hlog : LogFile l d log)
    (mode : DurabilityMode) :
    ∃ r d', Succeeds (Storage.initializeStorage l.walFilename mode) d r d' ∧
      ∀ s, r = .ok s → TrackedStorage l created s d' ∧ s.wal.Carries d' log ∧
        d'.lookup l.walFilename = some (.regular log) := by
  have hapart₁ : ∀ path ∈ [l.walFilename], ¬ text ".sst" <:+ path :=
    fun path hpath => List.mem_singleton.mp hpath ▸ hapart
  have hstart := initializeStorage_ensures (G := Tracked l created) mode hlog (fun d₁ hsame => ?_)
  · obtain ⟨r, d', hrun, hr⟩ := hstart
    refine ⟨r, d', hrun, fun s hs => ?_⟩
    obtain ⟨hw, htracked, hcar, hfile⟩ := hr s hs
    exact ⟨⟨hw, htracked⟩, hcar, hfile⟩
  have hfiled₁ : Filed l created d₁ := hfiled.changed le_rfl (changes_of_same hsame hapart₁)
  have hlisted₁ : Listed l created d₁ tables :=
    hlisted.of_same le_rfl (hsame _ (by simpa using l.wal_ne_manifest.symm))
  rcases hlisted₁ with ⟨hnone, rfl⟩ | ⟨p, hp, rfl, htext⟩
  · refine ⟨_, Manifest.load_missing hnone, fun m hm => ?_⟩
    have hempty : Tracked l created ⟨l.manifestFilename, [], 1⟩ d₁ :=
      ⟨numbered_empty l created, Or.inl ⟨hnone, rfl⟩, hfiled₁, by simp⟩
    have hman : m.filename = l.manifestFilename := by rw [← Except.ok.inj hm]
    exact ⟨hman, fun _ => Except.ok.inj hm ▸ hempty, rebuild_tracked hman hfiled₁ hroom⟩
  · refine ⟨_, Manifest.load_eq_parse htext, fun m hparse => ?_⟩
    obtain ⟨hman, heq⟩ := eq_of_all_present hplain hroom hp hfiled₁ hparse
    refine ⟨hman, fun hall => ?_, rebuild_tracked hman hfiled₁ hroom⟩
    rw [heq hall]
    exact ⟨hp, Or.inr ⟨p, hp, rfl, htext⟩, hfiled₁,
      fun t ht => (hcovers t ht).of_kept (Or.inl (hp.keep hsame hapart₁ t ht))⟩

theorem replayed_forall (hc : HeaderConstants) {p : Entry → Prop} {ops : List LogOperation}
    (hops : ∀ op ∈ ops, Kept ⟨op.key, op.entry⟩) (hp : ∀ op ∈ ops, p ⟨op.key, op.entry⟩) :
    ∀ e ∈ (recoverFrom hc ∅ (frames hc (ops.map LogOperation.record))).2.entries, p e := by
  have hencodable : ∀ op ∈ ops, WalRecords.Encodable op.record := by
    intro op hop
    obtain ⟨-, hkey, hvalue⟩ := hops op hop
    exact ⟨hkey, by rw [← LogOperation.entry_value]; exact hvalue⟩
  exact WalLimits.recoverFrom_forall hc ops hencodable hp (fun e he => absurd he List.not_mem_nil)

theorem trackedDatabase_start (hplain : l.Plain) (hapart : ¬ text ".sst" <:+ l.walFilename)
    (hroom : created + 1 < 2 ^ 64) (hlisted : Listed l created d tables)
    (hfiled : Filed l created d) (hcovers : ∀ t ∈ tables, Covers d t) {ops : List LogOperation}
    (hlog : LogFile l d (frames hc (ops.map LogOperation.record)))
    (hops : ∀ op ∈ ops, Kept ⟨op.key, op.entry⟩) {mode : DurabilityMode}
    (hinit : Succeeds (initializeDatabase hc l.walFilename mode) d (.ok db) d') :
    TrackedDatabase hc l true created db d' := by
  obtain ⟨r, d₁, hstorage, hr⟩ :=
    initializeStorage_tracked hplain hapart hroom hlisted hfiled hcovers hlog mode
  obtain ⟨s, rfl⟩ := storage_of_initialize hinit hstorage
  obtain ⟨⟨hw, htracked⟩, hcar, hfile⟩ := hr s rfl
  obtain ⟨rfl, data, hload, rfl⟩ := memtable_of_initialize hinit hstorage (hw.wal_eq ▸ hfile)
  obtain ⟨-, hkept⟩ := htracked.load_kept.of_succeeds hload
  exact ⟨hw, htracked, forall_mem_overwrite (hkept data rfl) (replayed_forall hc hops hops),
    fun _ => ⟨ops, hcar, hops⟩⟩

end Starts

/-- The states of a run that starts on an empty directory, with the number of tables created so
far. Every step may fail, a flush or a compaction may come at any time, and `intact` says
that the log has taken every write and every reset. Only then may the process be stopped and
started again, and the start has to succeed. The lines are shorter than `2 ^ 32` bytes, as
every request comes with its length in 32 bits. -/
inductive Reached (hc : HeaderConstants) (l : Layout) : Bool → ℕ → Database → Disk → Prop
  | start {d d' : Disk} {db : Database} (mode : DurabilityMode) : Vacant l d →
      Succeeds (initializeDatabase hc l.walFilename mode) d (.ok db) d' → Reached hc l true 0 db d'
  | append {intact : Bool} {created : ℕ} {db : Database} {w w' : World} {op : LogOperation}
      {ok : Bool} {wal : Wal} (input : Bytes) : Reached hc l intact created db w.disk →
      input.length < 2 ^ 32 → operation (parseCommand input) = some op →
      op.append hc db.storage.wal w = .returned (ok, wal) w' →
      Reached hc l (intact && ok) created (appended db op ok wal) w'.disk
  | flush {intact : Bool} {created : ℕ} {db db' : Database} {w w' : World}
      {r : Except Bytes Unit} : Reached hc l intact created db w.disk →
      db.flushMemtable w = .returned (r, db') w' →
      Reached hc l (intact && r ≠ .error (text "Failed to reset WAL"))
        (created + flushCreations db w) db' w'.disk
  | compact {intact : Bool} {created : ℕ} {db db' : Database} {w w' : World}
      {r : Except Bytes Unit} : Reached hc l intact created db w.disk →
      db.maybeCompact hc w = .returned (r, db') w' →
      Reached hc l intact (created + compactionCreations hc db w) db' w'.disk
  | restart {created : ℕ} {db db' : Database} {d d₁ d₂ : Disk} {wal : Wal} (mode : DurabilityMode) :
      Reached hc l true created db d → Succeeds db.storage.wal.close d wal d₁ →
      Succeeds (initializeDatabase hc l.walFilename mode) d₁ (.ok db') d₂ →
      Reached hc l true created db' d₂

section Runs

variable {hc : HeaderConstants} {l : Layout} {intact : Bool} {created : ℕ} {d : Disk}
  {db db' : Database} {w w' : World}

private theorem creations_le (filename : Bytes) (w : World) : creations filename w ≤ 1 := by
  rw [creations]
  split
  · exact le_rfl
  · exact Nat.zero_le _

theorem flushCreations_le (db : Database) (w : World) : flushCreations db w ≤ 1 := by
  rw [flushCreations]
  split
  · exact Nat.zero_le _
  · exact creations_le _ _

private theorem compactionCreations_le (hc : HeaderConstants) (db : Database) (w : World) :
    compactionCreations hc db w ≤ 1 := by
  rw [compactionCreations]
  split
  · exact Nat.zero_le _
  · split
    · exact creations_le _ _
    · exact Nat.zero_le _

/-- Every command goes through such states, whatever its steps come to, and the log stays in
order unless the answer says otherwise. -/
theorem Reached.command (h : Reached hc l intact created db w.disk) (input response : Bytes)
    (hsmall : input.length < 2 ^ 32)
    (hrun : db.execute hc (parseCommand input) w = .returned (response, db') w') :
    ∃ intact' n, n ≤ 2 ∧ Reached hc l intact' (created + n) db' w'.disk ∧
      (response ≠ text "ERROR failed to write WAL" →
        response ≠ text "ERROR flush failed: " ++ text "Failed to reset WAL" → intact' = intact) := by
  cases hop : operation (parseCommand input) with
  | none =>
    obtain ⟨rfl, hdisk⟩ := (execute_other_ensures hc db hop w.disk).of_run hrun
    rw [hdisk]
    exact ⟨intact, 0, Nat.zero_le _, h, fun _ _ => rfl⟩
  | some op =>
    rw [execute_write hc db hop] at hrun
    obtain ⟨⟨ok, wal⟩, w₁, happend, hrun⟩ := bind_returned hrun
    have h₁ := h.append input hsmall hop happend
    cases ok with
    | false =>
      cases hrun
      exact ⟨_, 0, Nat.zero_le _, h₁, fun hwal => absurd rfl hwal⟩
    | true =>
      rw [Bool.and_true] at h₁
      change Reached hc l intact created (db.written wal op) w₁.disk at h₁
      change flushIfDue hc (db.written wal op) w₁ = _ at hrun
      rcases flushIfDue_returned hrun with ⟨-, -, rfl, rfl⟩ | ⟨-, e, hflush, rfl⟩ |
        ⟨-, r, db₂, w₂, hflush, hcompact, -⟩
      · exact ⟨intact, 0, Nat.zero_le _, h₁, fun _ _ => rfl⟩
      · have hle := flushCreations_le (db.written wal op) w₁
        refine ⟨_, _, hle.trans (by omega), h₁.flush hflush, fun _ hreset => ?_⟩
        have hother : e ≠ text "Failed to reset WAL" := by
          rintro rfl
          exact hreset rfl
        simp [hother]
      · have hle := flushCreations_le (db.written wal op) w₁
        have hle' := compactionCreations_le hc db₂ w₂
        have h₃ := (h₁.flush hflush).compact hcompact
        rw [Nat.add_assoc] at h₃
        exact ⟨_, _, by omega, h₃, fun _ _ => by simp⟩

theorem Reached.trackedDatabase (hplain : l.Plain) (hapart : ¬ text ".sst" <:+ l.walFilename)
    (h : Reached hc l intact created db d) (hroom : created + 1 < 2 ^ 64) :
    TrackedDatabase hc l intact created db d := by
  induction h with
  | start mode hvacant hinit =>
    have hnone : ∀ op ∈ ([] : List LogOperation), Kept ⟨op.key, op.entry⟩ := by simp
    exact trackedDatabase_start hplain hapart hroom (Or.inl ⟨hvacant.fresh.manifest_none, rfl⟩)
      hvacant.filed (by simp) (Or.inr ⟨hvacant.fresh.wal_none, rfl⟩) hnone hinit
  | append input _ hsmall hop happend ih =>
    exact (ih hroom).appended hapart (kept_operation hsmall hop) happend
  | flush _ hrun ih => exact (ih (by omega)).flushed hapart hrun hroom
  | compact _ hrun ih => exact (ih (by omega)).compacted hrun hroom
  | @restart created db db' d d₁ d₂ wal mode _ hclose hinit ih =>
    have h := ih hroom
    obtain ⟨hsame, ops, hlog, hops⟩ := logged_closed h.wired (h.log rfl) hclose
    have htracked := h.tracked.of_log hapart hsame
    exact trackedDatabase_start hplain hapart hroom htracked.listed htracked.filed htracked.covers
      hlog hops hinit

end Runs

/-- The ids of the list increase and stay below the next one. -/
def Increasing (m : Manifest) : Prop :=
  m.tables.Pairwise (fun a b => a.id < b.id) ∧ ∀ t ∈ m.tables, t.id < m.nextTableId

instance (m : Manifest) : Decidable (Increasing m) := inferInstanceAs (Decidable (_ ∧ _))

theorem plain_ofDirectory {directory : Bytes} (h : ∀ b ∈ directory, isSpace b = false) :
    (Layout.ofDirectory directory).Plain := by
  intro b hb
  rcases List.mem_append.mp hb with hb | hb
  · exact h b hb
  · have hname : ∀ b ∈ text "/wal/active.log", isSpace b = false := by decide +kernel
    exact hname b hb

theorem ofDirectory_apart (directory : Bytes) :
    ¬ text ".sst" <:+ (Layout.ofDirectory directory).walFilename := by
  rintro ⟨front, h⟩
  have hlast := congrArg List.getLast? h
  have hname : (Layout.ofDirectory directory).walFilename = directory ++ text "/wal/active.log" := rfl
  rw [hname, List.getLast?_append, List.getLast?_append] at hlast
  change some (116 : Byte) = some 103 at hlast
  exact absurd hlast (by decide)

/-- In every reached state the ids increase below the next one, in memory and in the text file,
which lists the same tables, and the file that a flush or a compaction creates next is none
of those that the two lists refer to. -/
theorem table_ids_increase (hc : HeaderConstants) (directory : Bytes)
    (hplain : ∀ b ∈ directory, isSpace b = false) (intact : Bool) (created : ℕ) (db : Database)
    (d : Disk) (h : Reached hc (Layout.ofDirectory directory) intact created db d)
    (hcreated : created < 2 ^ 64 - 1) :
    Increasing db.storage.manifest ∧
      (d.lookup (Layout.ofDirectory directory).manifestFilename = none ∧
          db.storage.manifest.tables = [] ∨
        ∃ p, d.lookup (Layout.ofDirectory directory).manifestFilename =
            some (.regular p.manifestText) ∧
          Increasing p ∧ p.tables = db.storage.manifest.tables) ∧
      ∀ t ∈ db.storage.manifest.tables, t.filename ≠
        Storage.tableFilename db.storage.walFilename db.storage.manifest.nextTableId := by
  have hdatabase := h.trackedDatabase (plain_ofDirectory hplain) (ofDirectory_apart directory)
    (by omega)
  have hnumbered := hdatabase.tracked.numbered
  refine ⟨⟨hnumbered.increasing, hnumbered.ids_lt⟩, ?_, ?_⟩
  · rcases hdatabase.tracked.listed with hnone | ⟨p, hp, htables, hfile⟩
    · exact Or.inl hnone
    · exact Or.inr ⟨p, hfile, ⟨hp.increasing, hp.ids_lt⟩, htables⟩
  · intro t ht
    rw [hdatabase.wired.tableFilename_eq]
    exact hnumbered.ne_next ht

/-- The files after two writes. The second one's compaction has deleted its own table. -/
def compactedDisk : Disk :=
  (entered .least (entered .least (listing [] 1, openedDisk) (text "PUT a x")) (text "PUT b x")).2

/-- What a start on these files returns, with the files it leaves. -/
def relistedDatabase : Database × Disk :=
  match initializeDatabase .least directory.walFilename .async
    ⟨Disk.append directory.walFilename [] compactedDisk, []⟩ with
  | .returned (.ok db) w => (db, w.disk)
  | _ => (listing [] 1, ∅)

/-- The start finds the listed table missing and lists the two older ones. -/
theorem table_ids_increase_relisted :
    ∃ created, Reached .least (Layout.ofDirectory (text "d")) true created relistedDatabase.1
        relistedDatabase.2 ∧
      relistedDatabase.1.storage.manifest.tables.map SSTableMetadata.id = [1, 2] ∧
      Increasing relistedDatabase.1.storage.manifest := by
  have hvacant : Vacant directory ∅ := ⟨⟨rfl, rfl⟩, fun _ _ => rfl⟩
  have hstart : Reached .least directory true 0 (listing [] 1) (World.mk openedDisk []).disk :=
    .start .async hvacant (by decide +kernel)
  obtain ⟨intact, n, hn, hfirst, hintact⟩ := hstart.command (text "PUT a x") (text "OK") (by decide)
    (show _ = Result.returned (_, listing [table 1 (AList.singleton (text "a") value)] 2)
      ⟨(entered .least (listing [] 1, openedDisk) (text "PUT a x")).2, []⟩ by decide +kernel)
  obtain ⟨intact', n', hn', hsecond, hintact'⟩ := hfirst.command (text "PUT b x") (text "OK")
    (by decide) (show _ = Result.returned (_, listing
      [table 3 ((AList.singleton (text "a") value : Entries).insert (text "b") value)] 4)
      ⟨compactedDisk, []⟩ by decide +kernel)
  have hclose : Succeeds (Wal.close ⟨directory.walFilename, .async, true, true, []⟩) compactedDisk
      ⟨directory.walFilename, .async, false, true, []⟩
      (Disk.append directory.walFilename [] compactedDisk) := by
    simp [Succeeds, Wal.close, Wal.flush, Io.write]
  have hinit : Succeeds (initializeDatabase .least directory.walFilename .async)
      (Disk.append directory.walFilename [] compactedDisk) (.ok relistedDatabase.1)
      relistedDatabase.2 := by decide +kernel
  rw [hintact' (by decide) (by decide), hintact (by decide) (by decide)] at hsecond
  have hthird : Reached .least directory true (0 + n + n') relistedDatabase.1 relistedDatabase.2 :=
    hsecond.restart .async hclose hinit
  exact ⟨0 + n + n', hthird, by decide +kernel,
    (table_ids_increase .least (text "d") (by decide +kernel) _ _ _ _ hthird (by omega)).1⟩

end ForgeDB.TableIds
