import ForgeDB.LogOperations

/-!
# A log cut at any byte

Whatever number of bytes of a log survives, recovery finds exactly the operations whose
frames lie wholly inside them and treats the rest as the trace of a crash.
-/

namespace ForgeDB.WalCuts
open CrashPrograms CrashPrograms.Io WalRecords WalRecovery

/-- Append every operation in turn, stopping at the first that is refused. -/
def appendAll (hc : HeaderConstants) : List LogOperation → Wal → Io (Bool × Wal)
  | [], w => return (true, w)
  | op :: ops, w => do
    let (accepted, w) ← op.append hc w
    if accepted then appendAll hc ops w else return (false, w)

/-- The life of one log object, from its constructor to its destructor. -/
def writeLog (hc : HeaderConstants) (filename : Bytes) (mode : DurabilityMode)
    (ops : List LogOperation) : Io Bool := do
  let w ← Wal.create filename mode
  let (accepted, w) ← appendAll hc ops w
  let _ ← w.close
  return accepted

/-- The operations whose encodings lie wholly within the first `n` bytes of the log. -/
def completeWithin (hc : HeaderConstants) : ℕ → List LogOperation → List LogOperation
  | _, [] => []
  | n, op :: ops =>
    if (Wal.frame hc op.record).length ≤ n then
      op :: completeWithin hc (n - (Wal.frame hc op.record).length) ops
    else []

theorem appendAll_succeeds (hc : HeaderConstants) (ops : List LogOperation) {w : Wal} {d : Disk} {s : Bytes}
    (h : w.Carries d s) :
    ∃ w' d', Succeeds (appendAll hc ops w) d (true, w') d' ∧
      w'.Carries d' (s ++ frames hc (ops.map LogOperation.record)) ∧ w.SameFile w' := by
  induction ops generalizing w d s with
  | nil => exact ⟨w, d, rfl, by simpa using h, ⟨rfl, rfl⟩⟩
  | cons op ops ih =>
    obtain ⟨w₁, d₁, hrun, hcar, ⟨hname, hmode⟩, -⟩ := Wal.appendRecord_succeeds hc h op.record
    obtain ⟨w₂, d₂, hrest, hcar₂, ⟨hname₂, hmode₂⟩⟩ := ih hcar
    refine ⟨w₂, d₂, ?_, by simpa [List.append_assoc] using hcar₂,
      ⟨hname₂.trans hname, hmode₂.trans hmode⟩⟩
    rw [appendAll, LogOperation.append_eq]
    exact hrun.bind hrest

/-- The destructor leaves exactly the frames of the operations in the file. -/
theorem writeLog_succeeds (hc : HeaderConstants) (filename : Bytes) (mode : DurabilityMode)
    (ops : List LogOperation) :
    ∃ d, Succeeds (writeLog hc filename mode ops) ∅ true d ∧
      d.lookup filename = some (.regular (frames hc (ops.map LogOperation.record))) := by
  obtain ⟨w, d, hcreate, hcar, hname, -, -, -⟩ :=
    Wal.create_succeeds filename mode ∅ [] (Or.inr ⟨AList.lookup_empty _, rfl⟩)
  obtain ⟨w₁, d₁, happend, hcar₁, hname₁, -⟩ := appendAll_succeeds hc ops hcar
  obtain ⟨w₂, d₂, hclose, hcar₂, ⟨hname₂, -⟩, -, hclosed⟩ := Wal.close_succeeds hcar₁
  refine ⟨d₂, hcreate.bind (happend.bind (hclose.bind rfl)), ?_⟩
  obtain ⟨c, hc, hs⟩ := hcar₂.stored
  rw [hcar₂.empty_of_closed hclosed, List.append_nil, List.nil_append] at hs
  rw [← hname, ← hname₁, ← hname₂, hc, hs]

theorem mem_of_mem_completeWithin {hc : HeaderConstants} {n : ℕ} {ops : List LogOperation} {op : LogOperation}
    (h : op ∈ completeWithin hc n ops) : op ∈ ops := by
  induction ops generalizing n with
  | nil => exact h
  | cons a ops ih =>
    rw [completeWithin] at h
    split at h
    · rcases List.mem_cons.mp h with rfl | h
      · exact List.mem_cons_self
      · exact List.mem_cons_of_mem _ (ih h)
    · cases h

/-- A cut log is its complete frames followed by a piece of at most one more frame. -/
theorem take_frames (hc : HeaderConstants) (ops : List LogOperation) (n : ℕ) :
    ∃ t, (frames hc (ops.map LogOperation.record)).take n =
        frames hc ((completeWithin hc n ops).map LogOperation.record) ++ t ∧
      (t = [] ∨ ∃ op ∈ ops, t <+: Wal.frame hc op.record ∧
        t.length < (Wal.frame hc op.record).length) := by
  induction ops generalizing n with
  | nil => exact ⟨[], by simp [completeWithin], Or.inl rfl⟩
  | cons op ops ih =>
    rw [completeWithin, List.map_cons, frames_cons]
    by_cases hn : (Wal.frame hc op.record).length ≤ n
    · obtain ⟨t, ht, hcut⟩ := ih (n - (Wal.frame hc op.record).length)
      refine ⟨t, ?_, ?_⟩
      · rw [List.take_append, List.take_of_length_le hn, ht, if_pos hn, List.map_cons, frames_cons,
          List.append_assoc]
      · rcases hcut with rfl | ⟨op', hop', hpre, hlt⟩
        · exact Or.inl rfl
        · exact Or.inr ⟨op', List.mem_cons_of_mem _ hop', hpre, hlt⟩
    · refine ⟨(Wal.frame hc op.record).take n, ?_, Or.inr ⟨op, List.mem_cons_self,
        List.take_prefix _ _, ?_⟩⟩
      · rw [List.take_append_of_le_length (by omega), if_neg hn]
        rfl
      · rw [List.length_take]
        omega

theorem recoverFrom_take_frames (hc : HeaderConstants) (ops : List LogOperation)
    (hops : ∀ op ∈ ops, 9 + op.record.key.length + op.record.value.length ≤ maxRecordSize) (n : ℕ) :
    (recoverFrom hc ∅ ((frames hc (ops.map LogOperation.record)).take n)).2 =
        replay ∅ ((completeWithin hc n ops).map LogOperation.record) ∧
      ((recoverFrom hc ∅ ((frames hc (ops.map LogOperation.record)).take n)).1.status = .success ∨
        (recoverFrom hc ∅ ((frames hc (ops.map LogOperation.record)).take n)).1.status =
          .recoveredIncompleteTail) := by
  obtain ⟨t, htake, hcut⟩ := take_frames hc ops n
  have hcomplete : ∀ r ∈ (completeWithin hc n ops).map LogOperation.record, Loggable r := by
    intro r hr
    obtain ⟨op, hop, rfl⟩ := List.mem_map.mp hr
    exact LogOperation.loggable (hops op (mem_of_mem_completeWithin hop))
  rw [htake, recoverFrom_frames _ hcomplete]
  rcases hcut with rfl | ⟨op, hop, hpre, hlt⟩
  · rw [recoverFrom_nil]
    exact ⟨rfl, Or.inl rfl⟩
  · exact recoverFrom_torn (LogOperation.loggable (hops op hop)) hpre hlt _

/-- However many bytes of the log are left, recovery yields exactly the in-memory table
of the operations that are wholly among them. -/
theorem recover_after_cut (hc : HeaderConstants) (filename : Bytes) (mode : DurabilityMode)
    (ops : List LogOperation)
    (hops : ∀ op ∈ ops, 9 + op.record.key.length + op.record.value.length ≤ maxRecordSize) :
    ∃ d file, Succeeds (writeLog hc filename mode ops) ∅ true d ∧
      d.lookup filename = some (.regular file) ∧
      ∀ n ≤ file.length, ∀ d' : Disk, d'.lookup filename = some (.regular (file.take n)) →
        ∃ result data, Succeeds (recoverWal hc filename) d' (result, data) d' ∧
          result.status ≠ .corrupted ∧ result.status ≠ .ioError ∧
          ∀ key, data.lookup key =
            ((completeWithin hc n ops).foldl LogOperation.apply MemTable.empty).data.lookup key := by
  obtain ⟨d, hrun, hfile⟩ := writeLog_succeeds hc filename mode ops
  refine ⟨d, _, hrun, hfile, ?_⟩
  intro n _ d' hd'
  obtain ⟨hdata, hstatus⟩ := recoverFrom_take_frames hc ops hops n
  refine ⟨(recoverFrom hc ∅ (List.take n _)).1, (recoverFrom hc ∅ (List.take n _)).2,
    recoverWal_succeeds hd', ?_, ?_, ?_⟩
  · rcases hstatus with hs | hs <;> rw [hs] <;> decide
  · rcases hstatus with hs | hs <;> rw [hs] <;> decide
  · intro key
    rw [LogOperation.foldl_apply_data, hdata]
    rfl

theorem recover_after_cut_overwrite :
    ∃ d file, Succeeds (writeLog HeaderConstants.least (text "d/wal/active.log") .sync
        [.put (text "a") (text "b"), .delete (text "a")]) ∅ true d ∧
      d.lookup (text "d/wal/active.log") = some (.regular file) ∧
      ∀ n ≤ file.length, ∀ d' : Disk,
        d'.lookup (text "d/wal/active.log") = some (.regular (file.take n)) →
        ∃ result data, Succeeds (recoverWal HeaderConstants.least (text "d/wal/active.log")) d'
            (result, data) d' ∧
          result.status ≠ .corrupted ∧ result.status ≠ .ioError ∧
          ∀ key, data.lookup key = ((completeWithin HeaderConstants.least n
            [.put (text "a") (text "b"), .delete (text "a")]).foldl
              LogOperation.apply MemTable.empty).data.lookup key :=
  recover_after_cut HeaderConstants.least (text "d/wal/active.log") .sync _ (by decide)

end ForgeDB.WalCuts
