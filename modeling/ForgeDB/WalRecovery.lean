import ForgeDB.MemTables
import ForgeDB.WalFiles

/-!
# Reading the log back

The reader takes one frame after the other. It stops quietly when fewer than four
bytes are left, reports an incomplete tail when a frame runs past the end of the file,
and reports corruption for a bad length, checksum or record.
-/

namespace ForgeDB.WalRecovery
open CrashPrograms CrashPrograms.Io LittleEndian WalRecords

inductive ReadResult where
  | success (record : WalRecord) (rest : Bytes)
  | eofReached
  | incomplete
  | corrupted (error : Bytes)
  | ioError (error : Bytes)
  deriving DecidableEq

inductive RecoveryStatus where
  | success
  | recoveredIncompleteTail
  | corrupted
  | ioError
  deriving DecidableEq

structure RecoveryResult where
  status : RecoveryStatus
  message : Bytes
  deriving DecidableEq

def maxRecordSize : ℕ := 16 * 1024 * 1024

def readRecord (hc : HeaderConstants) (file : Bytes) : ReadResult :=
  -- the stream reports its end as soon as the length field is cut short, by how much does not matter
  if file.length < 4 then .eofReached
  else
    let length := value (file.take 4)
    let file := file.drop 4
    if length = 0 ∨ length > maxRecordSize then .corrupted (text "Invalid WAL record length")
    else if file.length < length then .incomplete
    else
      let payload := file.take length
      let file := file.drop length
      if file.length < 4 then .incomplete
      else if value (file.take 4) ≠ (Crc32.calculateCrc32 payload).toNat then
        .corrupted (text "WAL checksum mismatch")
      else
        match deserializeWalRecord hc payload with
        | none => .corrupted (text "Invalid WAL record format")
        | some record => .success record (file.drop 4)

def applyRecord (data : Entries) (record : WalRecord) : Entries :=
  match record.type with
  | .put => data.insert record.key ⟨record.value, false⟩
  | .delete => data.insert record.key ⟨[], true⟩

/-- The recovery loop; every turn consumes bytes, so the file length bounds the turns. -/
def recoverLoop (hc : HeaderConstants) : ℕ → Entries → Bytes → RecoveryResult × Entries
  | 0, data, _ => (⟨.ioError, []⟩, data)
  | turns + 1, data, file =>
    match readRecord hc file with
    | .success record rest => recoverLoop hc turns (applyRecord data record) rest
    | .eofReached => (⟨.success, []⟩, data)
    | .incomplete =>
      (⟨.recoveredIncompleteTail, text "Recovered WAL with incomplete final record"⟩, data)
    | .corrupted error => (⟨.corrupted, error⟩, data)
    | .ioError error => (⟨.ioError, error⟩, data)

/-- Recovery of the bytes `file` on top of `data`. -/
def recoverFrom (hc : HeaderConstants) (data : Entries) (file : Bytes) : RecoveryResult × Entries :=
  recoverLoop hc (file.length + 1) data file

/-- A log that cannot be opened counts as no log. -/
def recoverWal (hc : HeaderConstants) (filename : Bytes) : Io (RecoveryResult × Entries) := do
  let opened ← consult
  let d ← getDisk
  match opened, Disk.contents d filename with
  | true, some file => return recoverFrom hc ∅ file
  | _, _ => return (⟨.success, []⟩, ∅)

/-- Records the reader accepts when they are complete. -/
structure Loggable (r : WalRecord) : Prop where
  payload_le : 9 + r.key.length + r.value.length ≤ maxRecordSize
  delete_empty : r.type = .delete → r.value = []

theorem Loggable.admissible {r : WalRecord} (h : Loggable r) : Admissible r := by
  have hp := h.payload_le
  rw [maxRecordSize] at hp
  exact ⟨by rw [maxKeySize]; omega, by unfold maxValueSize; omega, h.delete_empty⟩

/-- The bytes of a list of records. -/
def frames (hc : HeaderConstants) (rs : List WalRecord) : Bytes := (rs.map (Wal.frame hc)).flatten

/-- The map a list of records leaves on top of `data`. -/
def replay (data : Entries) (rs : List WalRecord) : Entries := rs.foldl applyRecord data

variable {hc : HeaderConstants}

@[simp] theorem frames_nil : frames hc [] = [] := rfl

@[simp] theorem frames_cons (r : WalRecord) (rs : List WalRecord) :
    frames hc (r :: rs) = Wal.frame hc r ++ frames hc rs := rfl

@[simp] theorem frames_append (rs rs' : List WalRecord) :
    frames hc (rs ++ rs') = frames hc rs ++ frames hc rs' := by simp [frames]

/-- A frame is the payload length, the payload and its checksum. -/
theorem frame_eq {r : WalRecord} (hp : 9 + r.key.length + r.value.length ≤ maxRecordSize) :
    Wal.frame hc r = encode 4 (serializeWalRecord hc r).length ++ (serializeWalRecord hc r ++
      encode 4 (Crc32.calculateCrc32 (serializeWalRecord hc r)).toNat) := by
  have hl := length_serializeWalRecord hc r
  rw [maxRecordSize] at hp
  rw [Wal.frame, Nat.mod_eq_of_lt (by omega), List.append_assoc]

theorem length_frame (hc : HeaderConstants) (r : WalRecord) :
    (Wal.frame hc r).length = 4 + (serializeWalRecord hc r).length + 4 := by
  simp only [Wal.frame, List.length_append, length_encode]

theorem length_frame_pos (r : WalRecord) : 0 < (Wal.frame hc r).length := by
  rw [length_frame]
  omega

/-- What the reader does with a length field, a payload of that length and a checksum. -/
theorem readRecord_parts {head payload stored rest : Bytes} (hh : head.length = 4)
    (hlen : value head = payload.length) (hpos : payload.length ≠ 0)
    (hmax : payload.length ≤ maxRecordSize) (hst : stored.length = 4) :
    readRecord hc (head ++ (payload ++ (stored ++ rest))) =
      if value stored ≠ (Crc32.calculateCrc32 payload).toNat then
        .corrupted (text "WAL checksum mismatch")
      else match deserializeWalRecord hc payload with
        | none => .corrupted (text "Invalid WAL record format")
        | some record => .success record rest := by
  have h₁ : ¬ (head ++ (payload ++ (stored ++ rest))).length < 4 := by simp [hh]
  have h₂ : ¬ (payload.length = 0 ∨ payload.length > maxRecordSize) := by omega
  have h₃ : ¬ (payload ++ (stored ++ rest)).length < payload.length := by simp
  have h₄ : ¬ (stored ++ rest).length < 4 := by simp [hst]
  simp only [readRecord, if_neg h₁, List.take_left' hh, List.drop_left' hh, hlen, if_neg h₂,
    if_neg h₃, List.take_left, List.drop_left, if_neg h₄, List.take_left' hst, List.drop_left' hst]

theorem readRecord_frame {r : WalRecord} (h : Loggable r) (rest : Bytes) :
    readRecord hc (Wal.frame hc r ++ rest) = .success r rest := by
  have hl := length_serializeWalRecord hc r
  have hp := h.payload_le
  have hlt : (serializeWalRecord hc r).length < 256 ^ 4 := by
    rw [maxRecordSize] at hp
    norm_num
    omega
  rw [frame_eq hp, List.append_assoc, List.append_assoc,
    readRecord_parts (length_encode 4 _) (value_encode_of_lt hlt) (by omega) (by omega)
      (length_encode 4 _), value_encode_of_lt (Crc32.toNat_calculateCrc32_lt _), if_neg (by simp),
    deserialize_serialize hc h.admissible]

/-- A frame cut short is never taken for a record or for damage. -/
theorem readRecord_torn {r : WalRecord} (h : Loggable r) {t : Bytes} (ht : t <+: Wal.frame hc r)
    (hlt : t.length < (Wal.frame hc r).length) :
    readRecord hc t = .eofReached ∨ readRecord hc t = .incomplete := by
  by_cases h4 : t.length < 4
  · left
    rw [readRecord, if_pos h4]
  · right
    have hl := length_serializeWalRecord hc r
    have hp := h.payload_le
    have hval : (serializeWalRecord hc r).length < 256 ^ 4 := by
      rw [maxRecordSize] at hp
      norm_num
      omega
    have hhead : t.take 4 = encode 4 (serializeWalRecord hc r).length := by
      have hpre : t.take 4 = (Wal.frame hc r).take 4 := by
        obtain ⟨u, hu⟩ := ht
        rw [← hu, List.take_append_of_le_length (by omega)]
      rw [hpre, frame_eq h.payload_le, List.take_left' (length_encode 4 _)]
    rw [length_frame] at hlt
    simp only [readRecord, if_neg h4, hhead, value_encode_of_lt hval, List.length_drop]
    rw [if_neg (by omega)]
    split
    · rfl
    · rw [if_pos (by omega)]

theorem length_rest_lt {file rest : Bytes} {r : WalRecord}
    (h : readRecord hc file = .success r rest) : rest.length < file.length := by
  rw [readRecord] at h
  by_cases h4 : file.length < 4
  · rw [if_pos h4] at h
    cases h
  · simp only [if_neg h4] at h
    split_ifs at h
    split at h
    · cases h
    · cases h
      simp only [List.length_drop]
      omega

private theorem recoverLoop_turns (turns turns' : ℕ) (data : Entries) (file : Bytes)
    (h : file.length < turns) (h' : file.length < turns') :
    recoverLoop hc turns data file = recoverLoop hc turns' data file := by
  induction turns generalizing turns' data file with
  | zero => omega
  | succ turns ih =>
    cases turns' with
    | zero => omega
    | succ turns' =>
      unfold recoverLoop
      cases hr : readRecord hc file with
      | success r rest =>
        have hlt := length_rest_lt hr
        exact ih turns' _ rest (by omega) (by omega)
      | eofReached => rfl
      | incomplete => rfl
      | corrupted e => rfl
      | ioError e => rfl

/-- Recovery, one record at a time, with the bound on the turns gone. -/
theorem recoverFrom_eq (data : Entries) (file : Bytes) :
    recoverFrom hc data file = match readRecord hc file with
      | .success record rest => recoverFrom hc (applyRecord data record) rest
      | .eofReached => (⟨.success, []⟩, data)
      | .incomplete =>
        (⟨.recoveredIncompleteTail, text "Recovered WAL with incomplete final record"⟩, data)
      | .corrupted error => (⟨.corrupted, error⟩, data)
      | .ioError error => (⟨.ioError, error⟩, data) := by
  rw [recoverFrom, recoverLoop]
  cases hr : readRecord hc file with
  | success r rest =>
    exact recoverLoop_turns _ _ _ rest (length_rest_lt hr) (Nat.lt_succ_self _)
  | eofReached => rfl
  | incomplete => rfl
  | corrupted e => rfl
  | ioError e => rfl

/-- Complete frames are replayed, and recovery goes on behind them. -/
theorem recoverFrom_frames (rs : List WalRecord) (hrs : ∀ r ∈ rs, Loggable r) (data : Entries)
    (rest : Bytes) :
    recoverFrom hc data (frames hc rs ++ rest) = recoverFrom hc (replay data rs) rest := by
  induction rs generalizing data with
  | nil => rfl
  | cons r rs ih =>
    rw [frames_cons, List.append_assoc, recoverFrom_eq,
      readRecord_frame (hrs r List.mem_cons_self)]
    exact ih (fun r hr => hrs r (List.mem_cons_of_mem _ hr)) _

theorem recoverFrom_nil (data : Entries) : recoverFrom hc data [] = (⟨.success, []⟩, data) := rfl

theorem recoverFrom_stops {file : Bytes} (data : Entries)
    (h : readRecord hc file = .eofReached ∨ readRecord hc file = .incomplete) :
    (recoverFrom hc data file).2 = data ∧ ((recoverFrom hc data file).1.status = .success ∨
      (recoverFrom hc data file).1.status = .recoveredIncompleteTail) := by
  rw [recoverFrom_eq]
  rcases h with h | h
  · rw [h]
    exact ⟨rfl, Or.inl rfl⟩
  · rw [h]
    exact ⟨rfl, Or.inr rfl⟩

theorem recoverFrom_torn {r : WalRecord} (h : Loggable r) {t : Bytes} (ht : t <+: Wal.frame hc r)
    (hlt : t.length < (Wal.frame hc r).length) (data : Entries) :
    (recoverFrom hc data t).2 = data ∧ ((recoverFrom hc data t).1.status = .success ∨
      (recoverFrom hc data t).1.status = .recoveredIncompleteTail) :=
  recoverFrom_stops data (readRecord_torn h ht hlt)

theorem recoverWal_succeeds {d : Disk} {filename file : Bytes}
    (h : d.lookup filename = some (.regular file)) :
    Succeeds (recoverWal hc filename) d (recoverFrom hc ∅ file) d := by
  simp [Succeeds, recoverWal, Disk.contents_of_lookup h]

end ForgeDB.WalRecovery
