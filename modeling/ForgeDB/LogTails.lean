import ForgeDB.WalRecovery

/-!
# The bytes behind the last record

A log file is complete records and a tail that starts no further one. What recovery says of
the file depends on the tail alone: it reports what is left over, except when fewer bytes
than a length field are left.
-/

namespace ForgeDB.LogTails
open CrashPrograms CrashPrograms.Io LittleEndian WalRecords WalRecovery

/-- One complete record: its length field, a payload that the decoder accepts, and the
checksum of the payload. -/
def IsRecord (hc : HeaderConstants) (bytes : Bytes) (record : WalRecord) : Prop :=
  ∃ payload, bytes = encode 4 payload.length ++
      (payload ++ encode 4 (Crc32.calculateCrc32 payload).toNat) ∧
    0 < payload.length ∧ payload.length ≤ maxRecordSize ∧
    deserializeWalRecord hc payload = some record

def AllRecords (hc : HeaderConstants) (records : List Bytes) : Prop :=
  ∀ bytes ∈ records, ∃ record, IsRecord hc bytes record

def StartsNone (hc : HeaderConstants) (tail : Bytes) : Prop :=
  ∀ bytes record, IsRecord hc bytes record → ¬ bytes <+: tail

section Tails

variable {hc : HeaderConstants} {file tail bytes rest : Bytes} {record : WalRecord}
  {records : List Bytes}

theorem length_lt_of_isRecord (h : IsRecord hc bytes record) : 8 < bytes.length := by
  obtain ⟨payload, rfl, hpos, -⟩ := h
  simp only [List.length_append, length_encode]
  omega

theorem readRecord_isRecord (h : IsRecord hc bytes record) (rest : Bytes) :
    readRecord hc (bytes ++ rest) = .success record rest := by
  obtain ⟨payload, rfl, hpos, hmax, hdecode⟩ := h
  have hlt : payload.length < 256 ^ 4 := by
    rw [maxRecordSize] at hmax
    norm_num
    omega
  rw [List.append_assoc, List.append_assoc, readRecord_parts (length_encode 4 _)
    (value_encode_of_lt hlt) hpos.ne' hmax (length_encode 4 _),
    value_encode_of_lt (Crc32.toNat_calculateCrc32_lt _), if_neg (by simp), hdecode]

theorem isRecord_of_readRecord (h : readRecord hc file = .success record rest) :
    ∃ bytes, IsRecord hc bytes record ∧ file = bytes ++ rest := by
  rw [readRecord] at h
  by_cases h4 : file.length < 4
  · rw [if_pos h4] at h
    cases h
  simp only [if_neg h4] at h
  split_ifs at h with hlen hshort hsum hmatch
  generalize hpayload : (file.drop 4).take (value (file.take 4)) = payload at h hmatch
  cases hdecode : deserializeWalRecord hc payload with
  | none =>
    rw [hdecode] at h
    cases h
  | some decoded =>
    rw [hdecode] at h
    cases h
    have hpl : payload.length = value (file.take 4) := by
      rw [← hpayload, List.length_take]
      omega
    have hhead : encode 4 payload.length = file.take 4 := by
      have henc := encode_value (file.take 4)
      rwa [List.length_take, Nat.min_eq_left (by omega), ← hpl] at henc
    have hstored : encode 4 (Crc32.calculateCrc32 payload).toNat =
        ((file.drop 4).drop (value (file.take 4))).take 4 := by
      have henc := encode_value (((file.drop 4).drop (value (file.take 4))).take 4)
      rw [not_not] at hmatch
      rwa [hmatch, List.length_take, Nat.min_eq_left (by omega)] at henc
    refine ⟨_, ⟨payload, rfl, by omega, by omega, hdecode⟩, ?_⟩
    rw [hhead, hstored, ← hpayload, List.append_assoc, List.append_assoc, List.take_append_drop,
      List.take_append_drop, List.take_append_drop]

theorem readRecord_eof_iff : readRecord hc file = .eofReached ↔ file.length < 4 := by
  constructor
  · intro h
    by_contra h4
    simp only [readRecord, if_neg h4] at h
    split_ifs at h
    split at h
    · cases h
    · cases h
  · intro h4
    rw [readRecord, if_pos h4]

theorem readRecord_ne_ioError (e : Bytes) : readRecord hc file ≠ .ioError e := by
  intro h
  rw [readRecord] at h
  simp only at h
  split_ifs at h
  split at h
  · cases h
  · cases h

theorem recoverFrom_records (h : AllRecords hc records) (data : Entries) (tail : Bytes) :
    ∃ data', recoverFrom hc data (records.flatten ++ tail) = recoverFrom hc data' tail := by
  induction records generalizing data with
  | nil => exact ⟨data, rfl⟩
  | cons bytes records ih =>
    obtain ⟨record, hrecord⟩ := h bytes List.mem_cons_self
    rw [List.flatten_cons, List.append_assoc, recoverFrom_eq, readRecord_isRecord hrecord]
    exact ih (fun b hb => h b (List.mem_cons_of_mem _ hb)) (applyRecord data record)

/-- Every file is complete records and a tail that starts no further one. -/
theorem exists_tail (hc : HeaderConstants) (file : Bytes) :
    ∃ records tail, AllRecords hc records ∧ file = records.flatten ++ tail ∧ StartsNone hc tail := by
  induction hn : file.length using Nat.strong_induction_on generalizing file with
  | _ n ih =>
    by_cases hnone : StartsNone hc file
    · exact ⟨[], file, by simp [AllRecords], rfl, hnone⟩
    · simp only [StartsNone, not_forall, not_not] at hnone
      obtain ⟨bytes, record, hrecord, rest, rfl⟩ := hnone
      have hlen := length_lt_of_isRecord hrecord
      rw [List.length_append] at hn
      obtain ⟨records, tail, hall, rfl, htail⟩ := ih rest.length (by omega) rest rfl
      refine ⟨bytes :: records, tail, ?_, by simp, htail⟩
      intro b hb
      rcases List.mem_cons.mp hb with rfl | hb
      · exact ⟨record, hrecord⟩
      · exact hall b hb

/-- The status at a tail: the end of the file when less than a length field is left, and
otherwise a report. -/
theorem status_tail (h : StartsNone hc tail) (data : Entries) :
    (tail.length < 4 ∧ (recoverFrom hc data tail).1.status = .success) ∨
      (4 ≤ tail.length ∧ ((recoverFrom hc data tail).1.status = .recoveredIncompleteTail ∨
        (recoverFrom hc data tail).1.status = .corrupted)) := by
  rw [recoverFrom_eq]
  cases hr : readRecord hc tail with
  | success record rest =>
    obtain ⟨bytes, hbytes, heq⟩ := isRecord_of_readRecord hr
    exact absurd ⟨rest, heq.symm⟩ (h bytes record hbytes)
  | eofReached => exact Or.inl ⟨readRecord_eof_iff.mp hr, rfl⟩
  | incomplete =>
    refine Or.inr ⟨not_lt.mp fun h4 => ?_, Or.inl rfl⟩
    rw [readRecord_eof_iff.mpr h4] at hr
    cases hr
  | corrupted e =>
    refine Or.inr ⟨not_lt.mp fun h4 => ?_, Or.inr rfl⟩
    rw [readRecord_eof_iff.mpr h4] at hr
    cases hr
  | ioError e => exact absurd hr (readRecord_ne_ioError e)

theorem status_records (h : AllRecords hc records) (htail : StartsNone hc tail) (data : Entries) :
    (tail.length < 4 ∧ (recoverFrom hc data (records.flatten ++ tail)).1.status = .success) ∨
      (4 ≤ tail.length ∧
        ((recoverFrom hc data (records.flatten ++ tail)).1.status = .recoveredIncompleteTail ∨
          (recoverFrom hc data (records.flatten ++ tail)).1.status = .corrupted)) := by
  obtain ⟨data', heq⟩ := recoverFrom_records h data tail
  rw [heq]
  exact status_tail htail data'

end Tails

/-- The status tells what is left over: success means that the file is complete records, and
bytes behind the last one are reported. -/
def Telling (hc : HeaderConstants) (file : Bytes) (status : RecoveryStatus) : Prop :=
  (status = .success → ∃ records, AllRecords hc records ∧ file = records.flatten) ∧
    ∀ records tail, AllRecords hc records → file = records.flatten ++ tail → tail ≠ [] →
      StartsNone hc tail → status = .recoveredIncompleteTail ∨ status = .corrupted

/-- Recovery of any log file tells so exactly when the file is not complete records with one to
three bytes behind them. -/
theorem recovery_telling_iff (hc : HeaderConstants) (d : Disk) (filename file : Bytes) :
    ∃ result data, Succeeds (recoverWal hc filename) (Disk.put filename file d) (result, data)
        (Disk.put filename file d) ∧
      (Telling hc file result.status ↔
        ¬ ∃ records tail, AllRecords hc records ∧ file = records.flatten ++ tail ∧
          1 ≤ tail.length ∧ tail.length ≤ 3) := by
  refine ⟨(recoverFrom hc ∅ file).1, (recoverFrom hc ∅ file).2,
    recoverWal_succeeds Disk.lookup_put, ?_⟩
  constructor
  · rintro ⟨-, htell⟩ ⟨records, tail, hall, rfl, hpos, hshort⟩
    have hnone : StartsNone hc tail := by
      intro bytes record hrecord hprefix
      have hlen := length_lt_of_isRecord hrecord
      have hle := hprefix.length_le
      omega
    have hreport := htell records tail hall rfl (List.ne_nil_of_length_pos hpos) hnone
    rcases status_records hall hnone ∅ with ⟨-, hsuccess⟩ | ⟨hlong, -⟩
    · rw [hsuccess] at hreport
      rcases hreport with hreport | hreport <;> cases hreport
    · omega
  · intro hleft
    constructor
    · intro hsuccess
      obtain ⟨records, tail, hall, rfl, hnone⟩ := exists_tail hc file
      rcases status_records hall hnone ∅ with ⟨hshort, -⟩ | ⟨-, hreport | hreport⟩
      · have hempty : tail = [] := by
          by_contra hne
          exact hleft ⟨records, tail, hall, rfl, List.length_pos_of_ne_nil hne, by omega⟩
        exact ⟨records, hall, by rw [hempty, List.append_nil]⟩
      · rw [hsuccess] at hreport
        cases hreport
      · rw [hsuccess] at hreport
        cases hreport
    · rintro records tail hall rfl hne hnone
      rcases status_records hall hnone ∅ with ⟨hshort, -⟩ | ⟨-, hreport⟩
      · exact absurd ⟨records, tail, hall, rfl, List.length_pos_of_ne_nil hne, by omega⟩ hleft
      · exact hreport

/-- Three stray bytes, as a crash in the middle of a length field leaves them. -/
theorem recovery_silent_tail :
    ∃ result data, Succeeds (recoverWal .least (text "f")) (Disk.put (text "f") [1, 2, 3] ∅)
        (result, data) (Disk.put (text "f") [1, 2, 3] ∅) ∧
      result.status = .success ∧ ¬ Telling .least [1, 2, 3] result.status := by
  refine ⟨_, _, recoverWal_succeeds Disk.lookup_put, rfl, ?_⟩
  rintro ⟨hwhole, -⟩
  obtain ⟨records, hall, hflat⟩ := hwhole rfl
  cases records with
  | nil => cases hflat
  | cons bytes records =>
    obtain ⟨record, hrecord⟩ := hall bytes List.mem_cons_self
    have hlen := length_lt_of_isRecord hrecord
    have hlength := congrArg List.length hflat
    simp only [List.flatten_cons, List.length_append, List.length_cons, List.length_nil] at hlength
    omega

end ForgeDB.LogTails
