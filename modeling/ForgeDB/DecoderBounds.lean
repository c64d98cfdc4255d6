import ForgeDB.CheckedAccess
import ForgeDB.Protocol
import ForgeDB.SSTables
import ForgeDB.WalRecords

/-!
# The decoders stay inside their buffers

Each decoder again, now with every access checked: a byte taken by index, a substring, a
difference of a size and an offset, a move of the offset. Whatever the bytes are, no check
fails, and the result is the one of the unchecked decoder. The lengths in the input are
believed only after they have been compared with the bytes that are left.
-/

namespace ForgeDB.DecoderBounds
open CheckedAccess SSTables WalRecords

def checkedReadWord (w : ℕ) (buffer : Bytes) (offset : ℕ) :
    Except Fault (Option (ℕ × ℕ)) := do
  if offset + w > buffer.length then
    return none
  let v ← (List.range w).foldlM (fun v i => do
    let b ← index buffer (offset + i)
    return v ||| b.val <<< (i * 8)) 0
  let offset ← advance buffer offset w
  return some (v, offset)

/-- A length field and the string behind it. The limit is tested first; the bytes left are
computed only when it is met. -/
def checkedReadSized (limit : ℕ) (buffer : Bytes) (offset : ℕ) :
    Except Fault (Option (Bytes × ℕ)) := do
  match ← checkedReadWord 4 buffer offset with
  | none => return none
  | some (size, offset) =>
    if size > limit then
      return none
    let left ← difference buffer.length offset
    if size > left then
      return none
    let s ← slice buffer offset size
    let offset ← advance buffer offset size
    return some (s, offset)

def checkedDeserializeEntry (buffer : Bytes) (offset : ℕ) :
    Except Fault (Option (Entry × ℕ)) := do
  match ← checkedReadSized (2 ^ 32 - 1) buffer offset with
  | none => return none
  | some (key, offset) =>
    if offset ≥ buffer.length then
      return none
    let flag ← index buffer offset
    let offset ← advance buffer offset 1
    match ← checkedReadSized (2 ^ 32 - 1) buffer offset with
    | none => return none
    | some (value, offset) => return some (⟨key, value, flag != 0⟩, offset)

def checkedDeserializeEntries (buffer : Bytes) : ℕ → ℕ → Entries → Except Fault (Option Entries)
  | 0, offset, data => return if offset = buffer.length then some data else none
  | count + 1, offset, data => do
    match ← checkedDeserializeEntry buffer offset with
    | none => return none
    | some (item, offset) =>
      checkedDeserializeEntries buffer count offset (data.insert item.1 item.2)

def checkedReadHeader (contents : Bytes) : Except Fault (Option (ℕ × ℕ × ℕ × ℕ)) := do
  match ← checkedReadWord 4 contents 0 with
  | none => return none
  | some (magic, offset) =>
    match ← checkedReadWord 4 contents offset with
    | none => return none
    | some (version, offset) =>
      match ← checkedReadWord 8 contents offset with
      | none => return none
      | some (entryCount, offset) => return some (magic, version, entryCount, offset)

def checkedParseTable (contents : Bytes) : Except Fault (Except Bytes Entries) := do
  match ← checkedReadHeader contents with
  | none => return .error (text "SSTable header is incomplete")
  | some (magic, version, entryCount, offset) =>
    if magic ≠ sstableMagic then
      return .error (text "Invalid SSTable magic")
    if version ≠ sstableVersion then
      return .error (text "Unsupported SSTable version")
    if contents.length < offset + 4 then
      return .error (text "SSTable checksum is missing")
    let checksumOffset ← difference contents.length 4
    match ← checkedReadWord 4 contents checksumOffset with
    | none => return .error (text "Failed to read SSTable checksum")
    | some (storedChecksum, _) =>
      let size ← difference checksumOffset offset
      let payload ← slice contents offset size
      if storedChecksum ≠ (Crc32.calculateCrc32 payload).toNat then
        return .error (text "SSTable checksum mismatch")
      match ← checkedDeserializeEntries payload entryCount 0 ∅ with
      | none => return .error (text "Invalid SSTable entry data")
      | some data => return .ok data

def checkedDeserializeWalRecord (hc : HeaderConstants) (payload : Bytes) :
    Except Fault (Option WalRecord) := do
  if payload = [] then
    return none
  let rawType ← index payload 0
  let offset ← advance payload 0 1
  match recordType hc rawType with
  | none => return none
  | some type =>
    match ← checkedReadSized maxKeySize payload offset with
    | none => return none
    | some (key, offset) =>
      match ← checkedReadSized maxValueSize payload offset with
      | none => return none
      | some (value, offset) =>
        if offset ≠ payload.length then
          return none
        if type = .delete ∧ value ≠ [] then
          return none
        return some ⟨type, key, value⟩

def checkedTryExtractFrame (maxMessageSize : ℕ) (inputBuffer : Bytes) :
    Except Fault (Option Bytes × Bytes) := do
  if inputBuffer.length < 4 then
    return (none, inputBuffer)
  match ← checkedReadWord 4 inputBuffer 0 with
  | none => return (none, inputBuffer)
  | some (messageSize, _) =>
    if messageSize > maxMessageSize then
      return (none, [])
    let frameSize := 4 + messageSize
    if inputBuffer.length < frameSize then
      return (none, inputBuffer)
    let payload ← slice inputBuffer 4 messageSize
    -- what is erased from the front is there
    let erased ← advance inputBuffer 0 frameSize
    return (some payload, inputBuffer.drop erased)

theorem checkedReadWord_ok (w : ℕ) (buffer : Bytes) (offset : ℕ) :
    checkedReadWord w buffer offset = .ok (Serialization.readWord w buffer offset) := by
  rw [checkedReadWord, Serialization.readWord]
  split_ifs with hlen
  · rfl
  · have hloop : (List.range w).foldlM (fun v i => do
        let b ← index buffer (offset + i)
        return v ||| b.val <<< (i * 8)) 0 = (.ok ((List.range w).foldl
          (fun v i => v ||| (buffer.getD (offset + i) 0).val <<< (i * 8)) 0) : Except Fault ℕ) := by
      apply foldlM_ok
      intro v i hi
      have hi : i < w := List.mem_range.mp hi
      rw [index_of_lt (show offset + i < buffer.length by omega) 0]
      rfl
    have hmove : advance buffer offset w = .ok (offset + w) := advance_of_le (by omega)
    simp only [hloop, hmove]
    rfl

theorem checkedReadSized_ok (limit : ℕ) (buffer : Bytes) (offset : ℕ) :
    checkedReadSized limit buffer offset = .ok (Serialization.readSized limit buffer offset) := by
  rw [checkedReadSized, Serialization.readSized, Serialization.readUint32, checkedReadWord_ok]
  cases hread : Serialization.readWord 4 buffer offset with
  | none => rfl
  | some p =>
    obtain ⟨size, next⟩ := p
    obtain ⟨rfl, hle⟩ := Serialization.readWord_within hread
    simp only [ok_bind, pure_eq_ok, difference_of_le hle, sizeSub_of_le hle]
    by_cases hlimit : size > limit
    · rw [if_pos hlimit, if_pos (Or.inl hlimit)]
    · rw [if_neg hlimit]
      by_cases hfit : size > buffer.length - (offset + 4)
      · rw [if_pos hfit, if_pos (Or.inr hfit)]
      · -- only here is the string cut out, and the comparison has just bounded it
        have hslice : slice buffer (offset + 4) size = .ok ((buffer.drop (offset + 4)).take size) :=
          slice_of_le (by omega)
        have hmove : advance buffer (offset + 4) size = .ok (offset + 4 + size) :=
          advance_of_le (by omega)
        rw [if_neg hfit, if_neg (not_or.mpr ⟨hlimit, hfit⟩), hslice, hmove]
        rfl

theorem readSized_offset {limit : ℕ} {buffer s : Bytes} {offset next : ℕ}
    (h : Serialization.readSized limit buffer offset = some (s, next)) :
    next = offset + 4 + s.length ∧ next ≤ buffer.length := by
  rw [Serialization.readSized, Serialization.readUint32] at h
  cases hread : Serialization.readWord 4 buffer offset with
  | none => simp [hread] at h
  | some p =>
    obtain ⟨size, start⟩ := p
    obtain ⟨rfl, hle⟩ := Serialization.readWord_within hread
    simp only [hread, sizeSub_of_le hle] at h
    split at h
    · cases h
    · rename_i hfit
      cases h
      rw [List.length_take, List.length_drop]
      omega

theorem checkedDeserializeEntry_ok (buffer : Bytes) (offset : ℕ) :
    checkedDeserializeEntry buffer offset = .ok (deserializeEntry buffer offset) := by
  rw [checkedDeserializeEntry, deserializeEntry, checkedReadSized_ok]
  cases Serialization.readSized (2 ^ 32 - 1) buffer offset with
  | none => rfl
  | some p =>
    obtain ⟨key, next⟩ := p
    simp only [ok_bind, pure_eq_ok]
    by_cases hend : next ≥ buffer.length
    · rw [if_pos hend, if_pos hend]
    · have hflag : index buffer next = .ok (buffer.getD next 0) := index_of_lt (by omega) 0
      have hmove : advance buffer next 1 = .ok (next + 1) := advance_of_le (by omega)
      simp only [if_neg hend, hflag, hmove, ok_bind, checkedReadSized_ok]
      cases Serialization.readSized (2 ^ 32 - 1) buffer (next + 1) with
      | none => rfl
      | some p => rfl

/-- One turn of the decoding loop takes two length fields and the flag at least. -/
theorem deserializeEntry_offset {buffer : Bytes} {item : Entry} {offset next : ℕ}
    (h : deserializeEntry buffer offset = some (item, next)) :
    offset + 9 ≤ next ∧ next ≤ buffer.length := by
  rw [deserializeEntry] at h
  cases hkey : Serialization.readSized (2 ^ 32 - 1) buffer offset with
  | none => simp only [hkey, reduceCtorEq] at h
  | some p =>
    obtain ⟨key, middle⟩ := p
    obtain ⟨hmiddle, -⟩ := readSized_offset hkey
    simp only [hkey] at h
    split at h
    · cases h
    · cases hvalue : Serialization.readSized (2 ^ 32 - 1) buffer (middle + 1) with
      | none => simp only [hvalue, reduceCtorEq] at h
      | some p =>
        obtain ⟨value, behind⟩ := p
        obtain ⟨hbehind, hle⟩ := readSized_offset hvalue
        simp only [hvalue, Option.some.injEq, Prod.mk.injEq] at h
        obtain ⟨-, rfl⟩ := h
        omega

theorem checkedDeserializeEntries_ok (buffer : Bytes) (count offset : ℕ) (data : Entries) :
    checkedDeserializeEntries buffer count offset data =
      .ok (deserializeEntries buffer count offset data) := by
  induction count generalizing offset data with
  | zero => rfl
  | succ count ih =>
    rw [checkedDeserializeEntries, deserializeEntries, checkedDeserializeEntry_ok]
    cases deserializeEntry buffer offset with
    | none => rfl
    | some p => exact ih p.2 (data.insert p.1.1 p.1.2)

/-- Every turn of the loop moves the offset by nine bytes or more, and the last offset is the
end of the buffer. -/
theorem deserializeEntries_size {buffer : Bytes} {count offset : ℕ} {data result : Entries}
    (h : deserializeEntries buffer count offset data = some result) :
    offset + 9 * count ≤ buffer.length := by
  induction count generalizing offset data with
  | zero =>
    rw [deserializeEntries] at h
    split at h
    · omega
    · cases h
  | succ count ih =>
    rw [deserializeEntries] at h
    cases hentry : deserializeEntry buffer offset with
    | none => simp [hentry] at h
    | some p =>
      obtain ⟨item, next⟩ := p
      obtain ⟨hnext, -⟩ := deserializeEntry_offset hentry
      rw [hentry] at h
      have hrest := ih h
      omega

theorem checkedReadHeader_ok (contents : Bytes) :
    checkedReadHeader contents = .ok (readHeader contents) := by
  simp only [checkedReadHeader, readHeader, Serialization.readUint32, Serialization.readUint64,
    checkedReadWord_ok, ok_bind, pure_eq_ok]
  cases Serialization.readWord 4 contents 0 with
  | none => rfl
  | some p =>
    simp only
    cases Serialization.readWord 4 contents p.2 with
    | none => rfl
    | some q =>
      simp only
      cases Serialization.readWord 8 contents q.2 with
      | none => rfl
      | some r => rfl

theorem checkedParseTable_ok (contents : Bytes) :
    checkedParseTable contents = .ok (parseTable contents) := by
  rw [checkedParseTable, parseTable, checkedReadHeader_ok]
  cases hheader : readHeader contents with
  | none => rfl
  | some p =>
    obtain ⟨magic, version, entryCount, offset⟩ := p
    cases (readHeader_within hheader).1
    simp only [ok_bind, pure_eq_ok]
    by_cases hmagic : magic ≠ sstableMagic
    · rw [if_pos hmagic, if_pos hmagic]
    rw [if_neg hmagic, if_neg hmagic]
    by_cases hversion : version ≠ sstableVersion
    · rw [if_pos hversion, if_pos hversion]
    rw [if_neg hversion, if_neg hversion]
    by_cases hshort : contents.length < 16 + 4
    · rw [if_pos hshort, if_pos hshort]
    -- from here on the header and the checksum do not overlap
    have hchecksum : difference contents.length 4 = .ok (contents.length - 4) :=
      difference_of_le (by omega)
    have hsize : difference (contents.length - 4) 16 = .ok (contents.length - 4 - 16) :=
      difference_of_le (by omega)
    have hpayload : slice contents 16 (contents.length - 4 - 16) =
        .ok ((contents.drop 16).take (contents.length - 4 - 16)) := slice_of_le (by omega)
    simp only [if_neg hshort, hchecksum, hsize, hpayload, checkedReadWord_ok, ok_bind,
      checkedDeserializeEntries_ok, Serialization.readUint32]
    cases Serialization.readWord 4 contents (contents.length - 4) with
    | none => rfl
    | some p =>
      simp only
      split_ifs with hcrc
      · rfl
      · cases deserializeEntries ((contents.drop 16).take (contents.length - 4 - 16)) entryCount 0 ∅ with
        | none => rfl
        | some data => rfl

theorem checkedDeserializeWalRecord_ok (hc : HeaderConstants) (payload : Bytes) :
    checkedDeserializeWalRecord hc payload = .ok (deserializeWalRecord hc payload) := by
  cases payload with
  | nil => rfl
  | cons raw rest =>
    have htype : index (raw :: rest) 0 = .ok raw := rfl
    have hmove : advance (raw :: rest) 0 1 = .ok 1 := advance_of_le (by simp)
    simp only [checkedDeserializeWalRecord, deserializeWalRecord, htype, hmove, ok_bind, pure_eq_ok,
      checkedReadSized_ok, List.head?_cons, reduceCtorEq, if_false]
    cases recordType hc raw with
    | none => rfl
    | some type =>
      simp only
      cases Serialization.readSized maxKeySize (raw :: rest) 1 with
      | none => rfl
      | some p =>
        simp only
        cases Serialization.readSized maxValueSize (raw :: rest) p.2 with
        | none => rfl
        | some q =>
          simp only
          split_ifs with hend hdelete
          · rfl
          · rfl
          · rfl

theorem checkedTryExtractFrame_ok (maxMessageSize : ℕ) (inputBuffer : Bytes) :
    checkedTryExtractFrame maxMessageSize inputBuffer =
      .ok (Protocol.tryExtractFrame maxMessageSize inputBuffer) := by
  simp only [checkedTryExtractFrame, Protocol.tryExtractFrame, Serialization.readUint32,
    checkedReadWord_ok, ok_bind, pure_eq_ok]
  by_cases hshort : inputBuffer.length < 4
  · rw [if_pos hshort, if_pos hshort]
  rw [if_neg hshort, if_neg hshort]
  cases Serialization.readWord 4 inputBuffer 0 with
  | none => rfl
  | some p =>
    obtain ⟨messageSize, offset⟩ := p
    simp only
    by_cases hlimit : messageSize > maxMessageSize
    · rw [if_pos hlimit, if_pos hlimit]
    rw [if_neg hlimit, if_neg hlimit]
    by_cases hframe : inputBuffer.length < 4 + messageSize
    · rw [if_pos hframe, if_pos hframe]
    have hpayload : slice inputBuffer 4 messageSize = .ok ((inputBuffer.drop 4).take messageSize) :=
      slice_of_le (by omega)
    have herase : advance inputBuffer 0 (4 + messageSize) = .ok (0 + (4 + messageSize)) :=
      advance_of_le (by omega)
    rw [if_neg hframe, if_neg hframe, hpayload, herase, Nat.zero_add]
    rfl

/-- Whatever the bytes and whatever the count, no access of a decoder fails its check, the
checked decoders compute what the plain ones do, and entries that decode fill the buffer with
nine bytes each at least. -/
theorem decoders_stay_inside (hc : HeaderConstants) (maxMessageSize : ℕ) (buffer : Bytes) :
    checkedParseTable buffer = .ok (parseTable buffer) ∧
      (∀ count data, checkedDeserializeEntries buffer count 0 data =
        .ok (deserializeEntries buffer count 0 data)) ∧
      checkedDeserializeWalRecord hc buffer = .ok (deserializeWalRecord hc buffer) ∧
      checkedTryExtractFrame maxMessageSize buffer =
        .ok (Protocol.tryExtractFrame maxMessageSize buffer) ∧
      ∀ count data result, deserializeEntries buffer count 0 data = some result →
        9 * count ≤ buffer.length := by
  refine ⟨checkedParseTable_ok buffer,
    fun count data => checkedDeserializeEntries_ok buffer count 0 data,
    checkedDeserializeWalRecord_ok hc buffer, checkedTryExtractFrame_ok maxMessageSize buffer, ?_⟩
  intro count data result h
  have hsize := deserializeEntries_size h
  omega

end ForgeDB.DecoderBounds
