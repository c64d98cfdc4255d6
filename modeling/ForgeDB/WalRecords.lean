import ForgeDB.HeaderTypes
import ForgeDB.Serialization

/-!
# The log record codec

A record is one type byte, the key with its length in front, and the value with its
length in front. The decoder accepts exactly the encodings of records within its size
limits whose value is empty when they delete, and no encoding is a proper prefix of
another.
-/

namespace ForgeDB.WalRecords
open Serialization LittleEndian

def maxKeySize : ℕ := 16 * 1024 * 1024

def maxValueSize : ℕ := 16 * 1024 * 1024

def typeCode (hc : HeaderConstants) : WalRecordType → Byte
  | .put => hc.walPut
  | .delete => hc.walDelete

/-- `valid_record_type`, together with the cast back to the enumeration. -/
def recordType (hc : HeaderConstants) (raw : Byte) : Option WalRecordType :=
  if raw = hc.walPut then some .put
  else if raw = hc.walDelete then some .delete
  else none

def serializeWalRecord (hc : HeaderConstants) (record : WalRecord) : Bytes :=
  let payload := [typeCode hc record.type]
  let payload := appendUint32 payload (record.key.length % 2 ^ 32)
  let payload := payload ++ record.key
  let payload := appendUint32 payload (record.value.length % 2 ^ 32)
  payload ++ record.value

def deserializeWalRecord (hc : HeaderConstants) (payload : Bytes) : Option WalRecord :=
  match payload.head? with
  | none => none
  | some rawType =>
    match recordType hc rawType with
    | none => none
    | some type =>
      match readSized maxKeySize payload 1 with
      | none => none
      | some (key, offset) =>
        match readSized maxValueSize payload offset with
        | none => none
        | some (value, offset) =>
          -- no bytes may follow a complete record
          if offset ≠ payload.length then none
          else if type = .delete ∧ value ≠ [] then none
          else some ⟨type, key, value⟩

/-- What the decoder lets through. -/
structure Admissible (r : WalRecord) : Prop where
  key_le : r.key.length ≤ maxKeySize
  value_le : r.value.length ≤ maxValueSize
  delete_empty : r.type = .delete → r.value = []

/-- Lengths that the two 32-bit fields hold. -/
structure Encodable (r : WalRecord) : Prop where
  key_lt : r.key.length < 2 ^ 32
  value_lt : r.value.length < 2 ^ 32

theorem Admissible.encodable {r : WalRecord} (h : Admissible r) : Encodable r := by
  have hk := h.key_le
  have hv := h.value_le
  rw [maxKeySize] at hk
  rw [maxValueSize] at hv
  exact ⟨by omega, by omega⟩

theorem recordType_typeCode (hc : HeaderConstants) (t : WalRecordType) :
    recordType hc (typeCode hc t) = some t := by
  cases t with
  | put => simp [recordType, typeCode]
  | delete => simp [recordType, typeCode, hc.walCodes_ne.symm]

theorem typeCode_of_recordType {hc : HeaderConstants} {raw : Byte} {t : WalRecordType}
    (h : recordType hc raw = some t) : typeCode hc t = raw := by
  rw [recordType] at h
  split_ifs at h with hp hd
  · cases h
    exact hp.symm
  · cases h
    exact hd.symm

theorem serializeWalRecord_eq (hc : HeaderConstants) {r : WalRecord} (h : Encodable r) :
    serializeWalRecord hc r = [typeCode hc r.type] ++ (encode 4 r.key.length ++
      (r.key ++ (encode 4 r.value.length ++ r.value))) := by
  simp only [serializeWalRecord, appendUint32, appendWord_eq, Nat.mod_eq_of_lt h.key_lt,
    Nat.mod_eq_of_lt h.value_lt, List.append_assoc]

theorem length_serializeWalRecord (hc : HeaderConstants) (r : WalRecord) :
    (serializeWalRecord hc r).length = 9 + r.key.length + r.value.length := by
  simp only [serializeWalRecord, appendUint32, appendWord_eq, List.length_append, length_encode,
    List.length_singleton]
  omega

private theorem pow_word : (2 : ℕ) ^ 32 = 256 ^ 4 := by norm_num

theorem serializeWalRecord_append_inj (hc : HeaderConstants) {r r' : WalRecord}
    (h : Encodable r) (h' : Encodable r') {xs ys : Bytes}
    (he : serializeWalRecord hc r ++ xs = serializeWalRecord hc r' ++ ys) : r = r' ∧ xs = ys := by
  rw [serializeWalRecord_eq hc h, serializeWalRecord_eq hc h'] at he
  simp only [List.append_assoc, List.cons_append, List.cons.injEq] at he
  obtain ⟨ht, he⟩ := he
  obtain ⟨hkl, he⟩ := encode_append_inj (pow_word ▸ h.key_lt) (pow_word ▸ h'.key_lt) he
  obtain ⟨hk, he⟩ := List.append_inj he hkl
  obtain ⟨hvl, he⟩ := encode_append_inj (pow_word ▸ h.value_lt) (pow_word ▸ h'.value_lt) he
  obtain ⟨hv, hrest⟩ := List.append_inj he hvl
  have htype : some r.type = some r'.type := by
    rw [← recordType_typeCode hc, ht, recordType_typeCode]
  obtain ⟨t, k, v⟩ := r
  obtain ⟨t', k', v'⟩ := r'
  cases htype
  cases hk
  cases hv
  exact ⟨rfl, hrest⟩

theorem deserialize_serialize (hc : HeaderConstants) {r : WalRecord} (h : Admissible r) :
    deserializeWalRecord hc (serializeWalRecord hc r) = some r := by
  have henc := h.encodable
  have hlen := length_serializeWalRecord hc r
  have hkey : serializeWalRecord hc r = [typeCode hc r.type] ++ (encode 4 r.key.length ++
      (r.key ++ (encode 4 r.value.length ++ r.value))) := serializeWalRecord_eq hc henc
  have hvalue : serializeWalRecord hc r = ([typeCode hc r.type] ++ encode 4 r.key.length ++ r.key) ++
      (encode 4 r.value.length ++ (r.value ++ [])) := by simp [hkey]
  have hread₁ : readSized maxKeySize (serializeWalRecord hc r) 1 = some (r.key, 5 + r.key.length) := by
    rw [hkey]
    exact readSized_encode [_] r.key _ h.key_le henc.key_lt
  have hread₂ : readSized maxValueSize (serializeWalRecord hc r) (5 + r.key.length) =
      some (r.value, 9 + r.key.length + r.value.length) := by
    have hr := readSized_encode ([typeCode hc r.type] ++ encode 4 r.key.length ++ r.key) r.value []
      h.value_le henc.value_lt
    rw [← hvalue] at hr
    simp only [List.length_append, List.length_singleton, length_encode] at hr
    rw [show 5 + r.key.length = 1 + 4 + r.key.length by omega, hr,
      show 9 + r.key.length = 1 + 4 + r.key.length + 4 by omega]
  have hhead : (serializeWalRecord hc r).head? = some (typeCode hc r.type) := by simp [hkey]
  have hdel : ¬ (r.type = .delete ∧ r.value ≠ []) := fun hd => hd.2 (h.delete_empty hd.1)
  simp only [deserializeWalRecord, hhead, recordType_typeCode, hread₁, hread₂, hlen]
  rw [if_neg (by omega), if_neg hdel]

theorem serialize_of_deserialize {hc : HeaderConstants} {payload : Bytes} {r : WalRecord}
    (h : deserializeWalRecord hc payload = some r) :
    payload = serializeWalRecord hc r ∧ Admissible r := by
  rw [deserializeWalRecord] at h
  cases payload with
  | nil => cases h
  | cons raw rest =>
    simp only [List.head?_cons] at h
    cases htype : recordType hc raw with
    | none => simp [htype] at h
    | some type =>
      cases hread₁ : readSized maxKeySize (raw :: rest) 1 with
      | none => simp [htype, hread₁] at h
      | some p =>
        obtain ⟨key, offset⟩ := p
        have hread : readSized maxKeySize ([raw] ++ rest) [raw].length = some (key, offset) := hread₁
        obtain ⟨hkl, hklt, rfl, tail, hrest⟩ := readSized_eq_some hread
        have hbuf : raw :: rest = ([raw] ++ encode 4 key.length ++ key) ++ tail := by simp [hrest]
        have hoff : [raw].length + 4 + key.length = ([raw] ++ encode 4 key.length ++ key).length := by
          simp only [List.length_append, length_encode]
        simp only [htype, hread₁] at h
        rw [hoff] at h
        cases hread₂ : readSized maxValueSize (raw :: rest)
            ([raw] ++ encode 4 key.length ++ key).length with
        | none => simp only [hread₂, reduceCtorEq] at h
        | some p =>
          obtain ⟨value, offset⟩ := p
          simp only [hread₂] at h
          rw [hbuf] at hread₂
          obtain ⟨hvl, hvlt, rfl, tail', rfl⟩ := readSized_eq_some hread₂
          split_ifs at h with hend hdel
          cases h
          have htail : tail' = [] := by
            rw [not_not, hbuf] at hend
            simp only [List.length_append, length_encode] at hend
            exact List.length_eq_zero_iff.mp (by omega)
          refine ⟨?_, hkl, hvl, ?_⟩
          · rw [serializeWalRecord_eq hc ⟨hklt, hvlt⟩, hbuf, htail, typeCode_of_recordType htype]
            simp
          · intro hd
            by_contra hne
            exact hdel ⟨hd, hne⟩

/-- The decoder accepts a payload exactly when it is the encoding of an admissible record. -/
theorem deserializeWalRecord_iff (hc : HeaderConstants) (payload : Bytes) (r : WalRecord) :
    deserializeWalRecord hc payload = some r ↔
      payload = serializeWalRecord hc r ∧ Admissible r := by
  constructor
  · exact serialize_of_deserialize
  · rintro ⟨rfl, h⟩
    exact deserialize_serialize hc h

/-- Decoding and encoding are inverse between the accepted payloads and the records within the
limits, so no two payloads decode to one record. -/
theorem codec_bijective (hc : HeaderConstants) (payload : Bytes) (r : WalRecord) :
    (deserializeWalRecord hc payload = some r ↔
        payload = serializeWalRecord hc r ∧ r.key.length ≤ 16 * 1024 * 1024 ∧
          r.value.length ≤ 16 * 1024 * 1024 ∧ (r.type = .delete → r.value = [])) ∧
      ∀ payload', deserializeWalRecord hc payload = some r →
        deserializeWalRecord hc payload' = some r → payload = payload' := by
  constructor
  · rw [deserializeWalRecord_iff]
    constructor
    · rintro ⟨hpayload, hr⟩
      exact ⟨hpayload, hr.key_le, hr.value_le, hr.delete_empty⟩
    · rintro ⟨hpayload, hkey, hvalue, hdelete⟩
      exact ⟨hpayload, hkey, hvalue, hdelete⟩
  · intro payload' h h'
    rw [(serialize_of_deserialize h).1, (serialize_of_deserialize h').1]

end ForgeDB.WalRecords
