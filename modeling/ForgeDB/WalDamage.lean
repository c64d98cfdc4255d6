import ForgeDB.WalRecovery

/-!
# One damaged byte in a log

A frame with one byte changed is never read as a record. Damage to the payload or the
checksum is a mismatch of the two; damage to the length field frames other bytes, which
no longer decode. Only a length that now runs past the end of the file cannot be told
from a torn tail.
-/

namespace ForgeDB.WalDamage
open CrashPrograms CrashPrograms.Io FeedbackRegisters LittleEndian WalRecords WalRecovery

variable {hc : HeaderConstants} {r : WalRecord}

/-- An undamaged frame is read as its own record or refused. -/
theorem readRecord_intact (hp : 9 + r.key.length + r.value.length ≤ maxRecordSize)
    (rest : Bytes) :
    readRecord hc (Wal.frame hc r ++ rest) = .success r rest ∨
      ∃ error, readRecord hc (Wal.frame hc r ++ rest) = .corrupted error := by
  by_cases hd : r.type = .delete → r.value = []
  · exact Or.inl (readRecord_frame ⟨hp, hd⟩ rest)
  · right
    have hl := length_serializeWalRecord hc r
    have hlt : (serializeWalRecord hc r).length < 256 ^ 4 := by
      rw [maxRecordSize] at hp
      norm_num
      omega
    have hnone : deserializeWalRecord hc (serializeWalRecord hc r) = none := by
      cases hdes : deserializeWalRecord hc (serializeWalRecord hc r) with
      | none => rfl
      | some r' =>
        obtain ⟨hser, hadm⟩ := serialize_of_deserialize hdes
        have henc : Encodable r := by
          rw [maxRecordSize] at hp
          exact ⟨by omega, by omega⟩
        obtain ⟨rfl, -⟩ := serializeWalRecord_append_inj hc henc hadm.encodable
          (congrArg (· ++ ([] : Bytes)) hser)
        exact absurd hadm.delete_empty hd
    rw [frame_eq hp, List.append_assoc, List.append_assoc,
      readRecord_parts (length_encode 4 _) (value_encode_of_lt hlt) (by omega) (by omega)
        (length_encode 4 _), hnone]
    split
    · exact ⟨_, rfl⟩
    · exact ⟨_, rfl⟩

/-- Behind a wrong length field the bytes of a record are framed differently and do not
decode to anything. -/
theorem readRecord_wrong_length (henc : Encodable r) {head rest : Bytes} (hh : head.length = 4)
    (hne : value head ≠ (serializeWalRecord hc r).length) :
    (∃ error, readRecord hc (head ++ (serializeWalRecord hc r ++ rest)) = .corrupted error) ∨
      (readRecord hc (head ++ (serializeWalRecord hc r ++ rest)) = .incomplete ∧
        (serializeWalRecord hc r ++ rest).length < value head + 4) := by
  have h₁ : ¬ (head ++ (serializeWalRecord hc r ++ rest)).length < 4 := by simp [hh]
  simp only [readRecord, if_neg h₁, List.take_left' hh, List.drop_left' hh]
  by_cases hbad : value head = 0 ∨ value head > maxRecordSize
  · exact Or.inl ⟨_, if_pos hbad⟩
  rw [if_neg hbad]
  by_cases hshort : (serializeWalRecord hc r ++ rest).length < value head
  · exact Or.inr ⟨if_pos hshort, by omega⟩
  rw [if_neg hshort]
  by_cases hcut : ((serializeWalRecord hc r ++ rest).drop (value head)).length < 4
  · refine Or.inr ⟨if_pos hcut, ?_⟩
    rw [List.length_drop] at hcut
    omega
  rw [if_neg hcut]
  left
  split
  · exact ⟨_, rfl⟩
  · cases hdes : deserializeWalRecord hc ((serializeWalRecord hc r ++ rest).take (value head)) with
    | none => exact ⟨_, rfl⟩
    | some r' =>
      obtain ⟨hser, hadm⟩ := serialize_of_deserialize hdes
      have hsplit : serializeWalRecord hc r ++ rest = serializeWalRecord hc r' ++
          (serializeWalRecord hc r ++ rest).drop (value head) := by
        rw [← hser, List.take_append_drop]
      obtain ⟨rfl, -⟩ := serializeWalRecord_append_inj hc henc hadm.encodable hsplit
      have hlen := congrArg List.length hser
      rw [List.length_take_of_le (by omega)] at hlen
      exact absurd hlen hne

/-- Behind a right length field any damage is a checksum mismatch. -/
theorem readRecord_wrong_word (hp : 9 + r.key.length + r.value.length ≤ maxRecordSize)
    {start : ℕ} {word : Bytes} (rest : Bytes)
    (hd : DifferWithin start 4 (serializeWalRecord hc r ++
      encode 4 (Crc32.calculateCrc32 (serializeWalRecord hc r)).toNat) word)
    (hne : serializeWalRecord hc r ++
      encode 4 (Crc32.calculateCrc32 (serializeWalRecord hc r)).toNat ≠ word) :
    ∃ error, readRecord hc (encode 4 (serializeWalRecord hc r).length ++ (word ++ rest)) =
      .corrupted error := by
  have hl := length_serializeWalRecord hc r
  have hlt : (serializeWalRecord hc r).length < 256 ^ 4 := by
    rw [maxRecordSize] at hp
    norm_num
    omega
  have hlen : word.length = (serializeWalRecord hc r).length + 4 := by
    rw [← hd.1, List.length_append, length_encode]
  have hword := List.take_append_drop (serializeWalRecord hc r).length word
  have hpay : (word.take (serializeWalRecord hc r).length).length =
      (serializeWalRecord hc r).length := List.length_take_of_le (by omega)
  have hstored : (word.drop (serializeWalRecord hc r).length).length = 4 := by
    rw [List.length_drop]
    omega
  rw [← hword] at hd hne
  have hmis := Crc32.stored_checksum_burst hstored hd hne
  rw [← hword, List.append_assoc, readRecord_parts (length_encode 4 _)
    ((value_encode_of_lt hlt).trans hpay.symm) (by omega) (by omega) hstored, if_pos hmis]
  exact ⟨_, rfl⟩

/-- One changed byte of a frame: damage is reported, or the length field now asks for
more bytes than the file has. -/
theorem readRecord_damaged (hp : 9 + r.key.length + r.value.length ≤ maxRecordSize)
    {i : ℕ} (hi : i < (Wal.frame hc r).length) {b : Byte} (hb : (Wal.frame hc r)[i] ≠ b)
    (rest : Bytes) :
    (∃ error, readRecord hc ((Wal.frame hc r).set i b ++ rest) = .corrupted error) ∨
      (readRecord hc ((Wal.frame hc r).set i b ++ rest) = .incomplete ∧ i < 4 ∧
        ((Wal.frame hc r).set i b ++ rest).length <
          4 + value (((Wal.frame hc r).set i b).take 4) + 4) := by
  have hl := length_serializeWalRecord hc r
  have henc : Encodable r := by
    rw [maxRecordSize] at hp
    exact ⟨by omega, by omega⟩
  have hchanged : Wal.frame hc r ≠ (Wal.frame hc r).set i b := by
    intro he
    have hget := congrArg (fun s : Bytes => s[i]?) he
    simp only [List.getElem?_set_self hi, List.getElem?_eq_getElem hi, Option.some.injEq] at hget
    exact hb hget
  rw [frame_eq hp] at hchanged ⊢
  rw [List.set_append, length_encode] at hchanged ⊢
  split at hchanged
  case isTrue h4 =>
    rw [if_pos h4]
    have hhead : ((encode 4 (serializeWalRecord hc r).length).set i b).length = 4 := by simp
    have hne : value ((encode 4 (serializeWalRecord hc r).length).set i b) ≠
        (serializeWalRecord hc r).length := by
      intro hv
      apply hchanged
      have hback := encode_value ((encode 4 (serializeWalRecord hc r).length).set i b)
      rw [hhead, hv] at hback
      rw [← hback]
    rw [List.append_assoc, List.append_assoc]
    rcases readRecord_wrong_length henc hhead hne with herr | ⟨hinc, hshort⟩
    · exact Or.inl herr
    · refine Or.inr ⟨hinc, h4, ?_⟩
      rw [List.take_left' hhead, List.length_append, hhead]
      omega
  case isFalse h4 =>
    rw [if_neg h4, List.append_assoc]
    left
    refine readRecord_wrong_word hp rest ((differWithin_set _ (i - 4) b).mono (by omega)) ?_
    intro he
    exact hchanged (by rw [← he])

theorem recoverFrom_damaged (rs : List WalRecord)
    (hrs : ∀ r ∈ rs, 9 + r.key.length + r.value.length ≤ maxRecordSize) (data : Entries)
    {i : ℕ} (hi : i < (frames hc rs).length) {b : Byte} (hb : (frames hc rs)[i] ≠ b) :
    (recoverFrom hc data ((frames hc rs).set i b)).1.status = .corrupted ∨
      ∃ before r after, rs = before ++ r :: after ∧ (frames hc before).length ≤ i ∧
        i < (frames hc before).length + 4 ∧
        (frames hc rs).length < (frames hc before).length + 4 +
          value ((((frames hc rs).set i b).drop (frames hc before).length).take 4) + 4 ∧
        (recoverFrom hc data ((frames hc rs).set i b)).1.status = .recoveredIncompleteTail ∧
        (recoverFrom hc data ((frames hc rs).set i b)).2 = replay data before := by
  induction rs generalizing data i with
  | nil => simp at hi
  | cons r rs ih =>
    have hp := hrs r List.mem_cons_self
    simp only [frames_cons] at hb hi ⊢
    rw [recoverFrom_eq, List.set_append]
    by_cases hin : i < (Wal.frame hc r).length
    · rw [if_pos hin]
      rw [List.getElem_append_left hin] at hb
      rcases readRecord_damaged hp hin hb (frames hc rs) with ⟨error, hr⟩ | ⟨hr, h4, hshort⟩
      · rw [hr]
        exact Or.inl rfl
      · rw [hr]
        refine Or.inr ⟨[], r, rs, rfl, by simp, by simpa using h4, ?_, rfl, rfl⟩
        have hlen := length_frame hc r
        rw [List.length_append, List.length_set] at hshort
        simp only [frames_nil, List.length_nil, List.drop_zero, List.length_append]
        rw [List.take_append_of_le_length (by simp; omega)]
        omega
    · rw [if_neg hin]
      rw [List.getElem_append_right (by omega)] at hb
      rcases readRecord_intact hp ((frames hc rs).set (i - (Wal.frame hc r).length) b)
        with hr | ⟨error, hr⟩
      · rw [hr]
        rw [List.length_append] at hi
        rcases ih (fun r hr => hrs r (List.mem_cons_of_mem _ hr)) (applyRecord data r)
          (by omega) hb with hcor | ⟨before, r', after, rfl, hle, hlt, hshort, hstatus, hdata⟩
        · exact Or.inl hcor
        · refine Or.inr ⟨r :: before, r', after, rfl, ?_, ?_, ?_, hstatus, hdata⟩
          · simp only [frames_cons, List.length_append]
            omega
          · simp only [frames_cons, List.length_append]
            omega
          · simp only [frames_cons, List.length_append] at hshort ⊢
            rw [← List.drop_drop, List.drop_left]
            omega
      · rw [hr]
        exact Or.inl rfl

/-- One changed byte anywhere in a log of complete records is reported as corruption, or
it sits in a length field that now asks for more bytes than the file has: then recovery
reports an incomplete tail and yields the records before the damaged one. -/
theorem recover_after_damage (hc : HeaderConstants) (filename : Bytes) (rs : List WalRecord)
    (hrs : ∀ r ∈ rs, 9 + r.key.length + r.value.length ≤ maxRecordSize)
    (i : ℕ) (hi : i < (frames hc rs).length) (b : Byte) (hb : (frames hc rs)[i] ≠ b) (d : Disk)
    (hd : d.lookup filename = some (.regular ((frames hc rs).set i b))) :
    ∃ result data, Succeeds (recoverWal hc filename) d (result, data) d ∧
      (result.status = .corrupted ∨
        ∃ before r after, rs = before ++ r :: after ∧ (frames hc before).length ≤ i ∧
          i < (frames hc before).length + 4 ∧
          (frames hc rs).length < (frames hc before).length + 4 +
            value ((((frames hc rs).set i b).drop (frames hc before).length).take 4) + 4 ∧
          result.status = .recoveredIncompleteTail ∧ data = replay ∅ before) :=
  ⟨(recoverFrom hc ∅ ((frames hc rs).set i b)).1, (recoverFrom hc ∅ ((frames hc rs).set i b)).2,
    recoverWal_succeeds hd, recoverFrom_damaged rs hrs ∅ hi hb⟩

/-- The log of `PUT a b` with 12 in place of 11 as its first byte. -/
def longerLength : Bytes := (frames .least [⟨.put, text "a", text "b"⟩]).set 0 12

theorem recover_after_damage_longer :
    ∃ result data, Succeeds (recoverWal .least (text "active.log"))
        (Disk.put (text "active.log") longerLength ∅) (result, data)
        (Disk.put (text "active.log") longerLength ∅) ∧
      (result.status = .corrupted ∨
        ∃ before r after, [⟨.put, text "a", text "b"⟩] = before ++ r :: after ∧
          (frames .least before).length ≤ 0 ∧ 0 < (frames .least before).length + 4 ∧
          (frames .least [⟨.put, text "a", text "b"⟩]).length < (frames .least before).length + 4 +
            value ((longerLength.drop (frames .least before).length).take 4) + 4 ∧
          result.status = .recoveredIncompleteTail ∧ data = replay ∅ before) :=
  recover_after_damage .least (text "active.log") [⟨.put, text "a", text "b"⟩] (by decide) 0
    (by decide) 12 (by decide) _ Disk.lookup_put

/-- One changed byte, no corruption reported, and the record is gone. -/
theorem recover_longer_length :
    ∃ result data, Succeeds (recoverWal .least (text "active.log"))
        (Disk.put (text "active.log") longerLength ∅) (result, data)
        (Disk.put (text "active.log") longerLength ∅) ∧
      ¬ (result.status = .corrupted ∨ ∀ key, data.lookup key =
        (recoverFrom .least ∅ (frames .least [⟨.put, text "a", text "b"⟩])).2.lookup key) := by
  refine ⟨⟨.recoveredIncompleteTail, text "Recovered WAL with incomplete final record"⟩, ∅, rfl, ?_⟩
  rintro (hcor | hsame)
  · cases hcor
  · cases hsame (text "a")

end ForgeDB.WalDamage
