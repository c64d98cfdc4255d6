import ForgeDB.FeedbackRegisters
import Mathlib.Data.List.GetD

/-!
# The table-driven checksum

The checksum loop reads one table entry a byte. Its step is the feedback register's
byte step, so the burst detection of the register carries over, to the payload alone
and to the payload followed by its own checksum.
-/

namespace ForgeDB.Crc32
open FeedbackRegisters

def polynomial : BitVec 32 := 0xEDB88320#32

def tableEntry (i : ℕ) : BitVec 32 :=
  (List.range 8).foldl
    (fun crc _ => if crc &&& 1#32 ≠ 0#32 then (crc >>> 1) ^^^ polynomial else crc >>> 1)
    (BitVec.ofNat 32 i)

def table : List (BitVec 32) := (List.range 256).map tableEntry

/-- One turn of the byte loop. -/
def updateByte (crc : BitVec 32) (b : Byte) : BitVec 32 :=
  let index := (crc ^^^ BitVec.ofNat 32 b.val) &&& 0xFF#32
  (crc >>> 8) ^^^ table.getD index.toNat 0#32

def calculateCrc32 (data : Bytes) : BitVec 32 :=
  data.foldl updateByte 0xFFFFFFFF#32 ^^^ 0xFFFFFFFF#32

private theorem and_one_ne_zero_iff (s : BitVec 32) : s &&& 1#32 ≠ 0#32 ↔ s.getLsbD 0 = true := by
  rw [BitVec.and_one_eq_setWidth_ofBool_getLsbD]
  cases s.getLsbD 0 <;> decide

theorem tableEntry_eq (i : ℕ) : tableEntry i = (step polynomial)^[8] (BitVec.ofNat 32 i) := by
  have hstep : (fun (crc : BitVec 32) (_ : ℕ) =>
      if crc &&& 1#32 ≠ 0#32 then (crc >>> 1) ^^^ polynomial else crc >>> 1) =
        fun crc _ => step polynomial crc := by
    funext crc _
    simp only [and_one_ne_zero_iff, step]
  rw [tableEntry, hstep]
  rfl

private theorem index_lt (x : BitVec 32) : (x &&& 0xFF#32).toNat < 256 := by
  rw [BitVec.toNat_and]
  exact Nat.lt_of_le_of_lt Nat.and_le_right (by decide)

private theorem table_getD (x : BitVec 32) :
    table.getD (x &&& 0xFF#32).toNat 0#32 = (step polynomial)^[8] (x &&& 0xFF#32) := by
  have h := index_lt x
  rw [table, List.getD_eq_getElem _ _ (by simpa using h), List.getElem_map, List.getElem_range,
    tableEntry_eq, BitVec.ofNat_toNat, BitVec.setWidth_eq]

private theorem mask_getLsbD (i : ℕ) : (0xFF#32).getLsbD i = decide (i < 8) := by
  rw [BitVec.getLsbD_ofNat, show (0xFF : ℕ) = 2 ^ 8 - 1 from rfl, Nat.testBit_two_pow_sub_one]
  by_cases h : i < 8
  · simp [h, show i < 32 by omega]
  · simp [h]

private theorem split_low_byte (x : BitVec 32) :
    x = (x &&& 0xFF#32) ^^^ (x &&& ~~~0xFF#32) := by
  apply BitVec.eq_of_getLsbD_eq
  intro i hi
  simp only [BitVec.getLsbD_xor, BitVec.getLsbD_and, BitVec.getLsbD_not, mask_getLsbD, hi,
    decide_true, Bool.true_and]
  cases x.getLsbD i <;> cases decide (i < 8) <;> rfl

private theorem high_bytes_shift (x : BitVec 32) : (x &&& ~~~0xFF#32) >>> 8 = x >>> 8 := by
  apply BitVec.eq_of_getLsbD_eq
  intro i _
  simp only [BitVec.getLsbD_ushiftRight, BitVec.getLsbD_and, BitVec.getLsbD_not, mask_getLsbD]
  by_cases h : 8 + i < 32
  · simp [h]
  · simp [h, BitVec.getLsbD_of_ge x (8 + i) (by omega)]

private theorem byte_shift (b : Byte) : BitVec.ofNat 32 b.val >>> 8 = 0#32 := by
  apply BitVec.eq_of_toNat_eq
  have hb := b.isLt
  rw [BitVec.toNat_ushiftRight, BitVec.toNat_ofNat, Nat.shiftRight_eq_div_pow]
  simp only [BitVec.toNat_ofNat]
  omega

theorem updateByte_eq (crc : BitVec 32) (b : Byte) :
    updateByte crc b = absorb polynomial crc b := by
  have hlow : ∀ i < 8, ((crc ^^^ BitVec.ofNat 32 b.val) &&& ~~~0xFF#32).getLsbD i = false := by
    intro i hi
    simp only [BitVec.getLsbD_and, BitVec.getLsbD_not, mask_getLsbD]
    simp [hi]
  rw [absorb, split_low_byte (crc ^^^ BitVec.ofNat 32 b.val), iterate_step_xor,
    iterate_step_of_low_clear polynomial _ 8 hlow, high_bytes_shift,
    BitVec.ushiftRight_xor_distrib, byte_shift, BitVec.xor_zero, BitVec.xor_comm]
  simp only [updateByte, table_getD]

theorem calculateCrc32_eq (data : Bytes) :
    calculateCrc32 data = feed polynomial 0xFFFFFFFF#32 data ^^^ 0xFFFFFFFF#32 := by
  have h : updateByte = absorb polynomial := by
    funext crc b
    exact updateByte_eq crc b
  rw [calculateCrc32, h, feed]

/-- One message bit of the reflected CRC: the register is shifted, and the polynomial is added
when the bit that falls out and the message bit differ. -/
def bitStep (crc : BitVec 32) (bit : Bool) : BitVec 32 :=
  if crc.getLsbD 0 ^^ bit then (crc >>> 1) ^^^ 0xEDB88320#32 else crc >>> 1

/-- CRC-32 over the bits of the message, the lowest bit of each byte first. -/
def bitwiseCrc32 (data : Bytes) : BitVec 32 :=
  (data.flatMap (fun b => (List.range 8).map b.val.testBit)).foldl bitStep 0xFFFFFFFF#32 ^^^
    0xFFFFFFFF#32

/-- The table-driven loop computes it. -/
theorem calculateCrc32_bitwise (data : Bytes) : calculateCrc32 data = bitwiseCrc32 data := by
  have hstep : bitStep = shiftIn polynomial := rfl
  rw [calculateCrc32_eq, feed_eq_foldl (by decide), bitwiseCrc32, hstep]
  rfl

example : bitwiseCrc32 (text "123456789") = 0xCBF43926#32 := by decide +kernel

/-- The register after a message and four more bytes that hold its checksum. -/
def residue : BitVec 32 := (step polynomial)^[32] 0xFFFFFFFF#32

/-- A stored checksum matches exactly when payload and checksum together, as one code
word, leave the residue. -/
theorem calculateCrc32_eq_iff (payload stored : Bytes) (hl : stored.length = 4) :
    LittleEndian.value stored = (calculateCrc32 payload).toNat ↔
      feed polynomial 0xFFFFFFFF#32 (payload ++ stored) = residue := by
  have hlt : LittleEndian.value stored < 2 ^ 32 := by
    simpa [hl] using LittleEndian.value_lt stored
  have hword : LittleEndian.value stored = (calculateCrc32 payload).toNat ↔
      BitVec.ofNat 32 (LittleEndian.value stored) = calculateCrc32 payload := by
    constructor
    · intro h
      rw [h, BitVec.ofNat_toNat, BitVec.setWidth_eq]
    · intro h
      rw [← h, BitVec.toNat_ofNat, Nat.mod_eq_of_lt hlt]
  rw [hword, feed_append, feed_eq_iterate _ _ stored (by omega), hl, residue,
    ((step_injective (by decide : polynomial.msb = true)).iterate _).eq_iff, calculateCrc32_eq]
  generalize feed polynomial 0xFFFFFFFF#32 payload = crc
  constructor
  · intro h
    rw [h, ← BitVec.xor_assoc, BitVec.xor_self, BitVec.zero_xor]
  · intro h
    rw [← h, ← BitVec.xor_assoc, BitVec.xor_self, BitVec.zero_xor]

/-- Damage inside four consecutive bytes of a code word is always seen. -/
theorem codeword_burst {start : ℕ} {word word' : Bytes} (hd : DifferWithin start 4 word word')
    (h : feed polynomial 0xFFFFFFFF#32 word = residue)
    (h' : feed polynomial 0xFFFFFFFF#32 word' = residue) : word = word' :=
  feed_burst (by decide) _ (by norm_num) hd (h.trans h'.symm)

theorem toNat_calculateCrc32_lt (payload : Bytes) : (calculateCrc32 payload).toNat < 256 ^ 4 := by
  have h := (calculateCrc32 payload).isLt
  norm_num at h ⊢
  exact h

/-- A payload stored with its checksum, damaged inside four consecutive bytes of the two,
does not match any more. -/
theorem stored_checksum_burst {start : ℕ} {payload payload' stored' : Bytes}
    (hl : stored'.length = 4)
    (hd : DifferWithin start 4
      (payload ++ LittleEndian.encode 4 (calculateCrc32 payload).toNat) (payload' ++ stored'))
    (hne : payload ++ LittleEndian.encode 4 (calculateCrc32 payload).toNat ≠ payload' ++ stored') :
    LittleEndian.value stored' ≠ (calculateCrc32 payload').toNat := by
  intro hmatch
  have hword := (calculateCrc32_eq_iff payload _ (LittleEndian.length_encode 4 _)).mp
    (LittleEndian.value_encode_of_lt (toNat_calculateCrc32_lt payload))
  exact hne (codeword_burst hd hword ((calculateCrc32_eq_iff payload' stored' hl).mp hmatch))

/-- Damage inside four consecutive bytes of a message changes its checksum. -/
theorem calculateCrc32_burst {start : ℕ} {data data' : Bytes}
    (hd : DifferWithin start 4 data data') (h : calculateCrc32 data = calculateCrc32 data') :
    data = data' := by
  rw [calculateCrc32_eq, calculateCrc32_eq, BitVec.xor_left_inj] at h
  exact feed_burst (by decide) _ (by norm_num) hd h

end ForgeDB.Crc32
