import ForgeDB.ByteStrings
import Mathlib.Data.Nat.Bitwise

/-!
# Fixed-width numbers in a buffer

The append and read loops of the serialization module, for any width. Reading works
on a whole buffer and an offset, and refuses when fewer than `w` bytes are left.
-/

namespace ForgeDB.Serialization
open LittleEndian

def appendWord (w : ℕ) (buffer : Bytes) (n : ℕ) : Bytes :=
  (List.range w).foldl (fun buf i => buf ++ [Fin.ofNat 256 ((n >>> (i * 8)) &&& 0xFF)]) buffer

/-- The number at `offset` and the offset behind it. -/
def readWord (w : ℕ) (buffer : Bytes) (offset : ℕ) : Option (ℕ × ℕ) :=
  if offset + w > buffer.length then none
  else some ((List.range w).foldl (fun v i => v ||| (buffer.getD (offset + i) 0).val <<< (i * 8)) 0,
    offset + w)

def appendUint32 : Bytes → ℕ → Bytes := appendWord 4
def appendUint64 : Bytes → ℕ → Bytes := appendWord 8
def readUint32 : Bytes → ℕ → Option (ℕ × ℕ) := readWord 4
def readUint64 : Bytes → ℕ → Option (ℕ × ℕ) := readWord 8

/-- A string behind its own 32-bit length: the length is read, checked against `limit`
and against the bytes left, and the string is cut out. -/
def readSized (limit : ℕ) (buffer : Bytes) (offset : ℕ) : Option (Bytes × ℕ) :=
  match readUint32 buffer offset with
  | none => none
  | some (size, offset) =>
    if size > limit ∨ size > sizeSub buffer.length offset then none
    else some ((buffer.drop offset).take size, offset + size)

private theorem ofNat_and_mask (n : ℕ) : Fin.ofNat 256 (n &&& 0xFF) = Fin.ofNat 256 n := by
  apply Fin.ext
  have h : n &&& 0xFF = n % 2 ^ 8 := Nat.and_two_pow_sub_one_eq_mod n 8
  simp only [Fin.ofNat, h]
  omega

private theorem encode_eq_map (w n : ℕ) :
    encode w n = (List.range w).map (fun i => Fin.ofNat 256 ((n >>> (i * 8)) &&& 0xFF)) := by
  induction w generalizing n with
  | zero => rfl
  | succ w ih =>
    have hshift : ∀ i, n >>> ((i + 1) * 8) = (n / 256) >>> (i * 8) := by
      intro i
      rw [Nat.shiftRight_eq_div_pow, Nat.shiftRight_eq_div_pow, Nat.div_div_eq_div_mul,
        Nat.add_mul, pow_add, Nat.mul_comm (2 ^ (i * 8))]
      rfl
    rw [encode, ih, List.range_succ_eq_map, List.map_cons, List.map_map]
    simp only [ofNat_and_mask]
    congr 1
    apply List.map_congr_left
    intro i _
    simp only [Function.comp_apply, Nat.succ_eq_add_one, hshift]

theorem appendWord_eq (w : ℕ) (buffer : Bytes) (n : ℕ) :
    appendWord w buffer n = buffer ++ encode w n := by
  rw [appendWord, encode_eq_map]
  generalize List.range w = is
  induction is generalizing buffer with
  | nil => simp
  | cons i is ih =>
    rw [List.foldl_cons, ih, List.map_cons, List.append_assoc, List.singleton_append]

private theorem value_append_singleton (bs : Bytes) (b : Byte) :
    value (bs ++ [b]) = value bs + 256 ^ bs.length * b.val := by
  induction bs with
  | nil => simp [value]
  | cons a bs ih =>
    rw [List.cons_append, value, ih, value, List.length_cons, pow_succ']
    ring

private theorem foldl_or_shift (f : ℕ → Byte) (w : ℕ) :
    (List.range w).foldl (fun v i => v ||| (f i).val <<< (i * 8)) 0 = value ((List.range w).map f) := by
  induction w with
  | zero => rfl
  | succ w ih =>
    have hpow : (256 : ℕ) ^ w = 2 ^ (w * 8) := by
      rw [Nat.mul_comm, pow_mul]
      norm_num
    have hlt : value ((List.range w).map f) < 2 ^ (w * 8) := by
      simpa [hpow] using value_lt ((List.range w).map f)
    rw [List.range_succ, List.foldl_append, ih, List.map_append, List.map_singleton,
      value_append_singleton, List.foldl_cons, List.foldl_nil, Nat.or_comm,
      ← Nat.shiftLeft_add_eq_or_of_lt hlt, Nat.shiftLeft_eq]
    simp only [List.length_map, List.length_range, hpow]
    ring

theorem readWord_within {w n offset next : ℕ} {buffer : Bytes}
    (h : readWord w buffer offset = some (n, next)) :
    next = offset + w ∧ offset + w ≤ buffer.length := by
  rw [readWord] at h
  split at h
  · cases h
  · obtain ⟨-, rfl⟩ := Prod.mk.inj (Option.some.inj h)
    exact ⟨rfl, by omega⟩

/-- Reading at the end of `pre` looks only at what follows it. -/
theorem readWord_append (w : ℕ) (pre rest : Bytes) :
    readWord w (pre ++ rest) pre.length =
      if w ≤ rest.length then some (value (rest.take w), pre.length + w) else none := by
  rw [readWord, foldl_or_shift]
  by_cases h : w ≤ rest.length
  · have hbytes : (List.range w).map (fun i => (pre ++ rest).getD (pre.length + i) 0) = rest.take w := by
      apply List.ext_getElem
      · simp [h]
      · intro i hi _
        have hiw : i < w := by simpa using hi
        have hir : i < rest.length := hiw.trans_le h
        simp [List.getElem?_append_right, hir]
    rw [if_neg (by simp [h]), if_pos h, hbytes]
  · rw [if_pos (by simp only [List.length_append]; omega), if_neg h]

theorem readWord_encode (w n : ℕ) (hn : n < 256 ^ w) (pre rest : Bytes) :
    readWord w (pre ++ (encode w n ++ rest)) pre.length = some (n, pre.length + w) := by
  rw [readWord_append, if_pos (by simp), List.take_left' (length_encode w n), value_encode_of_lt hn]

/-- A successful read splits off exactly the encoding of what it returns. -/
theorem readWord_eq_some {w : ℕ} {pre rest : Bytes} {n offset : ℕ}
    (h : readWord w (pre ++ rest) pre.length = some (n, offset)) :
    offset = pre.length + w ∧ n < 256 ^ w ∧ rest = encode w n ++ rest.drop w := by
  rw [readWord_append] at h
  split at h
  · rename_i hw
    obtain ⟨rfl, rfl⟩ := Prod.mk.inj (Option.some.inj h)
    have hl : (rest.take w).length = w := by simp [hw]
    have hlt := value_lt (rest.take w)
    have he := encode_value (rest.take w)
    rw [hl] at hlt he
    refine ⟨rfl, hlt, ?_⟩
    rw [he, List.take_append_drop]
  · cases h

theorem readSized_encode {limit : ℕ} (pre s rest : Bytes) (hs : s.length ≤ limit)
    (hlt : s.length < 2 ^ 32) :
    readSized limit (pre ++ (encode 4 s.length ++ (s ++ rest))) pre.length =
      some (s, pre.length + 4 + s.length) := by
  have hread : readUint32 (pre ++ (encode 4 s.length ++ (s ++ rest))) pre.length =
      some (s.length, pre.length + 4) := readWord_encode 4 s.length (by simpa using hlt) pre _
  have hdrop : (pre ++ (encode 4 s.length ++ (s ++ rest))).drop (pre.length + 4) = s ++ rest := by
    rw [← List.append_assoc, List.drop_left' (by simp)]
  have hleft : pre.length + 4 ≤ (pre ++ (encode 4 s.length ++ (s ++ rest))).length := by
    simp only [List.length_append, length_encode]
    omega
  simp only [readSized, hread, hdrop, List.take_left, sizeSub_of_le hleft]
  rw [if_neg]
  simp only [List.length_append, length_encode]
  omega

theorem readSized_eq_some {limit : ℕ} {pre rest s : Bytes} {offset : ℕ}
    (h : readSized limit (pre ++ rest) pre.length = some (s, offset)) :
    s.length ≤ limit ∧ s.length < 2 ^ 32 ∧ offset = pre.length + 4 + s.length ∧
      ∃ tail, rest = encode 4 s.length ++ (s ++ tail) := by
  rw [readSized] at h
  cases hread : readUint32 (pre ++ rest) pre.length with
  | none => simp [hread] at h
  | some p =>
    obtain ⟨size, next⟩ := p
    obtain ⟨rfl, hlt, hrest⟩ := readWord_eq_some hread
    have hlen : (pre ++ rest).length = pre.length + 4 + (rest.drop 4).length := by
      rw [hrest]
      simp only [List.length_append, length_encode, List.length_drop]
      omega
    have hdrop : (pre ++ rest).drop (pre.length + 4) = rest.drop 4 := by
      rw [hrest, ← List.append_assoc, List.drop_left' (by simp), List.drop_left' (by simp)]
    simp only [hread, hdrop, sizeSub_of_le (show pre.length + 4 ≤ (pre ++ rest).length by omega)] at h
    split at h
    · cases h
    · rename_i hfit
      obtain ⟨rfl, rfl⟩ := Prod.mk.inj (Option.some.inj h)
      have hsize : ((rest.drop 4).take size).length = size := by
        rw [List.length_take]
        omega
      rw [hsize]
      refine ⟨by omega, by simpa using hlt, rfl, (rest.drop 4).drop size, ?_⟩
      rw [List.take_append_drop, ← hrest]

theorem encode_injective {w m n : ℕ} (hm : m < 256 ^ w) (hn : n < 256 ^ w)
    (h : encode w m = encode w n) : m = n := by
  rw [← value_encode_of_lt hm, h, value_encode_of_lt hn]

/-- Fixed-width numbers are told apart whatever follows them. -/
theorem encode_append_inj {w m n : ℕ} (hm : m < 256 ^ w) (hn : n < 256 ^ w) {xs ys : Bytes}
    (h : encode w m ++ xs = encode w n ++ ys) : m = n ∧ xs = ys := by
  obtain ⟨he, hr⟩ := List.append_inj h (by simp)
  exact ⟨encode_injective hm hn he, hr⟩

end ForgeDB.Serialization
