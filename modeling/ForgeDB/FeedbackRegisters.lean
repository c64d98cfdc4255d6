import ForgeDB.ByteStrings
import Mathlib.Logic.Function.Iterate

/-!
# Linear feedback shift registers on bytes

The register is shifted towards its low end and the taps are added whenever a one
falls out. The step is linear in exclusive or, and injective when the top tap is set.
Feeding as many bytes as the register holds is the same as adding them as one
little-endian word and then only shifting, so two messages that differ inside one
window of that size leave different registers, however long the messages are.
-/

namespace ForgeDB.FeedbackRegisters

variable {n : ℕ}

/-- One shift, adding the taps when the bit that falls out is set. -/
def step (taps s : BitVec n) : BitVec n :=
  if s.getLsbD 0 then (s >>> 1) ^^^ taps else s >>> 1

/-- A byte is added at the low end and shifted through. -/
def absorb (taps s : BitVec n) (b : Byte) : BitVec n :=
  (step taps)^[8] (s ^^^ BitVec.ofNat n b.val)

def feed (taps s : BitVec n) (bs : Bytes) : BitVec n := bs.foldl (absorb taps) s

@[simp] theorem feed_nil (taps s : BitVec n) : feed taps s [] = s := rfl

theorem feed_append (taps s : BitVec n) (xs ys : Bytes) :
    feed taps s (xs ++ ys) = feed taps (feed taps s xs) ys := List.foldl_append

theorem step_xor (taps a b : BitVec n) :
    step taps (a ^^^ b) = step taps a ^^^ step taps b := by
  have hcancel : ∀ x y : BitVec n, x ^^^ taps ^^^ (y ^^^ taps) = x ^^^ y := by
    intro x y
    rw [BitVec.xor_comm y taps, ← BitVec.xor_assoc, BitVec.xor_assoc x taps taps,
      BitVec.xor_self, BitVec.xor_zero]
  unfold step
  simp only [BitVec.getLsbD_xor, BitVec.ushiftRight_xor_distrib]
  cases a.getLsbD 0 <;> cases b.getLsbD 0
  · simp
  · simp [BitVec.xor_assoc]
  · simp only [Bool.xor_false, if_true, Bool.false_eq_true, if_false]
    rw [BitVec.xor_assoc, BitVec.xor_comm (b >>> 1) taps, ← BitVec.xor_assoc]
  · simp [hcancel]

theorem iterate_step_xor (taps a b : BitVec n) (k : ℕ) :
    (step taps)^[k] (a ^^^ b) = (step taps)^[k] a ^^^ (step taps)^[k] b := by
  induction k generalizing a b with
  | zero => rfl
  | succ k ih => simp only [Function.iterate_succ_apply, step_xor, ih]

theorem step_eq_zero {taps s : BitVec n} (ht : taps.msb = true) (h : step taps s = 0#n) :
    s = 0#n := by
  cases hlow : s.getLsbD 0 with
  | true =>
    -- the tapped top bit cannot come from the shift, whose top bit is clear
    have hmsb : (step taps s).msb = true := by
      rw [step, hlow, if_pos rfl, BitVec.msb_xor, ht, BitVec.msb_ushiftRight]
      simp
    rw [h] at hmsb
    simp at hmsb
  | false =>
    rw [step, hlow, if_neg (by simp)] at h
    apply BitVec.eq_of_getLsbD_eq
    intro i _
    cases i with
    | zero => simpa using hlow
    | succ i =>
      have hi := congrArg (fun x => x.getLsbD i) h
      simpa [BitVec.getLsbD_ushiftRight, Nat.add_comm] using hi

theorem step_injective {taps : BitVec n} (ht : taps.msb = true) :
    Function.Injective (step taps) := by
  intro a b h
  have hz : step taps (a ^^^ b) = 0#n := by rw [step_xor, h, BitVec.xor_self]
  have hab := step_eq_zero ht hz
  rwa [BitVec.xor_eq_zero_iff] at hab

theorem absorb_injective {taps : BitVec n} (ht : taps.msb = true) (b : Byte) :
    Function.Injective (fun s => absorb taps s b) := by
  intro s t h
  have hx := (step_injective ht).iterate 8 h
  exact (BitVec.xor_left_inj _).mp hx

theorem feed_injective {taps : BitVec n} (ht : taps.msb = true) (bs : Bytes) :
    Function.Injective (fun s => feed taps s bs) := by
  induction bs with
  | nil => exact fun _ _ h => h
  | cons b bs ih => exact fun s t h => absorb_injective ht b (ih h)

theorem iterate_step_of_low_clear (taps s : BitVec n) (k : ℕ)
    (h : ∀ i < k, s.getLsbD i = false) : (step taps)^[k] s = s >>> k := by
  induction k with
  | zero => simp
  | succ k ih =>
    have hk : (s >>> k).getLsbD 0 = false := by simpa using h k (Nat.lt_succ_self k)
    rw [Function.iterate_succ_apply', ih (fun i hi => h i (Nat.lt_succ_of_lt hi)), step, hk,
      if_neg (by simp), BitVec.shiftRight_add]

private theorem iterate_step_high_byte (taps : BitVec n) (v : ℕ) (hv : 256 * v < 2 ^ n) :
    (step taps)^[8] (BitVec.ofNat n (256 * v)) = BitVec.ofNat n v := by
  rw [iterate_step_of_low_clear]
  · apply BitVec.eq_of_toNat_eq
    rw [BitVec.toNat_ushiftRight, BitVec.toNat_ofNat, BitVec.toNat_ofNat, Nat.mod_eq_of_lt hv,
      Nat.mod_eq_of_lt (by omega), Nat.shiftRight_eq_div_pow]
    omega
  · intro i hi
    have hb : (256 * v).testBit i = false := by
      rw [show 256 * v = 2 ^ 8 * v from rfl, Nat.testBit_two_pow_mul]
      simp [show ¬ 8 ≤ i by omega]
    simp [BitVec.getLsbD_ofNat, hb]

private theorem ofNat_low_xor_high (b : Byte) (v : ℕ) :
    BitVec.ofNat n b.val ^^^ BitVec.ofNat n (256 * v) = BitVec.ofNat n (b.val + 256 * v) := by
  apply BitVec.eq_of_getLsbD_eq
  intro i hi
  have hsum : (b.val + 256 * v).testBit i = if i < 8 then b.val.testBit i else v.testBit (i - 8) := by
    rw [Nat.add_comm, show 256 * v = 2 ^ 8 * v from rfl]
    exact Nat.testBit_two_pow_mul_add v b.isLt i
  have hlow : ¬ i < 8 → b.val.testBit i = false := by
    intro h
    apply Nat.testBit_lt_two_pow
    exact Nat.lt_of_lt_of_le b.isLt (Nat.pow_le_pow_right (by norm_num : 0 < 2) (by omega : 8 ≤ i))
  simp only [BitVec.getLsbD_xor, BitVec.getLsbD_ofNat, hi, decide_true, Bool.true_and, hsum]
  rw [show 256 * v = 2 ^ 8 * v from rfl, Nat.testBit_two_pow_mul]
  by_cases h8 : i < 8
  · simp [h8, show ¬ 8 ≤ i by omega]
  · simp [h8, hlow h8, show 8 ≤ i by omega]

/-- Bytes that fit the register act as one word followed by plain shifting. -/
theorem feed_eq_iterate (taps s : BitVec n) (bs : Bytes) (h : 8 * bs.length ≤ n) :
    feed taps s bs = (step taps)^[8 * bs.length] (s ^^^ BitVec.ofNat n (LittleEndian.value bs)) := by
  induction bs generalizing s with
  | nil => simp [LittleEndian.value]
  | cons b bs ih =>
    have hlen : 8 * (b :: bs).length = 8 * bs.length + 8 := by simp [Nat.mul_add]
    have hfit : 256 * LittleEndian.value bs < 2 ^ n := by
      calc 256 * LittleEndian.value bs < 256 * 256 ^ bs.length :=
            Nat.mul_lt_mul_of_pos_left (LittleEndian.value_lt bs) (by norm_num)
        _ = 2 ^ (8 * (b :: bs).length) := by
            rw [← pow_succ', show (256 : ℕ) = 2 ^ 8 from rfl, ← pow_mul, List.length_cons]
        _ ≤ 2 ^ n := Nat.pow_le_pow_right (by norm_num) h
    calc feed taps s (b :: bs) = feed taps (absorb taps s b) bs := rfl
      _ = (step taps)^[8 * bs.length]
            (absorb taps s b ^^^ BitVec.ofNat n (LittleEndian.value bs)) := ih _ (by omega)
      _ = (step taps)^[8 * bs.length] ((step taps)^[8] (s ^^^ BitVec.ofNat n b.val ^^^
            BitVec.ofNat n (256 * LittleEndian.value bs))) := by
          rw [iterate_step_xor taps (s ^^^ BitVec.ofNat n b.val), iterate_step_high_byte taps _ hfit]
          rfl
      _ = _ := by
          rw [← Function.iterate_add_apply, BitVec.xor_assoc, ofNat_low_xor_high, hlen,
            LittleEndian.value]

/-- A message bit is added to the bit that falls out. -/
def shiftIn (taps s : BitVec n) (bit : Bool) : BitVec n :=
  if s.getLsbD 0 ^^ bit then (s >>> 1) ^^^ taps else s >>> 1

def lowBits (k v : ℕ) : List Bool := (List.range k).map v.testBit

theorem lowBits_succ (k v : ℕ) : lowBits (k + 1) v = v.testBit 0 :: lowBits k (v / 2) := by
  rw [lowBits, lowBits, List.range_succ_eq_map, List.map_cons, List.map_map]
  congr 1
  apply List.map_congr_left
  intro i _
  exact Nat.testBit_succ v i

private theorem low_bit_bit (hn : 0 < n) (v : ℕ) :
    (BitVec.ofNat n (v % 2)).getLsbD 0 = v.testBit 0 := by
  rw [BitVec.getLsbD_ofNat, Nat.testBit_zero, Nat.testBit_zero, Nat.mod_mod]
  simp [hn]

private theorem low_bit_shift (v : ℕ) : BitVec.ofNat n (v % 2) >>> 1 = 0#n := by
  apply BitVec.eq_of_toNat_eq
  have hle := Nat.mod_le (v % 2) (2 ^ n)
  rw [BitVec.toNat_ushiftRight, BitVec.toNat_ofNat, Nat.shiftRight_eq_div_pow]
  simp only [BitVec.toNat_ofNat, Nat.zero_mod]
  omega

/-- Shifting a bit in is adding it at the low end and shifting. -/
theorem shiftIn_eq (hn : 0 < n) (taps s : BitVec n) (v : ℕ) :
    shiftIn taps s (v.testBit 0) = step taps (s ^^^ BitVec.ofNat n (v % 2)) := by
  rw [shiftIn, step, BitVec.getLsbD_xor, low_bit_bit hn, BitVec.ushiftRight_xor_distrib,
    low_bit_shift, BitVec.xor_zero]

private theorem step_double (taps : BitVec n) (v : ℕ) (hv : 2 * v < 2 ^ n) :
    step taps (BitVec.ofNat n (2 * v)) = BitVec.ofNat n v := by
  have hlow : ∀ i < 1, (BitVec.ofNat n (2 * v)).getLsbD i = false := by
    intro i hi
    obtain rfl : i = 0 := by omega
    simp [BitVec.getLsbD_ofNat, Nat.testBit_zero]
  have hshift := iterate_step_of_low_clear taps _ 1 hlow
  rw [Function.iterate_one] at hshift
  rw [hshift]
  apply BitVec.eq_of_toNat_eq
  rw [BitVec.toNat_ushiftRight, BitVec.toNat_ofNat, BitVec.toNat_ofNat, Nat.mod_eq_of_lt hv,
    Nat.mod_eq_of_lt (by omega), Nat.shiftRight_eq_div_pow]
  omega

private theorem ofNat_bit_xor_rest (v : ℕ) :
    BitVec.ofNat n (v % 2) ^^^ BitVec.ofNat n (2 * (v / 2)) = BitVec.ofNat n v := by
  apply BitVec.eq_of_getLsbD_eq
  intro i hi
  simp only [BitVec.getLsbD_xor, BitVec.getLsbD_ofNat, hi, decide_true, Bool.true_and]
  cases i with
  | zero => simp [Nat.testBit_zero]
  | succ i =>
    have hlow : v % 2 / 2 = 0 := by omega
    rw [Nat.testBit_succ, Nat.testBit_succ, Nat.testBit_succ, hlow, Nat.zero_testBit,
      Nat.mul_div_cancel_left _ (by norm_num), Bool.false_xor]

theorem foldl_shiftIn (taps s : BitVec n) (k v : ℕ) (hk : k ≤ n) (hv : v < 2 ^ k) :
    (lowBits k v).foldl (shiftIn taps) s = (step taps)^[k] (s ^^^ BitVec.ofNat n v) := by
  induction k generalizing s v with
  | zero =>
    obtain rfl : v = 0 := by simpa using hv
    simp [lowBits]
  | succ k ih =>
    have hhalf : v / 2 < 2 ^ k := by
      rw [pow_succ] at hv
      omega
    have hfit : 2 * (v / 2) < 2 ^ n := by
      have hpow : 2 ^ (k + 1) ≤ 2 ^ n := Nat.pow_le_pow_right (by norm_num) hk
      omega
    calc (lowBits (k + 1) v).foldl (shiftIn taps) s
        = (lowBits k (v / 2)).foldl (shiftIn taps) (shiftIn taps s (v.testBit 0)) := by
          rw [lowBits_succ, List.foldl_cons]
      _ = (step taps)^[k] (step taps (s ^^^ BitVec.ofNat n (v % 2)) ^^^ BitVec.ofNat n (v / 2)) := by
          rw [ih _ _ (by omega) hhalf, shiftIn_eq (by omega)]
      _ = (step taps)^[k] (step taps (s ^^^ BitVec.ofNat n v)) := by
          rw [← step_double taps (v / 2) hfit, ← step_xor, BitVec.xor_assoc, ofNat_bit_xor_rest]
      _ = _ := (Function.iterate_succ_apply _ _ _).symm

theorem absorb_eq_foldl (hn : 8 ≤ n) (taps s : BitVec n) (b : Byte) :
    absorb taps s b = (lowBits 8 b.val).foldl (shiftIn taps) s :=
  (foldl_shiftIn taps s 8 b.val hn b.isLt).symm

/-- A whole message shifted in bit by bit, the lowest bit of each byte first. -/
theorem feed_eq_foldl (hn : 8 ≤ n) (taps s : BitVec n) (bs : Bytes) :
    feed taps s bs = (bs.flatMap (fun b => lowBits 8 b.val)).foldl (shiftIn taps) s := by
  induction bs generalizing s with
  | nil => rfl
  | cons b bs ih =>
    rw [List.flatMap_cons, List.foldl_append, ← absorb_eq_foldl hn]
    exact ih _

/-- Inside one register's width, the message is determined by the register it leaves. -/
theorem feed_window_injective {taps : BitVec n} (ht : taps.msb = true) (s : BitVec n)
    {xs ys : Bytes} (hl : xs.length = ys.length) (hn : 8 * xs.length ≤ n)
    (h : feed taps s xs = feed taps s ys) : xs = ys := by
  rw [feed_eq_iterate taps s xs hn, feed_eq_iterate taps s ys (hl ▸ hn), ← hl] at h
  have hx := (BitVec.xor_right_inj _).mp ((step_injective ht).iterate _ h)
  have hpow : (256 : ℕ) ^ xs.length ≤ 2 ^ n := by
    rw [show (256 : ℕ) = 2 ^ 8 from rfl, ← pow_mul]
    exact Nat.pow_le_pow_right (by norm_num) hn
  have hv := congrArg BitVec.toNat hx
  rw [BitVec.toNat_ofNat, BitVec.toNat_ofNat,
    Nat.mod_eq_of_lt ((LittleEndian.value_lt xs).trans_le hpow),
    Nat.mod_eq_of_lt ((LittleEndian.value_lt ys).trans_le (hl ▸ hpow))] at hv
  exact LittleEndian.value_injective hl hv

/-- Two strings agree outside the `width` positions from `start` on. -/
def DifferWithin (start width : ℕ) (xs ys : Bytes) : Prop :=
  xs.length = ys.length ∧ ∀ i, i < start ∨ start + width ≤ i → xs[i]? = ys[i]?

theorem DifferWithin.take_eq {start width : ℕ} {xs ys : Bytes}
    (h : DifferWithin start width xs ys) : xs.take start = ys.take start := by
  apply List.ext_getElem?
  intro i
  by_cases hi : i < start
  · simpa [List.getElem?_take, hi] using h.2 i (Or.inl hi)
  · simp [hi]

theorem DifferWithin.drop_eq {start width : ℕ} {xs ys : Bytes}
    (h : DifferWithin start width xs ys) : xs.drop (start + width) = ys.drop (start + width) := by
  apply List.ext_getElem?
  intro i
  simpa [List.getElem?_drop] using h.2 (start + width + i) (Or.inr (Nat.le_add_right _ _))

theorem DifferWithin.mono {start width width' : ℕ} {xs ys : Bytes}
    (h : DifferWithin start width xs ys) (hw : width ≤ width') : DifferWithin start width' xs ys := by
  refine ⟨h.1, fun i hi => h.2 i ?_⟩
  omega

theorem differWithin_set (xs : Bytes) (i : ℕ) (b : Byte) : DifferWithin i 1 xs (xs.set i b) := by
  refine ⟨by simp, fun j hj => ?_⟩
  rw [List.getElem?_set_ne (by omega)]

/-- A message is its part before the window, the window, and the part after it. -/
theorem split_window (start width : ℕ) (xs : Bytes) :
    xs = xs.take start ++ ((xs.drop start).take width ++ xs.drop (start + width)) := by
  rw [← List.drop_drop, List.take_append_drop, List.take_append_drop]

/-- Burst detection: damage confined to one window always changes the register. -/
theorem feed_burst {taps : BitVec n} (ht : taps.msb = true) (s : BitVec n) {start width : ℕ}
    (hw : 8 * width ≤ n) {xs ys : Bytes} (hd : DifferWithin start width xs ys)
    (h : feed taps s xs = feed taps s ys) : xs = ys := by
  have hmid : ((xs.drop start).take width).length = ((ys.drop start).take width).length := by
    simp [hd.1]
  have hfit : 8 * ((xs.drop start).take width).length ≤ n := by
    have hle : ((xs.drop start).take width).length ≤ width := List.length_take_le _ _
    omega
  rw [split_window start width xs, split_window start width ys, ← hd.take_eq, ← hd.drop_eq,
    feed_append, feed_append, feed_append, feed_append] at h
  have hwin := feed_window_injective ht _ hmid hfit (feed_injective ht _ h)
  rw [split_window start width xs, split_window start width ys, ← hd.take_eq, ← hd.drop_eq, hwin]

end ForgeDB.FeedbackRegisters
