import Mathlib.Data.List.Lex
import Mathlib.Data.Fintype.Card
import Mathlib.Tactic.Ring

/-!
# Byte strings and fixed-width little-endian numbers

A byte is a number below 256, a byte string a list of bytes. The list order of
Mathlib is the byte-wise lexicographic order on unsigned bytes.
-/

namespace ForgeDB

/-- Byte literals are built on this instance. -/
instance instNeZeroByte : NeZero (256 : ℕ) := ⟨by decide⟩

abbrev Byte := Fin 256
abbrev Bytes := List Byte

def text (s : String) : Bytes := s.toList.map (fun c => Fin.ofNat 256 c.toNat)

/-- `a - b` on `std::size_t`; below zero it wraps around. -/
def sizeSub (a b : ℕ) : ℕ := if b ≤ a then a - b else a + 2 ^ 64 - b

theorem sizeSub_of_le {a b : ℕ} (h : b ≤ a) : sizeSub a b = a - b := if_pos h

namespace LittleEndian

/-- The `w` low bytes of a number, least significant first. -/
def encode : ℕ → ℕ → Bytes
  | 0, _ => []
  | w + 1, n => Fin.ofNat 256 n :: encode w (n / 256)

/-- The number whose bytes, least significant first, are the given ones. -/
def value : Bytes → ℕ
  | [] => 0
  | b :: bs => b.val + 256 * value bs

@[simp] theorem length_encode (w n : ℕ) : (encode w n).length = w := by
  induction w generalizing n with
  | zero => rfl
  | succ w ih => simp [encode, ih]

theorem value_encode (w n : ℕ) : value (encode w n) = n % 256 ^ w := by
  induction w generalizing n with
  | zero => simp [encode, value, Nat.mod_one]
  | succ w ih =>
    have hsplit : n % (256 * 256 ^ w) = n % 256 + 256 * (n / 256 % 256 ^ w) := Nat.mod_mul
    rw [encode, value, ih, pow_succ', hsplit]
    rfl

theorem value_encode_of_lt {w n : ℕ} (h : n < 256 ^ w) : value (encode w n) = n := by
  rw [value_encode, Nat.mod_eq_of_lt h]

theorem value_lt (bs : Bytes) : value bs < 256 ^ bs.length := by
  induction bs with
  | nil => simp [value]
  | cons b bs ih =>
    have hb := b.isLt
    rw [value, List.length_cons, pow_succ']
    omega

theorem encode_value (bs : Bytes) : encode bs.length (value bs) = bs := by
  induction bs with
  | nil => rfl
  | cons b bs ih =>
    have hb := b.isLt
    have hhead : Fin.ofNat 256 (b.val + 256 * value bs) = b := by
      apply Fin.ext
      simp only [Fin.ofNat]
      omega
    have htail : (b.val + 256 * value bs) / 256 = value bs := by omega
    rw [List.length_cons, encode, value, hhead, htail, ih]

theorem value_injective {xs ys : Bytes} (hl : xs.length = ys.length)
    (h : value xs = value ys) : xs = ys := by
  rw [← encode_value xs, ← encode_value ys, hl, h]

end LittleEndian
end ForgeDB
