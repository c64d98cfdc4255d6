import ForgeDB.ByteStrings
import Mathlib.Data.List.TakeWhile

/-!
# Formatted text input and output in the C locale

An input stream is the list of bytes not read yet. Extraction skips blanks first, a
word ends before the next blank, and a number takes an optional sign and the longest
run of digits, leaving whatever follows in the stream.
-/

namespace ForgeDB.TextStreams

def isSpace (b : Byte) : Bool := b.val == 32 || (9 ≤ b.val && b.val ≤ 13)

def isDigit (b : Byte) : Bool := 48 ≤ b.val && b.val ≤ 57

def newline : Byte := 10

def blank : Byte := 32

def skipSpaces (s : Bytes) : Bytes := s.dropWhile isSpace

/-- `stream >> word` -/
def extractWord (s : Bytes) : Option (Bytes × Bytes) :=
  let s := skipSpaces s
  let word := s.takeWhile (fun b => !isSpace b)
  if word = [] then none else some (word, s.dropWhile (fun b => !isSpace b))

def digitsValue (ds : Bytes) : ℕ := ds.foldl (fun n b => n * 10 + (b.val - 48)) 0

/-- The optional sign in front of a number: whether it is a minus, and the rest. -/
def takeSign : Bytes → Bool × Bytes
  | [] => (false, [])
  | b :: s => if b = 45 then (true, s) else if b = 43 then (false, s) else (false, b :: s)

/-- Digits to a 64-bit number; a minus sign negates modulo `2 ^ 64`. -/
def toUint64 (negative : Bool) (ds : Bytes) : Option ℕ :=
  if ds = [] ∨ 2 ^ 64 ≤ digitsValue ds then none
  else some (if negative then (2 ^ 64 - digitsValue ds) % 2 ^ 64 else digitsValue ds)

/-- `stream >> number` for a 64-bit unsigned number. -/
def extractUint64 (s : Bytes) : Option (ℕ × Bytes) :=
  let (negative, s) := takeSign (skipSpaces s)
  (toUint64 negative (s.takeWhile isDigit)).map (fun v => (v, s.dropWhile isDigit))

/-- `std::getline`: the bytes before the first newline, and those after it. -/
def getline (s : Bytes) : Bytes × Bytes :=
  (s.takeWhile (fun b => b != newline), (s.dropWhile (fun b => b != newline)).tail)

/-- `stream << number` -/
def decimal (n : ℕ) : Bytes := (Nat.toDigits 10 n).map (fun c => Fin.ofNat 256 c.toNat)

/-- Non-empty and free of blanks: exactly what one extraction reads back whole. -/
def IsWord (w : Bytes) : Prop := w ≠ [] ∧ ∀ b ∈ w, isSpace b = false

private theorem char_toNat_of_isDigit {c : Char} (h : c.isDigit = true) :
    48 ≤ c.toNat ∧ c.toNat ≤ 57 := by
  rw [Char.isDigit, Bool.and_eq_true, decide_eq_true_eq, decide_eq_true_eq] at h
  exact ⟨h.1, h.2⟩

private theorem isDigit_of_mem_toDigits {n : ℕ} {c : Char} (h : c ∈ Nat.toDigits 10 n) :
    c.isDigit = true := Nat.isDigit_of_mem_toDigits (by norm_num) (by norm_num) h

theorem decimal_ne_nil (n : ℕ) : decimal n ≠ [] := by
  simp [decimal, Nat.toDigits_ne_nil]

theorem isDigit_of_mem_decimal {n : ℕ} {b : Byte} (h : b ∈ decimal n) : isDigit b = true := by
  obtain ⟨c, hc, rfl⟩ := List.mem_map.mp h
  have hd := char_toNat_of_isDigit (isDigit_of_mem_toDigits hc)
  have hv : (Fin.ofNat 256 c.toNat).val = c.toNat := Nat.mod_eq_of_lt (by omega)
  rw [isDigit, hv]
  simp [hd]

private theorem digitsValue_map (cs : List Char) (hcs : ∀ c ∈ cs, c.isDigit = true) (init : ℕ) :
    (cs.map (fun c => Fin.ofNat 256 c.toNat)).foldl (fun n b => n * 10 + (b.val - 48)) init =
      Nat.ofDigitChars 10 cs init := by
  induction cs generalizing init with
  | nil => rfl
  | cons c cs ih =>
    have hd := char_toNat_of_isDigit (hcs c List.mem_cons_self)
    have hv : (Fin.ofNat 256 c.toNat).val = c.toNat := Nat.mod_eq_of_lt (by omega)
    rw [List.map_cons, List.foldl_cons, ih (fun c h => hcs c (List.mem_cons_of_mem _ h)), hv,
      Nat.ofDigitChars_cons, Nat.mul_comm]
    rfl

theorem digitsValue_decimal (n : ℕ) : digitsValue (decimal n) = n := by
  rw [digitsValue, decimal, digitsValue_map _ (fun c => isDigit_of_mem_toDigits),
    Nat.ofDigitChars_ten_toDigits]

theorem decimal_injective : Function.Injective decimal := by
  intro m n h
  rw [← digitsValue_decimal m, h, digitsValue_decimal]

private theorem takeWhile_append_of_stop (p : Byte → Bool) (xs rest : Bytes)
    (hx : ∀ b ∈ xs, p b = true) (hr : ∀ b ∈ rest.head?, p b = false) :
    (xs ++ rest).takeWhile p = xs ∧ (xs ++ rest).dropWhile p = rest := by
  induction xs with
  | nil =>
    cases rest with
    | nil => exact ⟨rfl, rfl⟩
    | cons b rest =>
      have hb := hr b rfl
      simp [hb]
  | cons x xs ih =>
    have hx0 := hx x List.mem_cons_self
    obtain ⟨ht, hd⟩ := ih (fun b hb => hx b (List.mem_cons_of_mem _ hb))
    simp [hx0, ht, hd]

theorem isSpace_of_isDigit {b : Byte} (h : isDigit b = true) : isSpace b = false := by
  simp only [isDigit, Bool.and_eq_true, decide_eq_true_eq] at h
  simp only [isSpace, Bool.or_eq_false_iff, beq_eq_false_iff_ne, Bool.and_eq_false_iff,
    decide_eq_false_iff_not]
  omega

theorem isDigit_of_isSpace {b : Byte} (h : isSpace b = true) : isDigit b = false := by
  cases hd : isDigit b with
  | false => rfl
  | true => simp [isSpace_of_isDigit hd] at h

theorem skipSpaces_of_head {s : Bytes} (h : ∀ b ∈ s.head?, isSpace b = false) :
    skipSpaces s = s := by
  cases s with
  | nil => rfl
  | cons b s => simp [skipSpaces, h b rfl]

theorem skipSpaces_cons_space {b : Byte} (s : Bytes) (h : isSpace b = true) :
    skipSpaces (b :: s) = skipSpaces s := by simp [skipSpaces, h]

private theorem head_append {p : Byte → Prop} {w rest : Bytes} (hw : w ≠ [])
    (h : ∀ b ∈ w, p b) : ∀ b ∈ (w ++ rest).head?, p b := by
  cases w with
  | nil => exact absurd rfl hw
  | cons a w =>
    intro b hb
    obtain rfl : a = b := by simpa using hb
    exact h a List.mem_cons_self

theorem extractWord_append {w rest : Bytes} (hw : IsWord w)
    (hr : ∀ b ∈ rest.head?, isSpace b = true) : extractWord (w ++ rest) = some (w, rest) := by
  obtain ⟨ht, hd⟩ := takeWhile_append_of_stop (fun b => !isSpace b) w rest
    (by simpa using hw.2) (by simpa using hr)
  rw [extractWord, skipSpaces_of_head (head_append hw.1 hw.2), ht, hd, if_neg hw.1]

theorem extractWord_cons_space {b : Byte} (s : Bytes) (h : isSpace b = true) :
    extractWord (b :: s) = extractWord s := by
  rw [extractWord, skipSpaces_cons_space s h, ← extractWord]

theorem extractUint64_cons_space {b : Byte} (s : Bytes) (h : isSpace b = true) :
    extractUint64 (b :: s) = extractUint64 s := by
  rw [extractUint64, skipSpaces_cons_space s h, ← extractUint64]

theorem isWord_of_extractWord {s w rest : Bytes} (h : extractWord s = some (w, rest)) :
    IsWord w := by
  simp only [extractWord] at h
  split at h
  · cases h
  · rename_i hne
    obtain ⟨rfl, -⟩ := Prod.mk.inj (Option.some.inj h)
    refine ⟨hne, ?_⟩
    intro b hb
    simpa using List.mem_takeWhile_imp hb

private theorem takeSign_of_digit {b : Byte} (s : Bytes) (h : isDigit b = true) :
    takeSign (b :: s) = (false, b :: s) := by
  have hv : 48 ≤ b.val := by
    simp only [isDigit, Bool.and_eq_true, decide_eq_true_eq] at h
    exact h.1
  have h45 : b ≠ 45 := by rintro rfl; exact absurd hv (by decide)
  have h43 : b ≠ 43 := by rintro rfl; exact absurd hv (by decide)
  simp [takeSign, h45, h43]

theorem extractUint64_decimal_eq (n : ℕ) {rest : Bytes} (hr : ∀ b ∈ rest.head?, isSpace b = true) :
    extractUint64 (decimal n ++ rest) = (toUint64 false (decimal n)).map (fun v => (v, rest)) := by
  obtain ⟨ht, hd⟩ := takeWhile_append_of_stop isDigit (decimal n) rest
    (fun b => isDigit_of_mem_decimal) (fun b hb => isDigit_of_isSpace (hr b hb))
  have hskip : skipSpaces (decimal n ++ rest) = decimal n ++ rest :=
    skipSpaces_of_head (head_append (decimal_ne_nil n)
      (fun b hb => isSpace_of_isDigit (isDigit_of_mem_decimal hb)))
  have hsign : takeSign (decimal n ++ rest) = (false, decimal n ++ rest) := by
    cases hdec : decimal n with
    | nil => exact absurd hdec (decimal_ne_nil n)
    | cons b ds =>
      exact takeSign_of_digit _ (isDigit_of_mem_decimal (n := n) (by simp [hdec]))
  rw [extractUint64, hskip, hsign]
  simp only [ht, hd]

/-- A printed number that fits is read back, with the stream left right after it. -/
theorem extractUint64_decimal {n : ℕ} {rest : Bytes} (hn : n < 2 ^ 64)
    (hr : ∀ b ∈ rest.head?, isSpace b = true) :
    extractUint64 (decimal n ++ rest) = some (n, rest) := by
  have hval : toUint64 false (decimal n) = some n := by
    rw [toUint64, digitsValue_decimal, if_neg (by
      rintro (h | h)
      · exact decimal_ne_nil n h
      · omega)]
    rfl
  rw [extractUint64_decimal_eq n hr, hval, Option.map_some]

theorem extractUint64_large {n : ℕ} {rest : Bytes} (hn : 2 ^ 64 ≤ n)
    (hr : ∀ b ∈ rest.head?, isSpace b = true) : extractUint64 (decimal n ++ rest) = none := by
  have hval : toUint64 false (decimal n) = none := by
    rw [toUint64, digitsValue_decimal, if_pos (Or.inr hn)]
  rw [extractUint64_decimal_eq n hr, hval, Option.map_none]

private theorem dropWhile_append_cons (p : Byte → Bool) (u rest : Bytes) {b : Byte}
    (hb : p b = false) :
    (u ++ b :: rest).takeWhile p = u.takeWhile p ∧
      (u ++ b :: rest).dropWhile p = u.dropWhile p ++ b :: rest := by
  induction u with
  | nil => simp [hb]
  | cons a u ih =>
    cases ha : p a with
    | true => simp [ha, ih.1, ih.2]
    | false => simp [ha]

def isStop (b : Byte) : Bool := !isSpace b && !isDigit b && b != 45 && b != 43

/-- A number at the start of a word that does not end in one: the extraction stops inside
the word, behind at least one byte of it. -/
theorem extractUint64_inside {u rest s : Bytes} {b : Byte} {n : ℕ}
    (hu : ∀ c ∈ u, isSpace c = false) (hb : isStop b = true)
    (h : extractUint64 (u ++ b :: rest) = some (n, s)) :
    ∃ u', s = u' ++ b :: rest ∧ u' <:+ u ∧ u' ≠ u := by
  simp only [isStop, Bool.and_eq_true, Bool.not_eq_true', bne_iff_ne, ne_eq] at hb
  obtain ⟨⟨⟨hspace, hdigit⟩, h45⟩, h43⟩ := hb
  have hskip : skipSpaces (u ++ b :: rest) = u ++ b :: rest := by
    apply skipSpaces_of_head
    cases u with
    | nil => simpa using hspace
    | cons a u => simpa using hu a List.mem_cons_self
  -- the sign, if there is one, is the first byte of the word
  have hsign : ∃ negative u₁, takeSign (u ++ b :: rest) = (negative, u₁ ++ b :: rest) ∧ u₁ <:+ u := by
    cases u with
    | nil => exact ⟨false, [], by simp [takeSign, h45, h43], List.suffix_rfl⟩
    | cons a u =>
      simp only [List.cons_append, takeSign]
      split_ifs
      · exact ⟨true, u, rfl, List.suffix_cons a u⟩
      · exact ⟨false, u, rfl, List.suffix_cons a u⟩
      · exact ⟨false, a :: u, rfl, List.suffix_rfl⟩
  obtain ⟨negative, u₁, hsign, hsuffix⟩ := hsign
  obtain ⟨htake, hdrop⟩ := dropWhile_append_cons isDigit u₁ rest hdigit
  rw [extractUint64, hskip, hsign] at h
  simp only [htake, hdrop, Option.map_eq_some_iff, Prod.mk.injEq] at h
  obtain ⟨v, hv, -, rfl⟩ := h
  have hsome : u₁.takeWhile isDigit ≠ [] := by
    intro hnil
    rw [hnil, toUint64, if_pos (Or.inl rfl)] at hv
    cases hv
  refine ⟨u₁.dropWhile isDigit, rfl, (List.dropWhile_suffix _).trans hsuffix, ?_⟩
  intro heq
  have hlen := congrArg List.length (List.takeWhile_append_dropWhile (p := isDigit) (l := u₁))
  have hpos := List.length_pos_of_ne_nil hsome
  have hle := hsuffix.length_le
  rw [List.length_append, heq] at hlen
  omega

end ForgeDB.TextStreams
