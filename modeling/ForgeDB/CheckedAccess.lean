import Mathlib.Data.List.Basic
import Mathlib.Tactic.Common

/-!
# Buffer accesses that tell when they leave the buffer

A program over a buffer and an offset, with every access that has a precondition made a
step of its own: an index, a slice, a difference of two sizes, and a move of the offset.
A step whose precondition fails ends in a fault. A program without faults is the plain
one.
-/

namespace ForgeDB.CheckedAccess

inductive Fault
  | index
  | slice
  | difference
  | offset
  deriving DecidableEq, Repr

variable {α β γ : Type}

/-- The element at `i`. -/
def index (buffer : List α) (i : ℕ) : Except Fault α :=
  match buffer[i]? with
  | some a => .ok a
  | none => .error .index

/-- The `size` elements from `offset` on. -/
def slice (buffer : List α) (offset size : ℕ) : Except Fault (List α) :=
  if offset + size ≤ buffer.length then .ok ((buffer.drop offset).take size) else .error .slice

/-- `a - b`, which must not go below zero. -/
def difference (a b : ℕ) : Except Fault ℕ :=
  if b ≤ a then .ok (a - b) else .error .difference

/-- The offset moved on by `size`; it must not pass the end. -/
def advance (buffer : List α) (offset size : ℕ) : Except Fault ℕ :=
  if offset + size ≤ buffer.length then .ok (offset + size) else .error .offset

@[simp] theorem ok_bind (a : α) (f : α → Except Fault β) : (.ok a >>= f) = f a := rfl

@[simp] theorem pure_eq_ok (a : α) : (pure a : Except Fault α) = .ok a := rfl

theorem index_of_lt {buffer : List α} {i : ℕ} (h : i < buffer.length) (default : α) :
    index buffer i = .ok (buffer.getD i default) := by
  rw [index, List.getD_eq_getElem?_getD, List.getElem?_eq_getElem h]
  rfl

theorem slice_of_le {buffer : List α} {offset size : ℕ} (h : offset + size ≤ buffer.length) :
    slice buffer offset size = .ok ((buffer.drop offset).take size) := if_pos h

theorem difference_of_le {a b : ℕ} (h : b ≤ a) : difference a b = .ok (a - b) := if_pos h

theorem advance_of_le {buffer : List α} {offset size : ℕ} (h : offset + size ≤ buffer.length) :
    advance buffer offset size = .ok (offset + size) := if_pos h

theorem foldlM_ok (f : β → γ → Except Fault β) (g : β → γ → β) (items : List γ)
    (h : ∀ b, ∀ c ∈ items, f b c = .ok (g b c)) (b : β) :
    items.foldlM f b = .ok (items.foldl g b) := by
  induction items generalizing b with
  | nil => rfl
  | cons c items ih =>
    rw [List.foldlM_cons, h b c List.mem_cons_self, List.foldl_cons]
    exact ih (fun b c hc => h b c (List.mem_cons_of_mem _ hc)) (g b c)

end ForgeDB.CheckedAccess
