import Mathlib.Data.Nat.Init
import Mathlib.Tactic.ByContra
import Mathlib.Logic.Relation

/-!
# Runs that get on

A state waits for something to be done. Progress is a number that stays below a bound while
a state waits. Where a waiting state can always take a step of progress, it can reach a state
in which the thing is done; and in a run that goes on making progress it gets done.
-/

namespace ForgeDB.FairRuns

variable {α : Type} {step : α → α → Prop} {progress : α → ℕ} {Waiting Done : α → Prop} {bound : ℕ}

/-- Steps of progress, one after the other, lead to the end. -/
theorem exists_reached (hbound : ∀ a, Waiting a → progress a ≤ bound)
    (hnext : ∀ a, Waiting a → ∃ b, step a b ∧ (Done b ∨ Waiting b ∧ progress a < progress b))
    {a : α} (h : Waiting a) : ∃ b, Relation.ReflTransGen step a b ∧ Done b := by
  induction hgap : bound - progress a using Nat.strong_induction_on generalizing a with
  | _ gap ih =>
    obtain ⟨b, hstep, hdone | ⟨hwaiting, hless⟩⟩ := hnext a h
    · exact ⟨b, Relation.ReflTransGen.single hstep, hdone⟩
    · have hle := hbound b hwaiting
      obtain ⟨c, hreached, hdone⟩ := ih (bound - progress b) (by omega) hwaiting rfl
      exact ⟨c, hreached.head hstep, hdone⟩

theorem exists_le_of_growing {f : ℕ → ℕ} {start : ℕ}
    (h : ∀ n, start ≤ n → ∃ m, n ≤ m ∧ f n < f m) (k : ℕ) : ∃ n, start ≤ n ∧ k ≤ f n := by
  induction k with
  | zero => exact ⟨start, Nat.le_refl _, Nat.zero_le _⟩
  | succ k ih =>
    obtain ⟨n, hn, hk⟩ := ih
    obtain ⟨m, hm, hless⟩ := h n hn
    exact ⟨m, Nat.le_trans hn hm, by omega⟩

/-- A run that waits and goes on making progress comes to the end. -/
theorem eventually_done (run : ℕ → α) (hbound : ∀ a, Waiting a → progress a ≤ bound)
    (hkeep : ∀ n, Waiting (run n) → Waiting (run (n + 1)) ∨ Done (run (n + 1)))
    (hlater : ∀ n, Waiting (run n) → ∃ m, n ≤ m ∧ progress (run n) < progress (run m))
    {n : ℕ} (h : Waiting (run n)) : ∃ m, n ≤ m ∧ Done (run m) := by
  by_contra hnever
  have hwaiting : ∀ m, n ≤ m → Waiting (run m) := by
    intro m hm
    induction m, hm using Nat.le_induction with
    | base => exact h
    | succ m hm ih =>
      obtain hwaiting | hdone := hkeep m ih
      · exact hwaiting
      · exact absurd ⟨m + 1, by omega, hdone⟩ hnever
  obtain ⟨m, hm, hpast⟩ := exists_le_of_growing (f := fun m => progress (run m))
    (fun m hm => hlater m (hwaiting m hm)) (bound + 1)
  have hle := hbound _ (hwaiting m hm)
  omega

end ForgeDB.FairRuns
