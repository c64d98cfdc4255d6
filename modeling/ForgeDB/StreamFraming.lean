import Mathlib.Data.List.Infix
import Mathlib.Data.List.Basic

/-!
# Cutting a stream into frames

A framer looks at the front of a buffer: it waits for more, refuses what it sees, or
cuts a frame off. What it has decided does not change when more of the stream arrives.
Then the frames in front of a buffer, and the rest at which the framer stands, depend on
the bytes and not on the pieces they arrived in, up to the first refusal.
-/

namespace ForgeDB.StreamFraming

variable {α β : Type}

/-- What a framer says about the front of a buffer. -/
inductive Verdict (α β : Type) where
  | incomplete
  | refused
  | framed (payload : β) (rest : List α)

structure Framer (α β : Type) where
  look : List α → Verdict α β
  look_nil : look [] = .incomplete
  shorter : ∀ {s payload rest}, look s = .framed payload rest → rest.length < s.length
  framed_append : ∀ {s payload rest}, look s = .framed payload rest →
    ∀ t, look (s ++ t) = .framed payload (rest ++ t)
  refused_append : ∀ {s}, look s = .refused → ∀ t, look (s ++ t) = .refused

namespace Framer

variable (F : Framer α β)

def Ready (s : List α) : Prop := ∃ payload rest, F.look s = .framed payload rest

/-- Cut off frames for at most the given number of turns. -/
def pullTurns : ℕ → List α → List β × List α
  | 0, s => ([], s)
  | turns + 1, s =>
    match F.look s with
    | .framed payload rest => (payload :: (pullTurns turns rest).1, (pullTurns turns rest).2)
    | _ => ([], s)

/-- All frames in front, and the rest at which the framer stands. -/
def pull (s : List α) : List β × List α := F.pullTurns (s.length + 1) s

variable {F} {s t : List α}

theorem ready_append (h : F.Ready s) (t : List α) : F.Ready (s ++ t) := by
  obtain ⟨payload, rest, hlook⟩ := h
  exact ⟨payload, rest ++ t, F.framed_append hlook t⟩

theorem not_ready_nil : ¬ F.Ready [] := by
  rintro ⟨payload, rest, hlook⟩
  rw [F.look_nil] at hlook
  cases hlook

theorem not_ready_of_refused (h : F.look s = .refused) : ¬ F.Ready s := by
  rintro ⟨payload, rest, hlook⟩
  rw [h] at hlook
  cases hlook

theorem pullTurns_of_not_ready (turns : ℕ) (h : ¬ F.Ready s) : F.pullTurns turns s = ([], s) := by
  cases turns with
  | zero => rfl
  | succ turns =>
    rw [pullTurns]
    cases hlook : F.look s with
    | incomplete => rfl
    | refused => rfl
    | framed payload rest => exact absurd ⟨payload, rest, hlook⟩ h

theorem pullTurns_eq {turns turns' : ℕ} (h : s.length < turns) (h' : s.length < turns') :
    F.pullTurns turns s = F.pullTurns turns' s := by
  induction turns generalizing turns' s with
  | zero => omega
  | succ turns ih =>
    cases turns' with
    | zero => omega
    | succ turns' =>
      rw [pullTurns, pullTurns]
      cases hlook : F.look s with
      | incomplete => rfl
      | refused => rfl
      | framed payload rest =>
        have hshort := F.shorter hlook
        have hrest : F.pullTurns turns rest = F.pullTurns turns' rest := ih (by omega) (by omega)
        simp only [hrest]

theorem pull_of_framed {payload : β} {rest : List α} (h : F.look s = .framed payload rest) :
    F.pull s = (payload :: (F.pull rest).1, (F.pull rest).2) := by
  have hshort := F.shorter h
  have hturns : F.pullTurns s.length rest = F.pull rest := pullTurns_eq hshort (Nat.lt_succ_self _)
  rw [pull, pullTurns, h]
  simp only [hturns]

theorem pull_of_not_ready (h : ¬ F.Ready s) : F.pull s = ([], s) := pullTurns_of_not_ready _ h

@[simp] theorem pull_nil : F.pull [] = ([], []) := pull_of_not_ready not_ready_nil

theorem pull_induction {motive : List α → Prop} (stop : ∀ s, ¬ F.Ready s → motive s)
    (next : ∀ s payload rest, F.look s = .framed payload rest → motive rest → motive s)
    (s : List α) : motive s := by
  induction hn : s.length using Nat.strong_induction_on generalizing s with
  | _ n ih =>
    by_cases hready : F.Ready s
    · obtain ⟨payload, rest, hlook⟩ := hready
      exact next s payload rest hlook (ih rest.length (hn ▸ F.shorter hlook) rest rfl)
    · exact stop s hready

theorem not_ready_pull (s : List α) : ¬ F.Ready (F.pull s).2 := by
  induction s using pull_induction (F := F) with
  | stop s h =>
    rw [pull_of_not_ready h]
    exact h
  | next s payload rest hlook ih =>
    rw [pull_of_framed hlook]
    exact ih

/-- More of the stream: the frames found stay, and the framer goes on from its rest. -/
theorem pull_append (s t : List α) :
    F.pull (s ++ t) = ((F.pull s).1 ++ (F.pull ((F.pull s).2 ++ t)).1,
      (F.pull ((F.pull s).2 ++ t)).2) := by
  induction s using pull_induction (F := F) with
  | stop s h =>
    rw [pull_of_not_ready h]
    rfl
  | next s payload rest hlook ih =>
    rw [pull_of_framed (F.framed_append hlook t), pull_of_framed hlook, ih]
    rfl

theorem pull_append_of_refused (h : F.look (F.pull s).2 = .refused) (t : List α) :
    F.pull (s ++ t) = ((F.pull s).1, (F.pull s).2 ++ t) := by
  have hnot := not_ready_of_refused (F.refused_append h t)
  rw [pull_append, pull_of_not_ready hnot, List.append_nil]

variable (F)

/-- What stays in the buffer where the framer stands: a refused rest is thrown away. -/
def settled (rest : List α) : List α :=
  match F.look rest with
  | .refused => []
  | _ => rest

/-- The frames found and the buffer left when the stream arrives in the given pieces. -/
def absorb : List α → List (List α) → List β × List α
  | buffer, [] => ([], buffer)
  | buffer, piece :: pieces =>
    let found := F.pull (buffer ++ piece)
    let later := absorb (F.settled found.2) pieces
    (found.1 ++ later.1, later.2)

variable {F}

theorem settled_of_not_refused (h : F.look s ≠ .refused) : F.settled s = s := by
  rw [settled]
  cases hlook : F.look s with
  | refused => exact absurd hlook h
  | incomplete => rfl
  | framed payload rest => rfl

theorem settled_of_refused (h : F.look s = .refused) : F.settled s = [] := by
  rw [settled, h]

/-- A rest that is not refused with more behind it was not refused before. -/
theorem not_refused_of_append (h : F.look (F.pull (s ++ t)).2 ≠ .refused) :
    F.look (F.pull s).2 ≠ .refused := by
  intro hrefused
  apply h
  rw [pull_append_of_refused hrefused]
  exact F.refused_append hrefused t

theorem absorb_eq_pull (pieces : List (List α)) {buffer : List α} (hready : ¬ F.Ready buffer)
    (h : F.look (F.pull (buffer ++ pieces.flatten)).2 ≠ .refused) :
    F.absorb buffer pieces = F.pull (buffer ++ pieces.flatten) := by
  induction pieces generalizing buffer with
  | nil =>
    rw [List.flatten_nil, List.append_nil, pull_of_not_ready hready]
    rfl
  | cons piece pieces ih =>
    rw [List.flatten_cons, ← List.append_assoc] at h ⊢
    have hsettled : F.settled (F.pull (buffer ++ piece)).2 = (F.pull (buffer ++ piece)).2 :=
      settled_of_not_refused (not_refused_of_append h)
    rw [pull_append] at h ⊢
    rw [absorb]
    simp only [hsettled, ih (not_ready_pull _) h]

/-- The frames of the whole stream are found first, in whatever pieces it arrives. -/
theorem pull_prefix_absorb (pieces : List (List α)) {buffer : List α} (hready : ¬ F.Ready buffer) :
    (F.pull (buffer ++ pieces.flatten)).1 <+: (F.absorb buffer pieces).1 := by
  induction pieces generalizing buffer with
  | nil =>
    rw [List.flatten_nil, List.append_nil, pull_of_not_ready hready]
    exact List.nil_prefix
  | cons piece pieces ih =>
    rw [List.flatten_cons, ← List.append_assoc, absorb]
    by_cases hrefused : F.look (F.pull (buffer ++ piece)).2 = .refused
    · rw [pull_append_of_refused hrefused]
      exact List.prefix_append _ _
    · rw [pull_append, settled_of_not_refused hrefused]
      exact (List.prefix_append_right_inj _).mpr (ih (not_ready_pull _))

/-- Where no frame is ready at any later place of the stream, none is found. -/
theorem absorb_silent (pieces : List (List α)) {buffer : List α}
    (h : ∀ u, u <:+ buffer ++ pieces.flatten → ¬ F.Ready u) : (F.absorb buffer pieces).1 = [] := by
  induction pieces generalizing buffer with
  | nil => rfl
  | cons piece pieces ih =>
    rw [List.flatten_cons, ← List.append_assoc] at h
    have hnot : ¬ F.Ready (buffer ++ piece) :=
      fun hready => h _ (List.suffix_refl _) (ready_append hready _)
    rw [absorb, pull_of_not_ready hnot]
    apply ih
    intro u hu
    by_cases hrefused : F.look (buffer ++ piece) = .refused
    · simp only [settled_of_refused hrefused, List.nil_append] at hu
      exact h u (hu.trans (List.suffix_append _ _))
    · simp only [settled_of_not_refused hrefused] at hu
      exact h u hu

/-- Where nothing is ready behind any point at which the framer refuses, the pieces do not
matter either. `received` is what arrived before them. -/
theorem pull_append_absorb (pieces : List (List α)) (received : List α)
    (hstart : F.look (F.pull received).2 ≠ .refused)
    (h : ∀ t u, received ++ pieces.flatten = t ++ u → F.look (F.pull t).2 = .refused →
      ∀ v, v <:+ u → ¬ F.Ready v) :
    (F.pull received).1 ++ (F.absorb (F.pull received).2 pieces).1 =
      (F.pull (received ++ pieces.flatten)).1 := by
  induction pieces generalizing received with
  | nil =>
    rw [List.flatten_nil, List.append_nil]
    exact List.append_nil _
  | cons piece pieces ih =>
    have hpiece := pull_append (F := F) received piece
    rw [List.flatten_cons, ← List.append_assoc] at h ⊢
    rw [absorb, ← List.append_assoc]
    have hfound : (F.pull received).1 ++ (F.pull ((F.pull received).2 ++ piece)).1 =
        (F.pull (received ++ piece)).1 := by rw [hpiece]
    have hrest : (F.pull ((F.pull received).2 ++ piece)).2 = (F.pull (received ++ piece)).2 := by
      rw [hpiece]
    rw [hfound, hrest]
    by_cases hrefused : F.look (F.pull (received ++ piece)).2 = .refused
    · have hlater : (F.absorb [] pieces).1 = [] :=
        absorb_silent pieces (h (received ++ piece) pieces.flatten rfl hrefused)
      rw [settled_of_refused hrefused, hlater, pull_append_of_refused hrefused, List.append_nil]
    · rw [settled_of_not_refused hrefused]
      exact ih _ hrefused h

end Framer
end ForgeDB.StreamFraming
