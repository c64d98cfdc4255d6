import ForgeDB.ByteStrings
import ForgeDB.LayeredMaps

/-!
# Programs over files whose steps may fail or die

Every step on the file system takes its outcome from a plan: it succeeds, it fails
after part of its effect, or the process dies after part of its effect. A plan that
has run out stands for success from there on. The part of a write is a beginning of its
bytes; all other steps are atomic. Files survive the death of the process, the program's own
values do not.

`Io.Ensures` gives what holds under every plan, once for a normal return and once for
the files left by a death, `Io.Succeeds` what happens when every step succeeds, and
`Io.Replays` what happens when the steps of a first part do.
-/

namespace ForgeDB.CrashPrograms
open LayeredMaps

inductive Node where
  | regular (contents : Bytes)
  | directory
  deriving DecidableEq

/-- The file tree by full path. The list order is one directory iteration order. -/
abbrev Disk := Map Bytes Node

/-- What happens to one file-system step. The number says how many bytes of a write
are on disk when it fails or the process dies; other steps are atomic. -/
inductive Outcome where
  | succeeds
  | fails (written : ℕ)
  | dies (written : ℕ)
  deriving DecidableEq

structure World where
  disk : Disk
  plan : List Outcome
  deriving DecidableEq

inductive Result (α : Type) where
  | returned (value : α) (world : World)
  | died (disk : Disk)
  deriving DecidableEq

def Io (α : Type) := World → Result α

namespace Io

variable {α β : Type}

protected def pure (a : α) : Io α := fun w => .returned a w

protected def bind (x : Io α) (f : α → Io β) : Io β := fun w =>
  match x w with
  | .returned a w' => f a w'
  | .died d => .died d

instance : Monad Io where
  pure := Io.pure
  bind := Io.bind

/-- One file-system step with its full effect and its effect when it is cut short. -/
def attempt (full : Disk → Disk) (torn : ℕ → Disk → Disk) : Io Bool := fun w =>
  match w.plan with
  | [] => .returned true ⟨full w.disk, []⟩
  | .succeeds :: rest => .returned true ⟨full w.disk, rest⟩
  | .fails n :: rest => .returned false ⟨torn n w.disk, rest⟩
  | .dies n :: _ => .died (torn n w.disk)

/-- A step that changes no file: looking, opening for reading, reading. -/
def consult : Io Bool := attempt id (fun _ => id)

def getDisk : Io Disk := fun w => .returned w.disk w

@[simp] theorem pure_run (a : α) (w : World) : (pure a : Io α) w = .returned a w := rfl

@[simp] theorem bind_run (x : Io α) (f : α → Io β) (w : World) :
    (x >>= f) w = match x w with
      | .returned a w' => f a w'
      | .died d => .died d := rfl

@[simp] theorem attempt_run_nil (full : Disk → Disk) (torn : ℕ → Disk → Disk) (d : Disk) :
    attempt full torn ⟨d, []⟩ = .returned true ⟨full d, []⟩ := rfl

@[simp] theorem consult_run_nil (d : Disk) : consult ⟨d, []⟩ = .returned true ⟨d, []⟩ := rfl

@[simp] theorem getDisk_run (w : World) : getDisk w = .returned w.disk w := rfl

/-- Under every plan, a return meets `post` and a death meets `crash`. -/
def Ensures (x : Io α) (d : Disk) (post : α → Disk → Prop) (crash : Disk → Prop) : Prop :=
  ∀ plan, match x ⟨d, plan⟩ with
    | .returned a w => post a w.disk
    | .died d' => crash d'

/-- With every step succeeding, the program returns `a` and leaves `d'`. -/
def Succeeds (x : Io α) (d : Disk) (a : α) (d' : Disk) : Prop :=
  x ⟨d, []⟩ = .returned a ⟨d', []⟩

instance [DecidableEq α] (x : Io α) (d : Disk) (a : α) (d' : Disk) : Decidable (Succeeds x d a d') :=
  inferInstanceAs (Decidable (_ = _))

/-- Once its own steps have succeeded the program returns `a` and leaves `d'`, and what the
plan has for later is still there. -/
def Replays (x : Io α) (d : Disk) (a : α) (d' : Disk) : Prop :=
  ∃ steps, ∀ later, x ⟨d, List.replicate steps .succeeds ++ later⟩ = .returned a ⟨d', later⟩

section Rules

variable {x : Io α} {f : α → Io β} {d d' d'' : Disk} {a : α} {b : β}
variable {post post' : α → Disk → Prop} {crash crash' : Disk → Prop}

theorem Ensures.pure (h : post a d) : Ensures (pure a : Io α) d post crash := fun _ => h

theorem Ensures.bind {post₂ : β → Disk → Prop} (hx : Ensures x d post crash)
    (hf : ∀ a d', post a d' → Ensures (f a) d' post₂ crash) :
    Ensures (x >>= f) d post₂ crash := by
  intro plan
  have h := hx plan
  change match Io.bind x f ⟨d, plan⟩ with | .returned a w => _ | .died d' => _
  rw [Io.bind]
  cases hr : x ⟨d, plan⟩ with
  | returned a w =>
    rw [hr] at h
    exact hf a w.disk h w.plan
  | died d' =>
    rw [hr] at h
    exact h

theorem Ensures.seq {post₂ : β → Disk → Prop} (mid : α → Disk → Prop)
    (hx : Ensures x d mid crash) (hf : ∀ a d', mid a d' → Ensures (f a) d' post₂ crash) :
    Ensures (x >>= f) d post₂ crash := hx.bind hf

theorem Ensures.mono (h : Ensures x d post crash) (hp : ∀ a d', post a d' → post' a d')
    (hc : ∀ d', crash d' → crash' d') : Ensures x d post' crash' := by
  intro plan
  have h := h plan
  cases hr : x ⟨d, plan⟩ with
  | returned a w =>
    rw [hr] at h
    exact hp a w.disk h
  | died d' =>
    rw [hr] at h
    exact hc d' h

theorem Ensures.and (h : Ensures x d post crash) (h' : Ensures x d post' crash') :
    Ensures x d (fun a d' => post a d' ∧ post' a d') (fun d' => crash d' ∧ crash' d') := by
  intro plan
  have h := h plan
  have h' := h' plan
  cases hr : x ⟨d, plan⟩ with
  | returned a w =>
    rw [hr] at h h'
    exact ⟨h, h'⟩
  | died d' =>
    rw [hr] at h h'
    exact ⟨h, h'⟩

/-- A composed program that returns has returned in between. -/
theorem bind_returned {w w' : World} (h : (x >>= f) w = .returned b w') :
    ∃ a w₁, x w = .returned a w₁ ∧ f a w₁ = .returned b w' := by
  rw [bind_run] at h
  cases hr : x w with
  | returned a w₁ =>
    rw [hr] at h
    exact ⟨a, w₁, rfl, h⟩
  | died d' =>
    rw [hr] at h
    cases h

theorem Ensures.attempt {full : Disk → Disk} {torn : ℕ → Disk → Disk}
    {post : Bool → Disk → Prop} (ht : post true (full d)) (hf : ∀ n, post false (torn n d))
    (hc : ∀ n, crash (torn n d)) : Ensures (attempt full torn) d post crash := by
  intro plan
  match plan with
  | [] => exact ht
  | .succeeds :: rest => exact ht
  | .fails n :: rest => exact hf n
  | .dies n :: rest => exact hc n

theorem Ensures.consult {post : Bool → Disk → Prop} (h : ∀ b, post b d) (hc : crash d) :
    Ensures consult d post crash :=
  .attempt (h true) (fun _ => h false) (fun _ => hc)

theorem Ensures.getDisk {post : Disk → Disk → Prop} (h : post d d) :
    Ensures getDisk d post crash := fun _ => h

theorem Ensures.of_succeeds (h : Ensures x d post crash) (hs : Succeeds x d a d') :
    post a d' := by
  have hp := h []
  rw [Succeeds] at hs
  rwa [hs] at hp

theorem Ensures.of_returned {plan : List Outcome} {w : World} (h : Ensures x d post crash)
    (hr : x ⟨d, plan⟩ = .returned a w) : post a w.disk := by
  have hp := h plan
  rwa [hr] at hp

theorem Ensures.of_run {w w' : World} (h : Ensures x w.disk post crash)
    (hr : x w = .returned a w') : post a w'.disk := h.of_returned hr

theorem Ensures.of_died {plan : List Outcome} (h : Ensures x d post crash)
    (hr : x ⟨d, plan⟩ = .died d') : crash d' := by
  have hp := h plan
  rwa [hr] at hp

theorem Succeeds.pure : Succeeds (pure a : Io α) d a d := rfl

theorem Succeeds.bind (hx : Succeeds x d a d') (hf : Succeeds (f a) d' b d'') :
    Succeeds (x >>= f) d b d'' := by
  change Io.bind x f ⟨d, []⟩ = _
  rw [Io.bind, hx]
  exact hf

theorem Succeeds.attempt {full : Disk → Disk} {torn : ℕ → Disk → Disk} :
    Succeeds (attempt full torn) d true (full d) := rfl

theorem Succeeds.consult : Succeeds consult d true d := rfl

theorem Succeeds.getDisk : Succeeds getDisk d d d := rfl

theorem Succeeds.unique {a' : α} (h : Succeeds x d a d') (h' : Succeeds x d a' d'') :
    a = a' ∧ d' = d'' := by
  rw [Succeeds] at h h'
  rw [h] at h'
  cases h'
  exact ⟨rfl, rfl⟩

theorem Replays.pure : Replays (pure a : Io α) d a d := ⟨0, fun _ => rfl⟩

theorem Replays.bind (hx : Replays x d a d') (hf : Replays (f a) d' b d'') :
    Replays (x >>= f) d b d'' := by
  obtain ⟨steps, hx⟩ := hx
  obtain ⟨steps', hf⟩ := hf
  refine ⟨steps + steps', fun later => ?_⟩
  rw [bind_run, List.replicate_add, List.append_assoc, hx]
  exact hf later

theorem Replays.attempt {full : Disk → Disk} {torn : ℕ → Disk → Disk} :
    Replays (attempt full torn) d true (full d) := ⟨1, fun _ => rfl⟩

end Rules
end Io

namespace Disk

def contents (d : Disk) (p : Bytes) : Option Bytes :=
  match d.lookup p with
  | some (.regular c) => some c
  | _ => none

def put (p c : Bytes) (d : Disk) : Disk := d.insert p (.regular c)

def append (p bs : Bytes) (d : Disk) : Disk := put p ((contents d p).getD [] ++ bs) d

/-- Two trees that may differ only at the given paths. -/
def SameExcept (ps : List Bytes) (d d' : Disk) : Prop := ∀ q ∉ ps, d'.lookup q = d.lookup q

variable {ps : List Bytes} {d d' d'' : Disk} {p q c : Bytes}

@[simp] theorem lookup_put : (put p c d).lookup p = some (.regular c) := AList.lookup_insert d

theorem lookup_put_ne (h : q ≠ p) : (put p c d).lookup q = d.lookup q := AList.lookup_insert_ne h

theorem contents_of_lookup (h : d.lookup p = some (.regular c)) : contents d p = some c := by
  simp [contents, h]

theorem lookup_of_contents (h : contents d p = some c) : d.lookup p = some (.regular c) := by
  rw [contents] at h
  split at h
  · next hl => rw [hl, Option.some.inj h]
  · cases h

@[simp] theorem lookup_append (bs : Bytes) (h : d.lookup p = some (.regular c)) :
    (append p bs d).lookup p = some (.regular (c ++ bs)) := by
  simp [append, contents, h]

theorem SameExcept.refl : SameExcept ps d d := fun _ _ => rfl

theorem SameExcept.trans (h : SameExcept ps d d') (h' : SameExcept ps d' d'') :
    SameExcept ps d d'' := fun q hq => (h' q hq).trans (h q hq)

theorem SameExcept.put (hp : p ∈ ps) (h : SameExcept ps d d') :
    SameExcept ps d (put p c d') := by
  intro q hq
  have hne : q ≠ p := fun he => hq (he ▸ hp)
  rw [lookup_put_ne hne, h q hq]

theorem SameExcept.append (bs : Bytes) (hp : p ∈ ps) (h : SameExcept ps d d') :
    SameExcept ps d (append p bs d') := h.put hp

theorem SameExcept.erase (hp : p ∈ ps) (h : SameExcept ps d d') :
    SameExcept ps d (d'.erase p) := by
  intro q hq
  have hne : q ≠ p := fun he => hq (he ▸ hp)
  rw [AList.lookup_erase_ne hne, h q hq]

theorem SameExcept.mono {qs : List Bytes} (h : SameExcept ps d d') (hs : ∀ p ∈ ps, p ∈ qs) :
    SameExcept qs d d' := fun q hq => h q (fun hp => hq (hs q hp))

end Disk

namespace Io
open Disk

def openTruncated (p : Bytes) : Io Bool := attempt (put p []) (fun _ => id)

def openAppending (p : Bytes) : Io Bool :=
  attempt (fun d => if (d.lookup p).isSome then d else put p [] d) (fun _ => id)

def write (p bs : Bytes) : Io Bool := attempt (append p bs) (fun n => append p (bs.take n))

def rename (p q : Bytes) : Io Bool :=
  attempt (fun d => match d.lookup p with
    | some node => (d.erase p).insert q node
    | none => d) (fun _ => id)

/-- Cut a file to `size` bytes, or extend it with zero bytes. -/
def resize (p : Bytes) (size : ℕ) : Io Bool :=
  attempt (fun d => put p (((contents d p).getD [] ++ List.replicate size 0).take size) d)
    (fun _ => id)

def remove (p : Bytes) : Io Bool := attempt (fun d => d.erase p) (fun _ => id)

end Io
end ForgeDB.CrashPrograms
