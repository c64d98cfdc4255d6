import Mathlib.Data.List.Basic
import Mathlib.Data.List.Infix
import Mathlib.Data.List.Nodup

/-!
# Linearizable histories

A history is what clients see of a shared object: who asks what, and what is answered, in
the order in which it happens. It is linearizable when its operations can be put in one
order in which the object, used by a single client, gives these answers, and in which an
operation that was answered before another was asked for comes first. It is enough that
every operation takes effect at some point between its invocation and its response.
-/

namespace ForgeDB.Linearizability

variable {κ ι ο σ : Type}

/-- What the clients see. -/
inductive Mark (κ ι ο : Type) where
  | invoke (client : κ) (input : ι)
  | respond (client : κ) (output : ο)

/-- An object used by one client at a time. -/
structure Specification (σ ι ο : Type) where
  start : σ
  step : σ → ι → σ × ο

def Specification.outputs (spec : Specification σ ι ο) : σ → List ι → List ο
  | _, [] => []
  | s, input :: inputs => (spec.step s input).2 :: spec.outputs (spec.step s input).1 inputs

def Specification.stateAfter (spec : Specification σ ι ο) (s : σ) (inputs : List ι) : σ :=
  inputs.foldl (fun s input => (spec.step s input).1) s

/-- An operation, named by its client and by how many that client had before it. -/
structure Operation (κ ι ο : Type) where
  client : κ
  number : ℕ
  input : ι
  output : ο

section Histories

variable [DecidableEq κ]

def invocations (history : List (Mark κ ι ο)) (client : κ) : List ι :=
  history.filterMap fun
    | .invoke c input => if c = client then some input else none
    | .respond _ _ => none

def responses (history : List (Mark κ ι ο)) (client : κ) : List ο :=
  history.filterMap fun
    | .invoke _ _ => none
    | .respond c output => if c = client then some output else none

/-- The operations of a history in one order. Every response is explained, an operation
without a response may be left out. -/
structure Linearization (spec : Specification σ ι ο) (history : List (Mark κ ι ο))
    (order : List (Operation κ ι ο)) : Prop where
  legal : order.map Operation.output = spec.outputs spec.start (order.map Operation.input)
  nodup : (order.map fun op => (op.client, op.number)).Nodup
  invoked : ∀ op ∈ order, (invocations history op.client)[op.number]? = some op.input
  answered : ∀ client number output, (responses history client)[number]? = some output →
    ∃ op ∈ order, op.client = client ∧ op.number = number ∧ op.output = output
  realtime : ∀ before after, history = before ++ after → ∀ op ∈ order, ∀ op' ∈ order,
    op.number < (responses before op.client).length →
    (invocations before op'.client).length ≤ op'.number → [op, op'].Sublist order

def Linearizable (spec : Specification σ ι ο) (history : List (Mark κ ι ο)) : Prop :=
  ∃ order, Linearization spec history order

/-- In an order that leaves the object in the state `s`. -/
def LinearizableTo (spec : Specification σ ι ο) (history : List (Mark κ ι ο)) (s : σ) : Prop :=
  ∃ order, Linearization spec history order ∧
    spec.stateAfter spec.start (order.map Operation.input) = s

end Histories

/-- An operation takes effect. -/
structure Act (κ ι ο : Type) where
  client : κ
  input : ι
  output : ο

/-- A history with the points at which operations take effect. -/
inductive Point (κ ι ο : Type) where
  | mark (mark : Mark κ ι ο)
  | act (act : Act κ ι ο)

def seen (trace : List (Point κ ι ο)) : List (Mark κ ι ο) :=
  trace.filterMap fun
    | .mark m => some m
    | .act _ => none

def acts (trace : List (Point κ ι ο)) : List (Act κ ι ο) :=
  trace.filterMap fun
    | .mark _ => none
    | .act a => some a

theorem seen_append (t u : List (Point κ ι ο)) : seen (t ++ u) = seen t ++ seen u :=
  List.filterMap_append

theorem acts_append (t u : List (Point κ ι ο)) : acts (t ++ u) = acts t ++ acts u :=
  List.filterMap_append

@[simp] theorem seen_map_act (as : List (Act κ ι ο)) : seen (as.map Point.act) = [] := by
  simp [seen]

@[simp] theorem seen_map_mark (history : List (Mark κ ι ο)) : seen (history.map Point.mark) = history := by
  simp [seen]

@[simp] theorem acts_map_mark (history : List (Mark κ ι ο)) : acts (history.map Point.mark) = [] := by
  simp [acts]

@[simp] theorem acts_map_act (as : List (Act κ ι ο)) : acts (as.map Point.act) = as := by
  simp [acts]

section Renaming

variable {κ' : Type} (f : κ → κ')

def Mark.rename : Mark κ ι ο → Mark κ' ι ο
  | .invoke client input => .invoke (f client) input
  | .respond client output => .respond (f client) output

def Act.rename (a : Act κ ι ο) : Act κ' ι ο := ⟨f a.client, a.input, a.output⟩

def Point.rename : Point κ ι ο → Point κ' ι ο
  | .mark m => .mark (m.rename f)
  | .act a => .act (a.rename f)

theorem seen_rename (trace : List (Point κ ι ο)) :
    seen (trace.map (Point.rename f)) = (seen trace).map (Mark.rename f) := by
  rw [seen, seen, List.filterMap_map, List.map_filterMap]
  congr 1
  funext point
  cases point <;> rfl

theorem acts_rename (trace : List (Point κ ι ο)) :
    acts (trace.map (Point.rename f)) = (acts trace).map (Act.rename f) := by
  rw [acts, acts, List.filterMap_map, List.map_filterMap]
  congr 1
  funext point
  cases point <;> rfl

end Renaming

variable [DecidableEq κ]

theorem invocations_append (h h' : List (Mark κ ι ο)) (client : κ) :
    invocations (h ++ h') client = invocations h client ++ invocations h' client :=
  List.filterMap_append

theorem responses_append (h h' : List (Mark κ ι ο)) (client : κ) :
    responses (h ++ h') client = responses h client ++ responses h' client :=
  List.filterMap_append

def actsOf (as : List (Act κ ι ο)) (client : κ) : List (Act κ ι ο) :=
  as.filter (fun a => a.client = client)

theorem actsOf_append (as bs : List (Act κ ι ο)) (client : κ) :
    actsOf (as ++ bs) client = actsOf as client ++ actsOf bs client := List.filter_append ..

/-- Of every client, what was answered has taken effect, and what has taken effect was asked
for, in the client's order. -/
def Orderly (trace : List (Point κ ι ο)) : Prop :=
  ∀ client, responses (seen trace) client <+: (actsOf (acts trace) client).map Act.output ∧
    (actsOf (acts trace) client).map Act.input <+: invocations (seen trace) client

def Paced (trace : List (Point κ ι ο)) : Prop := ∀ t, t <+: trace → Orderly t

theorem paced_nil : Paced ([] : List (Point κ ι ο)) := by
  intro t ht client
  rw [List.prefix_nil.mp ht]
  exact ⟨List.nil_prefix, List.nil_prefix⟩

theorem Paced.orderly {trace : List (Point κ ι ο)} (h : Paced trace) : Orderly trace :=
  h trace (List.prefix_refl _)

theorem Paced.append_singleton {trace : List (Point κ ι ο)} {point : Point κ ι ο} (h : Paced trace)
    (hnew : Orderly (trace ++ [point])) : Paced (trace ++ [point]) := by
  intro t ht
  obtain rfl | ht := List.prefix_concat_iff.mp ht
  · exact hnew
  · exact h t ht

/-- Several operations may take effect one after the other, when they all have been asked
for. -/
theorem Paced.append_acts {trace : List (Point κ ι ο)} (h : Paced trace) (as : List (Act κ ι ο))
    (hnew : ∀ client, (actsOf (acts trace ++ as) client).map Act.input <+:
      invocations (seen trace) client) : Paced (trace ++ as.map Point.act) := by
  induction as using List.reverseRecOn with
  | nil =>
    rw [List.map_nil, List.append_nil]
    exact h
  | append_singleton as a ih =>
    have hseen : ∀ as : List (Act κ ι ο), seen (trace ++ as.map Point.act) = seen trace := by
      intro as
      rw [seen_append, seen_map_act, List.append_nil]
    have hacts : ∀ as : List (Act κ ι ο), acts (trace ++ as.map Point.act) = acts trace ++ as := by
      intro as
      rw [acts_append, acts_map_act]
    have hbefore : Paced (trace ++ as.map Point.act) := by
      apply ih
      intro client
      have hall := hnew client
      rw [← List.append_assoc, actsOf_append, List.map_append] at hall
      exact (List.prefix_append _ _).trans hall
    have hlast : Orderly (trace ++ (as ++ [a]).map Point.act) := by
      intro client
      rw [hseen, hacts]
      refine ⟨(h.orderly client).1.trans ?_, hnew client⟩
      rw [actsOf_append, List.map_append]
      exact List.prefix_append _ _
    rw [List.map_append, List.map_singleton, ← List.append_assoc] at hlast ⊢
    exact hbefore.append_singleton hlast

/-- The acts with their numbers; `earlier` have been numbered before. -/
def number (earlier : List (Act κ ι ο)) : List (Act κ ι ο) → List (Operation κ ι ο)
  | [] => []
  | a :: as => ⟨a.client, (actsOf earlier a.client).length, a.input, a.output⟩ ::
      number (earlier ++ [a]) as

theorem number_append (earlier as bs : List (Act κ ι ο)) :
    number earlier (as ++ bs) = number earlier as ++ number (earlier ++ as) bs := by
  induction as generalizing earlier with
  | nil => rw [List.nil_append, number, List.nil_append, List.append_nil]
  | cons a as ih => rw [List.cons_append, number, number, ih, List.append_assoc]; rfl

theorem map_input_number (earlier as : List (Act κ ι ο)) :
    (number earlier as).map Operation.input = as.map Act.input := by
  induction as generalizing earlier with
  | nil => rfl
  | cons a as ih => rw [number, List.map_cons, List.map_cons, ih]

theorem map_output_number (earlier as : List (Act κ ι ο)) :
    (number earlier as).map Operation.output = as.map Act.output := by
  induction as generalizing earlier with
  | nil => rfl
  | cons a as ih => rw [number, List.map_cons, List.map_cons, ih]

theorem actsOf_singleton_self (a : Act κ ι ο) : actsOf [a] a.client = [a] := by
  simp [actsOf]

theorem actsOf_singleton_of_ne {a : Act κ ι ο} {client : κ} (h : a.client ≠ client) :
    actsOf [a] client = [] := by
  simp [actsOf, h]

theorem le_number {earlier as : List (Act κ ι ο)} {op : Operation κ ι ο}
    (h : op ∈ number earlier as) : (actsOf earlier op.client).length ≤ op.number := by
  induction as generalizing earlier with
  | nil => cases h
  | cons a as ih =>
    obtain rfl | h := List.mem_cons.mp h
    · exact Nat.le_refl _
    · refine Nat.le_trans ?_ (ih h)
      rw [actsOf_append, List.length_append]
      exact Nat.le_add_right _ _

/-- A numbered operation is the act of that number among those of its client. -/
theorem getElem_of_mem_number {earlier as : List (Act κ ι ο)} {op : Operation κ ι ο}
    (h : op ∈ number earlier as) :
    (actsOf (earlier ++ as) op.client)[op.number]? = some ⟨op.client, op.input, op.output⟩ := by
  induction as generalizing earlier with
  | nil => cases h
  | cons a as ih =>
    obtain rfl | h := List.mem_cons.mp h
    · simp only
      rw [actsOf_append, List.getElem?_append_right (Nat.le_refl _), Nat.sub_self, ← List.singleton_append,
        actsOf_append, actsOf_singleton_self]
      rfl
    · have hop := ih h
      rwa [List.append_assoc, List.singleton_append] at hop

theorem mem_number_of_getElem {earlier as : List (Act κ ι ο)} {client : κ} {n : ℕ} {a : Act κ ι ο}
    (hn : (actsOf earlier client).length ≤ n) (ha : (actsOf (earlier ++ as) client)[n]? = some a) :
    ⟨client, n, a.input, a.output⟩ ∈ number earlier as := by
  induction as generalizing earlier with
  | nil =>
    rw [List.append_nil, List.getElem?_eq_none hn] at ha
    cases ha
  | cons b as ih =>
    have hsplit : earlier ++ b :: as = earlier ++ [b] ++ as := by
      rw [List.append_assoc, List.singleton_append]
    rw [number]
    by_cases hclient : b.client = client
    · obtain hlt | heq := Nat.lt_or_eq_of_le hn
      · refine List.mem_cons_of_mem _ (ih ?_ (hsplit ▸ ha))
        rw [actsOf_append, ← hclient, actsOf_singleton_self, List.length_append, hclient]
        exact hlt
      · rw [actsOf_append, List.getElem?_append_right hn, ← heq, Nat.sub_self, ← List.singleton_append,
          actsOf_append, ← hclient, actsOf_singleton_self] at ha
        obtain rfl : b = a := Option.some.inj ha
        rw [← heq, ← hclient]
        exact List.mem_cons_self
    · refine List.mem_cons_of_mem _ (ih ?_ (hsplit ▸ ha))
      rw [actsOf_append, actsOf_singleton_of_ne hclient, List.append_nil]
      exact hn

theorem number_lt {as : List (Act κ ι ο)} {op : Operation κ ι ο} (h : op ∈ number [] as) :
    op.number < (actsOf as op.client).length := by
  have hop := getElem_of_mem_number h
  rw [List.nil_append] at hop
  exact (List.getElem?_eq_some_iff.mp hop).1

theorem nodup_number (earlier as : List (Act κ ι ο)) :
    ((number earlier as).map fun op => (op.client, op.number)).Nodup := by
  induction as generalizing earlier with
  | nil => exact List.nodup_nil
  | cons a as ih =>
    rw [number, List.map_cons, List.nodup_cons]
    refine ⟨?_, ih _⟩
    intro hmem
    obtain ⟨op, hop, hname⟩ := List.mem_map.mp hmem
    obtain ⟨hclient, hnumber⟩ := Prod.mk.inj hname
    have hle := le_number hop
    simp only [hclient, hnumber, actsOf_append, actsOf_singleton_self, List.length_append,
      List.length_singleton] at hle
    omega

theorem getElem?_of_prefix {α : Type} {l m : List α} (h : l <+: m) {n : ℕ} {a : α}
    (ha : l[n]? = some a) : m[n]? = some a := by
  obtain ⟨t, rfl⟩ := h
  rw [List.getElem?_append_left (List.getElem?_eq_some_iff.mp ha).1]
  exact ha

/-- Where every operation takes effect between its invocation and its response, and the
object answers in the order of these effects, the order of these effects is a linearization. -/
theorem Paced.linearization {spec : Specification σ ι ο} {trace : List (Point κ ι ο)}
    (h : Paced trace)
    (hlegal : (acts trace).map Act.output = spec.outputs spec.start ((acts trace).map Act.input)) :
    Linearization spec (seen trace) (number [] (acts trace)) := by
  refine ⟨?_, nodup_number _ _, ?_, ?_, ?_⟩
  · rw [map_output_number, map_input_number]
    exact hlegal
  · intro op hop
    have hact := getElem_of_mem_number hop
    rw [List.nil_append] at hact
    refine getElem?_of_prefix (h.orderly op.client).2 ?_
    rw [List.getElem?_map, hact]
    rfl
  · intro client n output houtput
    have hact := getElem?_of_prefix (h.orderly client).1 houtput
    rw [List.getElem?_map, Option.map_eq_some_iff] at hact
    obtain ⟨a, ha, rfl⟩ := hact
    exact ⟨_, mem_number_of_getElem (Nat.zero_le _) ha, rfl, rfl, rfl⟩
  · -- the moment splits the points too; the first operation lies before it, the second behind
    intro before after hsplit op hop op' hop' hanswered hasked
    obtain ⟨t, u, rfl, rfl, rfl⟩ := List.filterMap_eq_append_iff.mp hsplit
    obtain ⟨hresponses, -⟩ := h t (List.prefix_append _ _) op.client
    obtain ⟨-, hinvocations⟩ := h t (List.prefix_append _ _) op'.client
    have hlt := hanswered.trans_le hresponses.length_le
    have hle := hinvocations.length_le.trans hasked
    rw [List.length_map] at hlt hle
    rw [acts_append, number_append, List.nil_append] at hop hop' ⊢
    have hfirst : op ∈ number [] (acts t) := by
      obtain hfirst | hsecond := List.mem_append.mp hop
      · exact hfirst
      · exact absurd (le_number hsecond) (Nat.not_le.mpr hlt)
    have hsecond : op' ∈ number (acts t) (acts u) := by
      obtain hfirst | hsecond := List.mem_append.mp hop'
      · exact absurd (number_lt hfirst) (Nat.not_lt.mpr hle)
      · exact hsecond
    exact (List.singleton_sublist.mpr hfirst).append (List.singleton_sublist.mpr hsecond)

theorem Paced.linearizable {spec : Specification σ ι ο} {trace : List (Point κ ι ο)}
    (h : Paced trace)
    (hlegal : (acts trace).map Act.output = spec.outputs spec.start ((acts trace).map Act.input)) :
    Linearizable spec (seen trace) := ⟨_, h.linearization hlegal⟩

theorem Paced.linearizableTo {spec : Specification σ ι ο} {trace : List (Point κ ι ο)}
    (h : Paced trace)
    (hlegal : (acts trace).map Act.output = spec.outputs spec.start ((acts trace).map Act.input)) :
    LinearizableTo spec (seen trace) (spec.stateAfter spec.start ((acts trace).map Act.input)) := by
  refine ⟨_, h.linearization hlegal, ?_⟩
  rw [map_input_number]

theorem Orderly.silent {trace : List (Point κ ι ο)} (h : Orderly trace) {client : κ}
    (hnone : invocations (seen trace) client = []) :
    actsOf (acts trace) client = [] ∧ responses (seen trace) client = [] := by
  obtain ⟨hresponses, hinvocations⟩ := h client
  rw [hnone, List.prefix_nil, List.map_eq_nil_iff] at hinvocations
  rw [hinvocations, List.map_nil, List.prefix_nil] at hresponses
  exact ⟨hinvocations, hresponses⟩

theorem Orderly.append {t u : List (Point κ ι ο)} (ht : Orderly t) (hu : Orderly u)
    (hapart : ∀ client, invocations (seen t) client = [] ∨ invocations (seen u) client = []) :
    Orderly (t ++ u) := by
  intro client
  rw [seen_append, acts_append, responses_append, invocations_append, actsOf_append]
  obtain hnone | hnone := hapart client
  · obtain ⟨hacts, hresponses⟩ := ht.silent hnone
    rw [hacts, hresponses, hnone]
    exact hu client
  · obtain ⟨hacts, hresponses⟩ := hu.silent hnone
    rw [hacts, hresponses, hnone, List.append_nil, List.append_nil, List.append_nil]
    exact ht client

theorem Paced.append {t u : List (Point κ ι ο)} (ht : Paced t) (hu : Paced u)
    (hapart : ∀ client, invocations (seen t) client = [] ∨ invocations (seen u) client = []) :
    Paced (t ++ u) := by
  intro v hv
  obtain hle | hle := Nat.le_total v.length t.length
  · exact ht v (List.prefix_of_prefix_length_le hv (List.prefix_append t u) hle)
  · obtain ⟨w, rfl⟩ := List.prefix_of_prefix_length_le (List.prefix_append t u) hv hle
    have hw : w <+: u := (List.prefix_append_right_inj t).mp hv
    refine ht.orderly.append (hu w hw) (fun client => ?_)
    obtain hnone | hnone := hapart client
    · exact Or.inl hnone
    · obtain ⟨rest, rfl⟩ := hw
      rw [seen_append, invocations_append, List.append_eq_nil_iff] at hnone
      exact Or.inr hnone.1

section Renaming

variable {κ' : Type} [DecidableEq κ'] {f : κ → κ'}

theorem invocations_rename (hf : f.Injective) (history : List (Mark κ ι ο)) (client : κ) :
    invocations (history.map (Mark.rename f)) (f client) = invocations history client := by
  rw [invocations, invocations, List.filterMap_map]
  congr 1
  funext mark
  cases mark with
  | invoke c input => simp [Mark.rename, hf.eq_iff]
  | respond c output => rfl

theorem responses_rename (hf : f.Injective) (history : List (Mark κ ι ο)) (client : κ) :
    responses (history.map (Mark.rename f)) (f client) = responses history client := by
  rw [responses, responses, List.filterMap_map]
  congr 1
  funext mark
  cases mark with
  | invoke c input => rfl
  | respond c output => simp [Mark.rename, hf.eq_iff]

theorem actsOf_rename (hf : f.Injective) (as : List (Act κ ι ο)) (client : κ) :
    actsOf (as.map (Act.rename f)) (f client) = (actsOf as client).map (Act.rename f) := by
  rw [actsOf, actsOf, List.filter_map]
  congr 2
  funext a
  simp [Act.rename, hf.eq_iff]

omit [DecidableEq κ] in
theorem renamed_silent {client' : κ'} (hnone : ∀ client, f client ≠ client')
    (trace : List (Point κ ι ο)) :
    invocations ((seen trace).map (Mark.rename f)) client' = [] ∧
      responses ((seen trace).map (Mark.rename f)) client' = [] ∧
      actsOf ((acts trace).map (Act.rename f)) client' = [] := by
  refine ⟨?_, ?_, ?_⟩
  · rw [invocations, List.filterMap_map, List.filterMap_eq_nil_iff]
    intro mark _
    cases mark with
    | invoke c input => exact if_neg (hnone c)
    | respond c output => rfl
  · rw [responses, List.filterMap_map, List.filterMap_eq_nil_iff]
    intro mark _
    cases mark with
    | invoke c input => rfl
    | respond c output => exact if_neg (hnone c)
  · rw [actsOf, List.filter_eq_nil_iff]
    intro a ha
    obtain ⟨a, -, rfl⟩ := List.mem_map.mp ha
    rw [decide_eq_true_eq]
    exact hnone a.client

theorem Orderly.rename (hf : f.Injective) {trace : List (Point κ ι ο)} (h : Orderly trace) :
    Orderly (trace.map (Point.rename f)) := by
  intro client'
  rw [seen_rename, acts_rename]
  by_cases hname : ∃ client, f client = client'
  · obtain ⟨client, rfl⟩ := hname
    rw [invocations_rename hf, responses_rename hf, actsOf_rename hf, List.map_map, List.map_map]
    exact h client
  · obtain ⟨hinvocations, hresponses, hacts⟩ := renamed_silent (not_exists.mp hname) trace
    rw [hinvocations, hresponses, hacts]
    exact ⟨List.nil_prefix, List.nil_prefix⟩

theorem Paced.rename (hf : f.Injective) {trace : List (Point κ ι ο)} (h : Paced trace) :
    Paced (trace.map (Point.rename f)) := by
  intro t ht
  obtain ⟨t, hprefix, rfl⟩ := List.prefix_map_iff.mp ht
  exact (h t hprefix).rename hf

end Renaming

end ForgeDB.Linearizability
