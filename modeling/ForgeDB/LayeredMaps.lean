import Mathlib.Data.List.AList
import Mathlib.Data.List.Sigma
import Mathlib.Data.List.Induction

/-!
# Finite maps in layers

A map is an association list without repeated keys; the list order is one iteration
order of a hash map. Writing one map over another, folding a list of maps from the
oldest to the newest, and searching the list from the newest down are the three ways
layers are read, and they agree.
-/

namespace ForgeDB.LayeredMaps

variable {κ α : Type} [DecidableEq κ]

abbrev Map (κ α : Type) := AList (fun _ : κ => α)

instance [DecidableEq α] : DecidableEq (Map κ α) := fun a b =>
  decidable_of_iff (a.entries = b.entries) AList.ext_iff.symm

theorem lookup_insert_eq (m : Map κ α) (a k : κ) (v : α) :
    (m.insert a v).lookup k = if k = a then some v else m.lookup k := by
  split
  · next h => rw [h, AList.lookup_insert]
  · next h => rw [AList.lookup_insert_ne h]

/-- Assign every entry of `new` in `base`, in the iteration order of `new`. -/
def overwrite (base new : Map κ α) : Map κ α :=
  new.entries.foldl (fun d e => d.insert e.1 e.2) base

private theorem lookup_foldl_insert (es : List (Σ _ : κ, α)) (hes : es.NodupKeys)
    (base : Map κ α) (k : κ) :
    (es.foldl (fun d e => d.insert e.1 e.2) base).lookup k =
      (es.dlookup k).or (base.lookup k) := by
  induction es generalizing base with
  | nil => rfl
  | cons e es ih =>
    obtain ⟨a, v⟩ := e
    obtain ⟨hfresh, hnodup⟩ := List.nodupKeys_cons.mp hes
    rw [List.foldl_cons, ih hnodup]
    by_cases hk : k = a
    · subst hk
      rw [List.dlookup_eq_none.mpr hfresh, List.dlookup_cons_eq, AList.lookup_insert]
      rfl
    · rw [AList.lookup_insert_ne hk, List.dlookup_cons_ne _ _ hk]

@[simp] theorem lookup_overwrite (base new : Map κ α) (k : κ) :
    (overwrite base new).lookup k = (new.lookup k).or (base.lookup k) :=
  lookup_foldl_insert new.entries new.nodupKeys base k

/-- A property of all entries survives one more entry that has it. -/
theorem forall_mem_insert {p : (Σ _ : κ, α) → Prop} {m : Map κ α} (h : ∀ e ∈ m.entries, p e) {k : κ}
    {a : α} (hk : p ⟨k, a⟩) : ∀ e ∈ (m.insert k a).entries, p e := by
  intro e he
  rcases List.mem_cons.mp he with rfl | he
  · exact hk
  · exact h e ((List.kerase_sublist k m.entries).subset he)

theorem forall_mem_overwrite {p : (Σ _ : κ, α) → Prop} {base new : Map κ α}
    (hbase : ∀ e ∈ base.entries, p e) (hnew : ∀ e ∈ new.entries, p e) :
    ∀ e ∈ (overwrite base new).entries, p e := by
  have h : ∀ (es : List (Σ _ : κ, α)) (base : Map κ α), (∀ e ∈ base.entries, p e) →
      (∀ e ∈ es, p e) → ∀ e ∈ (es.foldl (fun d e => d.insert e.1 e.2) base).entries, p e := by
    intro es
    induction es with
    | nil => exact fun base hbase _ => hbase
    | cons e es ih =>
      intro base hbase hes
      exact ih _ (forall_mem_insert hbase (hes e List.mem_cons_self))
        (fun e he => hes e (List.mem_cons_of_mem _ he))
  exact h new.entries base hbase hnew

/-- All layers written over each other, the oldest first. -/
def mergeLayers (layers : List (Map κ α)) : Map κ α := layers.foldl overwrite ∅

/-- The newest layer that has the key decides. -/
def newest (layers : List (Map κ α)) (k : κ) : Option α :=
  layers.reverse.findSome? (fun m => m.lookup k)

@[simp] theorem newest_nil (k : κ) : newest ([] : List (Map κ α)) k = none := rfl

@[simp] theorem newest_append_singleton (layers : List (Map κ α)) (m : Map κ α) (k : κ) :
    newest (layers ++ [m]) k = (m.lookup k).or (newest layers k) := by
  unfold newest
  rw [List.reverse_append, List.reverse_singleton, List.findSome?_append]
  cases h : m.lookup k <;> simp [List.findSome?, h]

theorem newest_append (older newer : List (Map κ α)) (k : κ) :
    newest (older ++ newer) k = (newest newer k).or (newest older k) := by
  rw [newest, List.reverse_append, List.findSome?_append]
  rfl

@[simp] theorem mergeLayers_append_singleton (layers : List (Map κ α)) (m : Map κ α) :
    mergeLayers (layers ++ [m]) = overwrite (mergeLayers layers) m := by
  simp [mergeLayers, List.foldl_append]

/-- Folding forwards with overwriting agrees with scanning backwards. -/
theorem lookup_mergeLayers (layers : List (Map κ α)) (k : κ) :
    (mergeLayers layers).lookup k = newest layers k := by
  induction layers using List.reverseRecOn with
  | nil => rfl
  | append_singleton layers m ih =>
    rw [mergeLayers_append_singleton, lookup_overwrite, newest_append_singleton, ih]

def keepIf (p : α → Bool) (m : Map κ α) : Map κ α :=
  ⟨m.entries.filter (fun e => p e.2), m.nodupKeys.sublist List.filter_sublist⟩

@[simp] theorem lookup_keepIf (p : α → Bool) (m : Map κ α) (k : κ) :
    (keepIf p m).lookup k = (m.lookup k).filter p := by
  apply Option.ext
  intro a
  rw [Option.filter_eq_some_iff]
  change a ∈ (keepIf p m).lookup k ↔ a ∈ m.lookup k ∧ p a = true
  rw [AList.mem_lookup_iff, AList.mem_lookup_iff, keepIf, List.mem_filter]

omit [DecidableEq κ] in
theorem length_keepIf_le (p : α → Bool) (m : Map κ α) :
    (keepIf p m).entries.length ≤ m.entries.length := List.length_filter_le _ _

theorem length_eq_of_lookup_eq {m m' : Map κ α} (h : ∀ k, m.lookup k = m'.lookup k) :
    m.entries.length = m'.entries.length := by
  apply List.Perm.length_eq
  refine List.lookup_ext m.nodupKeys m'.nodupKeys (fun k a => ?_)
  change a ∈ m.lookup k ↔ a ∈ m'.lookup k
  rw [h k]

theorem exists_lookup_of_newest {layers : List (Map κ α)} {k : κ} {a : α}
    (h : newest layers k = some a) : ∃ m ∈ layers, m.lookup k = some a := by
  obtain ⟨m, hm, hk⟩ := List.exists_of_findSome?_eq_some h
  exact ⟨m, List.mem_reverse.mp hm, hk⟩

end ForgeDB.LayeredMaps
