import ForgeDB.HeaderTypes
import Mathlib.Algebra.BigOperators.Group.List.Basic
import Mathlib.Data.Fintype.Option

/-!
# The in-memory table

Writes and deletes with the incremental size accounting of the source. The strings of
a table share one address space, so only the subtractions can leave the range of
`std::size_t`; they are modelled with wrap-around and shown never to wrap.
-/

namespace ForgeDB
open LayeredMaps

structure MemTable where
  data : Entries
  sizeInBytes : ℕ
  deriving DecidableEq

namespace MemTable

def empty : MemTable := ⟨∅, 0⟩

def put (t : MemTable) (key value : Bytes) : MemTable :=
  match t.data.lookup key with
  | some entry =>
    ⟨t.data.insert key ⟨value, false⟩,
      sizeSub t.sizeInBytes (key.length + entry.value.length) + (key.length + value.length)⟩
  | none => ⟨t.data.insert key ⟨value, false⟩, t.sizeInBytes + (key.length + value.length)⟩

def erase (t : MemTable) (key : Bytes) : MemTable :=
  match t.data.lookup key with
  | some entry =>
    ⟨t.data.insert key ⟨[], true⟩,
      sizeSub t.sizeInBytes (key.length + entry.value.length) + key.length⟩
  | none => ⟨t.data.insert key ⟨[], true⟩, t.sizeInBytes + key.length⟩

def get (t : MemTable) (key : Bytes) : Option MemTableEntry :=
  (t.data.lookup key).map MemTableEntry.reported

def clear (_ : MemTable) : MemTable := ⟨∅, 0⟩

def recomputeSize (data : Entries) : ℕ :=
  data.entries.foldl
    (fun size e => if e.2.deleted then size + e.1.length else size + e.1.length + e.2.value.length) 0

def replace (_ : MemTable) (data : Entries) : MemTable := ⟨data, recomputeSize data⟩

def snapshot (t : MemTable) : Entries := t.data

@[simp] theorem put_data (t : MemTable) (key value : Bytes) :
    (t.put key value).data = t.data.insert key ⟨value, false⟩ := by
  rw [put]
  cases t.data.lookup key <;> rfl

@[simp] theorem erase_data (t : MemTable) (key : Bytes) :
    (t.erase key).data = t.data.insert key ⟨[], true⟩ := by
  rw [erase]
  cases t.data.lookup key <;> rfl

@[simp] theorem clear_data (t : MemTable) : t.clear.data = ∅ := rfl

@[simp] theorem replace_data (t : MemTable) (data : Entries) : (t.replace data).data = data := rfl

def entrySize (e : Σ _ : Bytes, MemTableEntry) : ℕ := e.1.length + e.2.value.length

def totalSize (data : Entries) : ℕ := (data.entries.map entrySize).sum

private theorem sum_kerase (es : List (Σ _ : Bytes, MemTableEntry)) (key : Bytes) :
    (es.map entrySize).sum =
      ((es.dlookup key).elim 0 (fun e => key.length + e.value.length)) +
        ((es.kerase key).map entrySize).sum := by
  induction es with
  | nil => rfl
  | cons e es ih =>
    obtain ⟨a, v⟩ := e
    by_cases hk : key = a
    · subst hk
      have hkerase : (⟨key, v⟩ :: es : List (Σ _ : Bytes, MemTableEntry)).kerase key = es :=
        List.kerase_cons_eq rfl
      rw [List.dlookup_cons_eq, hkerase]
      rfl
    · rw [List.kerase_cons_ne hk, List.dlookup_cons_ne _ _ hk, List.map_cons, List.map_cons,
        List.sum_cons, List.sum_cons, ih]
      omega

theorem totalSize_insert (data : Entries) (key : Bytes) (e : MemTableEntry) :
    totalSize (data.insert key e) +
        (data.lookup key).elim 0 (fun old => key.length + old.value.length) =
      totalSize data + (key.length + e.value.length) := by
  have h := sum_kerase data.entries key
  have hins : totalSize (data.insert key e) =
      (key.length + e.value.length) + ((data.entries.kerase key).map entrySize).sum := rfl
  rw [hins, totalSize, h]
  simp only [AList.lookup]
  omega

/-- The recorded size is the number of key and value bytes held. -/
def SizeExact (t : MemTable) : Prop := t.sizeInBytes = totalSize t.data

theorem sizeExact_empty : SizeExact empty := rfl

theorem sizeExact_clear (t : MemTable) : SizeExact t.clear := rfl

/-- No entry counts more bytes than are recorded, so taking one off never wraps around. -/
theorem SizeExact.le_of_lookup {t : MemTable} (h : SizeExact t) {key : Bytes} {e : MemTableEntry}
    (hk : t.data.lookup key = some e) : key.length + e.value.length ≤ t.sizeInBytes := by
  have hs : totalSize t.data = _ := sum_kerase t.data.entries key
  have hd : t.data.entries.dlookup key = some e := hk
  rw [hd, Option.elim_some] at hs
  rw [SizeExact] at h
  omega

/-- The size counted anew is exact when tombstones hold no value. -/
theorem sizeExact_replace (t : MemTable) {data : Entries}
    (h : ∀ e ∈ data.entries, e.2.deleted = true → e.2.value = []) : SizeExact (t.replace data) := by
  have hcount : ∀ (es : List (Σ _ : Bytes, MemTableEntry)) (start : ℕ),
      (∀ e ∈ es, e.2.deleted = true → e.2.value = []) →
      es.foldl (fun size e => if e.2.deleted then size + e.1.length
        else size + e.1.length + e.2.value.length) start = start + (es.map entrySize).sum := by
    intro es
    induction es with
    | nil => simp
    | cons e es ih =>
      intro start hes
      have hfirst : (if e.2.deleted then start + e.1.length
          else start + e.1.length + e.2.value.length) = start + entrySize e := by
        rw [entrySize]
        split
        · next hdeleted => simp [hes e List.mem_cons_self hdeleted]
        · omega
      rw [List.foldl_cons, hfirst, ih _ (fun e he => hes e (List.mem_cons_of_mem _ he)),
        List.map_cons, List.sum_cons, Nat.add_assoc]
  rw [SizeExact, replace, recomputeSize, hcount data.entries 0 h, Nat.zero_add]
  rfl

/-- Taking the old entry's bytes off and adding the new entry's is exact. -/
private theorem SizeExact.assign {t : MemTable} (h : SizeExact t) (key : Bytes)
    (e : MemTableEntry) :
    (match t.data.lookup key with
      | some old => sizeSub t.sizeInBytes (key.length + old.value.length) +
          (key.length + e.value.length)
      | none => t.sizeInBytes + (key.length + e.value.length)) =
      totalSize (t.data.insert key e) := by
  have hi := totalSize_insert t.data key e
  cases hk : t.data.lookup key with
  | none =>
    rw [hk] at hi
    rw [SizeExact] at h
    simp only [Option.elim_none] at hi
    simp only [h]
    omega
  | some old =>
    have hle := h.le_of_lookup hk
    rw [hk] at hi
    rw [SizeExact] at h
    simp only [Option.elim_some] at hi
    simp only [sizeSub_of_le hle]
    omega

theorem SizeExact.put {t : MemTable} (h : SizeExact t) (key value : Bytes) :
    SizeExact (t.put key value) := by
  rw [SizeExact, put_data, ← h.assign, MemTable.put]
  cases t.data.lookup key <;> rfl

theorem SizeExact.erase {t : MemTable} (h : SizeExact t) (key : Bytes) :
    SizeExact (t.erase key) := by
  rw [SizeExact, erase_data, ← h.assign, MemTable.erase]
  cases t.data.lookup key <;> rfl

theorem length_insert_le (data : Entries) (key : Bytes) (e : MemTableEntry) :
    (data.insert key e).entries.length ≤ data.entries.length + 1 := by
  have h : (data.entries.kerase key).length ≤ data.entries.length :=
    (List.kerase_sublist key data.entries).length_le
  exact Nat.succ_le_succ h

private theorem eq_of_head_eq {k k' : Bytes} (hk : k.length ≤ 1) (hk' : k'.length ≤ 1)
    (h : k.head? = k'.head?) : k = k' := by
  rcases k with _ | ⟨a, _ | ⟨b, rest⟩⟩ <;> rcases k' with _ | ⟨a', _ | ⟨b', rest'⟩⟩ <;> simp_all

/-- Few keys are shorter than two bytes, and all others count at least two bytes each. -/
theorem length_le_totalSize (data : Entries) :
    2 * data.entries.length ≤ 514 + totalSize data := by
  have hshort : (data.entries.filter (fun e => e.1.length ≤ 1)).length ≤ 257 := by
    have hkeys : ((data.entries.filter (fun e => e.1.length ≤ 1)).map Sigma.fst).Nodup :=
      data.keys_nodup.sublist (List.filter_sublist.map Sigma.fst)
    have hheads : (((data.entries.filter (fun e => e.1.length ≤ 1)).map Sigma.fst).map
        List.head?).Nodup := by
      apply hkeys.map_on
      intro k hk k' hk' hhead
      obtain ⟨e, he, rfl⟩ := List.mem_map.mp hk
      obtain ⟨e', he', rfl⟩ := List.mem_map.mp hk'
      exact eq_of_head_eq (of_decide_eq_true (List.mem_filter.mp he).2)
        (of_decide_eq_true (List.mem_filter.mp he').2) hhead
    have hcard := hheads.length_le_card
    simpa using hcard
  have hlong : ∀ es : List (Σ _ : Bytes, MemTableEntry),
      2 * (es.filter (fun e => !decide (e.1.length ≤ 1))).length ≤ (es.map entrySize).sum := by
    intro es
    induction es with
    | nil => simp
    | cons e es ih =>
      rw [List.map_cons, List.sum_cons, List.filter_cons]
      split
      · next h =>
        simp only [Bool.not_eq_true', decide_eq_false_iff_not] at h
        rw [List.length_cons, entrySize]
        omega
      · omega
  have hsum := hlong data.entries
  have hsplit := List.length_eq_length_filter_add (l := data.entries)
    (fun e => decide (e.1.length ≤ 1))
  rw [totalSize]
  omega

end MemTable
end ForgeDB
