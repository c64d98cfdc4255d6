import ForgeDB.WalRecovery

/-!
# Writes as data

A write is one of two operations. The log gets its record, the table in memory its
effect, and replaying the records is applying the effects.
-/

namespace ForgeDB
open CrashPrograms CrashPrograms.Io LayeredMaps WalRecovery

/-- The two calls by which the log grows. -/
inductive LogOperation where
  | put (key value : Bytes)
  | delete (key : Bytes)
  deriving DecidableEq

namespace LogOperation

def record : LogOperation → WalRecord
  | .put key value => ⟨.put, key, value⟩
  | .delete key => ⟨.delete, key, []⟩

def append (hc : HeaderConstants) (w : Wal) : LogOperation → Io (Bool × Wal)
  | .put key value => w.appendPut hc key value
  | .delete key => w.appendDelete hc key

def apply (t : MemTable) : LogOperation → MemTable
  | .put key value => t.put key value
  | .delete key => t.erase key

theorem append_eq (hc : HeaderConstants) (w : Wal) (op : LogOperation) :
    op.append hc w = w.appendRecord hc op.record := by
  cases op <;> rfl

theorem apply_data (t : MemTable) (op : LogOperation) :
    (op.apply t).data = applyRecord t.data op.record := by
  cases op with
  | put key value => exact t.put_data key value
  | delete key => exact t.erase_data key

def key (op : LogOperation) : Bytes := op.record.key

def entry : LogOperation → MemTableEntry
  | .put _ value => ⟨value, false⟩
  | .delete _ => ⟨[], true⟩

theorem applyRecord_record (data : Entries) (op : LogOperation) :
    applyRecord data op.record = data.insert op.key op.entry := by
  cases op <;> rfl

theorem apply_data_eq (t : MemTable) (op : LogOperation) :
    (op.apply t).data = t.data.insert op.key op.entry := by
  rw [apply_data, applyRecord_record]

theorem entry_value (op : LogOperation) : op.entry.value = op.record.value := by
  cases op <;> rfl

theorem sizeExact_apply {t : MemTable} (h : t.SizeExact) (op : LogOperation) :
    (op.apply t).SizeExact := by
  cases op with
  | put key value => exact h.put key value
  | delete key => exact h.erase key

theorem loggable {op : LogOperation}
    (h : 9 + op.record.key.length + op.record.value.length ≤ maxRecordSize) :
    Loggable op.record := by
  refine ⟨h, ?_⟩
  cases op with
  | put key value => rintro ⟨⟩
  | delete key => exact fun _ => rfl

theorem foldl_apply_data (ops : List LogOperation) (t : MemTable) :
    (ops.foldl apply t).data = replay t.data (ops.map record) := by
  induction ops generalizing t with
  | nil => rfl
  | cons op ops ih =>
    rw [List.foldl_cons, ih, apply_data]
    rfl

end LogOperation
end ForgeDB
