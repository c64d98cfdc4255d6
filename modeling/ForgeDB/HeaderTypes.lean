import ForgeDB.ByteStrings
import ForgeDB.LayeredMaps

/-!
# Data types declared in the headers

The headers `forgedb/*.hpp` are not part of the source tree. Their records are read
off their uses, and their constants are arbitrary values of the types they are
compared with.
-/

namespace ForgeDB
open LayeredMaps

/-- Constants the code takes from the headers. -/
structure HeaderConstants where
  walPut : Byte
  walDelete : Byte
  memtableFlushThreshold : ℕ
  compactionTableThreshold : ℕ
  walCodes_ne : walPut ≠ walDelete
  flushThreshold_pos : 0 < memtableFlushThreshold
  flushThreshold_lt : memtableFlushThreshold < 2 ^ 64
  compactionThreshold_pos : 0 < compactionTableThreshold
  compactionThreshold_lt : compactionTableThreshold < 2 ^ 64

private theorem one_ne_two : (1 : Byte) ≠ 2 := by decide

def HeaderConstants.ofThresholds (flush compaction : ℕ) (hflush : 0 < flush ∧ flush < 2 ^ 64)
    (hcompaction : 0 < compaction ∧ compaction < 2 ^ 64) : HeaderConstants :=
  ⟨1, 2, flush, compaction, one_ne_two, hflush.1, hflush.2, hcompaction.1, hcompaction.2⟩

/-- Every write fills the table in memory and two tables are already too many. -/
def HeaderConstants.least : HeaderConstants := .ofThresholds 1 2 (by decide) (by decide)

structure MemTableEntry where
  value : Bytes
  deleted : Bool
  deriving DecidableEq

/-- `std::unordered_map<std::string, MemTableEntry>` -/
abbrev Entries := Map Bytes MemTableEntry

/-- The out-parameters of a successful lookup: a tombstone clears the value. -/
def MemTableEntry.reported (e : MemTableEntry) : MemTableEntry :=
  ⟨if e.deleted then [] else e.value, e.deleted⟩

inductive WalRecordType where
  | put
  | delete
  deriving DecidableEq

structure WalRecord where
  type : WalRecordType
  key : Bytes
  value : Bytes
  deriving DecidableEq

inductive DurabilityMode where
  | sync
  | async
  deriving DecidableEq

structure SSTableMetadata where
  id : ℕ
  filename : Bytes
  smallestKey : Bytes
  largestKey : Bytes
  entryCount : ℕ
  deriving DecidableEq

inductive CommandType where
  | put
  | get
  | deleteKey
  | exit
  | invalid
  deriving DecidableEq

structure Command where
  type : CommandType := .invalid
  key : Bytes := []
  value : Bytes := []
  deriving DecidableEq

end ForgeDB
