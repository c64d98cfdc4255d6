import ForgeDB.RestartAnswers
import ForgeDB.WalCuts

/-!
# Opening a directory again

The files of a run can be opened again when the table list can be read back and every
listed file can be read or is missing: a missing file only makes the directory the
authority. Flushes keep this up. A compaction does too, unless its tables hold no live
key: then the list gets a line without keys, which cannot be read back.
-/

namespace ForgeDB.Reopening
open CommandParser CrashPrograms CrashPrograms.Io Database LayeredMaps SSTables TextStreams
open ReachedStates RestartAnswers WalRecovery

/-- Entries under a key that is a word, small enough for a table file. -/
def Kept (e : Entry) : Prop := IsWord e.1 ∧ SmallEntry e

/-- A table file that is missing, or read as entries under words. -/
def Sound (d : Disk) (path : Bytes) : Prop :=
  d.lookup path = none ∨ ∃ data, loadResult d path = .ok data ∧ ∀ e ∈ data.entries, Kept e

/-- A running database whose files can be opened again. The log is that of `ops`. -/
structure Reopenable (hc : HeaderConstants) (l : Layout) (d : Disk) (db : Database)
    (ops : List LogOperation) : Prop where
  wired : Wired l db.storage
  persisted : Persisted l d db.storage.manifest
  placed : ∀ t ∈ db.storage.manifest.tables, t.filename = l.tableFilename t.id
  sound : ∀ t ∈ db.storage.manifest.tables, Sound d t.filename
  carries : db.storage.wal.Carries d (frames hc (ops.map LogOperation.record))
  payload : ∀ op ∈ ops, 9 + op.record.key.length + op.record.value.length ≤ maxRecordSize
  kept : ∀ e ∈ db.memtable.data.entries, Kept e

section Loading

variable {d d' : Disk} {path : Bytes} {tables : List SSTableMetadata} {base data : Entries}

theorem loadResult_of_same (hsame : d'.lookup path = d.lookup path) :
    loadResult d' path = loadResult d path := by
  rw [loadResult, loadResult, Disk.contents, Disk.contents, hsame]

theorem Sound.of_same (h : Sound d path) (hsame : d'.lookup path = d.lookup path) :
    Sound d' path := by
  rw [Sound, hsame, loadResult_of_same hsame]
  exact h

theorem sound_of_log {l : Layout} (hplaced : ∀ t ∈ tables, t.filename = l.tableFilename t.id)
    (hsound : ∀ t ∈ tables, Sound d t.filename)
    (hother : ∀ q ≠ l.walFilename, d'.lookup q = d.lookup q) :
    ∀ t ∈ tables, Sound d' t.filename := by
  intro t ht
  apply (hsound t ht).of_same
  apply hother
  rw [hplaced t ht]
  exact (l.wal_ne_table t.id).symm

theorem kept_loadedEntries (h : ∀ e ∈ data.entries, Kept e) :
    ∀ e ∈ (loadedEntries data).entries, Kept e := by
  rintro ⟨key, e⟩ he
  have hk : (loadedEntries data).lookup key = some e := AList.mem_lookup_iff.mpr he
  rw [lookup_loadedEntries] at hk
  exact h _ (AList.mem_lookup_iff.mp hk)

theorem sound_written (hkept : ∀ e ∈ data.entries, Kept e) (hcount : data.entries.length < 2 ^ 64)
    (hfile : d.lookup path = some (.regular (tableContents data))) : Sound d path := by
  refine Or.inr ⟨loadedEntries data, ?_, kept_loadedEntries hkept⟩
  rw [loadResult_of_lookup hfile]
  exact parseTable_tableContents ⟨fun e he => (hkept e he).2, hcount⟩

theorem loadTables_ok (h : ∀ t ∈ tables, ∃ data, loadResult d t.filename = .ok data)
    (base : Entries) : ∃ data, Succeeds (Storage.loadTables tables base) d (.ok data) d := by
  induction tables generalizing base with
  | nil => exact ⟨base, .pure⟩
  | cons table tables ih =>
    obtain ⟨data, hdata⟩ := h table List.mem_cons_self
    obtain ⟨merged, hrest⟩ := ih (fun t ht => h t (List.mem_cons_of_mem _ ht)) (overwrite base data)
    have hload := load_eq d table
    rw [hdata] at hload
    exact ⟨merged, hload.bind hrest⟩

/-- Loading sound tables ends in an error or in entries under words. -/
theorem loadTables_sound (h : ∀ t ∈ tables, Sound d t.filename)
    (hbase : ∀ e ∈ base.entries, Kept e) :
    ∃ r, Succeeds (Storage.loadTables tables base) d r d ∧
      ∀ data, r = .ok data → ∀ e ∈ data.entries, Kept e := by
  obtain ⟨r, hload⟩ := loadTables_total d tables base
  refine ⟨r, hload, ((loadTables_forall hbase fun t ht found hfound => ?_).of_succeeds hload).2⟩
  rcases h t ht with hnone | ⟨data, hdata, hkept⟩
  · rw [loadResult, Disk.contents, hnone] at hfound
    cases hfound
  · rw [hdata] at hfound
    exact Except.ok.inj hfound ▸ hkept

end Loading

section Opening

variable {hc : HeaderConstants} {l : Layout} {d : Disk} {db : Database} {ops : List LogOperation}

theorem load_reopened (hc : HeaderConstants) (s : Storage) {n : ℕ} (hw : s.wal.filename = l.walFilename)
    (htables : ∀ t ∈ s.manifest.tables, ∃ data, loadResult d t.filename = .ok data)
    (hlog : d.lookup l.walFilename =
      some (.regular ((frames hc (ops.map LogOperation.record)).take n)))
    (hops : ∀ op ∈ ops, 9 + op.record.key.length + op.record.value.length ≤ maxRecordSize) :
    ∃ data, Succeeds (s.load hc) d (.ok data) d := by
  obtain ⟨data, hload⟩ := loadTables_ok htables ∅
  obtain ⟨-, hstatus⟩ := WalCuts.recoverFrom_take_frames hc ops hops n
  have hrec : Succeeds (recoverWal hc s.wal.filename) d
      (recoverFrom hc ∅ ((frames hc (ops.map LogOperation.record)).take n)) d := by
    rw [hw]
    exact recoverWal_succeeds hlog
  exact ⟨_, load_recovered hload hrec hstatus⟩

/-- Listing the directory takes only tables that can be read, and writing the list does not touch
them. -/
theorem rebuild_readable {m : Manifest} (hman : m.filename = l.manifestFilename) (d : Disk) :
    ∃ m' d', Succeeds (m.rebuildFromDirectory (Storage.tablesDirectory l.walFilename)) d
        (.ok (), m') d' ∧ Disk.SameExcept m.paths d d' ∧
      ∀ t ∈ m'.tables, ∃ data, loadResult d' t.filename = .ok data := by
  obtain ⟨m', d', hrebuild, -, hsame, hfound⟩ :=
    m.rebuildFromDirectory_succeeds (Storage.tablesDirectory l.walFilename) d
  refine ⟨m', d', hrebuild, hsame, fun t ht => ?_⟩
  obtain ⟨⟨contents, data, hcontents, hparse⟩, hext⟩ := hfound t ht
  refine ⟨data, ?_⟩
  rw [loadResult_of_same (hsame _ (l.sst_notMem_paths hman hext)), loadResult_of_lookup hcontents,
    hparse]

/-- A start on a readable list and a cut log. A listed file may be missing. -/
theorem initialize_reopened {m : Manifest} {n : ℕ} (mode : DurabilityMode) (hp : Persisted l d m)
    (hplaced : ∀ t ∈ m.tables, t.filename = l.tableFilename t.id)
    (hsound : ∀ t ∈ m.tables, Sound d t.filename)
    (hlog : d.lookup l.walFilename =
      some (.regular ((frames hc (ops.map LogOperation.record)).take n)))
    (hops : ∀ op ∈ ops, 9 + op.record.key.length + op.record.value.length ≤ maxRecordSize) :
    ∃ db' d', Succeeds (initializeDatabase hc l.walFilename mode) d (.ok db') d' := by
  obtain ⟨w, d₁, hcreate, -, hname, -, hfile, hother⟩ :=
    Wal.create_succeeds l.walFilename mode d _ (Or.inl hlog)
  have hp₁ := hp.of_same (hother _ l.wal_ne_manifest.symm)
  have hman := hp.filename_eq
  have hsound₁ := sound_of_log hplaced hsound hother
  by_cases hall : m.tables.all (fun table => (d₁.lookup table.filename).isSome) = true
  · -- every listed file is there
    have htables : ∀ t ∈ m.tables, ∃ data, loadResult d₁ t.filename = .ok data := by
      intro t ht
      have hsome := List.all_eq_true.mp hall t ht
      rcases hsound₁ t ht with hnone | ⟨data, hdata, -⟩
      · rw [hnone] at hsome
        cases hsome
      · exact ⟨data, hdata⟩
    obtain ⟨data, hload⟩ := load_reopened hc ⟨l.walFilename, mode, w, m⟩ hname htables hfile hops
    have hinit := initializeStorage_listed hcreate hp₁.load hall
    exact ⟨_, d₁, hinit.bind (hload.bind .pure)⟩
  · -- the directory is listed instead
    obtain ⟨m', d₂, hrebuild, hsame, htables⟩ := rebuild_readable hman d₁
    have hfile₂ := (hsame _ (l.wal_notMem_paths hman)).trans hfile
    obtain ⟨data, hload⟩ := load_reopened hc ⟨l.walFilename, mode, w, m'⟩ hname htables hfile₂ hops
    have hinit := initializeStorage_rebuilt hcreate hp₁.load hall hrebuild
    exact ⟨_, d₂, hinit.bind (hload.bind .pure)⟩

/-- The files as the end of the process leaves them: some of the bytes still in the stream's
buffer have reached the log. -/
def drained (l : Layout) (db : Database) (n : ℕ) (d : Disk) : Disk :=
  Disk.append l.walFilename (db.storage.wal.buffered.take n) d

theorem Reopenable.reopens (h : Reopenable hc l d db ops) (mode : DurabilityMode) (n : ℕ) :
    ∃ db' d', Succeeds (initializeDatabase hc l.walFilename mode) (drained l db n d) (.ok db') d' := by
  obtain ⟨c, hcont, hs⟩ := h.carries.stored
  rw [h.wired.wal_eq] at hcont
  have hother : ∀ q ≠ l.walFilename, (drained l db n d).lookup q = d.lookup q :=
    fun q hq => Disk.lookup_put_ne hq
  have hlog : (drained l db n d).lookup l.walFilename =
      some (.regular ((frames hc (ops.map LogOperation.record)).take (c.length + n))) := by
    rw [← hs, List.take_length_add_append]
    exact Disk.lookup_append _ hcont
  exact initialize_reopened mode (h.persisted.of_same (hother _ l.wal_ne_manifest.symm)) h.placed
    (sound_of_log h.placed h.sound hother) hlog h.payload

end Opening

section Steps

variable {hc : HeaderConstants} {l : Layout} {d d' : Disk} {db : Database} {m : Manifest}
  {data : Entries} {ops : List LogOperation}

theorem printable_pushed (hplain : l.Plain) (h : m.Printable) (hlen : m.tables.length + 1 < 2 ^ 64)
    (hkept : ∀ e ∈ data.entries, Kept e) (hcount : data.entries.length < 2 ^ 64)
    (hne : data.entries ≠ []) : (m.pushed (Shows.nextTable l m data)).Printable := by
  refine ⟨?_, ?_, ?_⟩
  · rw [Manifest.pushed]
    split
    · exact Nat.mod_lt _ (by norm_num)
    · exact h.next_lt
  · rw [Manifest.pushed, List.length_append, List.length_singleton]
    exact hlen
  · intro t ht
    rcases List.mem_append.mp ht with ht | ht
    · exact h.readable t ht
    · rw [List.mem_singleton.mp ht]
      exact readable_nextTable hplain h.next_lt ⟨fun e he => (hkept e he).2, hcount⟩ hne
        (fun e he => (hkept e he).1)

theorem placed_pushed (h : ∀ t ∈ m.tables, t.filename = l.tableFilename t.id) :
    ∀ t ∈ (m.pushed (Shows.nextTable l m data)).tables, t.filename = l.tableFilename t.id := by
  intro t ht
  rcases List.mem_append.mp ht with ht | ht
  · exact h t ht
  · rw [List.mem_singleton.mp ht]
    rfl

theorem Reopenable.flushed (hplain : l.Plain) (h : Reopenable hc l d db ops)
    (hne : db.memtable.data.entries ≠ []) (hcount : db.memtable.data.entries.length < 2 ^ 64)
    (hlen : db.storage.tableCount + 1 < 2 ^ 64) :
    ∃ db' d', Succeeds db.flushMemtable d (.ok (), db') d' ∧ Reopenable hc l d' db' [] ∧
      db'.storage.tableCount = db.storage.tableCount + 1 := by
  have hname := h.persisted.filename_eq
  obtain ⟨s', d', hflush, hw', hcar', -, hman, htable, htext, hsame⟩ :=
    flushMemtable_run h.wired hname h.carries hne
  have hrun : Succeeds db.flushMemtable d (.ok (), ⟨db.memtable.clear, s'⟩) d' := by
    rw [flushMemtable_nonempty hne]
    exact hflush.bind .pure
  have hprint := printable_pushed hplain h.persisted.printable hlen h.kept hcount hne
  have hnew := sound_written h.kept hcount htable
  refine ⟨_, d', hrun, ⟨hw', Or.inl ⟨htext, hman ▸ hprint, hman ▸ hname⟩, ?_, ?_, hcar', by simp,
    fun e he => absurd he List.not_mem_nil⟩, ?_⟩
  · rw [hman]
    exact placed_pushed h.placed
  · intro t ht
    rw [hman] at ht
    rcases List.mem_append.mp ht with ht | ht
    · -- a listed file of the same name is the new file
      by_cases hid : t.filename = l.tableFilename db.storage.manifest.nextTableId
      · rw [hid]
        exact hnew
      · refine (h.sound t ht).of_same (hsame _ ?_)
        rw [List.mem_cons, List.mem_cons, not_or, not_or]
        refine ⟨hid, ?_, ?_⟩
        · rw [h.placed t ht]
          exact (l.wal_ne_table t.id).symm
        · rw [h.placed t ht]
          exact l.table_notMem_paths hname t.id
    · rw [List.mem_singleton.mp ht]
      exact hnew
  · rw [Storage.tableCount, hman, Manifest.pushed, List.length_append]
    rfl

theorem removeFiles_succeeds (tables : List SSTableMetadata) (d : Disk) :
    ∃ d', Succeeds (Storage.removeFiles tables) d () d' ∧
      (∀ t ∈ tables, d'.lookup t.filename = none) ∧
      Disk.SameExcept (tables.map SSTableMetadata.filename) d d' := by
  induction tables generalizing d with
  | nil => exact ⟨d, .pure, by simp, .refl⟩
  | cons table tables ih =>
    obtain ⟨d', hrun, hnone, hsame⟩ := ih (d.erase table.filename)
    refine ⟨d', Succeeds.attempt.bind hrun, ?_, ?_⟩
    · intro t ht
      rcases List.mem_cons.mp ht with rfl | ht
      · by_cases hmem : t.filename ∈ tables.map SSTableMetadata.filename
        · obtain ⟨t', ht', he⟩ := List.mem_map.mp hmem
          rw [← he]
          exact hnone t' ht'
        · rw [hsame _ hmem, AList.lookup_erase]
      · exact hnone t ht
    · intro q hq
      rw [List.map_cons, List.mem_cons, not_or] at hq
      rw [hsame q hq.2, AList.lookup_erase_ne hq.1]

/-- The list after a compaction that has written `data`. -/
def relisted (l : Layout) (m : Manifest) (data : Entries) : Manifest :=
  (m.pushed (Shows.nextTable l m data)).without (m.tables.map SSTableMetadata.id)

theorem relisted_sublist (l : Layout) (m : Manifest) (data : Entries) :
    (relisted l m data).tables.Sublist (m.pushed (Shows.nextTable l m data)).tables :=
  List.filter_sublist

/-- Writing, listing and unlisting with every step succeeding. -/
theorem replaceTables_run {s : Storage} (hw : s.walFilename = l.walFilename) (data : Entries)
    (d : Disk) :
    ∃ d', Succeeds (s.replaceTables data) d
        (.ok (), { s with manifest := relisted l s.manifest data }) d' ∧
      d'.lookup s.manifest.filename =
        some (.regular (relisted l s.manifest data).manifestText) ∧
      Disk.SameExcept (l.tableFilename s.manifest.nextTableId :: s.manifest.paths) d d' := by
  obtain ⟨d₁, hwrite, -, hsame₁⟩ := write_succeeds d (l.tableFilename s.manifest.nextTableId)
    s.manifest.nextTableId data
  obtain ⟨d₂, hadd, -, hsame₂⟩ := s.manifest.addTable_succeeds
    (Shows.nextTable l s.manifest data) d₁
  obtain ⟨d₃, hremove, hman, hsame₃⟩ :=
    (s.manifest.pushed (Shows.nextTable l s.manifest data)).removeTables_succeeds
      (s.manifest.tables.map SSTableMetadata.id) d₂
  refine ⟨d₃, ?_, hman, ?_⟩
  · rw [Storage.replaceTables, hw]
    exact hwrite.bind (hadd.bind (hremove.bind .pure))
  · intro q hq
    rw [List.mem_cons, not_or] at hq
    rw [hsame₃ q hq.2, hsame₂ q hq.2, hsame₁ q (by simpa using hq.1)]

/-- A compaction that keeps an entry, or that cannot read its tables. -/
theorem Reopenable.compacted (hplain : l.Plain) (h : Reopenable hc l d db ops)
    (hlen : db.storage.tableCount + 1 < 2 ^ 64)
    (hlive : 2 ≤ db.storage.tableCount → ∀ merged,
      Succeeds (Storage.loadTables db.storage.manifest.tables ∅) d (.ok merged) d →
      merged.entries.length < 2 ^ 64 ∧ (Storage.dropTombstones merged).entries ≠ []) :
    ∃ r s' d', Succeeds db.storage.compact d (r, s') d' ∧
      Reopenable hc l d' { db with storage := s' } ops := by
  rw [Storage.compact]
  by_cases hfew : db.storage.manifest.tables.length < 2
  · rw [if_pos hfew]
    exact ⟨.ok (), db.storage, d, .pure, h⟩
  rw [if_neg hfew]
  have hnothing : ∀ e ∈ (∅ : Entries).entries, Kept e := fun e he => absurd he List.not_mem_nil
  obtain ⟨r, hload, hkept⟩ := loadTables_sound h.sound hnothing
  cases r with
  | error e =>
    have hmerge : Succeeds db.storage.mergeTables d (.error e, db.storage) d := hload.bind .pure
    exact ⟨.error e, db.storage, d, hmerge.bind .pure, h⟩
  | ok merged =>
    have hname := h.persisted.filename_eq
    obtain ⟨hcount, hne⟩ := hlive (not_lt.mp hfew) merged hload
    obtain ⟨d₁, hreplace, htext, hsame₁⟩ :=
      replaceTables_run h.wired.walFilename_eq (Storage.dropTombstones merged) d
    have hkeptLive : ∀ e ∈ (Storage.dropTombstones merged).entries, Kept e :=
      fun e he => hkept merged rfl e (List.mem_of_mem_filter he)
    have hprint := printable_pushed hplain h.persisted.printable hlen hkeptLive
      ((length_keepIf_le _ _).trans_lt hcount) hne
    have hsub := relisted_sublist l db.storage.manifest (Storage.dropTombstones merged)
    generalize hm : relisted l db.storage.manifest (Storage.dropTombstones merged) = m
      at hreplace htext hsub
    have hplaced : ∀ t ∈ m.tables, t.filename = l.tableFilename t.id :=
      fun t ht => placed_pushed h.placed t (hsub.subset ht)
    obtain ⟨d₂, hremove, hnone, hsame₂⟩ := removeFiles_succeeds m.tables d₁
    have hoff : ∀ q, (∀ id, q ≠ l.tableFilename id) → d₂.lookup q = d₁.lookup q := by
      intro q hq
      refine hsame₂ q (fun hmem => ?_)
      obtain ⟨t, ht, rfl⟩ := List.mem_map.mp hmem
      exact hq t.id (hplaced t ht)
    have hmerge : Succeeds db.storage.mergeTables d (.ok (), { db.storage with manifest := m }) d₁ :=
      hload.bind hreplace
    have hmname : m.filename = l.manifestFilename := by
      rw [← hm]
      exact hname
    refine ⟨.ok (), { db.storage with manifest := m }, d₂, hmerge.bind (hremove.bind .pure),
      ⟨h.wired.walFilename_eq, h.wired.wal_eq⟩, Or.inl ⟨?_, ?_, hmname⟩, hplaced,
      fun t ht => Or.inl (hnone t ht), ?_, h.payload, h.kept⟩
    · rw [hname] at htext
      exact (hoff _ (Layout.manifest_ne_table l.walFilename)).trans htext
    · refine ⟨?_, hsub.length_le.trans_lt hprint.length_lt, fun t ht => hprint.readable t (hsub.subset ht)⟩
      rw [← hm]
      exact hprint.next_lt
    · apply h.carries.of_same
      rw [h.wired.wal_eq, hoff _ l.wal_ne_table, hsame₁ _ ?_]
      rw [List.mem_cons, not_or]
      exact ⟨l.wal_ne_table _, l.wal_notMem_paths hname⟩

end Steps

/-- The engine and the files a write hands to `Storage::compact`, if it comes to that. -/
def compactionOf (hc : HeaderConstants) (db : Database) (d : Disk) (command : Command) :
    Option (Storage × Disk) := do
  let op ← operation command
  match op.append hc db.storage.wal ⟨d, []⟩ with
  | .returned (true, wal) w =>
    let mid := db.written wal op
    if mid.memtable.sizeInBytes < hc.memtableFlushThreshold then none
    else
      match mid.flushMemtable w with
      | .returned (.ok _, db') w' =>
        if shouldCompact hc db'.storage ∧ 2 ≤ db'.storage.tableCount then some (db'.storage, w'.disk)
        else none
      | _ => none
  | _ => none

/-- What the tables hold together, when all of them can be read. -/
def merging (s : Storage) (d : Disk) : Option Entries :=
  match Storage.loadTables s.manifest.tables ∅ ⟨d, []⟩ with
  | .returned (.ok data) _ => some data
  | _ => none

/-- The log takes the record, and the counts stay in the range of `std::size_t`. -/
structure Within (hc : HeaderConstants) (db : Database) (d : Disk) (command : Command) : Prop where
  payload : ∀ op ∈ operation command,
    9 + op.record.key.length + op.record.value.length ≤ maxRecordSize
  memory : ∀ op ∈ operation command, (op.apply db.memtable).data.entries.length < 2 ^ 64
  tables : db.storage.tableCount + 2 < 2 ^ 64
  merged : ∀ c ∈ compactionOf hc db d command, ∀ data ∈ merging c.1 c.2, data.entries.length < 2 ^ 64

instance (hc : HeaderConstants) (db : Database) (d : Disk) (command : Command) :
    Decidable (Within hc db d command) :=
  decidable_of_iff
    ((∀ op ∈ operation command, 9 + op.record.key.length + op.record.value.length ≤ maxRecordSize) ∧
      (∀ op ∈ operation command, (op.apply db.memtable).data.entries.length < 2 ^ 64) ∧
      db.storage.tableCount + 2 < 2 ^ 64 ∧ ∀ c ∈ compactionOf hc db d command,
        ∀ data ∈ merging c.1 c.2, data.entries.length < 2 ^ 64)
    ⟨fun h => ⟨h.1, h.2.1, h.2.2.1, h.2.2.2⟩, fun h => ⟨h.payload, h.memory, h.tables, h.merged⟩⟩

def HasLive (data : Entries) : Prop := ∃ e ∈ data.entries, e.2.deleted = false

instance (data : Entries) : Decidable (HasLive data) :=
  inferInstanceAs (Decidable (∃ e ∈ data.entries, e.2.deleted = false))

/-- Runs from an empty directory in which every compaction that can read its tables finds a
live key in them. -/
inductive Runs (hc : HeaderConstants) (l : Layout) (mode : DurabilityMode) : Database → Disk → Prop
  | start {d d' : Disk} {db : Database} : Fresh l d →
      Succeeds (initializeDatabase hc l.walFilename mode) d (.ok db) d' → Runs hc l mode db d'
  | command {db db' : Database} {d d' : Disk} (input response : Bytes) : Runs hc l mode db d →
      Within hc db d (parseCommand input) →
      (∀ c ∈ compactionOf hc db d (parseCommand input), ∀ data ∈ merging c.1 c.2, HasLive data) →
      Succeeds (db.execute hc (parseCommand input)) d (response, db') d' → Runs hc l mode db' d'

section Runs

variable {hc : HeaderConstants} {l : Layout} {mode : DurabilityMode} {d : Disk} {db : Database}
  {ops : List LogOperation} {input : Bytes}

theorem dropTombstones_ne_nil {data : Entries} (h : HasLive data) :
    (Storage.dropTombstones data).entries ≠ [] := by
  obtain ⟨e, he, hlive⟩ := h
  exact List.ne_nil_of_mem (List.mem_filter.mpr ⟨he, by simp [hlive]⟩)

theorem merging_of_succeeds {s : Storage} {d' : Disk} {data : Entries}
    (h : Succeeds (Storage.loadTables s.manifest.tables ∅) d (.ok data) d') :
    merging s d = some data := by
  rw [Succeeds] at h
  rw [merging, h]

theorem Reopenable.flushIfDue (hplain : l.Plain) (h : Reopenable hc l d db ops)
    (hne : db.memtable.data.entries ≠ []) (hcount : db.memtable.data.entries.length < 2 ^ 64)
    (hlen : db.storage.tableCount + 2 < 2 ^ 64)
    (hlive : ∀ db' d', Succeeds db.flushMemtable d (.ok (), db') d' →
      hc.memtableFlushThreshold ≤ db.memtable.sizeInBytes →
      hc.compactionTableThreshold ≤ db'.storage.tableCount → 2 ≤ db'.storage.tableCount →
      ∀ data ∈ merging db'.storage d', data.entries.length < 2 ^ 64 ∧ HasLive data) :
    ∃ response db' d' ops', Succeeds (Database.flushIfDue hc db) d (response, db') d' ∧
      Reopenable hc l d' db' ops' := by
  rw [Database.flushIfDue]
  by_cases hlt : db.memtable.sizeInBytes < hc.memtableFlushThreshold
  · rw [if_pos hlt]
    exact ⟨_, db, d, ops, .pure, h⟩
  rw [if_neg hlt]
  obtain ⟨db₁, d₁, hflush, h₁, hcount₁⟩ := h.flushed hplain hne hcount (by omega)
  by_cases hcompact : shouldCompact hc db₁.storage = true
  · -- a compaction follows
    have hthreshold : hc.compactionTableThreshold ≤ db₁.storage.tableCount := by
      simpa [shouldCompact] using hcompact
    have hmerged : 2 ≤ db₁.storage.tableCount → ∀ merged,
        Succeeds (Storage.loadTables db₁.storage.manifest.tables ∅) d₁ (.ok merged) d₁ →
        merged.entries.length < 2 ^ 64 ∧ (Storage.dropTombstones merged).entries ≠ [] := by
      intro htwo merged hload
      obtain ⟨hfit, hhas⟩ := hlive db₁ d₁ hflush (not_lt.mp hlt) hthreshold htwo merged
        (merging_of_succeeds hload)
      exact ⟨hfit, dropTombstones_ne_nil hhas⟩
    obtain ⟨r, s', d₂, hrun, h₂⟩ := h₁.compacted hplain (by omega) hmerged
    have hmaybe : Succeeds (db₁.maybeCompact hc) d₁ (r, { db₁ with storage := s' }) d₂ := by
      rw [maybeCompact, hcompact]
      exact hrun.bind .pure
    cases r with
    | error e =>
      exact ⟨_, _, d₂, [], hflush.bind (hmaybe.bind .pure), h₂⟩
    | ok u => exact ⟨_, _, d₂, [], hflush.bind (hmaybe.bind .pure), h₂⟩
  · have hno : Succeeds (db₁.maybeCompact hc) d₁ (.ok (), db₁) d₁ := by
      rw [maybeCompact, Bool.eq_false_iff.mpr hcompact]
      exact .pure
    exact ⟨_, db₁, d₁, [], hflush.bind (hno.bind .pure), h₁⟩

theorem Reopenable.written (h : Reopenable hc l d db ops) {op : LogOperation}
    (hop : 9 + op.record.key.length + op.record.value.length ≤ maxRecordSize)
    (hword : IsWord op.key) :
    ∃ wal d', Succeeds (op.append hc db.storage.wal) d (true, wal) d' ∧
      Reopenable hc l d' (db.written wal op) (ops ++ [op]) := by
  obtain ⟨wal, d', happend, hcar, ⟨hname, -⟩, hsame⟩ :=
    Wal.appendRecord_succeeds hc h.carries op.record
  rw [h.wired.wal_eq] at hsame
  have hother : ∀ q ≠ l.walFilename, d'.lookup q = d.lookup q :=
    fun q hq => hsame q (by simpa using hq)
  rw [← LogOperation.append_eq] at happend
  refine ⟨wal, d', happend, ⟨h.wired.walFilename_eq, hname.trans h.wired.wal_eq⟩,
    h.persisted.of_same (hother _ l.wal_ne_manifest.symm), h.placed,
    sound_of_log h.placed h.sound hother, ?_, ?_, ?_⟩
  · rw [List.map_append, List.map_singleton, frames_append, frames_cons, frames_nil, List.append_nil]
    exact hcar
  · intro op' hop'
    rcases List.mem_append.mp hop' with hop' | hop'
    · exact h.payload op' hop'
    · rw [List.mem_singleton.mp hop']
      exact hop
  · rw [Database.written, LogOperation.apply_data_eq]
    refine forall_mem_insert h.kept ⟨hword, ?_, ?_⟩
    · change op.record.key.length < 2 ^ 32
      rw [maxRecordSize] at hop
      omega
    · rw [LogOperation.entry_value]
      rw [maxRecordSize] at hop
      omega

theorem Reopenable.command (hplain : l.Plain) (h : Reopenable hc l d db ops)
    (hwithin : Within hc db d (parseCommand input))
    (hlive : ∀ c ∈ compactionOf hc db d (parseCommand input), ∀ data ∈ merging c.1 c.2,
      HasLive data)
    {response : Bytes} {db' : Database} {d' : Disk}
    (hrun : Succeeds (db.execute hc (parseCommand input)) d (response, db') d') :
    ∃ ops', Reopenable hc l d' db' ops' := by
  cases hop : operation (parseCommand input) with
  | none =>
    obtain ⟨rfl, rfl⟩ := execute_other hc db hop hrun
    exact ⟨ops, h⟩
  | some op =>
    obtain ⟨wal, d₁, happend, h₁⟩ := h.written (hwithin.payload op hop) (isWord_key hop)
    have hof : ∀ db₂ d₂, Succeeds (db.written wal op).flushMemtable d₁ (.ok (), db₂) d₂ →
        hc.memtableFlushThreshold ≤ (db.written wal op).memtable.sizeInBytes →
        hc.compactionTableThreshold ≤ db₂.storage.tableCount → 2 ≤ db₂.storage.tableCount →
        (db₂.storage, d₂) ∈ compactionOf hc db d (parseCommand input) := by
      intro db₂ d₂ hflush hdue hthreshold htwo
      have hcompact : shouldCompact hc db₂.storage = true := by simpa [shouldCompact] using hthreshold
      rw [Succeeds] at happend hflush
      simp [compactionOf, hop, happend, not_lt.mpr hdue, hflush, hcompact, htwo]
    obtain ⟨response', db₂, d₂, ops', hend, h₂⟩ := h₁.flushIfDue hplain (written_nonempty db wal op)
      (hwithin.memory op hop) hwithin.tables
      (fun db₂ d₂ hflush hdue hthreshold htwo data hdata =>
        ⟨hwithin.merged _ (hof db₂ d₂ hflush hdue hthreshold htwo) data hdata,
          hlive _ (hof db₂ d₂ hflush hdue hthreshold htwo) data hdata⟩)
    have hexec : Succeeds (db.execute hc (parseCommand input)) d (response', db₂) d₂ := by
      rw [execute_write hc db hop]
      exact happend.bind hend
    obtain ⟨hresponse, rfl⟩ := hrun.unique hexec
    obtain ⟨-, rfl⟩ := Prod.mk.inj hresponse
    exact ⟨ops', h₂⟩

theorem reopenable_start (hd : Fresh l d) {d' : Disk}
    (hinit : Succeeds (initializeDatabase hc l.walFilename mode) d (.ok db) d') :
    Reopenable hc l d' db [] := by
  have hp : Persisted l d ⟨l.manifestFilename, [], 1⟩ := Or.inr ⟨hd.manifest_none, rfl⟩
  obtain ⟨db', d₁, hinit', hw, hman, hcar, -, hsame, hmem⟩ :=
    initialize_succeeds hc mode hp (.empty l d) (Or.inr ⟨hd.wal_none, rfl⟩) (Or.inl rfl)
  obtain ⟨hdb, rfl⟩ := hinit.unique hinit'
  cases hdb
  have hempty : db.memtable = MemTable.empty := hmem
  refine ⟨hw, ?_, ?_, ?_, hcar, by simp, ?_⟩
  · rw [hman]
    exact hp.of_same (hsame _ (by simpa using l.wal_ne_manifest.symm))
  · simp [hman]
  · simp [hman]
  · rw [hempty]
    exact fun e he => absurd he List.not_mem_nil

theorem Runs.reopenable (hplain : l.Plain) (h : Runs hc l mode db d) :
    ∃ ops, Reopenable hc l d db ops := by
  induction h with
  | start hd hinit => exact ⟨[], reopenable_start hd hinit⟩
  | command input response _ hwithin hlive hrun ih =>
    obtain ⟨ops, h⟩ := ih
    exact h.command hplain hwithin hlive hrun

end Runs

/-- After every such run the directory can be opened again, in any mode, and however much of
the stream's buffer reached the log. -/
theorem run_reopens (hc : HeaderConstants) (l : Layout) (hplain : l.Plain) (mode : DurabilityMode)
    (db : Database) (d : Disk) (h : Runs hc l mode db d) (mode' : DurabilityMode) (n : ℕ) :
    ∃ db' d', Succeeds (initializeDatabase hc l.walFilename mode') (drained l db n d) (.ok db')
      d' := by
  obtain ⟨ops, hopen⟩ := h.reopenable hplain
  exact hopen.reopens mode' n

/-- The database of the sample directory with the given list, and nothing in memory. -/
def listing (tables : List SSTableMetadata) (nextTableId : ℕ) : Database where
  memtable := MemTable.empty
  storage := ⟨directory.walFilename, .async, ⟨directory.walFilename, .async, true, true, []⟩,
    ⟨directory.manifestFilename, tables, nextTableId⟩⟩

/-- The database and its files after an input, with every step succeeding. -/
def entered (hc : HeaderConstants) (state : Database × Disk) (input : Bytes) : Database × Disk :=
  match state.1.execute hc (parseCommand input) ⟨state.2, []⟩ with
  | .returned r w => (r.2, w.disk)
  | .died d => (state.1, d)

def table (id : ℕ) (data : Entries) : SSTableMetadata :=
  metadataOf id (directory.tableFilename id) data

def value : MemTableEntry := ⟨text "x", false⟩

/-- Two writes, the second with a compaction that finds both keys. -/
theorem run_reopens_compacted :
    ∃ db d, Runs .least directory .async db d ∧ db.storage.tableCount = 1 ∧
      ∃ db' d', Succeeds (initializeDatabase .least directory.walFilename .sync)
        (drained directory db 0 d) (.ok db') d' := by
  have hstart : Runs .least directory .async (listing [] 1) openedDisk :=
    .start (d := ∅) ⟨rfl, rfl⟩ (by decide +kernel)
  have hfirst : Runs .least directory .async (listing [table 1 (AList.singleton (text "a") value)] 2)
      (entered .least (listing [] 1, openedDisk) (text "PUT a x")).2 :=
    hstart.command (text "PUT a x") (text "OK") (by decide +kernel) (by decide +kernel)
      (by decide +kernel)
  have hsecond : Runs .least directory .async
      (listing [table 3 ((AList.singleton (text "a") value : Entries).insert (text "b") value)] 4)
      (entered .least (entered .least (listing [] 1, openedDisk) (text "PUT a x"))
        (text "PUT b x")).2 :=
    hfirst.command (text "PUT b x") (text "OK") (by decide +kernel) (by decide +kernel)
      (by decide +kernel)
  exact ⟨_, _, hsecond, rfl, run_reopens .least directory (by decide +kernel) .async _ _ hsecond .sync 0⟩

def typed (hc : HeaderConstants) (walFilename : Bytes) (mode : DurabilityMode)
    (inputs : List Bytes) : Io (Except Bytes (List Bytes × Database)) := do
  match ← initializeDatabase hc walFilename mode with
  | .error e => return .error e
  | .ok db =>
    let r ← db.executeAll hc (inputs.map parseCommand)
    return .ok r

def deletedTwice : World :=
  match typed .least directory.walFilename .async [text "DEL a", text "DEL a"] ⟨∅, []⟩ with
  | .returned _ w => w
  | .died d => ⟨d, []⟩

/-- Two deletions, and the directory cannot be opened again. -/
theorem deletions_not_reopened :
    Succeeds (typed .least directory.walFilename .async [text "DEL a", text "DEL a"]) ∅
        (.ok ([text "OK", text "OK"], listing [table 3 ∅] 4)) deletedTwice.disk ∧
      Succeeds (initializeDatabase .least directory.walFilename .async)
        (drained directory (listing [table 3 ∅] 4) 0 deletedTwice.disk)
        (.error (text "Invalid MANIFEST entry"))
        (drained directory (listing [table 3 ∅] 4) 0 deletedTwice.disk) := by
  constructor
  · decide +kernel
  · decide +kernel

end ForgeDB.Reopening
