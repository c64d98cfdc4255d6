import ForgeDB.ReadAnswers
import ForgeDB.TableIds

/-!
# Writes that answer with an error

A write is in the table in memory before the flush and the compaction that it may cause.
None of the ways these can fail changes an answer, and none of them takes the write back.
Only a write that the log has refused leaves no trace.
-/

namespace ForgeDB.FailedWrites
open CommandParser CrashPrograms CrashPrograms.Io Database LayeredMaps ReadAnswers SSTables TableIds
open Reopening TextStreams
open RestartAnswers (directory openedDisk)

section Tables

variable {l : Layout} {created : ℕ} {d d' : Disk} {s : Storage} {m : Manifest} {data : Entries}
  {key : Bytes}

/-- The list has got the next table, and its file is complete. -/
structure Stacked (l : Layout) (m : Manifest) (data : Entries) (m' : Manifest) (d' : Disk) :
    Prop where
  tables_eq : m'.tables = m.tables ++ [Shows.nextTable l m data]
  file : d'.lookup (l.tableFilename m.nextTableId) = some (.regular (tableContents data))

/-- The files that a new table, its place in the list and the log take. -/
def touched (l : Layout) (m : Manifest) : List Bytes :=
  l.tableFilename m.nextTableId :: l.walFilename :: m.paths

theorem touched_apart (h : Numbered l created m) :
    ∀ t ∈ m.tables, t.filename ∉ touched l m := by
  intro t ht hmem
  rw [touched, List.mem_cons, List.mem_cons] at hmem
  rcases hmem with heq | heq | hmem
  · exact h.ne_next ht heq
  · rw [h.placed t ht] at heq
    exact l.wal_ne_table t.id heq.symm
  · rw [h.placed t ht] at hmem
    exact l.table_notMem_paths h.filename_eq t.id hmem

theorem lookup_listed (h : Numbered l created m) (hsame : Disk.SameExcept (touched l m) d d') :
    ∀ t ∈ m.tables, d'.lookup t.filename = d.lookup t.filename :=
  fun t ht => hsame _ (touched_apart h t ht)

/-- Writing a table and listing it, with something to do once it is listed. -/
theorem newTable_ensures (hw : Wired l s) (hname : s.manifest.filename = l.manifestFilename)
    {next : Manifest → Io (Except Bytes Unit × Storage)}
    {post : Except Bytes Unit × Storage → Disk → Prop}
    (hkept : ∀ e s' d', Disk.SameExcept (touched l s.manifest) d d' →
      s'.manifest.tables = s.manifest.tables → post (.error e, s') d')
    (hnext : ∀ m' d', Disk.SameExcept (touched l s.manifest) d d' →
      m'.filename = l.manifestFilename → Stacked l s.manifest data m' d' →
      Ensures (next m') d' post (fun _ => True)) :
    Ensures (do
        let id := s.manifest.nextTableId
        let filename := Storage.tableFilename s.walFilename id
        match ← SSTables.write filename id data with
        | .error e => return (.error e, s)
        | .ok metadata =>
          match ← s.manifest.addTable metadata with
          | (.error e, manifest) => do
            let _ ← remove filename
            return (.error e, { s with manifest := manifest })
          | (.ok _, manifest) => next manifest) d post (fun _ => True) := by
  simp only [hw.tableFilename_eq]
  have hfirst : ∀ p ∈ [l.tableFilename s.manifest.nextTableId], p ∈ touched l s.manifest := by
    simp [touched]
  have hpaths : ∀ p ∈ s.manifest.paths, p ∈ touched l s.manifest := by
    intro p hp
    simp [touched, hp]
  refine ((write_ensures d _ _ data).mono (fun _ _ h => h) (fun _ _ => trivial)).bind ?_
  rintro r d₁ ⟨hsame, ⟨e, rfl⟩ | ⟨rfl, hfile⟩⟩
  · exact .pure (hkept e s d₁ (hsame.mono hfirst) rfl)
  have hsame := hsame.mono hfirst
  refine ((s.manifest.addTable_ensures _ d₁).mono (fun _ _ h => h) (fun _ _ => trivial)).bind ?_
  rintro r d₂ ⟨hsame₂, ⟨rfl, -⟩ | ⟨⟨e, rfl⟩, -⟩⟩
  · refine hnext _ d₂ (hsame.trans (hsame₂.mono hpaths)) hname ⟨rfl, ?_⟩
    rw [hsame₂ _ (l.table_notMem_paths hname _), hfile]
  · have hsame₂ := hsame.trans (hsame₂.mono hpaths)
    refine .seq (fun _ d' => Disk.SameExcept (touched l s.manifest) d d') ?_ ?_
    · exact .attempt (hsame₂.erase (by simp [touched])) (fun _ => hsame₂) (fun _ => trivial)
    · intro removed d₃ hsame₃
      exact .pure (hkept e _ d₃ hsame₃ rfl)

/-- What a flush or a compaction that has not replaced the list leaves: the list as it was, or
with the new table on top. -/
def Grown (l : Layout) (s : Storage) (data : Entries) (d : Disk) (s' : Storage) (d' : Disk) : Prop :=
  Disk.SameExcept (touched l s.manifest) d d' ∧
    (s'.manifest.tables = s.manifest.tables ∨ Stacked l s.manifest data s'.manifest d')

theorem flushMemtable_grown (hw : Wired l s) (hname : s.manifest.filename = l.manifestFilename)
    (hne : data.entries ≠ []) (d : Disk) :
    Ensures (s.flushMemtable data) d
      (fun r d' => Grown l s data d r.2 d' ∧
        (r.1 = .ok () → Stacked l s.manifest data r.2.manifest d')) (fun _ => True) := by
  rw [Storage.flushMemtable, if_neg hne]
  refine newTable_ensures hw hname ?_ ?_
  · intro e s' d' hsame htables
    exact ⟨⟨hsame, Or.inl htables⟩, by simp⟩
  · intro m' d₁ hsame _ hstacked
    have htruncate := Wal.truncate_frame s.wal 0 d₁
    rw [hw.wal_eq] at htruncate
    refine (htruncate.mono (fun _ _ h => h) (fun _ _ => trivial)).bind ?_
    rintro ⟨ok, wal⟩ d₂ ⟨-, hsame₂⟩
    have hstacked₂ : Stacked l s.manifest data m' d₂ := by
      refine ⟨hstacked.tables_eq, ?_⟩
      rw [hsame₂ _ (by simpa using (l.wal_ne_table _).symm), hstacked.file]
    have hsame₂ := hsame.trans (hsame₂.mono (by simp [touched]))
    cases ok with
    | false => exact .pure ⟨⟨hsame₂, Or.inr hstacked₂⟩, by simp⟩
    | true => exact .pure ⟨⟨hsame₂, Or.inr hstacked₂⟩, fun _ => hstacked₂⟩

theorem replaceTables_grown (hw : Wired l s) (hname : s.manifest.filename = l.manifestFilename)
    (data : Entries) (d : Disk) :
    Ensures (s.replaceTables data) d
      (fun r d' => ∀ e, r.1 = .error e → Grown l s data d r.2 d') (fun _ => True) := by
  rw [Storage.replaceTables]
  refine newTable_ensures hw hname ?_ ?_
  · intro e s' d' hsame htables e' _
    exact ⟨hsame, Or.inl htables⟩
  · intro m' d₁ hsame hname' hstacked
    refine ((m'.removeTables_ensures _ d₁).mono (fun _ _ h => h) (fun _ _ => trivial)).bind ?_
    rintro r d₂ ⟨hsame₂, ⟨rfl, -⟩ | ⟨⟨e, rfl⟩, -⟩⟩
    · exact .pure (by simp)
    · refine .pure (fun _ _ => ⟨?_, Or.inr ⟨hstacked.tables_eq, ?_⟩⟩)
      · refine hsame.trans (hsame₂.mono fun p hp => ?_)
        rw [Manifest.paths, Manifest.temporary, hname', ← hname] at hp
        rw [touched]
        exact List.mem_cons_of_mem _ (List.mem_cons_of_mem _ hp)
      · rw [hsame₂ _ (l.table_notMem_paths hname' _), hstacked.file]

/-- The new table on top of the others decides where it has the key. -/
theorem searchResult_stacked {m' : Manifest} (h : Numbered l created m)
    (hsame : Disk.SameExcept (touched l m) d d') (hdata : Storable data)
    (hstacked : Stacked l m data m' d') (key : Bytes) :
    searchResult d' key m'.tables.reverse =
      match data.lookup key with
      | some entry => .ok (some entry.reported)
      | none => searchResult d key m.tables.reverse := by
  have hnew : tableResult d' key (Shows.nextTable l m data) =
      .ok ((data.lookup key).map MemTableEntry.reported) :=
    tableResult_written m.nextTableId hdata hstacked.file key
  rw [hstacked.tables_eq, List.reverse_append, List.reverse_singleton, List.singleton_append,
    searchResult, hnew]
  cases data.lookup key with
  | some entry => rfl
  | none =>
    exact searchResult_congr key (fun t ht => lookup_listed h hsame t (List.mem_reverse.mp ht))

theorem length_merged {m' : Manifest} {merged : Entries} (h : Numbered l created m)
    (hsame : Disk.SameExcept (touched l m) d d') (hdata : Storable data)
    (hstacked : Stacked l m data m' d')
    (hcount : ∀ base, Succeeds (Storage.loadTables m.tables ∅) d (.ok base) d →
      (overwrite base data).entries.length < 2 ^ 64)
    (hload : Succeeds (Storage.loadTables m'.tables ∅) d' (.ok merged) d') :
    merged.entries.length < 2 ^ 64 := by
  obtain ⟨-, hread⟩ := (loadTables_loads d' m'.tables ∅).of_succeeds hload
  obtain ⟨ds, hloads, rfl⟩ := hread merged rfl
  rw [hstacked.tables_eq] at hloads
  obtain ⟨front, last, rfl, hfront, hlast⟩ := hloads.of_append_singleton
  change loadResult d' (l.tableFilename m.nextTableId) = .ok last at hlast
  rw [loadResult_of_lookup hstacked.file, parseTable_tableContents hdata] at hlast
  cases hlast
  have hfront : Loads d m.tables front :=
    hfront.of_same (fun t ht => (lookup_listed h hsame t ht).symm)
  have hlookup : ∀ k, ((front ++ [loadedEntries data]).foldl overwrite ∅).lookup k =
      (overwrite (front.foldl overwrite ∅) data).lookup k := by
    intro k
    rw [List.foldl_append, List.foldl_cons, List.foldl_nil, lookup_overwrite, lookup_overwrite,
      lookup_loadedEntries]
  rw [length_eq_of_lookup_eq hlookup]
  exact hcount _ (loadTables_run hfront ∅)

end Tables

section Steps

variable {hc : HeaderConstants} {l : Layout} {intact : Bool} {created : ℕ} {db db' : Database}
  {w w' : World}

theorem storable_of_kept {data : Entries} (h : ∀ e ∈ data.entries, Kept e)
    (hcount : data.entries.length < 2 ^ 64) : Storable data :=
  ⟨fun e he => (h e he).2, hcount⟩

theorem flush_returned (h : TrackedDatabase hc l intact created db w.disk)
    (hne : db.memtable.data.entries ≠ []) {r : Except Bytes Unit}
    (hrun : db.flushMemtable w = .returned (r, db') w') :
    Grown l db.storage db.memtable.data w.disk db'.storage w'.disk ∧
      ((∃ e, r = .error e) ∧ db'.memtable = db.memtable ∨
        db'.memtable = db.memtable.clear ∧
          Stacked l db.storage.manifest db.memtable.data db'.storage.manifest w'.disk) := by
  rw [flushMemtable_nonempty hne] at hrun
  obtain ⟨⟨result, s'⟩, w₁, hflush, hrest⟩ := bind_returned hrun
  obtain ⟨hgrown, hok⟩ :=
    (flushMemtable_grown h.wired h.tracked.numbered.filename_eq hne w.disk).of_run hflush
  cases result with
  | error e =>
    cases hrest
    exact ⟨hgrown, Or.inl ⟨⟨e, rfl⟩, rfl⟩⟩
  | ok u =>
    cases hrest
    exact ⟨hgrown, Or.inr ⟨rfl, hok rfl⟩⟩

theorem answered_flush (h : TrackedDatabase hc l intact created db w.disk)
    (hcount : db.memtable.data.entries.length < 2 ^ 64) (hne : db.memtable.data.entries ≠ [])
    {r : Except Bytes Unit} (hrun : db.flushMemtable w = .returned (r, db') w') (key : Bytes) :
    answered db' w'.disk key = answered db w.disk key := by
  have hnumbered := h.tracked.numbered
  have hdata := storable_of_kept h.kept hcount
  obtain ⟨⟨hsame, hlist⟩, ⟨-, hmem⟩ | ⟨hmem, hstacked⟩⟩ := flush_returned h hne hrun
  · rcases hlist with hlist | hstacked
    · exact answered_congr hmem hlist (lookup_listed hnumbered hsame) key
    · -- the log could not be emptied: the write is in memory and in the new table
      rw [answered, answered, hmem, searchResult_stacked hnumbered hsame hdata hstacked, MemTable.get]
      cases db.memtable.data.lookup key with
      | some entry => rfl
      | none => rfl
  · have hclear : db'.memtable.get key = none := by
      rw [hmem]
      rfl
    rw [answered, answered, hclear, searchResult_stacked hnumbered hsame hdata hstacked, MemTable.get]
    cases db.memtable.data.lookup key with
    | some entry => rfl
    | none => rfl

theorem answered_compact (h : TrackedDatabase hc l intact created db w.disk)
    (hcount : ∀ data, Succeeds (Storage.loadTables db.storage.manifest.tables ∅) w.disk (.ok data)
      w.disk → data.entries.length < 2 ^ 64)
    {e : Bytes} (hrun : db.maybeCompact hc w = .returned (.error e, db') w') (key : Bytes) :
    answered db' w'.disk key = answered db w.disk key := by
  have hnumbered := h.tracked.numbered
  rw [maybeCompact] at hrun
  split at hrun
  · cases hrun
  obtain ⟨⟨result, s'⟩, w₁, hcompact, hrest⟩ := bind_returned hrun
  cases hrest
  rw [Storage.compact] at hcompact
  split at hcompact
  · cases hcompact
  obtain ⟨⟨merged, s₁⟩, w₂, hmerge, hdelete⟩ := bind_returned hcompact
  cases merged with
  | ok u =>
    obtain ⟨_, w₃, -, hend⟩ := bind_returned hdelete
    cases hend
  | error e =>
    cases hdelete
    obtain ⟨loaded, w₃, hload, hreplace⟩ := bind_returned hmerge
    obtain ⟨hdisk, hread⟩ := (loadTables_loads w.disk _ ∅).of_run hload
    cases loaded with
    | error e =>
      cases hreplace
      rw [hdisk]
    | ok data =>
      obtain ⟨ds, hloads, rfl⟩ := hread data rfl
      have hkept := (h.tracked.load_kept.of_run hload).2 _ rfl
      have hlive : Storable (Storage.dropTombstones (ds.foldl overwrite ∅)) :=
        storable_of_kept (fun e he => hkept e (List.mem_of_mem_filter he))
          ((length_keepIf_le _ _).trans_lt (hcount _ (loadTables_run hloads ∅)))
      obtain ⟨hsame, hlist⟩ :=
        (replaceTables_grown h.wired hnumbered.filename_eq _ w₃.disk).of_run hreplace _ rfl
      rw [hdisk] at hsame
      rcases hlist with hlist | hstacked
      · refine answered_congr ?_ hlist (lookup_listed hnumbered hsame) key
        rfl
      · -- the merged table answers as those below it, and where it has no entry they are asked
        have hmerged : (Storage.dropTombstones (ds.foldl overwrite ∅)).lookup key =
            (newest ds key).filter (fun e => !e.deleted) := by
          rw [Storage.dropTombstones, lookup_keepIf]
          exact congrArg _ (lookup_mergeLayers ds key)
        have hbelow := searchResult_reverse_loads hloads h.tracked.covers key
        rw [answered, answered, searchResult_stacked hnumbered hsame hlive hstacked, hmerged, hbelow]
        rcases newest ds key with _ | ⟨value, _ | _⟩ <;> rfl

end Steps

section Commands

variable {hc : HeaderConstants} {l : Layout} {intact : Bool} {created : ℕ} {d d' : Disk}
  {db db' : Database} {w w' : World} {op : LogOperation} {wal : Wal} {command : Command}

/-- An open stream in an error state takes nothing until it is reopened. -/
def Stuck (wal : Wal) : Prop := wal.isOpen = true ∧ wal.good = false

instance (wal : Wal) : Decidable (Stuck wal) := inferInstanceAs (Decidable (_ ∧ _))

theorem append_stuck (hc : HeaderConstants) (op : LogOperation) (h : Stuck wal) (w : World) :
    op.append hc wal w = .returned (false, wal) w := by
  rw [LogOperation.append_eq]
  simp [Wal.appendRecord, Wal.openAppend, h.1, Wal.streamWrite, h.2]

theorem openAppend_replays (h : ¬ Stuck wal) (d : Disk) :
    ∃ wal' d', Replays wal.openAppend d (true, wal') d' ∧ wal'.isOpen = true ∧ wal'.good = true := by
  rw [Wal.openAppend]
  cases hopen : wal.isOpen with
  | true =>
    have hgood : wal.good = true := by simpa [Stuck, hopen] using h
    exact ⟨wal, d, .pure, hopen, hgood⟩
  | false =>
    have hparent : Replays (Wal.makeParent wal.filename) d true d := by
      rw [Wal.makeParent]
      split
      · exact .pure
      · exact .attempt
    refine ⟨_, _, hparent.bind (Replays.attempt.bind .pure), rfl, rfl⟩

theorem sync_replays (hopen : wal.isOpen = true) (hgood : wal.good = true) (d : Disk) :
    Replays wal.sync d (true, { wal with buffered := [] }) (Disk.append wal.filename wal.buffered d) := by
  obtain ⟨filename, mode, isOpen, good, buffered⟩ := wal
  cases hopen
  cases hgood
  exact ⟨1, fun _ => rfl⟩

theorem append_replays (hc : HeaderConstants) (op : LogOperation) (h : ¬ Stuck wal) (d : Disk) :
    ∃ wal' d', Replays (op.append hc wal) d (true, wal') d' := by
  rw [LogOperation.append_eq, Wal.appendRecord]
  obtain ⟨wal₁, d₁, hopened, hopen, hgood⟩ := openAppend_replays h d
  have hwrite : Replays (wal₁.streamWrite (Wal.frame hc op.record)) d₁
      { wal₁ with buffered := wal₁.buffered ++ Wal.frame hc op.record } d₁ := by
    rw [Wal.streamWrite, hgood]
    exact Replays.attempt.bind .pure
  generalize hwal₂ : { wal₁ with buffered := wal₁.buffered ++ Wal.frame hc op.record } = wal₂ at hwrite
  have hopen₂ : wal₂.isOpen = true := by
    rw [← hwal₂]
    exact hopen
  have hgood₂ : wal₂.good = true := by
    rw [← hwal₂]
    exact hgood
  have hend : ∃ wal' d', Replays (if !wal₂.good then return (false, wal₂)
      else if wal₂.shouldSync then wal₂.sync else return (true, wal₂)) d₁ (true, wal') d' := by
    rw [if_neg (by simp [hgood₂])]
    split
    · exact ⟨_, _, sync_replays hopen₂ hgood₂ d₁⟩
    · exact ⟨_, _, .pure⟩
  obtain ⟨wal', d', hend⟩ := hend
  exact ⟨wal', d', hopened.bind (hwrite.bind hend)⟩

theorem answered_written (db : Database) (wal : Wal) (op : LogOperation)
    (hfiles : ∀ t ∈ db.storage.manifest.tables, d'.lookup t.filename = d.lookup t.filename)
    (key : Bytes) :
    answered (db.written wal op) d' key =
      if key = op.key then answer (some op.entry) else answered db d key := by
  have hdata : (db.written wal op).memtable.data = db.memtable.data.insert op.key op.entry :=
    LogOperation.apply_data_eq db.memtable op
  split
  · next hkey =>
    rw [answered, MemTable.get, hdata, hkey, AList.lookup_insert]
    exact answer_map_reported (some op.entry)
  · next hkey =>
    rw [answered, answered, MemTable.get, MemTable.get, hdata, AList.lookup_insert_ne hkey]
    cases db.memtable.data.lookup key with
    | some entry => rfl
    | none =>
      exact congrArg respond (searchResult_congr key (fun t ht => hfiles t (List.mem_reverse.mp ht)))

theorem append_files (h : TrackedDatabase hc l intact created db w.disk) {ok : Bool}
    (hrun : op.append hc db.storage.wal w = .returned (ok, wal) w') :
    ∀ t ∈ db.storage.manifest.tables, w'.disk.lookup t.filename = w.disk.lookup t.filename := by
  rw [LogOperation.append_eq] at hrun
  obtain ⟨-, hsame⟩ := (Wal.appendRecord_frame hc db.storage.wal op.record w.disk).of_run hrun
  rw [h.wired.wal_eq] at hsame
  exact lookup_listed h.tracked.numbered (hsame.mono (by simp [touched]))

/-- The maps that the write, the flush and the compaction build have sizes that the machine
can count. -/
structure Countable (op : LogOperation) (db : Database) (d : Disk) : Prop where
  memtable : (op.apply db.memtable).data.entries.length < 2 ^ 64
  merged : ∀ data, Succeeds (Storage.loadTables db.storage.manifest.tables ∅) d (.ok data) d →
    (overwrite data (op.apply db.memtable).data).entries.length < 2 ^ 64

/-- After an error answer every `GET` answers as before, or every `GET` answers as after the
write. -/
theorem error_answers (hplain : l.Plain) (hapart : ¬ text ".sst" <:+ l.walFilename)
    (h : Reached hc l intact created db w.disk) (hroom : created + 2 < 2 ^ 64) (input : Bytes)
    (hsmall : input.length < 2 ^ 32) (hop : operation (parseCommand input) = some op)
    (hcount : Countable op db w.disk) {response : Bytes}
    (hrun : db.execute hc (parseCommand input) w = .returned (response, db') w')
    (herror : response ≠ text "OK") :
    (∀ key, answered db' w'.disk key = answered db w.disk key) ∨
      (hc.memtableFlushThreshold ≤ (op.apply db.memtable).sizeInBytes ∧ ¬ Stuck db.storage.wal ∧
        ∀ key, answered db' w'.disk key =
          if key = op.key then answer (some op.entry) else answered db w.disk key) := by
  have hdatabase := h.trackedDatabase hplain hapart (by omega)
  rw [execute_write hc db hop] at hrun
  obtain ⟨⟨ok, wal⟩, w₁, happend, hrun⟩ := bind_returned hrun
  have hfiles := append_files hdatabase happend
  have h₁ := h.append input hsmall hop happend
  cases ok with
  | false =>
    cases hrun
    refine Or.inl fun key => answered_congr ?_ ?_ hfiles key
    · rfl
    · rfl
  | true =>
    change Reached hc l (intact && true) created (db.written wal op) w₁.disk at h₁
    change flushIfDue hc (db.written wal op) w₁ = _ at hrun
    have hwritten := h₁.trackedDatabase hplain hapart (by omega)
    have hne := written_nonempty db wal op
    have hinLog : ¬ Stuck db.storage.wal := by
      intro hstuck
      rw [append_stuck hc op hstuck] at happend
      cases happend
    rcases flushIfDue_returned hrun with ⟨-, rfl, -⟩ | ⟨hdue, e, hflush, -⟩ |
      ⟨hdue, r, db₂, w₂, hflush, hcompact, ⟨-, rfl⟩ | ⟨e, rfl, -⟩⟩
    · exact absurd rfl herror
    · refine Or.inr ⟨hdue, hinLog, fun key => ?_⟩
      rw [← answered_written db wal op hfiles key]
      exact answered_flush hwritten hcount.memtable hne hflush key
    · exact absurd rfl herror
    · refine Or.inr ⟨hdue, hinLog, fun key => ?_⟩
      rw [← answered_written db wal op hfiles key,
        ← answered_flush hwritten hcount.memtable hne hflush key]
      have hle := flushCreations_le (db.written wal op) w₁
      have hflushed := (h₁.flush hflush).trackedDatabase hplain hapart (by omega)
      refine answered_compact hflushed (fun data hload => ?_) hcompact key
      obtain ⟨⟨hsame, -⟩, ⟨⟨e, he⟩, -⟩ | ⟨-, hstacked⟩⟩ := flush_returned hwritten hne hflush
      · cases he
      refine length_merged hwritten.tracked.numbered hsame
        (storable_of_kept hwritten.kept hcount.memtable) hstacked (fun base hbase => ?_) hload
      obtain ⟨-, hread⟩ := (loadTables_loads w₁.disk _ ∅).of_succeeds hbase
      obtain ⟨ds, hloads, rfl⟩ := hread base rfl
      exact hcount.merged _ (loadTables_run (hloads.of_same (fun t ht => (hfiles t ht).symm)) ∅)

/-- The file of the new table cannot be created: the answer is an error, and the write stays. -/
theorem flushIfDue_refused (db : Database)
    (hdue : hc.memtableFlushThreshold ≤ db.memtable.sizeInBytes)
    (hne : db.memtable.data.entries ≠ []) (d : Disk) :
    ∃ e, flushIfDue hc db ⟨d, [.fails 0]⟩ =
      .returned (text "ERROR flush failed: " ++ e, db) ⟨d, []⟩ := by
  have hcreate : ∀ filename id, SSTables.write filename id db.memtable.data ⟨d, [.fails 0]⟩ =
      .returned (.error (text "Failed to create SSTable: " ++ filename)) ⟨d, []⟩ := fun _ _ => rfl
  have hflush : ∃ e, db.flushMemtable ⟨d, [.fails 0]⟩ = .returned (.error e, db) ⟨d, []⟩ := by
    rw [flushMemtable_nonempty hne, Storage.flushMemtable, if_neg hne]
    simp only [bind_run, hcreate]
    exact ⟨_, rfl⟩
  obtain ⟨e, hflush⟩ := hflush
  refine ⟨e, ?_⟩
  rw [flushIfDue, if_neg (not_lt.mpr hdue), bind_run, hflush]
  rfl

/-- A write that the log takes and that fills the table in memory can be answered with an error
while a `GET` already sees it. -/
theorem exists_error_written (hop : operation command = some op) (hstuck : ¬ Stuck db.storage.wal)
    (hdue : hc.memtableFlushThreshold ≤ (op.apply db.memtable).sizeInBytes) (d : Disk) :
    ∃ plan response wal d', response ≠ text "OK" ∧ db.execute hc command ⟨d, plan⟩ =
      .returned (response, db.written wal op) ⟨d', []⟩ := by
  obtain ⟨wal, d', steps, happend⟩ := append_replays hc op hstuck d
  obtain ⟨e, hrefused⟩ :=
    flushIfDue_refused (db.written wal op) hdue (written_nonempty db wal op) d'
  refine ⟨List.replicate steps .succeeds ++ [.fails 0], text "ERROR flush failed: " ++ e, wal, d',
    ?_, ?_⟩
  · intro h
    have hhead : some (69 : Byte) = some 79 := congrArg List.head? h
    exact absurd hhead (by decide)
  · rw [execute_write hc db hop, bind_run, happend]
    exact hrefused

end Commands

/-- An error answer leaves every `GET` as it was, whatever becomes of the steps of the write,
exactly when the write does not fill the table in memory, is what a `GET` of its key says
already, or cannot get into the log. -/
theorem error_leaves_reads_iff (hc : HeaderConstants) (directory : Bytes)
    (hplain : ∀ b ∈ directory, isSpace b = false) (intact : Bool) (created : ℕ) (db : Database)
    (d : Disk) (h : Reached hc (Layout.ofDirectory directory) intact created db d)
    (hcreated : created + 2 < 2 ^ 64) (input : Bytes) (hsmall : input.length < 2 ^ 32)
    (op : LogOperation) (hop : operation (parseCommand input) = some op)
    (hcount : Countable op db d) :
    (∀ plan response db' w', db.execute hc (parseCommand input) ⟨d, plan⟩ =
        .returned (response, db') w' → response ≠ text "OK" → SameReads hc db d db' w'.disk) ↔
      (op.apply db.memtable).sizeInBytes < hc.memtableFlushThreshold ∨
        Succeeds (db.execute hc ⟨.get, op.key, []⟩) d (answer (some op.entry), db) d ∨
        Stuck db.storage.wal := by
  constructor
  · intro hreads
    by_contra hcond
    push Not at hcond
    obtain ⟨hdue, hget, hstuck⟩ := hcond
    obtain ⟨plan, response, wal, d', herror, hrun⟩ := exists_error_written hop hstuck hdue d
    have hsame := sameReads_iff.mp (hreads plan response _ _ hrun herror) op.key
    have hwritten : answered (db.written wal op) d' op.key = answer (some op.entry) := by
      rw [answered, MemTable.get, written, LogOperation.apply_data_eq, AList.lookup_insert]
      exact answer_map_reported (some op.entry)
    exact hget (execute_get_iff.mpr (hsame.symm.trans hwritten))
  · intro hcond plan response db' w' hrun herror
    rw [sameReads_iff]
    have h₀ : Reached hc (Layout.ofDirectory directory) intact created db (World.mk d plan).disk := h
    rcases error_answers (plain_ofDirectory hplain) (ofDirectory_apart directory) h₀ hcreated input
      hsmall hop hcount hrun herror with hall | ⟨hdue, hstuck, hall⟩
    · exact hall
    · intro key
      rw [hall key]
      split
      · next hkey =>
        rcases hcond with hsize | hget | hstuck'
        · exact absurd hsize (not_lt.mpr hdue)
        · rw [hkey]
          exact (execute_get_iff.mp hget).symm
        · exact absurd hstuck' hstuck
      · rfl

theorem reached_listing : Reached .least (Layout.ofDirectory (text "d")) true 0 (listing [] 1)
    openedDisk :=
  .start (d := ∅) .async ⟨⟨rfl, rfl⟩, fun _ _ => rfl⟩ (by decide +kernel)

/-- A deletion in an empty store: the key is not found before it and not after it. -/
theorem error_leaves_reads_iff_deletion :
    Succeeds ((listing [] 1).execute .least ⟨.get, text "a", []⟩) openedDisk
        (text "NOT_FOUND", listing [] 1) openedDisk ∧
      ∀ plan response db' w', (listing [] 1).execute .least (parseCommand (text "DELETE a"))
          ⟨openedDisk, plan⟩ = .returned (response, db') w' → response ≠ text "OK" →
        SameReads .least (listing [] 1) openedDisk db' w'.disk := by
  have hcount : Countable (.delete (text "a")) (listing [] 1) openedDisk := by
    refine ⟨by decide +kernel, fun data hload => ?_⟩
    have hnone : Succeeds (Storage.loadTables (listing [] 1).storage.manifest.tables ∅) openedDisk
        (.ok ∅) openedDisk := .pure
    cases (hload.unique hnone).1
    decide +kernel
  have hget : Succeeds ((listing [] 1).execute .least ⟨.get, text "a", []⟩) openedDisk
      (text "NOT_FOUND", listing [] 1) openedDisk := by decide +kernel
  exact ⟨hget, (error_leaves_reads_iff .least (text "d") (by decide +kernel) true 0 (listing [] 1)
    openedDisk reached_listing (by decide) (text "DELETE a") (by decide) (.delete (text "a")) rfl
    hcount).mpr (Or.inr (Or.inl hget))⟩

/-- The file of the first table cannot be created: the answer is an error, and the value is
there. -/
theorem error_after_write :
    Reached .least (Layout.ofDirectory (text "d")) true 0 (listing [] 1) openedDisk ∧
      ¬ ∀ plan response db' w', (listing [] 1).execute .least (parseCommand (text "PUT a x"))
          ⟨openedDisk, plan⟩ = .returned (response, db') w' → response ≠ text "OK" →
        SameReads .least (listing [] 1) openedDisk db' w'.disk := by
  refine ⟨reached_listing, fun h => ?_⟩
  have hrun : (listing [] 1).execute .least (parseCommand (text "PUT a x"))
      ⟨openedDisk, [.succeeds, .fails 0]⟩ =
        .returned (text "ERROR flush failed: Failed to create SSTable: d/tables/table_1.sst",
          (listing [] 1).written ⟨directory.walFilename, .async, true, true,
            Wal.frame .least ⟨.put, text "a", text "x"⟩⟩ (.put (text "a") (text "x")))
        ⟨openedDisk, []⟩ := by decide +kernel
  have hreads := h _ _ _ _ hrun (by decide +kernel) (text "a") (text "NOT_FOUND")
  exact absurd (hreads.mp (by decide +kernel)) (by decide +kernel)

end ForgeDB.FailedWrites
