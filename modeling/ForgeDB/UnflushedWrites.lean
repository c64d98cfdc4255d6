import ForgeDB.CompactionRuns

/-!
# What a crash loses

An asynchronous log gives its records to a stream, and the end of the process may come
before the stream has written them. Whatever beginning of its buffer has reached the file,
the next start reads the commands up to some point of the run: everything that a flush has
moved to a table, and the later writes whose records are whole.
-/

namespace ForgeDB.CompactionRuns
open CommandParser CrashPrograms CrashPrograms.Io Database LayeredMaps MapRefinement Reopening
open RestartAnswers SSTables TableIds TextStreams WalCuts WalRecovery

section Cuts

variable {hc : HeaderConstants} {l : Layout} {d : Disk} {db : Database} {n : ℕ}
  {ops : List LogOperation} {ts : List SSTableMetadata} {ms : List Entries}
  {earlier : List Command}

theorem completeWithin_beginning (hc : HeaderConstants) (n : ℕ) (ops : List LogOperation) :
    completeWithin hc n ops <+: ops := by
  induction ops generalizing n with
  | nil => exact List.prefix_refl _
  | cons op ops ih =>
    rw [completeWithin]
    split
    · exact (List.prefix_cons_inj op).mpr (ih _)
    · exact List.nil_prefix

theorem completeWithin_all (h : (frames hc (ops.map LogOperation.record)).length ≤ n) :
    completeWithin hc n ops = ops := by
  induction ops generalizing n with
  | nil => rfl
  | cons op ops ih =>
    rw [List.map_cons, frames_cons, List.length_append] at h
    rw [completeWithin, if_pos (by omega), ih (by omega)]

/-- The commands behind some of the records, from the first on, and the others. -/
theorem Stored.cut (h : Stored earlier ops ms) {front : List LogOperation} (hfront : front <+: ops) :
    ∃ kept lost, earlier = kept ++ lost ∧ Stored kept front ms ∧
      (∀ op ∈ lost.filterMap operation, op ∈ ops) ∧ (front = ops → lost = []) := by
  by_cases hall : front = ops
  · exact ⟨earlier, [], (List.append_nil _).symm, hall ▸ h, by simp, fun _ => rfl⟩
  obtain ⟨before, since, rfl, rfl, hlive⟩ := h
  obtain ⟨back, hback⟩ := hfront
  obtain ⟨kept, lost, rfl, rfl, rfl⟩ := List.filterMap_eq_append_iff.mp hback.symm
  refine ⟨before ++ kept, lost, (List.append_assoc _ _ _).symm, ⟨before, kept, rfl, rfl, hlive⟩, ?_,
    fun h => absurd h hall⟩
  intro op hop
  rw [← hback]
  exact List.mem_append_right _ hop

/-- A start on a log of which some bytes at the end are missing. -/
theorem Boots.restarted_cut (hplain : l.Plain) (hapart : ¬ text ".sst" <:+ l.walFilename)
    (h : Boots l d ts ms)
    (hops : ∀ op ∈ ops, 9 + op.record.key.length + op.record.value.length ≤ maxRecordSize)
    (hlog : LogFile l d ((frames hc (ops.map LogOperation.record)).take n)) (mode : DurabilityMode) :
    ∃ db' d', Succeeds (initializeDatabase hc l.walFilename mode) d (.ok db') d' ∧
      Shows l d' db'.storage.manifest ms ∧ ∀ key, db'.view ms key =
        ((replay ∅ ((completeWithin hc n ops).map LogOperation.record)).lookup key).or
          (newest ms key) := by
  obtain ⟨s, d', hinit, hw, -, -, hshows, -, hfile, -⟩ := h.initializes hplain hapart hlog mode
  obtain ⟨hreplayed, hstatus⟩ := recoverFrom_take_frames hc ops hops n
  have hrecover : Succeeds (recoverWal hc s.wal.filename) d'
      (recoverFrom hc ∅ ((frames hc (ops.map LogOperation.record)).take n)) d' := by
    rw [hw.wal_eq]
    exact recoverWal_succeeds hfile
  generalize recoverFrom hc ∅ ((frames hc (ops.map LogOperation.record)).take n) = recovered
    at hreplayed hstatus hrecover
  obtain ⟨result, data⟩ := recovered
  have hload := load_recovered (loadTables_succeeds hshows.holds ∅) hrecover hstatus
  refine ⟨_, d', hinit.bind (hload.bind .pure), hshows, fun key => ?_⟩
  rw [← hreplayed, view, MemTable.replace_data, lookup_overwrite, lookup_loadTables]
  cases data.lookup key <;> cases newest ms key <;> rfl

/-- The files of a process that has ended with `n` bytes of the buffer written. -/
theorem DirectoryComplete.drained (h : DirectoryComplete hc l d db ops ts ms) (n : ℕ) :
    ∃ cut, Disk.SameExcept [l.walFilename] d (Reopening.drained l db n d) ∧
      LogFile l (Reopening.drained l db n d)
        ((frames hc (ops.map LogOperation.record)).take cut) ∧
      (db.storage.wal.buffered.length ≤ n →
        (frames hc (ops.map LogOperation.record)).length ≤ cut) := by
  obtain ⟨c, hcont, hs⟩ := h.reopenable.carries.stored
  rw [h.reopenable.wired.wal_eq] at hcont
  refine ⟨c.length + n, Disk.SameExcept.refl.append _ (List.mem_singleton_self _), Or.inl ?_, ?_⟩
  · rw [← hs, List.take_length_add_append]
    exact Disk.lookup_append _ hcont
  · intro hle
    rw [← hs, List.length_append]
    omega

end Cuts

/-- A crash loses at most commands from the end of the run, and no write that a flush has moved
to a table; with a synchronous log, or if the stream's buffer was written, it loses nothing. -/
theorem crash_loses_only_an_end (hc : HeaderConstants) (directory : Bytes)
    (hplain : ∀ b ∈ directory, isSpace b = false) (db : Database) (d : Disk)
    (earlier : List Command) (h : Compacting hc (Layout.ofDirectory directory) db d earlier)
    (mode : DurabilityMode) (n : ℕ) :
    ∃ kept lost db' d', earlier = kept ++ lost ∧
      (∀ op ∈ lost.filterMap operation, op.key ∈ db.memtable.data) ∧
      (db.storage.wal.durabilityMode = .sync ∨ db.storage.wal.buffered.length ≤ n → lost = []) ∧
      Succeeds (initializeDatabase hc (Layout.ofDirectory directory).walFilename mode)
        (drained (Layout.ofDirectory directory) db n d) (.ok db') d' ∧
      ∀ key, Succeeds (db'.execute hc ⟨.get, key, []⟩) d'
        ((lastWrite kept key).getD (text "NOT_FOUND"), db') d' := by
  have hplain' := plain_ofDirectory hplain
  have hapart := ofDirectory_apart directory
  obtain ⟨ops, ts, ms, hcomplete, hstored⟩ := h.directoryComplete hplain' hapart
  obtain ⟨cut, hsame, hlog, hall⟩ := hcomplete.drained n
  obtain ⟨kept, lost, hearlier, ⟨before, since, rfl, hsince, hlive⟩, hlost, hnone⟩ :=
    hstored.cut (completeWithin_beginning hc cut ops)
  obtain ⟨db', d', hinit, hshows, hview⟩ :=
    (hcomplete.boots hapart hsame).restarted_cut hplain' hapart hcomplete.reopenable.payload hlog
      mode
  refine ⟨before ++ since, lost, db', d', hearlier,
    fun op hop => hcomplete.held op (hlost op hop), ?_, hinit, fun key => ?_⟩
  · rintro (hsync | hdrained)
    · have hempty := hcomplete.reopenable.carries.empty_of_sync hsync
      exact hnone (completeWithin_all (hall (by simp [hempty])))
    · exact hnone (completeWithin_all (hall hdrained))
  · have hread := executeGet_succeeds hshows ⟨.get, key, []⟩
    rw [hview, ← hsince, answer_eq_live, live_replayed hlive] at hread
    exact hread.bind .pure

/-- A key in a table, and one whose record is in the buffer of the stream. -/
def unflushed : Database × Disk :=
  entered fewBytes (entered fewBytes (listing [] 1, openedDisk) (text "PUT b yyy"))
    (text "PUT c z")

theorem compacting_unflushed : Compacting fewBytes directory unflushed.1 unflushed.2
    [parseCommand (text "PUT b yyy"), parseCommand (text "PUT c z")] := by
  have hvacant : Vacant directory ∅ := ⟨⟨rfl, rfl⟩, fun _ _ => rfl⟩
  have hstart : Compacting fewBytes directory (listing [] 1) openedDisk [] :=
    .start .async hvacant (by decide +kernel)
  have hfirst : Compacting fewBytes directory
      (entered fewBytes (listing [] 1, openedDisk) (text "PUT b yyy")).1
      (entered fewBytes (listing [] 1, openedDisk) (text "PUT b yyy")).2
      ([] ++ [parseCommand (text "PUT b yyy")]) :=
    hstart.command (text "PUT b yyy") (text "OK") (by decide +kernel) (by decide +kernel)
  exact hfirst.command (text "PUT c z") (text "OK") (by decide +kernel) (by decide +kernel)

/-- Three bytes of the second record reach the log. -/
theorem crash_loses_only_an_end_unflushed :
    3 < unflushed.1.storage.wal.buffered.length ∧
      ∃ kept lost db' d',
        [parseCommand (text "PUT b yyy"), parseCommand (text "PUT c z")] = kept ++ lost ∧
        (∀ op ∈ lost.filterMap operation, op.key ∈ unflushed.1.memtable.data) ∧
        (unflushed.1.storage.wal.durabilityMode = .sync ∨
          unflushed.1.storage.wal.buffered.length ≤ 3 → lost = []) ∧
        Succeeds (initializeDatabase fewBytes directory.walFilename .async)
          (drained directory unflushed.1 3 unflushed.2) (.ok db') d' ∧
        ∀ key, Succeeds (db'.execute fewBytes ⟨.get, key, []⟩) d'
          ((lastWrite kept key).getD (text "NOT_FOUND"), db') d' :=
  ⟨by decide +kernel, crash_loses_only_an_end fewBytes (text "d") (by decide +kernel) unflushed.1
    unflushed.2 _ compacting_unflushed .async 3⟩

end ForgeDB.CompactionRuns
