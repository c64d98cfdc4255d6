import ForgeDB.Reopening

/-!
# Damaged tables at the start

A start reads all tables of the list and stops at the first one that it cannot read. But
when a listed file is missing it first makes a new list of the readable files of the
directory, and then a damaged table is left out without a word. So damage is reported
exactly when no listed file is missing, or when the start fails over the log anyway.
-/

namespace ForgeDB.StartupDamage
open CrashPrograms CrashPrograms.Io Database Reopening SSTables WalRecovery
open RestartAnswers (directory)

def LogRefused (hc : HeaderConstants) (l : Layout) (d : Disk) : Prop :=
  (recoverFrom hc ∅ ((Disk.contents d l.walFilename).getD [])).1.status = .corrupted ∨
    (recoverFrom hc ∅ ((Disk.contents d l.walFilename).getD [])).1.status = .ioError

/-- A listed file that a start finds: the log is made before the tables are looked for. -/
def FileFound (l : Layout) (d : Disk) (table : SSTableMetadata) : Prop :=
  (d.lookup table.filename).isSome = true ∨ table.filename = l.walFilename

section Starting

variable {hc : HeaderConstants} {l : Layout} {d d' : Disk} {m : Manifest} {mode : DurabilityMode}
  {tables : List SSTableMetadata} {t : SSTableMetadata}

theorem create_total (filename : Bytes) (mode : DurabilityMode) (d : Disk) :
    ∃ w d', Succeeds (Wal.create filename mode) d w d' ∧ w.filename = filename ∧
      (d'.lookup filename).isSome = true ∧
      (Disk.contents d' filename).getD [] = (Disk.contents d filename).getD [] ∧
      ((d.lookup filename).isSome = true → d' = d) ∧
      ∀ q ≠ filename, d'.lookup q = d.lookup q := by
  have hparent : Wal.makeParent filename ⟨d, []⟩ = .returned true ⟨d, []⟩ := by
    rw [Wal.makeParent]
    split
    · rfl
    · rfl
  cases hfile : d.lookup filename with
  | some node =>
    refine ⟨⟨filename, mode, true, true, []⟩, d, ?_, rfl, by rw [hfile]; rfl, rfl,
      fun _ => rfl, fun _ _ => rfl⟩
    simp [Succeeds, Wal.create, Wal.openAppend, hparent, openAppending, hfile]
  | none =>
    refine ⟨⟨filename, mode, true, true, []⟩, Disk.put filename [] d, ?_, rfl, ?_, ?_, ?_,
      fun q hq => Disk.lookup_put_ne hq⟩
    · simp [Succeeds, Wal.create, Wal.openAppend, hparent, openAppending, hfile]
    · rw [Disk.lookup_put]
      rfl
    · rw [Disk.contents, Disk.contents, Disk.lookup_put, hfile]
      rfl
    · intro hsome
      cases hsome

/-- Recovery reads what is there; a log that is not there is empty. -/
theorem recoverWal_total (hc : HeaderConstants) (filename : Bytes) (d : Disk) :
    Succeeds (recoverWal hc filename) d
      (recoverFrom hc ∅ ((Disk.contents d filename).getD [])) d := by
  refine Succeeds.consult.bind (Succeeds.getDisk.bind ?_)
  cases Disk.contents d filename with
  | some file => exact .pure
  | none => rfl

theorem load_eq_error {s : Storage} {e : Bytes}
    (h : Succeeds (Storage.loadTables s.manifest.tables ∅) d (.error e) d) :
    Succeeds (s.load hc) d (.error e) d := h.bind .pure

theorem loadTables_rejected (ht : t ∈ tables) (hrejected : ∃ e, loadResult d t.filename = .error e)
    (base : Entries) : ∃ e, Succeeds (Storage.loadTables tables base) d (.error e) d := by
  induction tables generalizing base with
  | nil => cases ht
  | cons table tables ih =>
    have hload := load_eq d table
    cases hr : loadResult d table.filename with
    | error e =>
      rw [hr] at hload
      exact ⟨e, hload.bind .pure⟩
    | ok data =>
      rw [hr] at hload
      rcases List.mem_cons.mp ht with rfl | ht
      · obtain ⟨e, he⟩ := hrejected
        rw [hr] at he
        cases he
      · obtain ⟨e, hrest⟩ := ih ht (LayeredMaps.overwrite base data)
        exact ⟨e, hload.bind hrest⟩

theorem filename_of_parse {filename s : Bytes} (h : Manifest.parse filename s = .ok m) :
    m.filename = filename := by
  simp only [Manifest.parse] at h
  repeat' split at h
  · cases h
  · cases h
  · cases h
  · cases h
  · cases h
    rfl

theorem all_found_iff (hmade : (d'.lookup l.walFilename).isSome = true)
    (hother : ∀ q ≠ l.walFilename, d'.lookup q = d.lookup q) (tables : List SSTableMetadata) :
    tables.all (fun table => (d'.lookup table.filename).isSome) = true ↔
      ∀ table ∈ tables, FileFound l d table := by
  rw [List.all_eq_true]
  apply forall₂_congr
  intro table _
  by_cases hlog : table.filename = l.walFilename
  · exact iff_of_true (by rw [hlog, hmade]) (Or.inr hlog)
  · rw [hother _ hlog, FileFound, or_iff_left hlog]

/-- The direct route: every listed file is there, and the damaged one stops the start. -/
theorem initialize_rejects (hc : HeaderConstants) {w : Wal}
    (hcreate : Succeeds (Wal.create l.walFilename mode) d w d')
    (hload : Succeeds (Manifest.load l.manifestFilename) d' (.ok m) d')
    (hall : m.tables.all (fun table => (d'.lookup table.filename).isSome) = true)
    (ht : t ∈ m.tables) (hrejected : ∃ e, loadResult d' t.filename = .error e) :
    ∃ e, Succeeds (initializeDatabase hc l.walFilename mode) d (.error e) d' := by
  have hinit := initializeStorage_listed hcreate hload hall
  obtain ⟨e, htables⟩ := loadTables_rejected ht hrejected ∅
  exact ⟨e, hinit.bind ((load_eq_error htables).bind .pure)⟩

/-- The other route: a listed file is missing, and only the log can stop the start. -/
theorem initialize_rebuilds (hc : HeaderConstants) {w : Wal}
    (hcreate : Succeeds (Wal.create l.walFilename mode) d w d') (hname : w.filename = l.walFilename)
    (hload : Succeeds (Manifest.load l.manifestFilename) d' (.ok m) d')
    (hman : m.filename = l.manifestFilename)
    (hmissing : ¬ m.tables.all (fun table => (d'.lookup table.filename).isSome) = true) :
    ∃ r d'', Succeeds (initializeDatabase hc l.walFilename mode) d r d'' ∧
      ((∃ e, r = .error e) ↔ LogRefused hc l d') := by
  obtain ⟨m', d'', hrebuild, hsame, hreadable⟩ := rebuild_readable hman d'
  have hinit := initializeStorage_rebuilt hcreate hload hmissing hrebuild
  obtain ⟨data, htables⟩ := loadTables_ok hreadable ∅
  have hlog : Disk.contents d'' l.walFilename = Disk.contents d' l.walFilename := by
    rw [Disk.contents, Disk.contents, hsame _ (l.wal_notMem_paths hman)]
  have hrec : Succeeds (recoverWal hc w.filename) d''
      (recoverFrom hc ∅ ((Disk.contents d' l.walFilename).getD [])) d'' := by
    rw [hname, ← hlog]
    exact recoverWal_total hc l.walFilename d''
  rcases admitted_or_refused (recoverFrom hc ∅ ((Disk.contents d' l.walFilename).getD [])).1.status
    with hstatus | hrefused
  · have hgo := load_recovered (s := ⟨l.walFilename, mode, w, m'⟩) htables hrec hstatus
    refine ⟨_, d'', hinit.bind (hgo.bind .pure), iff_of_false ?_ ?_⟩
    · rintro ⟨e, he⟩
      cases he
    · rintro (hcorrupted | hio)
      · rw [hcorrupted] at hstatus
        simp at hstatus
      · rw [hio] at hstatus
        simp at hstatus
  · have hstop := load_refused (s := ⟨l.walFilename, mode, w, m'⟩) htables hrec hrefused
    exact ⟨_, d'', hinit.bind (hstop.bind .pure), iff_of_true ⟨_, rfl⟩ hrefused⟩

end Starting

/-- A start over a listed table that is there and cannot be read fails exactly when no listed
file is missing or the log is not in order. -/
theorem damage_reported_iff (hc : HeaderConstants) (l : Layout) (mode : DurabilityMode) (d : Disk)
    (contents : Bytes) (m : Manifest) (t : SSTableMetadata)
    (hfile : d.lookup l.manifestFilename = some (.regular contents))
    (hparse : Manifest.parse l.manifestFilename contents = .ok m) (ht : t ∈ m.tables)
    (hthere : (d.lookup t.filename).isSome = true)
    (hrejected : ∃ e, loadResult d t.filename = .error e) :
    (∃ e d', Succeeds (initializeDatabase hc l.walFilename mode) d (.error e) d') ↔
      (∀ table ∈ m.tables, FileFound l d table) ∨ LogRefused hc l d := by
  obtain ⟨w, d', hcreate, hname, hmade, hlog, hkept, hother⟩ := create_total l.walFilename mode d
  have hload := Manifest.load_eq_parse ((hother _ l.wal_ne_manifest.symm).trans hfile)
  rw [hparse] at hload
  have hrefused : LogRefused hc l d' ↔ LogRefused hc l d := by rw [LogRefused, LogRefused, hlog]
  by_cases hall : m.tables.all (fun table => (d'.lookup table.filename).isSome) = true
  · -- the damaged file was there before, so making the log has not changed it
    have hsame : d'.lookup t.filename = d.lookup t.filename := by
      by_cases heq : t.filename = l.walFilename
      · rw [hkept (heq ▸ hthere)]
      · exact hother _ heq
    rw [← loadResult_of_same hsame] at hrejected
    obtain ⟨e, hfails⟩ := initialize_rejects hc hcreate hload hall ht hrejected
    exact iff_of_true ⟨e, d', hfails⟩ (Or.inl ((all_found_iff hmade hother _).mp hall))
  · have hmissing := fun h => hall ((all_found_iff hmade hother m.tables).mpr h)
    obtain ⟨r, d'', hrun, hr⟩ :=
      initialize_rebuilds hc hcreate hname hload (filename_of_parse hparse) hall
    rw [or_iff_right hmissing, ← hrefused, ← hr]
    constructor
    · rintro ⟨e, d₁, hfails⟩
      exact ⟨e, (hrun.unique hfails).1⟩
    · rintro ⟨e, rfl⟩
      exact ⟨e, d'', hrun⟩

/-- Three tables: the key written, the key deleted, and another key. -/
def threeTables : List SSTableMetadata :=
  [table 1 (AList.singleton (text "a") value), table 2 (AList.singleton (text "a") ⟨[], true⟩),
    table 3 (AList.singleton (text "b") value)]

/-- The first table is in order, the second is cut short. -/
def cutSecond : Disk :=
  Disk.put directory.manifestFilename (listing threeTables 4).storage.manifest.manifestText
    (Disk.put (directory.tableFilename 2) ((tableContents (AList.singleton (text "a") ⟨[], true⟩)).take 20)
      (Disk.put (directory.tableFilename 1) (tableContents (AList.singleton (text "a") value)) ∅))

/-- With the third table in place the start fails. -/
theorem damage_reported_iff_all_there :
    ∃ e d', Succeeds (initializeDatabase .least directory.walFilename .async)
      (Disk.put (directory.tableFilename 3) (tableContents (AList.singleton (text "b") value)) cutSecond)
      (.error e) d' :=
  (damage_reported_iff .least directory .async _ _ ⟨directory.manifestFilename, threeTables, 4⟩
    (table 2 (AList.singleton (text "a") ⟨[], true⟩)) rfl (by decide +kernel) (by decide)
    (by decide +kernel) ⟨text "SSTable checksum mismatch", by decide +kernel⟩).mpr
    (Or.inl (fun t ht => Or.inl (by revert t; decide +kernel)))

/-- With the third table lost the start works, and the deleted key is back. -/
theorem damage_passed_over :
    Manifest.parse directory.manifestFilename
        (listing threeTables 4).storage.manifest.manifestText =
          .ok ⟨directory.manifestFilename, threeTables, 4⟩ ∧
      cutSecond.lookup directory.manifestFilename =
        some (.regular (listing threeTables 4).storage.manifest.manifestText) ∧
      (cutSecond.lookup (directory.tableFilename 2)).isSome = true ∧
      loadResult cutSecond (directory.tableFilename 2) = .error (text "SSTable checksum mismatch") ∧
      ∃ db d', Succeeds (initializeDatabase .least directory.walFilename .async) cutSecond
          (.ok db) d' ∧
        db.memtable.data.lookup (text "a") = some value := by
  refine ⟨by decide +kernel, rfl, by decide +kernel, by decide +kernel, _, _, rfl, ?_⟩
  decide +kernel

end ForgeDB.StartupDamage
