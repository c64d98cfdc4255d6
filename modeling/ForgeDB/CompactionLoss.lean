import ForgeDB.CompactionSteps

/-!
# What a completed compaction deletes

The loop that deletes the old files runs over the list of the manifest itself, which by
then names the replacement only. So the replacement's file goes, unless the file system
refuses to delete it, and the old files stay.
-/

namespace ForgeDB.CompactionLoss
open CompactionSteps CrashPrograms CrashPrograms.Io LayeredMaps SSTables

/-- What a completed compaction is for: every listed table can be loaded, and every key has
the answer it had. -/
def Faithful (d : Disk) (tables : List SSTableMetadata) (d' : Disk)
    (tables' : List SSTableMetadata) : Prop :=
  (∀ t ∈ tables', ∃ contents data, d'.lookup t.filename = some (.regular contents) ∧
      Succeeds (load t) d' (.ok data) d') ∧
    SameAnswers d tables d' tables'

theorem not_faithful_of_missing {d d' : Disk} {tables tables' : List SSTableMetadata}
    {t : SSTableMetadata} (ht : t ∈ tables') (hnone : d'.lookup t.filename = none) :
    ¬ Faithful d tables d' tables' := by
  intro h
  obtain ⟨contents, -, hfile, -⟩ := h.1 t ht
  rw [hnone] at hfile
  cases hfile

theorem removeFiles_single (t : SSTableMetadata) (w : World) :
    Storage.removeFiles [t] w = match w.plan with
      | [] => .returned () ⟨w.disk.erase t.filename, []⟩
      | .succeeds :: rest => .returned () ⟨w.disk.erase t.filename, rest⟩
      | .fails _ :: rest => .returned () ⟨w.disk, rest⟩
      | .dies _ :: _ => .died w.disk := by
  obtain ⟨d, plan⟩ := w
  rcases plan with _ | ⟨_ | n | n, rest⟩ <;> rfl

/-- A completed compaction is faithful exactly when the file system refuses the deletion
with which it ends. -/
theorem compact_faithful_iff (l : Layout) (d : Disk) (s : Storage) (ms : List Entries)
    (hw : Wired l s) (hs : Shows l d s.manifest ms) (h2 : 2 ≤ s.manifest.tables.length)
    (hfile : d.lookup l.manifestFilename = some (.regular s.manifest.manifestText))
    (hcount : (mergedLive ms).entries.length < 2 ^ 64) (plan : List Outcome) (s' : Storage)
    (w' : World) (hrun : s.compact ⟨d, plan⟩ = .returned (.ok (), s') w') :
    ∃ s₁ w₁, s.mergeTables ⟨d, plan⟩ = .returned (.ok (), s₁) w₁ ∧
      (Faithful d s.manifest.tables w'.disk s'.manifest.tables ↔
        ∃ n rest, w₁.plan = .fails n :: rest) := by
  rw [Storage.compact, if_neg (not_lt.mpr h2), bind_run] at hrun
  cases hmerge : s.mergeTables ⟨d, plan⟩ with
  | died d' =>
    rw [hmerge] at hrun
    cases hrun
  | returned r w₁ =>
    obtain ⟨result, s₁⟩ := r
    rw [hmerge] at hrun
    cases result with
    | error e => cases hrun
    | ok u =>
      refine ⟨s₁, w₁, rfl, ?_⟩
      obtain ⟨q, -, ⟨⟨ms₁, hl₁, hh₁⟩, -, -⟩, hok⟩ :=
        (mergeTables_ensures hw hs rfl hfile hcount).of_returned hmerge
      have htables : s₁.manifest.tables = [Shows.nextTable l s.manifest (mergedLive ms)] := by
        rw [(hok rfl).manifest, replaced, stacked, without_old hs]
      simp only [bind_run, htables, removeFiles_single] at hrun
      obtain ⟨d₁, plan₁⟩ := w₁
      have hgone : ¬ Faithful d s.manifest.tables
          (d₁.erase (Shows.nextTable l s.manifest (mergedLive ms)).filename)
          s₁.manifest.tables := by
        rw [htables]
        exact not_faithful_of_missing (List.mem_singleton_self _) (AList.lookup_erase _ _)
      rcases plan₁ with _ | ⟨_ | n | n, rest⟩
      · cases hrun
        exact ⟨fun h => absurd h hgone, by simp⟩
      · cases hrun
        exact ⟨fun h => absurd h hgone, by simp⟩
      · refine ⟨fun _ => ⟨n, rest, rfl⟩, fun _ => ?_⟩
        cases hrun
        refine ⟨?_, sameAnswers_of_layers hs.holds hh₁ hl₁⟩
        intro t ht
        obtain ⟨m, -, hm⟩ := exists_holds hh₁ ht
        exact ⟨_, _, hm.file, load_succeeds hm.storable hm.file⟩
      · cases hrun

/-- The engine of the sample directory after its compaction. -/
def compacted : Storage :=
  { twoTables with manifest := ⟨sample.manifestFilename,
      [metadataOf 3 (sample.tableFilename 3) (mergedLive [older, newer])], 4⟩ }

def afterCompact (plan : List Outcome) : World :=
  match twoTables.compact ⟨twoTablesDisk, plan⟩ with
  | .returned _ w => w
  | .died d => ⟨d, []⟩

/-- The two tables of the sample directory, with the final deletion refused. -/
theorem compact_faithful_twoTables :
    ∃ s₁ w₁, twoTables.mergeTables ⟨twoTablesDisk, List.replicate 14 .succeeds ++ [.fails 0]⟩ =
        .returned (.ok (), s₁) w₁ ∧
      (Faithful twoTablesDisk twoTables.manifest.tables
          (afterCompact (List.replicate 14 .succeeds ++ [.fails 0])).disk
          compacted.manifest.tables ↔
        ∃ n rest, w₁.plan = .fails n :: rest) :=
  compact_faithful_iff sample twoTablesDisk twoTables [older, newer] wired_twoTables
    shows_twoTables (by decide) manifest_twoTables (by decide +kernel) _ compacted _
    (by decide +kernel)

/-- Two flushes, a compaction that returns true, and the only table has no file. -/
theorem compact_twoTables_unfaithful :
    Succeeds flushTwice ∅ (.ok twoTables) twoTablesDisk ∧
      Succeeds twoTables.compact twoTablesDisk (.ok (), compacted) (afterCompact []).disk ∧
      ¬ (∀ t ∈ compacted.manifest.tables, ∃ contents,
        (afterCompact []).disk.lookup t.filename = some (.regular contents)) ∧
      Succeeds (twoTables.getFromSstables (text "b")) twoTablesDisk
        (.ok (some ⟨text "y", false⟩)) twoTablesDisk ∧
      Succeeds (compacted.getFromSstables (text "b")) (afterCompact []).disk
        (.error (text "Failed to open SSTable: d/tables/table_3.sst")) (afterCompact []).disk := by
  have hgone : (afterCompact []).disk.lookup (sample.tableFilename 3) = none := by decide +kernel
  refine ⟨flushTwice_succeeds, by decide +kernel, ?_, by decide +kernel, by decide +kernel⟩
  intro h
  obtain ⟨contents, hfile⟩ := h _ (List.mem_singleton_self _)
  exact absurd (hgone.symm.trans hfile) (by simp)

end ForgeDB.CompactionLoss
