import ForgeDB.TableViews

/-!
# Flushing

A flush writes a new table file, lists it, and empties the log. The list of tables shows
one more layer once the list is persisted; until then nothing that is listed has
changed, whatever became of the new file.
-/

namespace ForgeDB
open CrashPrograms CrashPrograms.Io LayeredMaps SSTables TextStreams

/-- Distinct ids below the next one: the list is no longer than that. -/
theorem Manifest.length_le_nextTableId (m : Manifest)
    (hincreasing : m.tables.Pairwise (fun a b => a.id < b.id))
    (hids : ∀ t ∈ m.tables, t.id < m.nextTableId) : m.tables.length ≤ m.nextTableId := by
  have hnodup : (m.tables.map SSTableMetadata.id).Nodup :=
    (List.pairwise_map.mpr hincreasing).imp (fun hlt => hlt.ne)
  have hsub : m.tables.map SSTableMetadata.id ⊆ List.range m.nextTableId := by
    intro id hid
    obtain ⟨t, ht, rfl⟩ := List.mem_map.mp hid
    exact List.mem_range.mpr (hids t ht)
  simpa using (hnodup.subperm hsub).length_le

/-- The tables of the list `m` were written from the maps `ms`, under their own names and
with increasing ids that are all used up. -/
structure Shows (l : Layout) (d : Disk) (m : Manifest) (ms : List Entries) : Prop where
  filename_eq : m.filename = l.manifestFilename
  holds : List.Forall₂ (Holds d) m.tables ms
  placed : ∀ t ∈ m.tables, t.filename = l.tableFilename t.id
  increasing : m.tables.Pairwise (fun a b => a.id < b.id)
  ids_lt : ∀ t ∈ m.tables, t.id < m.nextTableId
  next_lt : m.nextTableId < 2 ^ 64

namespace Shows

variable {l : Layout} {d d' : Disk} {m : Manifest} {ms : List Entries} {data : Entries}

/-- The table a flush or a compaction writes next. -/
def nextTable (l : Layout) (m : Manifest) (data : Entries) : SSTableMetadata :=
  metadataOf m.nextTableId (l.tableFilename m.nextTableId) data

private theorem holds_of_same {tables : List SSTableMetadata}
    (h : List.Forall₂ (Holds d) tables ms)
    (hsame : ∀ t ∈ tables, d'.lookup t.filename = d.lookup t.filename) :
    List.Forall₂ (Holds d') tables ms := by
  induction h with
  | nil => exact .nil
  | cons hfirst _ ih =>
    exact .cons (hfirst.of_same (hsame _ List.mem_cons_self))
      (ih (fun t ht => hsame t (List.mem_cons_of_mem _ ht)))

theorem empty (l : Layout) (d : Disk) : Shows l d ⟨l.manifestFilename, [], 1⟩ [] :=
  ⟨by with_reducible rfl, .nil, by simp, .nil, by simp, by norm_num⟩

theorem of_same (h : Shows l d m ms)
    (hsame : ∀ t ∈ m.tables, d'.lookup t.filename = d.lookup t.filename) : Shows l d' m ms :=
  ⟨h.filename_eq, holds_of_same h.holds hsame, h.placed, h.increasing, h.ids_lt, h.next_lt⟩

theorem frame (h : Shows l d m ms) {ps : List Bytes} (hsame : Disk.SameExcept ps d d')
    (hps : ∀ t ∈ m.tables, t.filename ∉ ps) : Shows l d' m ms :=
  h.of_same (fun t ht => hsame t.filename (hps t ht))

theorem ne_next (h : Shows l d m ms) {t : SSTableMetadata} (ht : t ∈ m.tables) :
    t.filename ≠ l.tableFilename m.nextTableId := by
  rw [h.placed t ht]
  intro he
  exact (h.ids_lt t ht).ne (l.tableFilename_injective he)

theorem frame_next (h : Shows l d m ms)
    (hsame : Disk.SameExcept [l.tableFilename m.nextTableId] d d') : Shows l d' m ms :=
  h.frame hsame (fun t ht => by simpa using h.ne_next ht)

theorem frame_manifest (h : Shows l d m ms) {m' : Manifest}
    (hname : m'.filename = l.manifestFilename) (hsame : Disk.SameExcept m'.paths d d') :
    Shows l d' m ms := by
  refine h.frame hsame (fun t ht => ?_)
  rw [h.placed t ht]
  exact l.table_notMem_paths hname t.id

theorem frame_wal (h : Shows l d m ms) (hsame : Disk.SameExcept [l.walFilename] d d') :
    Shows l d' m ms := by
  refine h.frame hsame (fun t ht => ?_)
  rw [h.placed t ht]
  intro hmem
  exact l.wal_ne_table t.id (List.mem_singleton.mp hmem).symm

theorem length_le (h : Shows l d m ms) : m.tables.length ≤ m.nextTableId :=
  m.length_le_nextTableId h.increasing h.ids_lt

theorem next_pushed (data : Entries) (hroom : m.nextTableId + 1 < 2 ^ 64) :
    (m.pushed (nextTable l m data)).nextTableId = m.nextTableId + 1 := by
  simp only [Manifest.pushed, nextTable, metadataOf, ge_iff_le, le_refl, if_true]
  exact Nat.mod_eq_of_lt hroom

theorem pushed (h : Shows l d m ms) (hroom : m.nextTableId + 1 < 2 ^ 64) (hdata : Storable data)
    (hfile : d.lookup (l.tableFilename m.nextTableId) = some (.regular (tableContents data))) :
    Shows l d (m.pushed (nextTable l m data)) (ms ++ [data]) := by
  have hnext := next_pushed (l := l) data hroom
  refine ⟨h.filename_eq, ?_, ?_, ?_, ?_, ?_⟩
  · exact List.rel_append h.holds (.cons ⟨hdata, rfl, hfile⟩ .nil)
  · intro t ht
    rcases List.mem_append.mp ht with ht | ht
    · exact h.placed t ht
    · rw [List.mem_singleton.mp ht]
      rfl
  · refine List.pairwise_append.mpr ⟨h.increasing, List.pairwise_singleton _ _, ?_⟩
    intro t ht t' ht'
    rw [List.mem_singleton.mp ht']
    exact h.ids_lt t ht
  · intro t ht
    rw [hnext]
    rcases List.mem_append.mp ht with ht | ht
    · exact (h.ids_lt t ht).trans (Nat.lt_succ_self _)
    · rw [List.mem_singleton.mp ht]
      exact Nat.lt_succ_self _
  · rw [hnext]
    exact hroom

theorem popped (h : Shows l d m ms) (hroom : m.nextTableId + 1 < 2 ^ 64) :
    Shows l d (m.popped (nextTable l m data)) ms := by
  have hnext := next_pushed (l := l) data hroom
  refine ⟨h.filename_eq, h.holds, h.placed, h.increasing, ?_, ?_⟩
  · intro t ht
    change t ∈ m.tables at ht
    simp only [Manifest.popped, if_neg (List.ne_nil_of_mem ht), hnext]
    exact (h.ids_lt t ht).trans (Nat.lt_succ_self _)
  · simp only [Manifest.popped, hnext]
    split
    · norm_num
    · exact hroom

/-- The next id is the number of tables and at most `spent` more: each failed change of the
list uses up one id. -/
def NextWithin (spent : ℕ) (m : Manifest) : Prop := m.nextTableId ≤ m.tables.length + 1 + spent

theorem NextWithin.mono {spent spent' : ℕ} (h : NextWithin spent m) (hle : spent ≤ spent') :
    NextWithin spent' m := by
  rw [NextWithin] at h ⊢
  omega

theorem NextWithin.pushed {spent : ℕ} (h : NextWithin spent m) (hroom : m.nextTableId + 1 < 2 ^ 64) :
    NextWithin spent (m.pushed (nextTable l m data)) := by
  rw [NextWithin] at h ⊢
  rw [next_pushed data hroom, Manifest.pushed, List.length_append, List.length_singleton]
  omega

theorem NextWithin.popped {spent : ℕ} (h : NextWithin spent m) (hroom : m.nextTableId + 1 < 2 ^ 64) :
    NextWithin (spent + 1) (m.popped (nextTable l m data)) := by
  rw [NextWithin] at h ⊢
  simp only [Manifest.popped, next_pushed data hroom]
  split <;> omega

end Shows

/-- An engine that works on the files of the layout. -/
structure Wired (l : Layout) (s : Storage) : Prop where
  walFilename_eq : s.walFilename = l.walFilename
  wal_eq : s.wal.filename = l.walFilename

theorem Wired.tableFilename_eq {l : Layout} {s : Storage} (h : Wired l s) (id : ℕ) :
    Storage.tableFilename s.walFilename id = l.tableFilename id := by
  rw [h.walFilename_eq]
  rfl

section Success

variable {l : Layout} {d : Disk} {s : Storage} {ms : List Entries} {data : Entries} {log : Bytes}

/-- A flush with every step succeeding, whatever the listed files hold. -/
theorem flushMemtable_run (hw : Wired l s) (hname : s.manifest.filename = l.manifestFilename)
    (hcar : s.wal.Carries d log) (hne : data.entries ≠ []) :
    ∃ s' d', Succeeds (s.flushMemtable data) d (.ok (), s') d' ∧ Wired l s' ∧
      s'.wal.Carries d' [] ∧ s.wal.SameFile s'.wal ∧
      s'.manifest = s.manifest.pushed (Shows.nextTable l s.manifest data) ∧
      d'.lookup (l.tableFilename s.manifest.nextTableId) = some (.regular (tableContents data)) ∧
      d'.lookup l.manifestFilename = some (.regular s'.manifest.manifestText) ∧
      Disk.SameExcept (l.tableFilename s.manifest.nextTableId :: l.walFilename ::
        s.manifest.paths) d d' := by
  obtain ⟨d₁, hwrite, hfile, hsame₁⟩ := write_succeeds d (l.tableFilename s.manifest.nextTableId)
    s.manifest.nextTableId data
  obtain ⟨d₂, hadd, hman, hsame₂⟩ := s.manifest.addTable_succeeds
    (Shows.nextTable l s.manifest data) d₁
  have hcar₂ : s.wal.Carries d₂ log := by
    apply hcar.of_same
    rw [hw.wal_eq, hsame₂ _ (l.wal_notMem_paths hname),
      hsame₁ _ (by simpa using l.wal_ne_table _)]
  obtain ⟨w, d₃, htrunc, hcar₃, hfile₃, hsame₃⟩ := Wal.truncate_succeeds hcar₂
  rw [hw.wal_eq] at hsame₃
  refine ⟨⟨s.walFilename, s.durabilityMode, w, s.manifest.pushed (Shows.nextTable l s.manifest data)⟩,
    d₃, ?_, ⟨hw.walFilename_eq, hfile₃.1.trans hw.wal_eq⟩, hcar₃, hfile₃, rfl, ?_, ?_, ?_⟩
  · rw [Storage.flushMemtable, if_neg hne, hw.walFilename_eq]
    refine hwrite.bind (hadd.bind ?_)
    exact htrunc.bind .pure
  · rw [hsame₃ _ (by simpa using (l.wal_ne_table _).symm), hsame₂ _ (l.table_notMem_paths hname _),
      hfile]
  · rw [hsame₃ _ (by simpa using l.wal_ne_manifest.symm), ← hname, hman]
  · intro q hq
    simp only [List.mem_cons, not_or] at hq
    rw [hsame₃ q (by simpa using hq.2.1), hsame₂ q hq.2.2, hsame₁ q (by simpa using hq.1)]

/-- On a list whose files are all there, it adds the data as the newest layer. -/
theorem flushMemtable_succeeds (hw : Wired l s) (hs : Shows l d s.manifest ms)
    (hcar : s.wal.Carries d log) (hdata : Storable data) (hne : data.entries ≠ [])
    (hroom : s.manifest.nextTableId + 1 < 2 ^ 64) :
    ∃ s' d', Succeeds (s.flushMemtable data) d (.ok (), s') d' ∧ Wired l s' ∧
      Shows l d' s'.manifest (ms ++ [data]) ∧ s'.wal.Carries d' [] ∧ s.wal.SameFile s'.wal ∧
      s'.manifest = s.manifest.pushed (Shows.nextTable l s.manifest data) ∧
      d'.lookup l.manifestFilename = some (.regular s'.manifest.manifestText) := by
  obtain ⟨s', d', hflush, hw', hcar', hfile', hman, htable, htext, hsame⟩ :=
    flushMemtable_run hw hs.filename_eq hcar hne
  have hs' : Shows l d' s.manifest ms := by
    refine hs.frame hsame (fun t ht hmem => ?_)
    have hmem' := List.mem_cons.mp hmem
    rw [List.mem_cons] at hmem'
    rcases hmem' with he | he | he
    · exact hs.ne_next ht he
    · exact l.wal_ne_table t.id (hs.placed t ht ▸ he.symm)
    · exact l.table_notMem_paths hs.filename_eq t.id (hs.placed t ht ▸ he)
  exact ⟨s', d', hflush, hw', hman ▸ hs'.pushed hroom hdata htable, hcar', hfile', hman, htext⟩

end Success
end ForgeDB
