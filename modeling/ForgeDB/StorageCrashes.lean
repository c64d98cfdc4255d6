import ForgeDB.CompactionRuns

/-!
# A death in a flush or in a compaction

The process may die in any step of a flush or of a compaction, after failures of other steps
or without any. Of a table that is being written a beginning may be there, and the list is the
old one or the next one.
-/

namespace ForgeDB.CompactionRuns
open CompactionSteps CrashPrograms CrashPrograms.Io Database LayeredMaps Manifest Reopening
open SSTables TableIds TextStreams

section Flush

variable {l : Layout} {d d' : Disk} {m : Manifest} {s : Storage} {data : Entries} {log : Bytes}

/-- Dead while it writes a table file, the process leaves a beginning of the table. -/
theorem write_torn (d : Disk) (filename : Bytes) (id : ℕ) (data : Entries) :
    Ensures (SSTables.write filename id data) d (fun _ _ => True)
      (fun d' => d'.lookup filename = d.lookup filename ∨
        ∃ n, d'.lookup filename = some (.regular ((tableContents data).take n))) := by
  rw [SSTables.write]
  refine .seq (fun created d' => created = true → d'.lookup filename = some (.regular [])) ?_ ?_
  · exact .attempt (fun _ => Disk.lookup_put) (fun _ => by simp) (fun _ => Or.inl rfl)
  intro created d₁ hempty
  cases created with
  | false => exact .pure trivial
  | true =>
    refine .seq (fun _ _ => True) ?_ (fun written _ _ => by cases written <;> exact .pure trivial)
    refine .attempt trivial (fun _ => trivial) (fun n => Or.inr ⟨n, ?_⟩)
    rw [Disk.lookup_append _ (hempty rfl), List.nil_append]

/-- The table file is being written, or is there, and the list is the old one. -/
structure TableCut (l : Layout) (d d' : Disk) (m : Manifest) (data : Entries) : Prop where
  same : Disk.SameExcept (l.tableFilename m.nextTableId :: m.paths) d d'
  list : d'.lookup m.filename = d.lookup m.filename
  file : d'.lookup (l.tableFilename m.nextTableId) = d.lookup (l.tableFilename m.nextTableId) ∨
    ∃ n, d'.lookup (l.tableFilename m.nextTableId) =
      some (.regular ((tableContents data).take n))

/-- The table file is there and on the list; then the log was perhaps emptied. -/
structure TableListed (l : Layout) (d d' : Disk) (m : Manifest) (data : Entries) (log : Bytes) :
    Prop where
  same : Disk.SameExcept (l.tableFilename m.nextTableId :: l.walFilename :: m.paths) d d'
  list : d'.lookup m.filename =
    some (.regular (m.pushed (Shows.nextTable l m data)).manifestText)
  file : d'.lookup (l.tableFilename m.nextTableId) = some (.regular (tableContents data))
  log : d'.lookup l.walFilename = some (.regular log)

theorem TableCut.beside (h : TableCut l d d' m data) :
    Disk.SameExcept (l.tableFilename m.nextTableId :: l.walFilename :: m.paths) d d' := by
  refine h.same.mono (fun path hmem => ?_)
  rcases List.mem_cons.mp hmem with rfl | hmem
  · exact List.mem_cons_self
  · exact List.mem_cons_of_mem _ (List.mem_cons_of_mem _ hmem)

theorem flushMemtable_cut (hw : Wired l s) (hname : s.manifest.filename = l.manifestFilename)
    (hcar : s.wal.Carries d log) (hsync : s.wal.durabilityMode = .sync)
    (hne : data.entries ≠ []) :
    Ensures (s.flushMemtable data) d
      (fun r d' => r.1 = .ok () →
        r.2.manifest = s.manifest.pushed (Shows.nextTable l s.manifest data) ∧ Wired l r.2 ∧
          TableListed l d d' s.manifest data [])
      (fun d' => TableCut l d d' s.manifest data ∨
        ∃ log', (log' = log ∨ log' = []) ∧ TableListed l d d' s.manifest data log') := by
  have hnext : Storage.tableFilename s.walFilename s.manifest.nextTableId =
      l.tableFilename s.manifest.nextTableId := hw.tableFilename_eq _
  have hnotman : s.manifest.filename ∉ [l.tableFilename s.manifest.nextTableId] := by
    rw [List.mem_singleton, hname]
    exact Layout.manifest_ne_table l.walFilename _
  have hlog := hcar.lookup_of_sync hsync
  rw [hw.wal_eq] at hlog
  rw [Storage.flushMemtable, if_neg hne]
  simp only [hnext]
  -- the table file
  refine (((write_ensures d _ _ _).and (write_torn d _ _ _)).mono (fun _ _ hr => hr.1)
    (fun d' hd' => Or.inl ⟨hd'.1.mono (by simp), hd'.1 _ hnotman, hd'.2⟩)).bind ?_
  intro r d₁ hr
  obtain ⟨hsame₁, ⟨e, rfl⟩ | ⟨rfl, hfile⟩⟩ := hr
  · exact .pure (by simp)
  -- the list
  have hcut : ∀ {d₂}, Disk.SameExcept s.manifest.paths d₁ d₂ →
      d₂.lookup s.manifest.filename = d₁.lookup s.manifest.filename →
      TableCut l d d₂ s.manifest data := by
    intro d₂ hsame hlist
    refine ⟨(hsame₁.mono (by simp)).trans (hsame.mono (fun _ => List.mem_cons_of_mem _)),
      hlist.trans (hsame₁ _ hnotman), Or.inr ⟨(tableContents data).length, ?_⟩⟩
    rw [List.take_length, hsame _ (l.table_notMem_paths hname _), hfile]
  refine ((s.manifest.addTable_ensures _ d₁).mono (fun _ _ hr => hr)
    (fun d₂ hd₂ => Or.inl (hcut hd₂.1 hd₂.2))).bind ?_
  intro r d₂ hr
  obtain ⟨hsame₂, ⟨rfl, hlist⟩ | ⟨⟨e, rfl⟩, hlist⟩⟩ := hr
  · -- the log
    have hwal₂ : d₂.lookup l.walFilename = some (.regular log) := by
      rw [hsame₂ _ (l.wal_notMem_paths hname), hsame₁ _ (by simpa using l.wal_ne_table _), hlog]
    have hcar₂ : s.wal.Carries d₂ log := hcar.of_same (by rw [hw.wal_eq, hwal₂, hlog])
    have hlisted : ∀ {d₃ log'}, Disk.SameExcept [s.wal.filename] d₂ d₃ →
        d₃.lookup s.wal.filename = some (.regular log') →
        TableListed l d d₃ s.manifest data log' := by
      intro d₃ log' hsame hlog'
      rw [hw.wal_eq] at hsame hlog'
      refine ⟨((hsame₁.mono (by simp)).trans (hsame₂.mono ?_)).trans (hsame.mono (by simp)), ?_, ?_,
        hlog'⟩
      · exact fun _ hmem => List.mem_cons_of_mem _ (List.mem_cons_of_mem _ hmem)
      · rw [hsame _ ?_, hlist]
        · rfl
        · rw [List.mem_singleton, hname]
          exact l.wal_ne_manifest.symm
      · rw [hsame _ ?_, hsame₂ _ (l.table_notMem_paths hname _), hfile]
        rw [List.mem_singleton]
        exact (l.wal_ne_table _).symm
    change Ensures (Storage.resetWal _) d₂ _ _
    rw [Storage.resetWal]
    refine ((Wal.truncate_ensures hcar₂ hsync).mono (fun _ _ hr => hr) (fun d₃ hd₃ => ?_)).bind ?_
    · obtain ⟨hold | hnew, hsame₃⟩ := hd₃
      · exact Or.inr ⟨log, Or.inl rfl, hlisted hsame₃ hold⟩
      · exact Or.inr ⟨[], Or.inr rfl, hlisted hsame₃ hnew⟩
    · rintro ⟨ok, w⟩ d₃ ⟨-, hempty, ⟨hname', hmode⟩, hsame₃⟩
      cases ok with
      | false => exact .pure (by simp)
      | true =>
        have hlog₃ := (hempty rfl).lookup_of_sync (hmode.trans hsync)
        rw [hname'] at hlog₃
        exact .pure (fun _ => ⟨rfl, ⟨hw.walFilename_eq, hname'.trans hw.wal_eq⟩,
          hlisted hsame₃ hlog₃⟩)
  · -- the list was refused, the table file goes again
    refine .seq (fun _ _ => True) ?_ (fun _ _ _ => .pure (by simp))
    exact .attempt trivial (fun _ => trivial) (fun _ => Or.inl (hcut hsame₂ hlist))

end Flush

section Compaction

variable {l : Layout} {d d' : Disk} {m q : Manifest} {s : Storage} {ms ms' : List Entries}

theorem shows_of_holds (h : Shows l d m ms) (h' : List.Forall₂ (Holds d') m.tables ms') :
    Shows l d' m ms' :=
  ⟨h.filename_eq, h', h.placed, h.increasing, h.ids_lt, h.next_lt⟩

/-- Taking the old tables off the list touches the list only. -/
theorem unlist_same (s : Storage) (p : Manifest) (hp : p.filename = s.manifest.filename) (d : Disk) :
    Ensures (do
        let (removed, manifest) ← p.removeTables (s.manifest.tables.map SSTableMetadata.id)
        return (removed, { s with manifest := manifest })) d
      (fun _ d' => Disk.SameExcept s.manifest.paths d d')
      (fun d' => Disk.SameExcept s.manifest.paths d d') := by
  have hpaths : p.paths = s.manifest.paths := by
    rw [paths, paths, temporary, temporary, hp]
  rw [← hpaths]
  refine ((p.removeTables_ensures _ d).mono (fun _ _ h => h) (fun _ h => h.1)).bind ?_
  rintro ⟨removed, m⟩ d₁ ⟨hsame, -⟩
  exact .pure hsame

/-- Writing and listing the replacement touches its file and the list only. -/
theorem replaceTables_same (hw : Wired l s) (merged : Entries) (d : Disk) :
    Ensures (s.replaceTables merged) d
      (fun _ d' =>
        Disk.SameExcept (l.tableFilename s.manifest.nextTableId :: s.manifest.paths) d d')
      (fun d' =>
        Disk.SameExcept (l.tableFilename s.manifest.nextTableId :: s.manifest.paths) d d') := by
  have hlist : ∀ {d₁ d₂}, Disk.SameExcept s.manifest.paths d₁ d₂ →
      Disk.SameExcept (l.tableFilename s.manifest.nextTableId :: s.manifest.paths) d₁ d₂ :=
    fun hsame => hsame.mono (fun _ => List.mem_cons_of_mem _)
  rw [Storage.replaceTables]
  simp only [hw.tableFilename_eq]
  refine ((write_ensures d _ _ _).mono (fun _ _ h => h) (fun _ h => h.mono (by simp))).bind ?_
  intro r d₁ hr
  obtain ⟨hsame, hr⟩ := hr
  have h₁ : Disk.SameExcept (l.tableFilename s.manifest.nextTableId :: s.manifest.paths) d d₁ :=
    hsame.mono (by simp)
  obtain ⟨e, rfl⟩ | ⟨rfl, -⟩ := hr
  · exact .pure h₁
  refine ((s.manifest.addTable_ensures _ d₁).mono (fun _ _ h => h)
    (fun _ h => h₁.trans (hlist h.1))).bind ?_
  intro r d₂ hr
  obtain ⟨hsame₂, ⟨rfl, -⟩ | ⟨⟨e, rfl⟩, -⟩⟩ := hr
  · have h₂ := h₁.trans (hlist hsame₂)
    exact (unlist_same s (s.manifest.pushed _) rfl d₂).mono (fun _ _ h => h₂.trans (hlist h))
      (fun _ h => h₂.trans (hlist h))
  · have h₂ := h₁.trans (hlist hsame₂)
    refine .seq (fun _ d₃ => Disk.SameExcept
      (l.tableFilename s.manifest.nextTableId :: s.manifest.paths) d d₃) ?_ (fun _ _ h => .pure h)
    exact .attempt (h₂.erase List.mem_cons_self) (fun _ => h₂) (fun _ => h₂)

theorem mergeTables_same (hw : Wired l s) (d : Disk) :
    Ensures s.mergeTables d
      (fun _ d' =>
        Disk.SameExcept (l.tableFilename s.manifest.nextTableId :: s.manifest.paths) d d')
      (fun d' =>
        Disk.SameExcept (l.tableFilename s.manifest.nextTableId :: s.manifest.paths) d d') := by
  have hloads : Ensures (Storage.loadTables s.manifest.tables ∅) d (fun _ d' => d' = d)
      (fun d' => d' = d) :=
    (loadTables_forall (p := fun _ => True) (by simp) (by simp)).mono (fun _ _ h => h.1)
      (fun _ h => h)
  rw [Storage.mergeTables]
  refine (hloads.mono (fun _ _ h => h) (fun d' hd' => hd' ▸ .refl)).bind ?_
  rintro r d' rfl
  cases r with
  | error e => exact .pure .refl
  | ok merged => exact replaceTables_same hw _ d'

/-- Each of the lists that can be the persisted one can be read back. -/
theorem candidate_shows (hplain : l.Plain) (hs : Shows l d s.manifest ms)
    (hprint : s.manifest.Printable) (hroom : s.manifest.nextTableId + 1 < 2 ^ 64)
    (hlen : s.manifest.tables.length + 1 < 2 ^ 64)
    (hkept : ∀ e ∈ (mergedLive ms).entries, Kept e)
    (hcount : (mergedLive ms).entries.length < 2 ^ 64) (hne : (mergedLive ms).entries ≠ [])
    (hq : Candidate l s.manifest s.manifest ms q)
    (h' : List.Forall₂ (Holds d') q.tables ms') : q.Printable ∧ Shows l d' q ms' := by
  have hstacked := printable_pushed hplain hprint hlen hkept hcount hne
  have hpushed : Shows l (Disk.put (l.tableFilename s.manifest.nextTableId)
      (tableContents (mergedLive ms)) d) (stacked l s.manifest ms) (ms ++ [mergedLive ms]) :=
    (hs.frame_next (Disk.SameExcept.refl.put (List.mem_singleton_self _))).pushed hroom
      ⟨fun e he => (hkept e he).2, hcount⟩ Disk.lookup_put
  obtain rfl | rfl | rfl := hq
  · exact ⟨hprint, shows_of_holds hs h'⟩
  · exact ⟨hstacked, shows_of_holds hpushed h'⟩
  · have hsub : (replaced l s.manifest ms).tables.Sublist (stacked l s.manifest ms).tables :=
      relisted_sublist l s.manifest (mergedLive ms)
    refine ⟨⟨hstacked.next_lt, hsub.length_le.trans_lt hstacked.length_lt,
      fun t ht => hstacked.readable t (hsub.subset ht)⟩, hs.filename_eq, h',
      fun t ht => hpushed.placed t (hsub.subset ht), hpushed.increasing.sublist hsub,
      fun t ht => hpushed.ids_lt t (hsub.subset ht), hpushed.next_lt⟩

theorem kept_mergedLive (hwords : ∀ m ∈ ms, ∀ e ∈ m.entries, Kept e) :
    ∀ e ∈ (mergedLive ms).entries, Kept e := by
  rintro ⟨key, e⟩ he
  have hkey : (mergedLive ms).lookup key = some e := AList.mem_lookup_iff.mpr he
  rw [lookup_mergedLive, Option.filter_eq_some_iff] at hkey
  obtain ⟨m, hm, hfound⟩ := exists_lookup_of_newest hkey.1
  exact hwords m hm _ (AList.mem_lookup_iff.mp hfound)

/-- Dead in a compaction of tables that all have files, the process leaves files on which a
start finds layers that answer the same. -/
theorem compact_cut (hplain : l.Plain) (hw : Wired l s) (hs : Shows l d s.manifest ms)
    (hfile : d.lookup l.manifestFilename = some (.regular s.manifest.manifestText))
    (hprint : s.manifest.Printable) (hroom : s.manifest.nextTableId + 1 < 2 ^ 64)
    (hlen : s.manifest.tables.length + 1 < 2 ^ 64)
    (hwords : ∀ m ∈ ms, ∀ e ∈ m.entries, Kept e)
    (hlive : 2 ≤ s.manifest.tables.length →
      (mergedLive ms).entries.length < 2 ^ 64 ∧ (mergedLive ms).entries ≠ []) :
    Ensures s.compact d (fun _ _ => True)
      (fun d' => (∃ ts ms', Layers ms ms' ∧ Boots l d' ts ms') ∧
        d'.lookup l.walFilename = d.lookup l.walFilename) := by
  rw [Storage.compact]
  by_cases hfew : s.manifest.tables.length < 2
  · rw [if_pos hfew]
    exact .pure trivial
  rw [if_neg hfew]
  obtain ⟨hcount, hne⟩ := hlive (not_lt.mp hfew)
  have hkept := kept_mergedLive hwords
  have hboots : ∀ {q d'}, Candidate l s.manifest s.manifest ms q →
      (∃ ms', Layers ms ms' ∧ List.Forall₂ (Holds d') q.tables ms') →
      d'.lookup l.manifestFilename = some (.regular q.manifestText) →
      ∃ ts ms', Layers ms ms' ∧ Boots l d' ts ms' := by
    rintro q d' hq ⟨ms', hlayers, hholds⟩ hlist
    obtain ⟨hq', hshows⟩ :=
      candidate_shows hplain hs hprint hroom hlen hkept hcount hne hq hholds
    exact ⟨q.tables, ms', hlayers, .listed (Or.inl ⟨hlist, hq', hshows.filename_eq⟩) rfl hshows⟩
  have hwal : ∀ {d'},
      Disk.SameExcept (l.tableFilename s.manifest.nextTableId :: s.manifest.paths) d d' →
      d'.lookup l.walFilename = d.lookup l.walFilename := by
    intro d' hsame
    refine hsame _ ?_
    rw [List.mem_cons, not_or]
    exact ⟨l.wal_ne_table _, l.wal_notMem_paths hs.filename_eq⟩
  refine (((mergeTables_ensures hw hs rfl hfile hcount).and (mergeTables_same hw d)).mono
    (fun _ _ h => h) (fun d' hd' => ?_)).bind ?_
  · obtain ⟨⟨q, hq, hholds, hlist⟩, hsame⟩ := hd'
    exact ⟨hboots hq hholds hlist, hwal hsame⟩
  · rintro ⟨r, s'⟩ d₁ ⟨⟨q, hq, hstopped, hok⟩, hsame⟩
    cases r with
    | error e => exact .pure trivial
    | ok u =>
      -- dead in the deletion, the process has deleted nothing
      have hone : s'.manifest.tables = [Shows.nextTable l s.manifest (mergedLive ms)] := by
        rw [(hok rfl).manifest]
        exact without_old hs (mergedLive ms)
      refine .seq (fun _ _ => True) ?_ (fun _ _ _ => .pure trivial)
      rw [hone, Storage.removeFiles]
      refine .seq (fun _ _ => True) ?_ (fun _ _ _ => .pure trivial)
      exact .attempt trivial (fun _ => trivial)
        (fun _ => ⟨hboots hq hstopped.disk hstopped.file, hwal hsame⟩)

theorem loadTables_gone {tables : List SSTableMetadata} {gone : SSTableMetadata}
    (hgone : gone ∈ tables) (hnone : d.lookup gone.filename = none) (base : Entries) :
    Ensures (Storage.loadTables tables base) d (fun r d' => (∃ e, r = .error e) ∧ d' = d)
      (fun d' => d' = d) := by
  induction tables generalizing base with
  | nil => cases hgone
  | cons table tables ih =>
    rw [Storage.loadTables]
    refine (load_reads d table).bind ?_
    rintro r d' ⟨rfl, hread⟩
    cases r with
    | error e => exact .pure ⟨⟨e, rfl⟩, rfl⟩
    | ok found =>
      rcases List.mem_cons.mp hgone with rfl | hgone
      · have hfound := hread found rfl
        rw [loadResult_missing hnone] at hfound
        cases hfound
      · exact ih hgone _

theorem compact_gone {gone : SSTableMetadata} (hgone : gone ∈ s.manifest.tables)
    (hnone : d.lookup gone.filename = none) :
    Ensures s.compact d (fun _ _ => True) (fun d' => d' = d) := by
  rw [Storage.compact]
  by_cases hfew : s.manifest.tables.length < 2
  · rw [if_pos hfew]
    exact .pure trivial
  rw [if_neg hfew]
  have hmerge : Ensures s.mergeTables d (fun r d' => (∃ e, r.1 = .error e) ∧ d' = d)
      (fun d' => d' = d) := by
    rw [Storage.mergeTables]
    refine (loadTables_gone hgone hnone ∅).bind ?_
    rintro r d' ⟨⟨e, rfl⟩, rfl⟩
    exact .pure ⟨⟨e, rfl⟩, rfl⟩
  refine hmerge.bind ?_
  rintro ⟨r, s'⟩ d' ⟨⟨e, rfl⟩, rfl⟩
  exact .pure trivial

end Compaction

end ForgeDB.CompactionRuns
