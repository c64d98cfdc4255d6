import ForgeDB.Restarts

/-!
# A flush that stops anywhere

A flush under an arbitrary plan of outcomes. When it returns, the engine still fits its
files, with or without the new layer; when the process dies, the files left behind fit
together in one of three ways.
-/

namespace ForgeDB
open CrashPrograms CrashPrograms.Io LayeredMaps SSTables Shows TextStreams

/-- Files from which a start shows the layers `ms` under the log. -/
structure Survives (l : Layout) (d : Disk) (spent : ℕ) (ms : List Entries) (log : Bytes) :
    Prop where
  list : ∃ m, Persisted l d m ∧ Shows l d m ms ∧ NextWithin spent m
  log : LogFile l d log

/-- A synchronous engine in step with its files, after `spent` failed changes of the list.
The list on disk may lag behind in its next id only. -/
structure Standing (l : Layout) (d : Disk) (spent : ℕ) (s : Storage) (ms : List Entries)
    (log : Bytes) : Prop where
  wired : Wired l s
  sync : s.wal.durabilityMode = .sync
  shows : Shows l d s.manifest ms
  next_le : NextWithin spent s.manifest
  carries : s.wal.Carries d log
  persisted : ∃ m, Persisted l d m ∧ Shows l d m ms ∧ NextWithin spent m ∧
    m.tables = s.manifest.tables

section Standing

variable {l : Layout} {d d' : Disk} {spent : ℕ} {s : Storage} {ms : List Entries} {log : Bytes}
  {data : Entries}

theorem Standing.survives (h : Standing l d spent s ms log) : Survives l d spent ms log := by
  obtain ⟨m, hp, hs, hnext, -⟩ := h.persisted
  refine ⟨⟨m, hp, hs, hnext⟩, Or.inl ?_⟩
  rw [← h.wired.wal_eq]
  exact h.carries.lookup_of_sync h.sync

theorem Standing.mono {spent' : ℕ} (h : Standing l d spent s ms log) (hle : spent ≤ spent') :
    Standing l d spent' s ms log := by
  obtain ⟨m, hp, hs, hnext, heq⟩ := h.persisted
  exact ⟨h.wired, h.sync, h.shows, h.next_le.mono hle, h.carries, m, hp, hs, hnext.mono hle, heq⟩

theorem Standing.of_same (h : Standing l d spent s ms log)
    (htables : ∀ t ∈ s.manifest.tables, d'.lookup t.filename = d.lookup t.filename)
    (hman : d'.lookup l.manifestFilename = d.lookup l.manifestFilename)
    (hwal : d'.lookup l.walFilename = d.lookup l.walFilename) : Standing l d' spent s ms log := by
  obtain ⟨m, hp, hs, hnext, heq⟩ := h.persisted
  exact ⟨h.wired, h.sync, h.shows.of_same htables, h.next_le,
    h.carries.of_same (h.wired.wal_eq ▸ hwal), m, hp.of_same hman, hs.of_same (heq ▸ htables), hnext,
    heq⟩

theorem Standing.frame_next (h : Standing l d spent s ms log)
    (hsame : Disk.SameExcept [l.tableFilename s.manifest.nextTableId] d d') :
    Standing l d' spent s ms log := by
  refine h.of_same (fun t ht => hsame _ ?_) (hsame _ ?_) (hsame _ ?_)
  · simpa using h.shows.ne_next ht
  · rw [List.mem_singleton]
    exact Layout.manifest_ne_table l.walFilename _
  · rw [List.mem_singleton]
    exact l.wal_ne_table _

/-- A failed change of the list leaves at most its temporary file. -/
theorem Standing.frame_paths (h : Standing l d spent s ms log)
    (hsame : Disk.SameExcept s.manifest.paths d d')
    (hman : d'.lookup s.manifest.filename = d.lookup s.manifest.filename) :
    Standing l d' spent s ms log := by
  refine h.of_same (fun t ht => hsame _ ?_) (h.shows.filename_eq ▸ hman)
    (hsame _ (l.wal_notMem_paths h.shows.filename_eq))
  rw [h.shows.placed t ht]
  exact l.table_notMem_paths h.shows.filename_eq t.id

theorem Standing.popped (h : Standing l d spent s ms log)
    (hroom : s.manifest.nextTableId + 1 < 2 ^ 64) :
    Standing l d (spent + 1)
      { s with manifest := s.manifest.popped (nextTable l s.manifest data) } ms log := by
  obtain ⟨m, hp, hs, hnext, heq⟩ := h.persisted
  exact ⟨⟨h.wired.walFilename_eq, h.wired.wal_eq⟩, h.sync, h.shows.popped hroom,
    h.next_le.popped hroom, h.carries, m, hp, hs, hnext.mono (Nat.le_succ _), heq⟩

theorem readable_nextTable (hplain : l.Plain) {m : Manifest} (hnext : m.nextTableId < 2 ^ 64)
    (hdata : Storable data) (hne : data.entries ≠ []) (hwords : ∀ e ∈ data.entries, IsWord e.1) :
    Manifest.Readable (nextTable l m data) := by
  obtain ⟨⟨e, he, hsmall⟩, ⟨e', he', hlarge⟩⟩ :=
    exists_range m.nextTableId (l.tableFilename m.nextTableId) hne
  refine ⟨hnext, Layout.isWord_tableFilename hplain _, ?_, ?_, ?_⟩
  · rw [nextTable, hsmall]
    exact hwords e he
  · rw [nextTable, hlarge]
    exact hwords e' he'
  · exact (length_sortEntries data).trans_lt hdata.count_lt

theorem Standing.printable_pushed (hplain : l.Plain) (h : Standing l d spent s ms log)
    (hroom : s.manifest.nextTableId + 1 < 2 ^ 64) (hdata : Storable data)
    (hne : data.entries ≠ []) (hwords : ∀ e ∈ data.entries, IsWord e.1) :
    (s.manifest.pushed (nextTable l s.manifest data)).Printable := by
  have hold : ∀ t ∈ s.manifest.tables, Manifest.Readable t := by
    obtain ⟨m, hp, -, -, heq⟩ := h.persisted
    exact heq ▸ hp.printable.readable
  refine ⟨?_, ?_, ?_⟩
  · rw [next_pushed _ hroom]
    exact hroom
  · have hlen := h.shows.length_le
    rw [Manifest.pushed, List.length_append, List.length_singleton]
    omega
  · intro t ht
    rcases List.mem_append.mp ht with ht | ht
    · exact hold t ht
    · rw [List.mem_singleton.mp ht]
      exact readable_nextTable hplain (by omega) hdata hne hwords

theorem Standing.pushed (hplain : l.Plain) (h : Standing l d spent s ms log)
    (hroom : s.manifest.nextTableId + 1 < 2 ^ 64) (hdata : Storable data)
    (hne : data.entries ≠ []) (hwords : ∀ e ∈ data.entries, IsWord e.1)
    (htable : d.lookup (l.tableFilename s.manifest.nextTableId) = some (.regular (tableContents data)))
    (hsame : Disk.SameExcept s.manifest.paths d d')
    (hman : d'.lookup s.manifest.filename =
      some (.regular (s.manifest.pushed (nextTable l s.manifest data)).manifestText)) :
    Standing l d' spent { s with manifest := s.manifest.pushed (nextTable l s.manifest data) }
      (ms ++ [data]) log := by
  have hname := h.shows.filename_eq
  have hs' := (h.shows.frame_manifest hname hsame).pushed hroom hdata
    ((hsame _ (l.table_notMem_paths hname _)).trans htable)
  have hwal : d'.lookup s.wal.filename = d.lookup s.wal.filename := by
    rw [h.wired.wal_eq]
    exact hsame _ (l.wal_notMem_paths hname)
  have hnext : NextWithin spent (s.manifest.pushed (nextTable l s.manifest data)) :=
    h.next_le.pushed hroom
  refine ⟨⟨h.wired.walFilename_eq, h.wired.wal_eq⟩, h.sync, hs', hnext, h.carries.of_same hwal, ?_⟩
  exact ⟨_, Or.inl ⟨hname ▸ hman, h.printable_pushed hplain hroom hdata hne hwords, hname⟩, hs', hnext,
    rfl⟩

theorem Standing.with_wal (h : Standing l d spent s ms log) {w : Wal} {log' : Bytes}
    (hcar : w.Carries d' log') (hfile : s.wal.SameFile w)
    (hsame : Disk.SameExcept [s.wal.filename] d d') :
    Standing l d' spent { s with wal := w } ms log' := by
  rw [h.wired.wal_eq] at hsame
  obtain ⟨m, hp, hs, hnext, heq⟩ := h.persisted
  refine ⟨⟨h.wired.walFilename_eq, hfile.1.trans h.wired.wal_eq⟩, hfile.2.trans h.sync,
    h.shows.frame_wal hsame, h.next_le, hcar, m, hp.of_same (hsame _ ?_), hs.frame_wal hsame, hnext,
    heq⟩
  rw [List.mem_singleton]
  exact l.wal_ne_manifest.symm

/-- Emptying the log under any plan: it is as before or empty. -/
theorem Standing.resetWal_ensures (h : Standing l d spent s ms log) :
    Ensures s.resetWal d
      (fun r d' => ∃ log', (log' = log ∨ log' = []) ∧ (r.1 = .ok () → log' = []) ∧
        Standing l d' spent r.2 ms log')
      (fun d' => ∃ log', (log' = log ∨ log' = []) ∧ Survives l d' spent ms log') := by
  refine ((Wal.truncate_ensures h.carries h.sync).mono (fun _ _ hr => hr) ?_).bind ?_
  · intro d' hd'
    obtain ⟨hlog, hsame⟩ := hd'
    rw [h.wired.wal_eq] at hlog hsame
    obtain ⟨m, hp, hs, hnext, -⟩ := h.persisted
    have hlist : ∃ m, Persisted l d' m ∧ Shows l d' m ms ∧ NextWithin spent m :=
      ⟨m, hp.of_same (hsame _ (by simpa using l.wal_ne_manifest.symm)), hs.frame_wal hsame, hnext⟩
    rcases hlog with hlog | hlog
    · exact ⟨log, Or.inl rfl, hlist, Or.inl hlog⟩
    · exact ⟨[], Or.inr rfl, hlist, Or.inl hlog⟩
  · intro r d₁ hr
    obtain ⟨ok, w⟩ := r
    obtain ⟨hcar, hok, hfile, hsame⟩ := hr
    cases ok with
    | true => exact .pure ⟨[], Or.inr rfl, fun _ => rfl, h.with_wal (hok rfl) hfile hsame⟩
    | false =>
      rcases hcar with hcar | hcar
      · exact .pure ⟨log, Or.inl rfl, by simp, h.with_wal hcar hfile hsame⟩
      · exact .pure ⟨[], Or.inr rfl, fun _ => rfl, h.with_wal hcar hfile hsame⟩

theorem flushMemtable_ensures (hplain : l.Plain) (h : Standing l d spent s ms log)
    (hroom : s.manifest.nextTableId + 1 < 2 ^ 64) (hdata : Storable data)
    (hne : data.entries ≠ []) (hwords : ∀ e ∈ data.entries, IsWord e.1) :
    Ensures (s.flushMemtable data) d
      (fun r d' => ((∃ e, r.1 = .error e) ∧ Standing l d' (spent + 1) r.2 ms log) ∨
        ∃ log', (log' = log ∨ log' = []) ∧ (r.1 = .ok () → log' = []) ∧
          Standing l d' spent r.2 (ms ++ [data]) log')
      (fun d' => Survives l d' spent ms log ∨
        ∃ log', (log' = log ∨ log' = []) ∧ Survives l d' spent (ms ++ [data]) log') := by
  have hname : Storage.tableFilename s.walFilename s.manifest.nextTableId =
      l.tableFilename s.manifest.nextTableId := by
    rw [h.wired.walFilename_eq]
    rfl
  rw [Storage.flushMemtable, if_neg hne]
  simp only [hname]
  -- the table file
  refine ((write_ensures d _ _ _).mono (fun _ _ hr => hr)
    (fun d' hsame => Or.inl (h.frame_next hsame).survives)).bind ?_
  intro r d₁ hr
  obtain ⟨hsame₁, ⟨e, rfl⟩ | ⟨rfl, htable⟩⟩ := hr
  · exact .pure (Or.inl ⟨⟨e, rfl⟩, (h.frame_next hsame₁).mono (Nat.le_succ _)⟩)
  have h₁ := h.frame_next hsame₁
  -- the list
  refine ((s.manifest.addTable_ensures _ d₁).mono (fun _ _ hr => hr)
    (fun d' hd' => Or.inl (h₁.frame_paths hd'.1 hd'.2).survives)).bind ?_
  intro r d₂ hr
  obtain ⟨hsame₂, ⟨rfl, hman⟩ | ⟨⟨e, rfl⟩, hman⟩⟩ := hr
  · -- the log
    have h₂ := h₁.pushed hplain hroom hdata hne hwords htable hsame₂ hman
    exact h₂.resetWal_ensures.mono (fun _ _ hr => Or.inr hr) (fun _ hd' => Or.inr hd')
  · -- the list was refused, the table file goes again
    have h₂ := h₁.frame_paths hsame₂ hman
    refine .seq (fun _ d' => Disk.SameExcept [l.tableFilename s.manifest.nextTableId] d₂ d') ?_ ?_
    · exact .attempt (Disk.SameExcept.refl.erase (List.mem_singleton_self _)) (fun _ => .refl)
        (fun _ => Or.inl h₂.survives)
    · intro removed d₃ hsame₃
      exact .pure (Or.inl ⟨⟨e, rfl⟩, (h₂.frame_next hsame₃).popped hroom⟩)

end Standing
end ForgeDB
