import ForgeDB.Databases

/-!
# Compaction

All tables are merged into one without tombstones, which is listed on top of them before
they are taken off the list. Wherever this stops, the list in memory and the list on
disk answer as before.
-/

namespace ForgeDB.CompactionSteps
open CrashPrograms CrashPrograms.Io Database LayeredMaps SSTables

/-- The map the replacement table is written from. -/
def mergedLive (ms : List Entries) : Entries :=
  Storage.dropTombstones ((ms.map loadedEntries).foldl overwrite ∅)

theorem lookup_mergedLive (ms : List Entries) (key : Bytes) :
    (mergedLive ms).lookup key = (newest ms key).filter (fun e => !e.deleted) := by
  rw [mergedLive, Storage.dropTombstones, lookup_keepIf, lookup_loadTables]

theorem live_filter (e : Option MemTableEntry) : live (e.filter (fun e => !e.deleted)) = live e := by
  rcases e with _ | ⟨value, _ | _⟩ <;> rfl

/-- The replacement alone answers as the tables it replaces. -/
theorem live_newest_replacement (ms : List Entries) (key : Bytes) :
    live (newest [mergedLive ms] key) = live (newest ms key) := by
  rw [← live_filter (newest ms key), ← lookup_mergedLive]
  have h := newest_append_singleton [] (mergedLive ms) key
  rw [List.nil_append, newest_nil, Option.or_none] at h
  rw [h]

/-- The replacement on top of the tables it replaces changes nothing: where it has no entry,
the layers below still hold the tombstone. -/
theorem live_newest_stacked (ms : List Entries) (key : Bytes) :
    live (newest (ms ++ [mergedLive ms]) key) = live (newest ms key) := by
  rw [newest_append_singleton, lookup_mergedLive]
  rcases newest ms key with _ | ⟨value, _ | _⟩ <;> rfl

/-- The layers that may be found when compaction stops. -/
def Layers (ms ms' : List Entries) : Prop :=
  ms' = ms ∨ ms' = ms ++ [mergedLive ms] ∨ ms' = [mergedLive ms]

theorem live_newest_of_layers {ms ms' : List Entries} (h : Layers ms ms') (key : Bytes) :
    live (newest ms' key) = live (newest ms key) := by
  rcases h with rfl | rfl | rfl
  · rfl
  · exact live_newest_stacked ms key
  · exact live_newest_replacement ms key

section Steps

variable {l : Layout} {d : Disk} {s : Storage} {ms : List Entries}

theorem small_mergedLive (h : List.Forall₂ (Holds d) s.manifest.tables ms) :
    ∀ e ∈ (mergedLive ms).entries, SmallEntry e := by
  intro e he
  obtain ⟨key, entry⟩ := e
  have hlookup : (mergedLive ms).lookup key = some entry := AList.mem_lookup_iff.mpr he
  rw [lookup_mergedLive, Option.filter_eq_some_iff] at hlookup
  obtain ⟨m, hm, hkey⟩ := exists_lookup_of_newest hlookup.1
  exact (storable_of_mem h hm).small _ (AList.mem_lookup_iff.mp hkey)

theorem without_old (hs : Shows l d s.manifest ms) (data : Entries) :
    ((s.manifest.pushed (Shows.nextTable l s.manifest data)).without
      (s.manifest.tables.map SSTableMetadata.id)).tables = [Shows.nextTable l s.manifest data] := by
  have hold : s.manifest.tables.filter
      (fun t => t.id ∉ s.manifest.tables.map SSTableMetadata.id) = [] := by
    rw [List.filter_eq_nil_iff]
    intro t ht
    simp only [decide_eq_true_eq, not_not]
    exact List.mem_map_of_mem ht
  have hnew : s.manifest.nextTableId ∉ s.manifest.tables.map SSTableMetadata.id := by
    intro hmem
    obtain ⟨t, ht, he⟩ := List.mem_map.mp hmem
    exact (hs.ids_lt t ht).ne he
  have hkeep : [Shows.nextTable l s.manifest data].filter
      (fun t => t.id ∉ s.manifest.tables.map SSTableMetadata.id) =
      [Shows.nextTable l s.manifest data] :=
    List.filter_eq_self.mpr (fun t ht => by
      rw [List.mem_singleton.mp ht]
      exact decide_eq_true hnew)
  rw [Manifest.without, Manifest.pushed, List.filter_append, hold, hkeep, List.nil_append]

/-- What is in memory and on disk when merging stops. `q` is the list last persisted. -/
structure Stopped (l : Layout) (ms : List Entries) (d' : Disk) (tables : List SSTableMetadata)
    (q : Manifest) : Prop where
  memory : ∃ ms', Layers ms ms' ∧ List.Forall₂ (Holds d') tables ms'
  disk : ∃ ms', Layers ms ms' ∧ List.Forall₂ (Holds d') q.tables ms'
  file : d'.lookup l.manifestFilename = some (.regular q.manifestText)

def stacked (l : Layout) (m : Manifest) (ms : List Entries) : Manifest :=
  m.pushed (Shows.nextTable l m (mergedLive ms))

def replaced (l : Layout) (m : Manifest) (ms : List Entries) : Manifest :=
  (stacked l m ms).without (m.tables.map SSTableMetadata.id)

/-- The three lists that can be the persisted one. -/
def Candidate (l : Layout) (m p : Manifest) (ms : List Entries) (q : Manifest) : Prop :=
  q = p ∨ q = stacked l m ms ∨ q = replaced l m ms

/-- What is left when merging succeeds: the replacement alone is listed, in memory and on
disk. -/
structure Merged (l : Layout) (s : Storage) (ms : List Entries) (d' : Disk) (s' : Storage)
    (q : Manifest) : Prop where
  manifest : s'.manifest = replaced l s.manifest ms
  persisted : q = replaced l s.manifest ms
  walFilename : s'.walFilename = s.walFilename
  replacement : Holds d' (Shows.nextTable l s.manifest (mergedLive ms)) (mergedLive ms)

variable {p : Manifest}

/-- The old list, after changes to files that are not on it. -/
theorem stopped_old (hs : Shows l d s.manifest ms) (hp : p.tables = s.manifest.tables)
    (hfile : d.lookup l.manifestFilename = some (.regular p.manifestText)) :
    Stopped l ms d s.manifest.tables p :=
  ⟨⟨ms, Or.inl rfl, hs.holds⟩, ⟨ms, Or.inl rfl, hp ▸ hs.holds⟩, hfile⟩

theorem Stopped.crash {d' : Disk} {tables : List SSTableMetadata} {q m : Manifest}
    (h : Stopped l ms d' tables q) (hq : Candidate l m p ms q) :
    ∃ q, Candidate l m p ms q ∧ (∃ ms', Layers ms ms' ∧ List.Forall₂ (Holds d') q.tables ms') ∧
      d'.lookup l.manifestFilename = some (.regular q.manifestText) :=
  ⟨q, hq, h.disk, h.file⟩

/-- Both lists stacked, once the replacement is written and listed. -/
theorem holds_stacked {d' : Disk} (hs : Shows l d' s.manifest ms)
    (hstore : Storable (mergedLive ms))
    (htable : d'.lookup (l.tableFilename s.manifest.nextTableId) =
      some (.regular (tableContents (mergedLive ms)))) :
    List.Forall₂ (Holds d') (stacked l s.manifest ms).tables (ms ++ [mergedLive ms]) :=
  List.rel_append hs.holds (.cons ⟨hstore, rfl, htable⟩ .nil)

/-- Unlisting the tables below the replacement, stopped anywhere. -/
theorem unlist_ensures (hs : Shows l d s.manifest ms) (hstore : Storable (mergedLive ms))
    (htable : d.lookup (l.tableFilename s.manifest.nextTableId) =
      some (.regular (tableContents (mergedLive ms))))
    (hfile : d.lookup s.manifest.filename = some (.regular (stacked l s.manifest ms).manifestText)) :
    Ensures (do
        let (removed, manifest) ←
          (stacked l s.manifest ms).removeTables (s.manifest.tables.map SSTableMetadata.id)
        return (removed, { s with manifest := manifest })) d
      (fun r d' => ∃ q, Candidate l s.manifest p ms q ∧ Stopped l ms d' r.2.manifest.tables q ∧
        (r.1 = .ok () → Merged l s ms d' r.2 q))
      (fun d' => ∃ q, Candidate l s.manifest p ms q ∧
        (∃ ms', Layers ms ms' ∧ List.Forall₂ (Holds d') q.tables ms') ∧
        d'.lookup l.manifestFilename = some (.regular q.manifestText)) := by
  have htable' : ∀ {d'}, Disk.SameExcept s.manifest.paths d d' →
      d'.lookup (l.tableFilename s.manifest.nextTableId) =
        some (.regular (tableContents (mergedLive ms))) := by
    intro d' hsame
    rw [hsame _ (l.table_notMem_paths hs.filename_eq _), htable]
  have hstop : ∀ {d'}, Disk.SameExcept s.manifest.paths d d' →
      d'.lookup s.manifest.filename = d.lookup s.manifest.filename →
      Stopped l ms d' (stacked l s.manifest ms).tables (stacked l s.manifest ms) := by
    intro d' hsame hsamefile
    have hstack := holds_stacked (hs.frame_manifest hs.filename_eq hsame) hstore (htable' hsame)
    exact ⟨⟨_, Or.inr (Or.inl rfl), hstack⟩, ⟨_, Or.inr (Or.inl rfl), hstack⟩,
      hs.filename_eq ▸ hsamefile.trans hfile⟩
  refine (((stacked l s.manifest ms).removeTables_ensures _ d).mono (fun _ _ h => h)
    (fun d' hd' => (hstop hd'.1 hd'.2).crash (Or.inr (Or.inl rfl)))).bind ?_
  intro r d₁ hr
  obtain ⟨hsame₁, ⟨rfl, hfile₁⟩ | ⟨⟨e, rfl⟩, hfile₁⟩⟩ := hr
  · have hnew : Holds d₁ (Shows.nextTable l s.manifest (mergedLive ms)) (mergedLive ms) :=
      ⟨hstore, rfl, htable' hsame₁⟩
    have hone : List.Forall₂ (Holds d₁) (replaced l s.manifest ms).tables [mergedLive ms] := by
      rw [replaced, stacked, without_old hs]
      exact .cons hnew .nil
    exact .pure ⟨replaced l s.manifest ms, Or.inr (Or.inr rfl),
      ⟨⟨_, Or.inr (Or.inr rfl), hone⟩, ⟨_, Or.inr (Or.inr rfl), hone⟩, hs.filename_eq ▸ hfile₁⟩,
      fun _ => ⟨rfl, rfl, rfl, hnew⟩⟩
  · refine .pure ⟨stacked l s.manifest ms, Or.inr (Or.inl rfl), hstop hsame₁ hfile₁, ?_⟩
    intro hok
    cases hok

theorem replaceTables_ensures (hw : Wired l s) (hs : Shows l d s.manifest ms)
    (hp : p.tables = s.manifest.tables)
    (hfile : d.lookup l.manifestFilename = some (.regular p.manifestText))
    (hcount : (mergedLive ms).entries.length < 2 ^ 64) :
    Ensures (s.replaceTables (mergedLive ms)) d
      (fun r d' => ∃ q, Candidate l s.manifest p ms q ∧ Stopped l ms d' r.2.manifest.tables q ∧
        (r.1 = .ok () → Merged l s ms d' r.2 q))
      (fun d' => ∃ q, Candidate l s.manifest p ms q ∧
        (∃ ms', Layers ms ms' ∧ List.Forall₂ (Holds d') q.tables ms') ∧
        d'.lookup l.manifestFilename = some (.regular q.manifestText)) := by
  have hstore : Storable (mergedLive ms) := ⟨small_mergedLive hs.holds, hcount⟩
  have hnotman : l.manifestFilename ≠ l.tableFilename s.manifest.nextTableId :=
    Layout.manifest_ne_table l.walFilename _
  rw [Storage.replaceTables]
  simp only [hw.tableFilename_eq]
  -- while only the new file changes, the old list stands
  have hstay : ∀ {d₀ d' : Disk}, Shows l d₀ s.manifest ms →
      d₀.lookup l.manifestFilename = some (.regular p.manifestText) →
      Disk.SameExcept [l.tableFilename s.manifest.nextTableId] d₀ d' →
      Stopped l ms d' s.manifest.tables p := by
    intro d₀ d' hs₀ hfile₀ hsame
    exact stopped_old (hs₀.frame_next hsame) hp ((hsame _ (by simpa using hnotman)).trans hfile₀)
  refine ((write_ensures d _ _ _).mono (fun _ _ h => h)
    (fun d' hsame => (hstay hs hfile hsame).crash (Or.inl rfl))).bind ?_
  intro r d₁ hr
  obtain ⟨hsame₁, ⟨e, rfl⟩ | ⟨rfl, htable⟩⟩ := hr
  · exact .pure ⟨p, Or.inl rfl, hstay hs hfile hsame₁, by simp⟩
  have hs₁ := hs.frame_next hsame₁
  have hfile₁ : d₁.lookup s.manifest.filename = some (.regular p.manifestText) := by
    rw [hs.filename_eq, hsame₁ _ (by simpa using hnotman), hfile]
  refine ((s.manifest.addTable_ensures _ d₁).mono (fun _ _ h => h) (fun d' hd' => ?_)).bind ?_
  · have hs' := hs₁.frame_manifest hs.filename_eq hd'.1
    exact (stopped_old hs' hp (hs.filename_eq ▸ hd'.2.trans hfile₁)).crash (Or.inl rfl)
  intro r d₂ hr
  obtain ⟨hsame₂, ⟨rfl, hfile₂⟩ | ⟨⟨e, rfl⟩, hfile₂⟩⟩ := hr
  · -- the replacement is listed
    have hs₂ := hs₁.frame_manifest hs.filename_eq hsame₂
    have htable₂ : d₂.lookup (l.tableFilename s.manifest.nextTableId) =
        some (.regular (tableContents (mergedLive ms))) := by
      rw [hsame₂ _ (l.table_notMem_paths hs.filename_eq _), htable]
    exact unlist_ensures hs₂ hstore htable₂ hfile₂
  · -- the list was refused, the new file goes again
    have hs₂ := hs₁.frame_manifest hs.filename_eq hsame₂
    have hfile₂' : d₂.lookup l.manifestFilename = some (.regular p.manifestText) :=
      hs.filename_eq ▸ hfile₂.trans hfile₁
    refine .seq (fun _ d' => Disk.SameExcept [l.tableFilename s.manifest.nextTableId] d₂ d') ?_ ?_
    · exact .attempt (Disk.SameExcept.refl.erase (List.mem_singleton_self _)) (fun _ => .refl)
        (fun _ => (hstay hs₂ hfile₂' .refl).crash (Or.inl rfl))
    · intro removed d₃ hsame₃
      exact .pure ⟨p, Or.inl rfl, hstay hs₂ hfile₂' hsame₃, by simp⟩

/-- Everything before the loop that deletes files, stopped anywhere. -/
theorem mergeTables_ensures (hw : Wired l s) (hs : Shows l d s.manifest ms)
    (hp : p.tables = s.manifest.tables)
    (hfile : d.lookup l.manifestFilename = some (.regular p.manifestText))
    (hcount : (mergedLive ms).entries.length < 2 ^ 64) :
    Ensures s.mergeTables d
      (fun r d' => ∃ q, Candidate l s.manifest p ms q ∧ Stopped l ms d' r.2.manifest.tables q ∧
        (r.1 = .ok () → Merged l s ms d' r.2 q))
      (fun d' => ∃ q, Candidate l s.manifest p ms q ∧
        (∃ ms', Layers ms ms' ∧ List.Forall₂ (Holds d') q.tables ms') ∧
        d'.lookup l.manifestFilename = some (.regular q.manifestText)) := by
  have hold := stopped_old hs hp hfile
  rw [Storage.mergeTables]
  refine ((loadTables_ensures hs.holds ∅).mono (fun _ _ h => h) ?_).bind ?_
  · intro d' hd'
    subst hd'
    exact hold.crash (Or.inl rfl)
  · intro r d' hr
    obtain ⟨rfl | ⟨e, rfl⟩, rfl⟩ := hr
    · exact replaceTables_ensures hw hs hp hfile hcount
    · exact .pure ⟨p, Or.inl rfl, hold, by simp⟩

end Steps

/-- Newest-first search gives every key the same value, or no value, in both places. -/
def SameAnswers (d : Disk) (tables : List SSTableMetadata) (d' : Disk)
    (tables' : List SSTableMetadata) : Prop :=
  ∀ key, ∃ e e', Succeeds (Storage.getFrom key tables.reverse) d (.ok e) d ∧
    Succeeds (Storage.getFrom key tables'.reverse) d' (.ok e') d' ∧ live e' = live e

theorem live_map_reported (e : Option MemTableEntry) :
    live (e.map MemTableEntry.reported) = live e := by
  rcases e with _ | ⟨value, _ | _⟩ <;> rfl

theorem sameAnswers_of_layers {d d' : Disk} {tables tables' : List SSTableMetadata}
    {ms ms' : List Entries} (h : List.Forall₂ (Holds d) tables ms)
    (h' : List.Forall₂ (Holds d') tables' ms') (hl : Layers ms ms') :
    SameAnswers d tables d' tables' := by
  intro key
  refine ⟨_, _, getFrom_reverse_succeeds h key, getFrom_reverse_succeeds h' key, ?_⟩
  rw [live_map_reported, live_map_reported, live_newest_of_layers hl]

/-- A compaction that stops before it deletes files changes no answer, neither in memory
nor on disk, and one that gets that far leaves the one table of the live keys in both. -/
theorem merge_interrupted (l : Layout) (d : Disk) (s : Storage) (ms : List Entries) (p : Manifest)
    (hw : Wired l s) (hs : Shows l d s.manifest ms) (h2 : 2 ≤ s.manifest.tables.length)
    (hp : p.tables = s.manifest.tables)
    (hfile : d.lookup l.manifestFilename = some (.regular p.manifestText))
    (hcount : (mergedLive ms).entries.length < 2 ^ 64) (plan : List Outcome) :
    s.compact = (do
      match ← s.mergeTables with
      | (.error e, s) => return (.error e, s)
      | (.ok _, s) => do
        Storage.removeFiles s.manifest.tables
        return (.ok (), s)) ∧
    (∀ d', s.mergeTables ⟨d, plan⟩ = .died d' → ∃ q, Candidate l s.manifest p ms q ∧
      d'.lookup l.manifestFilename = some (.regular q.manifestText) ∧
      SameAnswers d s.manifest.tables d' q.tables) ∧
    ∀ r s' w, s.mergeTables ⟨d, plan⟩ = .returned (r, s') w →
      SameAnswers d s.manifest.tables w.disk s'.manifest.tables ∧
      (∃ q, Candidate l s.manifest p ms q ∧
        w.disk.lookup l.manifestFilename = some (.regular q.manifestText) ∧
        SameAnswers d s.manifest.tables w.disk q.tables ∧ (r = .ok () → q = s'.manifest)) ∧
      (r = .ok () → ∃ t data, s'.manifest.tables = [t] ∧
        Succeeds (load t) w.disk (.ok data) w.disk ∧
        ∀ key, ∃ e, Succeeds (Storage.getFrom key s.manifest.tables.reverse) d (.ok e) d ∧
          data.lookup key = (live e).map (fun value => ⟨value, false⟩)) := by
  have hens := mergeTables_ensures hw hs hp hfile hcount
  refine ⟨if_neg (not_lt.mpr h2), ?_, ?_⟩
  · intro d' hdied
    obtain ⟨q, hq, ⟨ms', hl, hh⟩, hf⟩ := hens.of_died hdied
    exact ⟨q, hq, hf, sameAnswers_of_layers hs.holds hh hl⟩
  · intro r s' w hret
    obtain ⟨q, hq, ⟨⟨ms₁, hl₁, hh₁⟩, ⟨ms₂, hl₂, hh₂⟩, hf⟩, hok⟩ := hens.of_returned hret
    have hlisted : r = .ok () → q = s'.manifest :=
      fun hr => (hok hr).persisted.trans (hok hr).manifest.symm
    refine ⟨sameAnswers_of_layers hs.holds hh₁ hl₁,
      ⟨q, hq, hf, sameAnswers_of_layers hs.holds hh₂ hl₂, hlisted⟩, ?_⟩
    intro hr
    have hnew := (hok hr).replacement
    refine ⟨_, loadedEntries (mergedLive ms), ?_, load_succeeds hnew.storable hnew.file, ?_⟩
    · rw [(hok hr).manifest, replaced, stacked, without_old hs]
    · intro key
      refine ⟨_, getFrom_reverse_succeeds hs.holds key, ?_⟩
      rw [lookup_loadedEntries, lookup_mergedLive, live_map_reported]
      rcases newest ms key with _ | ⟨value, _ | _⟩ <;> rfl

def sample : Layout := Layout.ofDirectory (text "d")

def older : Entries := AList.singleton (text "a") ⟨text "x", false⟩

def newer : Entries := (AList.singleton (text "b") ⟨text "y", false⟩ : Entries).insert (text "a") ⟨[], true⟩

def flushTwice : Io (Except Bytes Storage) := do
  match ← Storage.initializeStorage sample.walFilename .sync with
  | .error e => return .error e
  | .ok s =>
    let (_, s) ← s.flushMemtable older
    let (_, s) ← s.flushMemtable newer
    return .ok s

def twoTables : Storage where
  walFilename := sample.walFilename
  durabilityMode := .sync
  wal := ⟨sample.walFilename, .sync, true, true, []⟩
  manifest := ⟨sample.manifestFilename, [metadataOf 1 (sample.tableFilename 1) older,
    metadataOf 2 (sample.tableFilename 2) newer], 3⟩

def twoTablesDisk : Disk :=
  match flushTwice ⟨∅, []⟩ with
  | .returned _ w => w.disk
  | .died d => d

theorem flushTwice_succeeds : Succeeds flushTwice ∅ (.ok twoTables) twoTablesDisk := by
  decide +kernel

theorem wired_twoTables : Wired sample twoTables := ⟨rfl, rfl⟩

theorem shows_twoTables : Shows sample twoTablesDisk twoTables.manifest [older, newer] := by
  refine ⟨rfl, ?_, ?_, ?_, ?_, ?_⟩
  · refine .cons ⟨⟨?_, ?_⟩, rfl, ?_⟩ (.cons ⟨⟨?_, ?_⟩, rfl, ?_⟩ .nil)
    all_goals decide +kernel
  all_goals decide +kernel

theorem manifest_twoTables : twoTablesDisk.lookup sample.manifestFilename =
    some (.regular twoTables.manifest.manifestText) := by
  decide +kernel

/-- A merge of the two tables that dies while the list is replaced for the second time. -/
theorem merge_interrupted_twoTables :
    (∀ d', twoTables.mergeTables ⟨twoTablesDisk, List.replicate 13 .succeeds ++ [.dies 0]⟩ =
        .died d' →
      ∃ q, Candidate sample twoTables.manifest twoTables.manifest [older, newer] q ∧
        d'.lookup sample.manifestFilename = some (.regular q.manifestText) ∧
        SameAnswers twoTablesDisk twoTables.manifest.tables d' q.tables) ∧
    ∃ d', twoTables.mergeTables ⟨twoTablesDisk, List.replicate 13 .succeeds ++ [.dies 0]⟩ =
      .died d' :=
  ⟨(merge_interrupted sample twoTablesDisk twoTables [older, newer] twoTables.manifest
    wired_twoTables shows_twoTables (by decide) rfl manifest_twoTables (by decide +kernel) _).2.1,
    _, rfl⟩

end ForgeDB.CompactionSteps
