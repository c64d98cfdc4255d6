import ForgeDB.StartupDamage
import ForgeDB.TableIds

/-!
# Tombstones without values

Every table file of a run that can be read holds entries under words, small enough for
their size fields, and no value with a tombstone. Nothing is asked of the ids here, so
this holds however many tables a run creates. Paths with white space need an argument of
their own: no word of the text file names a file then, so a start lists the directory.
-/

namespace ForgeDB.CleanTables
open CrashPrograms CrashPrograms.Io Database LayeredMaps SSTables TextStreams
open Manifest Reopening StartupDamage TableIds WalRecovery

def Clean (e : Entry) : Prop := Kept e ∧ (e.2.deleted = true → e.2.value = [])

/-- What a layout has to keep apart: the log is no table file, and white space in the path of the
log is in the path of every other file too. -/
structure Apart (l : Layout) : Prop where
  log_apart : ¬ text ".sst" <:+ l.walFilename
  marked : ¬ l.Plain → ∃ b ∈ Storage.dataDirectory l.walFilename, isSpace b = true

section Files

variable {l : Layout} {d d' : Disk} {m : Manifest} {data : Entries} {path : Bytes}

theorem not_isWord_of_space {b : Byte} (hb : b ∈ path) (hspace : isSpace b = true) : ¬ IsWord path := by
  intro hword
  rw [hword.2 b hb] at hspace
  cases hspace

theorem mem_joinPath {b : Byte} {p : Bytes} (hb : b ∈ p) (name : Bytes) :
    b ∈ FilePaths.joinPath p name := by
  rw [FilePaths.joinPath]
  split
  · exact List.mem_append_left _ hb
  · exact List.mem_append_left _ hb

/-- The table files, and in a tree with white space in its paths the files under words. -/
structure CleanFiles (l : Layout) (d : Disk) : Prop where
  named : ∀ path, text ".sst" <:+ path → d.lookup path ≠ none →
    ∃ id < 2 ^ 64, path = l.tableFilename id
  clean : ∀ id found, loadResult d (l.tableFilename id) = .ok found → ∀ e ∈ found.entries, Clean e
  unread : ¬ l.Plain → ∀ path, IsWord path → ∀ found, loadResult d path ≠ .ok found

/-- What a step may do to a path: delete it, change the log or the text file, or write a table,
perhaps not to its end. -/
def Touched (l : Layout) (d' : Disk) (path : Bytes) : Prop :=
  d'.lookup path = none ∨ path = l.walFilename ∨ path = l.manifestFilename ∨
    path = l.manifestFilename ++ text ".tmp" ∨
    ∃ id data part, id < 2 ^ 64 ∧ path = l.tableFilename id ∧ (∀ e ∈ data.entries, Clean e) ∧
      part <+: tableContents data ∧ d'.lookup path = some (.regular part)

theorem loadResult_none (h : d.lookup path = none) (found : Entries) :
    loadResult d path ≠ .ok found := by
  rw [loadResult, Disk.contents, h]
  intro hfound
  cases hfound

theorem Touched.not_isWord (hl : Apart l) (hplain : ¬ l.Plain) (h : Touched l d' path)
    (hsome : d'.lookup path ≠ none) : ¬ IsWord path := by
  obtain ⟨b, hb, hspace⟩ := hl.marked hplain
  have hmanifest : b ∈ l.manifestFilename := by
    rw [Layout.manifestFilename, Storage.manifestFilename]
    exact mem_joinPath hb _
  rcases h with hnone | hpath | hpath | hpath | ⟨id, -, -, -, hpath, -⟩
  · exact absurd hnone hsome
  · rw [hpath]
    exact fun hword => hplain hword.2
  · rw [hpath]
    exact not_isWord_of_space hmanifest hspace
  · rw [hpath]
    exact not_isWord_of_space (List.mem_append_left _ hmanifest) hspace
  · rw [hpath, Layout.tableFilename, Storage.tableFilename, List.append_assoc, List.append_assoc]
    exact not_isWord_of_space (List.mem_append_left _ (mem_joinPath hb _)) hspace

theorem Touched.table (hl : Apart l) (h : Touched l d' path) (hsst : text ".sst" <:+ path) :
    d'.lookup path = none ∨ ∃ id data part, id < 2 ^ 64 ∧ path = l.tableFilename id ∧
      (∀ e ∈ data.entries, Clean e) ∧ part <+: tableContents data ∧
        d'.lookup path = some (.regular part) := by
  have hlists : ∀ path ∈ (Manifest.mk l.manifestFilename [] 1).paths, ¬ text ".sst" <:+ path := by
    apply paths_apart (l := l)
    with_reducible rfl
  rcases h with hnone | rfl | rfl | rfl | htable
  · exact Or.inl hnone
  · exact absurd hsst hl.log_apart
  · exact absurd hsst (hlists _ (by simp [Manifest.paths]))
  · exact absurd hsst (hlists _ (by simp [Manifest.paths, Manifest.temporary]))
  · exact Or.inr htable

theorem CleanFiles.touched (hl : Apart l) (h : CleanFiles l d)
    (hchange : ∀ path, d'.lookup path = d.lookup path ∨ Touched l d' path) : CleanFiles l d' := by
  refine ⟨fun path hsst hsome => ?_, fun id found hload => ?_, fun hplain path hword found hload => ?_⟩
  · rcases hchange path with hsame | htouched
    · rw [hsame] at hsome
      exact h.named path hsst hsome
    · rcases htouched.table hl hsst with hnone | ⟨id, -, -, hid, hpath, -⟩
      · exact absurd hnone hsome
      · exact ⟨id, hid, hpath⟩
  · rcases hchange (l.tableFilename id) with hsame | htouched
    · rw [loadResult_of_same hsame] at hload
      exact h.clean id found hload
    · rcases htouched.table hl (List.suffix_append _ _) with
        hnone | ⟨-, data, part, -, -, hclean, hpart, hfile⟩
      · exact absurd hload (loadResult_none hnone found)
      · rw [loadResult_of_lookup hfile] at hload
        intro e he
        exact hclean e (TableFiles.mem_of_parseTable_prefix (fun e he => (hclean e he).1.2) hpart
          hload e he)
  · rcases hchange path with hsame | htouched
    · rw [loadResult_of_same hsame] at hload
      exact h.unread hplain path hword found hload
    · by_cases hnone : d'.lookup path = none
      · exact loadResult_none hnone found hload
      · exact htouched.not_isWord hl hplain hnone hword

end Files

section Lists

variable {l : Layout} {d d' : Disk} {m : Manifest} {data : Entries}

/-- A list whose text is lines of a run. -/
structure Lines (l : Layout) (m : Manifest) : Prop where
  filename_eq : m.filename = l.manifestFilename
  next_lt : m.nextTableId < 2 ^ 64
  line : ∀ t ∈ m.tables, Line l t

/-- There is no text file, or it is the text of such a list. -/
def TextKept (l : Layout) (d : Disk) : Prop :=
  d.lookup l.manifestFilename = none ∨
    ∃ p, Lines l p ∧ d.lookup l.manifestFilename = some (.regular p.manifestText)

/-- A list with its files. -/
structure CleanManifest (l : Layout) (m : Manifest) (d : Disk) : Prop where
  lines : Lines l m
  listed : TextKept l d
  files : CleanFiles l d

theorem CleanManifest.of_touched (hl : Apart l) (h : CleanManifest l m d)
    (hsame : d'.lookup l.manifestFilename = d.lookup l.manifestFilename)
    (hchange : ∀ path, d'.lookup path = d.lookup path ∨ Touched l d' path) :
    CleanManifest l m d' := by
  refine ⟨h.lines, ?_, h.files.touched hl hchange⟩
  rw [TextKept, hsame]
  exact h.listed

theorem CleanFiles.of_log (hl : Apart l) (h : CleanFiles l d)
    (hsame : Disk.SameExcept [l.walFilename] d d') : CleanFiles l d' := by
  refine h.touched hl (fun path => ?_)
  by_cases hpath : path = l.walFilename
  · exact Or.inr (Or.inr (Or.inl hpath))
  · exact Or.inl (hsame path (by simpa using hpath))

theorem CleanManifest.of_log (hl : Apart l) (h : CleanManifest l m d)
    (hsame : Disk.SameExcept [l.walFilename] d d') : CleanManifest l m d' := by
  refine ⟨h.lines, ?_, h.files.of_log hl hsame⟩
  rw [TextKept, hsame _ (by simpa using l.wal_ne_manifest.symm)]
  exact h.listed

theorem CleanManifest.of_deleted (hl : Apart l) (h : CleanManifest l m d)
    (hdeleted : Deleted l d d') :
    CleanManifest l m d' := by
  refine h.of_touched hl ?_ (fun path => ?_)
  · rcases hdeleted l.manifestFilename with hsame | ⟨-, id, hid⟩
    · exact hsame
    · exact absurd hid (Layout.manifest_ne_table l.walFilename id)
  · exact (hdeleted path).imp_right (fun hgone => Or.inl hgone.1)

theorem CleanManifest.of_created (hl : Apart l) (h : CleanManifest l m d)
    (hclean : ∀ e ∈ data.entries, Clean e)
    (hsame : Disk.SameExcept [l.tableFilename m.nextTableId] d d')
    (hfile : ∃ part, part <+: tableContents data ∧
      d'.lookup (l.tableFilename m.nextTableId) = some (.regular part)) : CleanManifest l m d' := by
  obtain ⟨part, hpart, hfile⟩ := hfile
  have hne : l.manifestFilename ≠ l.tableFilename m.nextTableId :=
    Layout.manifest_ne_table l.walFilename m.nextTableId
  refine h.of_touched hl (hsame _ (by simpa using hne)) (fun path => ?_)
  by_cases hpath : path = l.tableFilename m.nextTableId
  · exact Or.inr (Or.inr (Or.inr (Or.inr (Or.inr ⟨m.nextTableId, data, part, h.lines.next_lt, hpath,
      hclean, hpart, hpath ▸ hfile⟩))))
  · exact Or.inl (hsame path (by simpa using hpath))

theorem CleanFiles.of_paths (hl : Apart l) (h : CleanFiles l d)
    (hname : m.filename = l.manifestFilename) (hsame : Disk.SameExcept m.paths d d') :
    CleanFiles l d' := by
  refine h.touched hl (fun path => ?_)
  by_cases hpath : path ∈ m.paths
  · rw [Manifest.paths, Manifest.temporary, hname] at hpath
    rcases List.mem_pair.mp hpath with hpath | hpath
    · exact Or.inr (Or.inr (Or.inr (Or.inl hpath)))
    · exact Or.inr (Or.inr (Or.inr (Or.inr (Or.inl hpath))))
  · exact Or.inl (hsame path hpath)

theorem next_pushed_lt (hnext : m.nextTableId < 2 ^ 64) (table : SSTableMetadata) :
    (m.pushed table).nextTableId < 2 ^ 64 := by
  rw [Manifest.pushed]
  simp only
  split
  · exact Nat.mod_lt _ (Nat.two_pow_pos 64)
  · exact hnext

theorem Lines.pushed (h : Lines l m) (hclean : ∀ e ∈ data.entries, Clean e) :
    Lines l (m.pushed (Shows.nextTable l m data)) := by
  refine ⟨h.filename_eq, next_pushed_lt h.next_lt _, fun t ht => ?_⟩
  rcases List.mem_append.mp ht with ht | ht
  · exact h.line t ht
  · rw [List.mem_singleton.mp ht]
    exact ⟨h.next_lt, rfl, keys_nextTable l m (fun e he => (hclean e he).1)⟩

theorem Lines.popped (h : Lines l m) (table : SSTableMetadata) : Lines l (m.popped table) := by
  refine ⟨h.filename_eq, ?_, h.line⟩
  rw [Manifest.popped]
  simp only
  split
  · exact (by omega : 1 < 2 ^ 64)
  · exact next_pushed_lt h.next_lt table

theorem addTable_clean (hl : Apart l) (h : CleanManifest l m d)
    (hclean : ∀ e ∈ data.entries, Clean e) :
    Ensures (m.addTable (Shows.nextTable l m data)) d
      (fun r d' => CleanManifest l r.2 d' ∧ Disk.SameExcept m.paths d d') (fun _ => True) := by
  have hname := h.lines.filename_eq
  refine (m.addTable_ensures _ d).mono ?_ (fun _ _ => trivial)
  rintro r d' ⟨hsame, hr⟩
  have hfiles := h.files.of_paths hl hname hsame
  rw [hname] at hr
  rcases hr with ⟨rfl, htext⟩ | ⟨⟨e, rfl⟩, htext⟩
  · have hpushed := h.lines.pushed hclean
    exact ⟨⟨hpushed, Or.inr ⟨_, hpushed, htext⟩, hfiles⟩, hsame⟩
  · refine ⟨⟨h.lines.popped _, ?_, hfiles⟩, hsame⟩
    rw [TextKept, htext]
    exact h.listed

theorem removeTables_clean (hl : Apart l) (h : CleanManifest l m d) (ids : List ℕ) :
    Ensures (m.removeTables ids) d
      (fun r d' => CleanManifest l r.2 d' ∧ Disk.SameExcept m.paths d d') (fun _ => True) := by
  have hname := h.lines.filename_eq
  refine (m.removeTables_ensures ids d).mono ?_ (fun _ _ => trivial)
  rintro r d' ⟨hsame, hr⟩
  have hfiles := h.files.of_paths hl hname hsame
  rw [hname] at hr
  rcases hr with ⟨rfl, htext⟩ | ⟨⟨e, rfl⟩, htext⟩
  · have hwithout : Lines l (m.without ids) :=
      ⟨hname, h.lines.next_lt, fun t ht => h.lines.line t (List.mem_of_mem_filter ht)⟩
    exact ⟨⟨hwithout, Or.inr ⟨_, hwithout, htext⟩, hfiles⟩, hsame⟩
  · refine ⟨⟨h.lines, ?_, hfiles⟩, hsame⟩
    rw [TextKept, htext]
    exact h.listed

theorem deletionStable_clean (hl : Apart l) : DeletionStable l (CleanManifest l) where
  named := fun _ _ h => h.lines.filename_eq
  deleted := fun _ _ _ h hdeleted => h.of_deleted hl hdeleted
  unlisted := fun _ _ ids h => removeTables_clean hl h ids

theorem CleanManifest.load_clean (h : CleanManifest l m d) :
    Ensures (Storage.loadTables m.tables ∅) d
      (fun r d' => d' = d ∧ ∀ data, r = .ok data → ∀ e ∈ data.entries, Clean e)
      (fun d' => d' = d) := by
  refine loadTables_forall (fun e he => absurd he List.not_mem_nil) (fun t ht found hfound => ?_)
  rw [(h.lines.line t ht).placed] at hfound
  exact h.files.clean t.id found hfound

end Lists

section Engine

variable {l : Layout} {d : Disk} {s : Storage} {data : Entries}

/-- An engine with its list and files in order. -/
structure CleanStorage (l : Layout) (s : Storage) (d : Disk) : Prop where
  wired : Wired l s
  clean : CleanManifest l s.manifest d

theorem write_clean (hl : Apart l) (h : CleanStorage l s d) (hclean : ∀ e ∈ data.entries, Clean e) :
    Ensures (SSTables.write (l.tableFilename s.manifest.nextTableId) s.manifest.nextTableId data) d
      (fun r d' => CleanManifest l s.manifest d' ∧ d'.lookup l.walFilename = d.lookup l.walFilename ∧
        ((∃ e, r = .error e) ∨ r = .ok (Shows.nextTable l s.manifest data))) (fun _ => True) := by
  intro plan
  cases hrun : SSTables.write (l.tableFilename s.manifest.nextTableId) s.manifest.nextTableId data
      ⟨d, plan⟩ with
  | died d' => trivial
  | returned r w' =>
    rcases write_returned hrun with ⟨-, hdisk, e, rfl⟩ | ⟨-, hresult, hsame, hpart⟩
    · exact ⟨hdisk ▸ h.clean, congrArg (AList.lookup l.walFilename) hdisk, Or.inl ⟨e, rfl⟩⟩
    · refine ⟨h.clean.of_created hl hclean hsame hpart,
        hsame l.walFilename (by simpa using l.wal_ne_table s.manifest.nextTableId), ?_⟩
      rcases hresult with rfl | herr
      · exact Or.inr rfl
      · exact Or.inl herr

theorem flush_clean (hl : Apart l) (h : CleanStorage l s d) (hclean : ∀ e ∈ data.entries, Clean e)
    (hne : data.entries ≠ []) :
    Ensures (s.flushMemtable data) d
      (fun r d' => CleanStorage l r.2 d' ∧ LogAfter l s d r.1 r.2 d') (fun _ => True) := by
  have hw := h.wired
  rw [Storage.flushMemtable, if_neg hne]
  simp only [hw.tableFilename_eq]
  refine (write_clean hl h hclean).bind ?_
  rintro r d₁ ⟨h₁, hwal₁, hr⟩
  rcases hr with ⟨e, rfl⟩ | rfl
  · exact .pure ⟨⟨hw, h₁⟩, Or.inr (Or.inr ⟨⟨e, rfl⟩, rfl, hwal₁⟩)⟩
  refine (list_ensures (deletionStable_clean hl) (fun _ _ _ h hsame => h.of_log hl hsame) hw
    h₁.lines.filename_eq (addTable_clean hl h₁ hclean)).mono ?_ (fun _ _ => trivial)
  rintro ⟨r, s'⟩ d₂ ⟨hw₂, h₂, hlog⟩
  exact ⟨⟨hw₂, h₂⟩, hlog.of_same hwal₁⟩

theorem compact_clean (hl : Apart l) (h : CleanStorage l s d) :
    Ensures s.compact d
      (fun r d' => CleanStorage l r.2 d' ∧ r.2.wal = s.wal ∧
        d'.lookup l.walFilename = d.lookup l.walFilename) (fun _ => True) := by
  have hw := h.wired
  rw [Storage.compact]
  split
  · exact .pure ⟨h, rfl, rfl⟩
  refine .seq (fun r d' => CleanStorage l r.2 d' ∧ r.2.wal = s.wal ∧
    d'.lookup l.walFilename = d.lookup l.walFilename) ?_ ?_
  · rw [Storage.mergeTables]
    refine (h.clean.load_clean.mono (fun _ _ h => h) (fun _ _ => trivial)).bind ?_
    rintro loaded d₁ ⟨rfl, hclean⟩
    cases loaded with
    | error e => exact .pure ⟨h, rfl, rfl⟩
    | ok merged =>
      have hlive : ∀ e ∈ (Storage.dropTombstones merged).entries, Clean e :=
        fun e he => hclean merged rfl e (List.mem_of_mem_filter he)
      change Ensures (s.replaceTables (Storage.dropTombstones merged)) d₁ _ _
      rw [Storage.replaceTables]
      simp only [hw.tableFilename_eq]
      refine (write_clean hl h hlive).bind ?_
      rintro r d₂ ⟨h₂, hwal₂, hr⟩
      rcases hr with ⟨e, rfl⟩ | rfl
      · exact .pure ⟨⟨hw, h₂⟩, rfl, hwal₂⟩
      refine (relist_ensures (deletionStable_clean hl) hw h₂.lines.filename_eq
        (addTable_clean hl h₂ hlive)).mono ?_ (fun _ _ => trivial)
      rintro ⟨r, s'⟩ d₃ ⟨hw₃, h₃, hsameWal, hlookup⟩
      exact ⟨⟨hw₃, h₃⟩, hsameWal, hlookup.trans hwal₂⟩
  · rintro ⟨result, s'⟩ d₁ ⟨h₁, hwal, hlookup⟩
    cases result with
    | error e => exact .pure ⟨h₁, hwal, hlookup⟩
    | ok u =>
      refine (removeFiles_deleted _ (fun t ht => (h₁.clean.lines.line t ht).placed) d₁).bind ?_
      intro _ d₂ hdeleted
      exact .pure ⟨⟨h₁.wired, h₁.clean.of_deleted hl hdeleted⟩, hwal, hdeleted.wal.trans hlookup⟩

end Engine

section Starts

variable {hc : HeaderConstants} {l : Layout} {d d' : Disk} {m p : Manifest}
  {tables : List SSTableMetadata} {log : Bytes}

theorem lines_rebuilt (hname : m.filename = l.manifestFilename) (hfiles : CleanFiles l d)
    {directory : Bytes} (hmade : ∀ t ∈ tables, Rebuilt d (listDirectory d directory) t) :
    Lines l (m.rebuilt tables) := by
  refine ⟨hname, ?_, fun t ht => ?_⟩
  · rw [Manifest.rebuilt]
    simp only
    split
    · exact (by omega : 1 < 2 ^ 64)
    · exact Nat.mod_lt _ (Nat.two_pow_pos 64)
  · have hrebuilt := hmade t (mem_rebuilt.mp ht)
    obtain ⟨node, hlisted, hid⟩ := hrebuilt.listed
    obtain ⟨data, hload, hne, hdata⟩ := hrebuilt.made
    have hsst := FilePaths.suffix_of_extension (extension_of_tableIdOf hid) (by decide)
    obtain ⟨id, hlt, hpath⟩ :=
      hfiles.named t.filename hsst (by simp [lookup_of_listDirectory hlisted])
    rw [hpath] at hid
    have hsame := eq_of_tableIdOf hlt hid
    rw [hpath] at hload
    refine ⟨hsame ▸ hlt, by rw [hpath, hsame], Or.inl ?_⟩
    rw [hdata]
    exact wordBounds_rebuilt _ _ hne (fun e he => (hfiles.clean id data hload e he).1)

theorem rebuild_clean (hl : Apart l) (hname : m.filename = l.manifestFilename)
    (hfiles : CleanFiles l d) :
    ∃ m' d', Succeeds (m.rebuildFromDirectory (Storage.tablesDirectory l.walFilename)) d
        (.ok (), m') d' ∧ CleanManifest l m' d' ∧ Disk.SameExcept m.paths d d' := by
  obtain ⟨tables, d', -, hmade, hrun, hfile, hsame⟩ :=
    m.rebuildFromDirectory_run (Storage.tablesDirectory l.walFilename) d
  have hlines := lines_rebuilt hname hfiles hmade
  rw [hname] at hfile
  exact ⟨_, d', hrun, ⟨hlines, Or.inr ⟨_, hlines, hfile⟩, hfiles.of_paths hl hname hsame⟩, hsame⟩

/-- A list read back from the text of a run, all of whose files are there, is lines of a run, or
one of its files cannot be read. -/
theorem lines_of_all_present (hp : Lines l p) (hfiles : CleanFiles l d)
    (hparse : parse l.manifestFilename p.manifestText = .ok m)
    (hall : m.tables.all (fun table => (d.lookup table.filename).isSome) = true) :
    Lines l m ∨ ∃ t ∈ m.tables, ∃ e, loadResult d t.filename = .error e := by
  have hwords := words_of_parse hparse
  rw [← hp.filename_eq] at hparse
  obtain ⟨hlength, hname, hnext⟩ := parse_numbers hp.next_lt hparse
  by_cases hplain : l.Plain
  · rcases parse_run hplain hp.next_lt hlength hp.line hparse with rfl | ⟨-, t, ht, hstray⟩
    · exact Or.inl hp
    · -- the stray path names no file
      have hsome := List.all_eq_true.mp hall t ht
      obtain ⟨id, -, hid⟩ := hfiles.named t.filename hstray.sst_suffix
        (fun hnone => by simp [hnone] at hsome)
      exact absurd hid (hstray.ne_tableFilename id)
  · cases htables : m.tables with
    | nil =>
      refine Or.inl ⟨hname.trans hp.filename_eq, hnext ▸ hp.next_lt, ?_⟩
      rw [htables]
      simp
    | cons t tables =>
      refine Or.inr ⟨t, List.mem_cons_self, ?_⟩
      have hword := (hwords t (by rw [htables]; exact List.mem_cons_self)).1
      cases hload : loadResult d t.filename with
      | error e => exact ⟨e, rfl⟩
      | ok found => exact absurd hload (hfiles.unread hplain t.filename hword found)

theorem initializeStorage_clean (hl : Apart l) (htext : TextKept l d) (hfiles : CleanFiles l d)
    (hlog : LogFile l d log) (mode : DurabilityMode) :
    ∃ r d', Succeeds (Storage.initializeStorage l.walFilename mode) d r d' ∧
      ∀ s, r = .ok s → Wired l s ∧
        (CleanManifest l s.manifest d' ∨
          ∃ t ∈ s.manifest.tables, ∃ e, loadResult d' t.filename = .error e) ∧
        s.wal.Carries d' log ∧ d'.lookup l.walFilename = some (.regular log) := by
  apply initializeStorage_ensures (G := fun m d' => CleanManifest l m d' ∨
    ∃ t ∈ m.tables, ∃ e, loadResult d' t.filename = .error e) mode hlog
  intro d₁ hsame
  have htext₁ : TextKept l d₁ := by
    rw [TextKept, hsame _ (by simpa using l.wal_ne_manifest.symm)]
    exact htext
  have hfiles₁ : CleanFiles l d₁ := hfiles.of_log hl hsame
  have hrebuilt : ∀ m : Manifest, m.filename = l.manifestFilename →
      ∃ m' d₂, Succeeds (m.rebuildFromDirectory (Storage.tablesDirectory l.walFilename)) d₁
        (.ok (), m') d₂ ∧
        (CleanManifest l m' d₂ ∨ ∃ t ∈ m'.tables, ∃ e, loadResult d₂ t.filename = .error e) ∧
        Disk.SameExcept m.paths d₁ d₂ := by
    intro m hman
    obtain ⟨m', d₂, hrebuild, hmanifest, hsame₂⟩ := rebuild_clean hl hman hfiles₁
    exact ⟨m', d₂, hrebuild, Or.inl hmanifest, hsame₂⟩
  rcases htext₁ with hnone | ⟨p, hp, htext₁⟩
  · refine ⟨_, Manifest.load_missing hnone, fun m hm => ?_⟩
    have hempty : CleanManifest l ⟨l.manifestFilename, [], 1⟩ d₁ :=
      ⟨⟨by with_reducible rfl, (by omega : 1 < 2 ^ 64), by simp⟩, Or.inl hnone, hfiles₁⟩
    have hman : m.filename = l.manifestFilename := by rw [← Except.ok.inj hm]
    exact ⟨hman, fun _ => Or.inl (Except.ok.inj hm ▸ hempty), hrebuilt m hman⟩
  · refine ⟨_, Manifest.load_eq_parse htext₁, fun m hparse => ?_⟩
    have hman := filename_of_parse hparse
    exact ⟨hman, fun hall => (lines_of_all_present hp hfiles₁ hparse hall).imp_left
      (fun hlines => ⟨hlines, Or.inr ⟨p, hp, htext₁⟩, hfiles₁⟩), hrebuilt m hman⟩

end Starts

end ForgeDB.CleanTables
