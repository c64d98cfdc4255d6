import ForgeDB.TableViews

/-!
# Two ways to read the tables

A lookup goes through the tables from the newest down, passes over those whose key range
excludes the key and stops at the first hit. A start writes all tables over each other,
the oldest first. On tables whose sizes fit the 32-bit fields of the file both see the
same map. A longer value lends its bytes to entries that nobody wrote; these are seen by
the start only.
-/

namespace ForgeDB.ReadPaths
open CrashPrograms CrashPrograms.Io LayeredMaps LittleEndian SSTables WalRecovery

/-- One call of `SSTable::write`. -/
structure TableCall where
  id : ℕ
  filename : Bytes
  data : Entries

/-- The calls in turn, with the metadata they return. -/
def writeTables : List TableCall → Io (Except Bytes (List SSTableMetadata))
  | [] => return .ok []
  | call :: calls => do
    match ← write call.filename call.id call.data with
    | .error e => return .error e
    | .ok table =>
      match ← writeTables calls with
      | .error e => return .error e
      | .ok tables => return .ok (table :: tables)

theorem writeTables_succeeds (calls : List TableCall)
    (hnames : (calls.map TableCall.filename).Nodup) (hdata : ∀ call ∈ calls, Storable call.data)
    (d : Disk) :
    ∃ tables d', Succeeds (writeTables calls) d (.ok tables) d' ∧
      List.Forall₂ (Holds d') tables (calls.map TableCall.data) ∧
      Disk.SameExcept (calls.map TableCall.filename) d d' := by
  induction calls generalizing d with
  | nil => exact ⟨[], d, .pure, .nil, .refl⟩
  | cons call calls ih =>
    obtain ⟨hfresh, hnames⟩ := List.nodup_cons.mp hnames
    obtain ⟨d₁, hwrite, hfile, hsame₁⟩ := write_succeeds d call.filename call.id call.data
    obtain ⟨tables, d₂, hrest, hholds, hsame₂⟩ :=
      ih hnames (fun c hc => hdata c (List.mem_cons_of_mem _ hc)) d₁
    refine ⟨metadataOf call.id call.filename call.data :: tables, d₂,
      hwrite.bind (hrest.bind .pure), ?_, ?_⟩
    · -- the later calls stay off the file
      exact .cons ⟨hdata call List.mem_cons_self, rfl, (hsame₂ _ hfresh).trans hfile⟩ hholds
    · refine Disk.SameExcept.trans (hsame₁.mono ?_) (hsame₂.mono ?_)
      · simp
      · exact fun p hp => List.mem_cons_of_mem _ hp

/-- A lookup reports what the map holds: nothing, a tombstone, or the value. -/
structure Reports (answer : Option MemTableEntry) (held : Option MemTableEntry) : Prop where
  missing : answer = none ↔ held = none
  deleted : (∃ value, answer = some ⟨value, true⟩) ↔ ∃ value, held = some ⟨value, true⟩
  present : ∀ value, answer = some ⟨value, false⟩ ↔ held = some ⟨value, false⟩

theorem reports_reported (held : Option MemTableEntry) :
    Reports (held.map MemTableEntry.reported) held := by
  rcases held with _ | ⟨value, deleted⟩
  · constructor <;> simp
  · cases deleted with
    | false => constructor <;> simp [MemTableEntry.reported]
    | true => constructor <;> simp [MemTableEntry.reported]

theorem load_tables (hc : HeaderConstants) {s : Storage} {d : Disk} {ms : List Entries}
    (hholds : List.Forall₂ (Holds d) s.manifest.tables ms)
    (hlog : d.lookup s.wal.filename = none ∨ d.lookup s.wal.filename = some (.regular [])) :
    ∃ data, Succeeds (s.load hc) d (.ok data) d ∧ ∀ key, data.lookup key = newest ms key := by
  have htables := loadTables_succeeds hholds ∅
  have hrecover : Succeeds (recoverWal hc s.wal.filename) d (⟨.success, []⟩, ∅) d := by
    rcases hlog with hnone | hempty
    · simp [Succeeds, recoverWal, Disk.contents, hnone]
    · exact recoverWal_succeeds hempty
  refine ⟨overwrite ((ms.map loadedEntries).foldl overwrite ∅) ∅,
    htables.bind (hrecover.bind .pure), ?_⟩
  intro key
  rw [lookup_overwrite, lookup_loadTables]
  rfl

/-- For tables whose sizes fit their fields, the lookup from the newest table down and the
map a start builds agree on every key. -/
theorem lookup_reports_loaded (hc : HeaderConstants) (calls : List TableCall)
    (hnames : (calls.map TableCall.filename).Nodup)
    (hsizes : ∀ call ∈ calls, ∀ e ∈ call.data.entries,
      e.1.length < 2 ^ 32 ∧ e.2.value.length < 2 ^ 32)
    (hcounts : ∀ call ∈ calls, call.data.entries.length < 2 ^ 64)
    (d d' : Disk) (s : Storage)
    (hwrite : Succeeds (writeTables calls) d (.ok s.manifest.tables) d')
    (hlog : d'.lookup s.wal.filename = none ∨ d'.lookup s.wal.filename = some (.regular [])) :
    ∃ data, Succeeds (s.load hc) d' (.ok data) d' ∧
      ∀ key, ∃ answer, Succeeds (s.getFromSstables key) d' (.ok answer) d' ∧
        Reports answer (data.lookup key) := by
  obtain ⟨tables, d₁, hrun, hholds, -⟩ :=
    writeTables_succeeds calls hnames (fun call hcall => ⟨hsizes call hcall, hcounts call hcall⟩) d
  obtain ⟨htables, rfl⟩ := hwrite.unique hrun
  rw [← Except.ok.inj htables] at hholds
  obtain ⟨data, hload, hlookup⟩ := load_tables hc hholds hlog
  refine ⟨data, hload, fun key => ?_⟩
  refine ⟨_, getFrom_reverse_succeeds hholds key, ?_⟩
  rw [hlookup]
  exact reports_reported _

/-- A value, a tombstone over it and an empty table. -/
def sampleCalls : List TableCall :=
  [⟨1, text "table_1.sst", AList.singleton (text "a") ⟨text "1", false⟩⟩,
    ⟨2, text "table_2.sst", AList.singleton (text "a") ⟨[], true⟩⟩, ⟨3, text "table_3.sst", ∅⟩]

theorem lookup_reports_loaded_sampleCalls :
    ∃ (d' : Disk) (s : Storage),
      Succeeds (writeTables sampleCalls) ∅ (.ok s.manifest.tables) d' ∧
      ∃ data, Succeeds (s.load HeaderConstants.least) d' (.ok data) d' ∧
        ∀ key, ∃ answer, Succeeds (s.getFromSstables key) d' (.ok answer) d' ∧
          Reports answer (data.lookup key) := by
  have hnames : (sampleCalls.map TableCall.filename).Nodup := by decide +kernel
  have hsizes : ∀ call ∈ sampleCalls, ∀ e ∈ call.data.entries,
      e.1.length < 2 ^ 32 ∧ e.2.value.length < 2 ^ 32 := by decide +kernel
  have hcounts : ∀ call ∈ sampleCalls, call.data.entries.length < 2 ^ 64 := by decide +kernel
  obtain ⟨tables, d', hrun, -, hsame⟩ :=
    writeTables_succeeds sampleCalls hnames (fun call h => ⟨hsizes call h, hcounts call h⟩) ∅
  refine ⟨d', ⟨text "active.log", .sync, ⟨text "active.log", .sync, true, true, []⟩,
    ⟨text "MANIFEST", tables, 4⟩⟩, hrun, ?_⟩
  refine lookup_reports_loaded _ sampleCalls hnames hsizes hcounts ∅ d' _ hrun (Or.inl ?_)
  exact hsame (text "active.log") (by decide +kernel)

def twoEntries (key₁ value₁ key₂ value₂ : Bytes) : Entries :=
  (AList.singleton key₂ ⟨value₂, false⟩).insert key₁ ⟨value₁, false⟩

theorem sortEntries_twoEntries {key₁ key₂ : Bytes} (h : key₁ < key₂) (value₁ value₂ : Bytes) :
    sortEntries (twoEntries key₁ value₁ key₂ value₂) =
      [⟨key₁, value₁, false⟩, ⟨key₂, value₂, false⟩] := by
  have hentries : (twoEntries key₁ value₁ key₂ value₂).entries =
      [⟨key₁, value₁, false⟩, ⟨key₂, value₂, false⟩] := by
    have hkeep : List.kerase key₁ [(⟨key₂, value₂, false⟩ : Entry)] = [⟨key₂, value₂, false⟩] :=
      List.kerase_cons_ne h.ne
    rw [twoEntries, AList.entries_insert]
    exact congrArg _ hkeep
  rw [sortEntries, hentries]
  simp [List.insertionSort, h.le]

theorem twoEntries_ne_nil (key₁ value₁ key₂ value₂ : Bytes) :
    (twoEntries key₁ value₁ key₂ value₂).entries ≠ [] := by
  rw [twoEntries, AList.entries_insert]
  exact List.cons_ne_nil _ _

theorem forall_mem_twoEntries {p : Entry → Prop} {key₁ value₁ key₂ value₂ : Bytes} (h : key₁ < key₂)
    (h₁ : p ⟨key₁, value₁, false⟩) (h₂ : p ⟨key₂, value₂, false⟩) :
    ∀ e ∈ (twoEntries key₁ value₁ key₂ value₂).entries, p e := by
  intro e he
  rw [← mem_sortEntries, sortEntries_twoEntries h, List.mem_pair] at he
  rcases he with rfl | rfl
  · exact h₁
  · exact h₂

section LongValue

variable {filler : Bytes} (hfiller : filler.length = 2 ^ 32 - 11)

/-- The bytes of one more entry, told to be as long as what follows them, then a filler. -/
def longValue (filler : Bytes) : Bytes :=
  encode 4 2 ++ (text "zz" ++ ([0] ++ (encode 4 (2 ^ 32 - 1) ++ filler)))

/-- What the extra entry takes for its value: the filler and the next entry of the file. -/
def strayValue (filler : Bytes) : Bytes := filler ++ encodeEntry ⟨text "c", [], false⟩

include hfiller

theorem length_longValue : (longValue filler).length = 2 ^ 32 := by
  have htext : (text "zz").length = 2 := rfl
  simp only [longValue, List.length_append, length_encode, List.length_singleton, htext, hfiller]
  norm_num

theorem length_strayValue : (strayValue filler).length = 2 ^ 32 - 1 := by
  have hentry : (encodeEntry ⟨text "c", [], false⟩).length = 10 := rfl
  simp only [strayValue, List.length_append, hentry, hfiller]
  norm_num

/-- The file of two written entries is also the file of two others. -/
theorem tableContents_longValue :
    tableContents (twoEntries (text "b") (longValue filler) (text "c") []) =
      tableContents (twoEntries (text "b") [] (text "zz") (strayValue filler)) := by
  have hb : text "b" < text "c" := by decide
  have hz : text "b" < text "zz" := by decide
  have hlong := length_longValue hfiller
  have hstray := length_strayValue hfiller
  have hfirst : encodeEntry ⟨text "b", longValue filler, false⟩ =
      encodeEntry ⟨text "b", [], false⟩ ++ longValue filler := by
    simp only [encodeEntry, hlong, Nat.mod_self, List.length_nil, Nat.zero_mod,
      List.append_assoc, List.nil_append]
  have hsecond : longValue filler ++ encodeEntry ⟨text "c", [], false⟩ =
      encodeEntry ⟨text "zz", strayValue filler, false⟩ := by
    have hsize : (text "zz").length % 2 ^ 32 = 2 := rfl
    have hmod : (2 ^ 32 - 1) % 2 ^ 32 = 2 ^ 32 - 1 := by norm_num
    generalize hc : encodeEntry ⟨text "c", [], false⟩ = last at *
    simp only [encodeEntry, hstray, hsize, hmod, Bool.false_eq_true, if_false]
    simp only [longValue, strayValue, hc, List.append_assoc]
  have hpayload : tablePayload (twoEntries (text "b") (longValue filler) (text "c") []) =
      tablePayload (twoEntries (text "b") [] (text "zz") (strayValue filler)) := by
    rw [tablePayload, tablePayload, sortEntries_twoEntries hb, sortEntries_twoEntries hz,
      serializeEntries_eq, serializeEntries_eq]
    simp only [List.map_cons, List.map_nil, List.flatten_cons, List.flatten_nil, List.append_nil]
    rw [hfirst, ← hsecond, List.append_assoc]
  rw [tableContents_eq, tableContents_eq, hpayload, ← length_sortEntries, ← length_sortEntries,
    sortEntries_twoEntries hb, sortEntries_twoEntries hz]
  simp only [List.length_cons, List.length_nil]

theorem storable_strayValue :
    Storable (twoEntries (text "b") [] (text "zz") (strayValue filler)) := by
  have hkey : (text "zz").length < 2 ^ 32 := by decide
  have hstray : (strayValue filler).length < 2 ^ 32 := by
    rw [length_strayValue hfiller]
    norm_num
  constructor
  · exact forall_mem_twoEntries (by decide) ⟨by decide, by decide⟩ ⟨hkey, hstray⟩
  · rw [← length_sortEntries, sortEntries_twoEntries (by decide)]
    exact (by omega : 2 < 2 ^ 64)

end LongValue

/-- A table with a value of four gibibytes: a start finds a key that no lookup finds. -/
theorem lookup_misses_loaded :
    ∃ (call : TableCall) (d' : Disk) (s : Storage),
      Succeeds (writeTables [call]) ∅ (.ok s.manifest.tables) d' ∧
      d'.lookup s.wal.filename = none ∧
      ∃ data, Succeeds (s.load HeaderConstants.least) d' (.ok data) d' ∧
        (data.lookup (text "zz")).isSome = true ∧
        Succeeds (s.getFromSstables (text "zz")) d' (.ok none) d' := by
  obtain ⟨filler, hfiller⟩ : ∃ filler : Bytes, filler.length = 2 ^ 32 - 11 :=
    ⟨List.replicate _ 0, List.length_replicate⟩
  generalize hdata : twoEntries (text "b") (longValue filler) (text "c") [] = data
  generalize hstray : twoEntries (text "b") [] (text "zz") (strayValue filler) = stray
  have hstorable : Storable stray := hstray ▸ storable_strayValue hfiller
  have hcontents : tableContents data = tableContents stray :=
    hdata ▸ hstray ▸ tableContents_longValue hfiller
  obtain ⟨d', hwrite, hfile, hsame⟩ := write_succeeds ∅ (text "table_1.sst") 1 data
  have hlog : d'.lookup (text "active.log") = none := hsame (text "active.log") (by decide)
  rw [hcontents] at hfile
  have hload : Succeeds (load (metadataOf 1 (text "table_1.sst") data)) d'
      (.ok (loadedEntries stray)) d' := load_succeeds hstorable hfile
  have hrecover : Succeeds (recoverWal HeaderConstants.least (text "active.log")) d'
      (⟨.success, []⟩, ∅) d' := by
    simp [Succeeds, recoverWal, Disk.contents, hlog]
  refine ⟨⟨1, text "table_1.sst", data⟩, d', ⟨text "active.log", .sync,
    ⟨text "active.log", .sync, true, true, []⟩,
    ⟨text "MANIFEST", [metadataOf 1 (text "table_1.sst") data], 2⟩⟩,
    hwrite.bind .pure, hlog, overwrite (overwrite ∅ (loadedEntries stray)) ∅, ?_, ?_, ?_⟩
  · have htables : Succeeds (Storage.loadTables [metadataOf 1 (text "table_1.sst") data] ∅) d'
        (.ok (overwrite ∅ (loadedEntries stray))) d' := hload.bind .pure
    exact htables.bind (hrecover.bind .pure)
  · have hfound : stray.lookup (text "zz") = some ⟨strayValue filler, false⟩ := by
      rw [← hstray, twoEntries, AList.lookup_insert_ne (by decide)]
      exact List.dlookup_cons_eq _ _ _
    rw [lookup_overwrite, lookup_overwrite, lookup_loadedEntries, hfound]
    rfl
  · -- the greatest key in the metadata is the second one written
    have hrange : (metadataOf 1 (text "table_1.sst") data).largestKey < text "zz" := by
      rw [← hdata, metadataOf, sortEntries_twoEntries (by decide)]
      exact (by decide : text "c" < text "zz")
    have hget : Succeeds (get (metadataOf 1 (text "table_1.sst") data) (text "zz")) d' (.ok none) d' := by
      rw [SSTables.get]
      split_ifs with hcount hout
      · exact .pure
      · exact .pure
      · exact absurd (Or.inr hrange) hout
    exact hget.bind .pure

end ForgeDB.ReadPaths
