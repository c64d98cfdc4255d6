import ForgeDB.FilePaths
import ForgeDB.SSTables
import ForgeDB.TextStreams

/-!
# The table list and its text file

The list of live tables is kept in memory and in a text file of words separated by
white space. Every change writes the whole text to a temporary file and renames it.
-/

namespace ForgeDB
open CrashPrograms CrashPrograms.Io TextStreams

structure Manifest where
  filename : Bytes
  tables : List SSTableMetadata
  nextTableId : ℕ
  deriving DecidableEq

namespace Manifest

def tableLine (table : SSTableMetadata) : Bytes :=
  decimal table.id ++ blank :: table.filename ++ blank :: table.smallestKey ++
    blank :: table.largestKey ++ blank :: decimal table.entryCount ++ [newline]

def manifestText (m : Manifest) : Bytes :=
  decimal m.nextTableId ++ newline :: decimal m.tables.length ++ newline ::
    (m.tables.map tableLine).flatten

/-- `file >> id >> filename >> smallest_key >> largest_key >> entry_count` -/
def readTable (s : Bytes) : Option (SSTableMetadata × Bytes) := do
  let (id, s) ← extractUint64 s
  let (filename, s) ← extractWord s
  let (smallestKey, s) ← extractWord s
  let (largestKey, s) ← extractWord s
  let (entryCount, s) ← extractUint64 s
  return (⟨id, filename, smallestKey, largestKey, entryCount⟩, s)

def readTables : ℕ → Bytes → Option (List SSTableMetadata × Bytes)
  | 0, s => some ([], s)
  | count + 1, s => do
    let (table, s) ← readTable s
    let (tables, s) ← readTables count s
    return (table :: tables, s)

def parse (filename s : Bytes) : Except Bytes Manifest :=
  match extractUint64 s with
  | none => .error (text "Invalid MANIFEST header")
  | some (nextTableId, s) =>
    match extractUint64 s with
    | none => .error (text "Invalid MANIFEST table count")
    | some (tableCount, s) =>
      match readTables tableCount s with
      | none => .error (text "Invalid MANIFEST entry")
      | some (tables, s) =>
        match extractWord s with
        | some _ => .error (text "Unexpected data in MANIFEST")
        | none => .ok ⟨filename, tables, nextTableId⟩

/-- No file is a new database; so is a file that cannot be opened. -/
def load (filename : Bytes) : Io (Except Bytes Manifest) := do
  let opened ← consult
  let d ← getDisk
  match opened, Disk.contents d filename with
  | true, some s => return parse filename s
  | _, _ => return .ok ⟨filename, [], 1⟩

def temporary (m : Manifest) : Bytes := m.filename ++ text ".tmp"

def persist (m : Manifest) : Io (Except Bytes Unit) := do
  let created ← openTruncated m.temporary
  if !created then
    return .error (text "Failed to create temporary MANIFEST")
  let written ← write m.temporary m.manifestText
  if !written then
    return .error (text "Failed to write MANIFEST")
  let renamed ← rename m.temporary m.filename
  if !renamed then
    return .error (text "Failed to replace MANIFEST")
  return .ok ()

/-- The list with one more table, as it is before it is persisted. -/
def pushed (m : Manifest) (table : SSTableMetadata) : Manifest where
  filename := m.filename
  tables := m.tables ++ [table]
  nextTableId := if table.id ≥ m.nextTableId then (table.id + 1) % 2 ^ 64 else m.nextTableId

/-- The list after a failed `add_table`: the table goes, the next id stays advanced unless
no table is left. -/
def popped (m : Manifest) (table : SSTableMetadata) : Manifest where
  filename := m.filename
  tables := m.tables
  nextTableId := if m.tables = [] then 1 else (m.pushed table).nextTableId

def addTable (m : Manifest) (table : SSTableMetadata) : Io (Except Bytes Unit × Manifest) := do
  match ← (m.pushed table).persist with
  | .error e => return (.error e, m.popped table)
  | .ok _ => return (.ok (), m.pushed table)

def without (m : Manifest) (ids : List ℕ) : Manifest :=
  { m with tables := m.tables.filter (fun table => table.id ∉ ids) }

def removeTables (m : Manifest) (ids : List ℕ) : Io (Except Bytes Unit × Manifest) := do
  match ← (m.without ids).persist with
  | .error e => return (.error e, m)
  | .ok _ => return (.ok (), m.without ids)

/-- What a directory iteration lists: full paths with their nodes. -/
def listDirectory (d : Disk) (directory : Bytes) : List (Bytes × Node) :=
  d.entries.filterMap (fun e =>
    if e.1 = FilePaths.joinPath directory (FilePaths.filenamePart e.1) then some (e.1, e.2) else none)

/-- The id in a name like `table_5.sst`; `std::stoull` reads as far as there are digits. -/
def tableIdOf (path : Bytes) (node : Node) : Option ℕ :=
  let filename := FilePaths.filenamePart path
  if node = .directory then none
  else if FilePaths.extension filename ≠ text ".sst" then none
  else if (text "table_").isPrefixOf filename = false then none
  else (extractUint64 ((filename.drop 6).take (sizeSub filename.length 10))).map Prod.fst

/-- The key range found in the data; an empty bound counts as not set yet. -/
def rebuiltMetadata (id : ℕ) (path : Bytes) (data : Entries) : SSTableMetadata where
  id := id
  filename := path
  smallestKey := data.entries.foldl (fun s e => if s = [] ∨ e.1 < s then e.1 else s) []
  largestKey := data.entries.foldl (fun s e => if s = [] ∨ s < e.1 then e.1 else s) []
  entryCount := data.entries.length

/-- Tables that cannot be read or hold nothing are left out. -/
def rebuildTables : List (Bytes × Node) → Io (List SSTableMetadata)
  | [] => return []
  | (path, node) :: rest => do
    match tableIdOf path node with
    | none => rebuildTables rest
    | some id =>
      match ← SSTables.load ⟨id, path, [], [], 0⟩ with
      | .error _ => rebuildTables rest
      | .ok data =>
        if data.entries = [] then rebuildTables rest
        else
          let tables ← rebuildTables rest
          return rebuiltMetadata id path data :: tables

def rebuildFromDirectory (m : Manifest) (tablesDirectory : Bytes) :
    Io (Except Bytes Unit × Manifest) := do
  let listed ← consult
  if !listed then
    return (.error (text "Failed to rebuild MANIFEST: "), m)
  let d ← getDisk
  let rebuilt ← rebuildTables (listDirectory d tablesDirectory)
  let largestId := (rebuilt.map SSTableMetadata.id).foldl max 0
  let nextTableId := (largestId + 1) % 2 ^ 64
  let m : Manifest :=
    { m with tables := rebuilt.insertionSort (fun left right => left.id ≤ right.id)
             nextTableId := if nextTableId = 0 then 1 else nextTableId }
  return (← m.persist, m)

/-- Tables whose line can be read back: every field is a word of its own. -/
structure Readable (table : SSTableMetadata) : Prop where
  id_lt : table.id < 2 ^ 64
  filename_word : IsWord table.filename
  smallest_word : IsWord table.smallestKey
  largest_word : IsWord table.largestKey
  count_lt : table.entryCount < 2 ^ 64

private theorem space_blank (s : Bytes) : ∀ b ∈ (blank :: s).head?, isSpace b = true := by
  intro b hb
  cases hb
  rfl

private theorem space_newline (s : Bytes) : ∀ b ∈ (newline :: s).head?, isSpace b = true := by
  intro b hb
  cases hb
  rfl

theorem readTable_tableLine {table : SSTableMetadata} (h : Readable table) (rest : Bytes) :
    readTable (newline :: (tableLine table ++ rest)) = some (table, newline :: rest) := by
  have hline : tableLine table ++ rest = decimal table.id ++ (blank :: (table.filename ++
      (blank :: (table.smallestKey ++ (blank :: (table.largestKey ++ (blank ::
        (decimal table.entryCount ++ (newline :: rest))))))))) := by
    simp [tableLine]
  have hword : ∀ {w : Bytes} (s : Bytes), IsWord w →
      extractWord (blank :: (w ++ (blank :: s))) = some (w, blank :: s) := by
    intro w s hw
    rw [extractWord_cons_space _ rfl, extractWord_append hw (space_blank s)]
  have hid := extractUint64_decimal h.id_lt (space_blank (table.filename ++
      (blank :: (table.smallestKey ++ (blank :: (table.largestKey ++ (blank ::
        (decimal table.entryCount ++ (newline :: rest)))))))))
  have hcount := extractUint64_decimal h.count_lt (space_newline rest)
  rw [hline, readTable, extractUint64_cons_space _ rfl, hid]
  simp only [Option.bind_eq_bind, Option.bind_some, hword _ h.filename_word,
    hword _ h.smallest_word, hword _ h.largest_word]
  rw [extractUint64_cons_space _ rfl, hcount]
  rfl

theorem readTables_lines (tables : List SSTableMetadata) (h : ∀ t ∈ tables, Readable t) :
    readTables tables.length (newline :: (tables.map tableLine).flatten) =
      some (tables, [newline]) := by
  induction tables with
  | nil => rfl
  | cons table tables ih =>
    rw [List.map_cons, List.flatten_cons, List.length_cons, readTables,
      readTable_tableLine (h table List.mem_cons_self)]
    simp only [Option.bind_eq_bind, Option.bind_some,
      ih (fun t ht => h t (List.mem_cons_of_mem _ ht))]
    rfl

/-- Lists whose text can be read back. -/
structure Printable (m : Manifest) : Prop where
  next_lt : m.nextTableId < 2 ^ 64
  length_lt : m.tables.length < 2 ^ 64
  readable : ∀ t ∈ m.tables, Readable t

/-- Reading a text reads its numbers and goes on with the lines. -/
theorem parse_lines (filename : Bytes) {m : Manifest} (hnext : m.nextTableId < 2 ^ 64)
    (hlength : m.tables.length < 2 ^ 64) :
    parse filename m.manifestText =
      match readTables m.tables.length (newline :: (m.tables.map tableLine).flatten) with
      | none => .error (text "Invalid MANIFEST entry")
      | some (tables, s) =>
        match extractWord s with
        | some _ => .error (text "Unexpected data in MANIFEST")
        | none => .ok ⟨filename, tables, m.nextTableId⟩ := by
  have hfirst : extractUint64 m.manifestText = some (m.nextTableId,
      newline :: (decimal m.tables.length ++ (newline :: (m.tables.map tableLine).flatten))) := by
    have h := extractUint64_decimal hnext (space_newline
      (decimal m.tables.length ++ (newline :: (m.tables.map tableLine).flatten)))
    rwa [manifestText, List.append_assoc]
  have hsecond : extractUint64
      (newline :: (decimal m.tables.length ++ (newline :: (m.tables.map tableLine).flatten))) =
      some (m.tables.length, newline :: (m.tables.map tableLine).flatten) := by
    rw [extractUint64_cons_space _ rfl, extractUint64_decimal hlength (space_newline _)]
  simp only [parse, hfirst, hsecond]

theorem parse_manifestText {m : Manifest} (h : Printable m) :
    parse m.filename m.manifestText = .ok m := by
  have hend : extractWord [newline] = none := rfl
  rw [parse_lines m.filename h.next_lt h.length_lt]
  simp only [readTables_lines m.tables h.readable, hend]

section Persisting

variable {m : Manifest} {d : Disk} {table : SSTableMetadata}

theorem temporary_ne (m : Manifest) : m.temporary ≠ m.filename := by
  intro h
  have hlen := congrArg List.length h
  simp [temporary, text] at hlen

def paths (m : Manifest) : List Bytes := [m.filename, m.temporary]

theorem persist_succeeds (m : Manifest) (d : Disk) :
    ∃ d', Succeeds m.persist d (.ok ()) d' ∧
      d'.lookup m.filename = some (.regular m.manifestText) ∧ Disk.SameExcept m.paths d d' := by
  have hsame : Disk.SameExcept m.paths d
      (Disk.append m.temporary m.manifestText (Disk.put m.temporary [] d)) :=
    (Disk.SameExcept.refl.put (by simp [paths])).append _ (by simp [paths])
  refine ⟨Disk.put m.filename m.manifestText
    ((Disk.append m.temporary m.manifestText (Disk.put m.temporary [] d)).erase m.temporary), ?_,
    Disk.lookup_put, (hsame.erase (by simp [paths])).put (by simp [paths])⟩
  simp [Succeeds, persist, openTruncated, write, rename, Disk.put]

/-- However persisting ends, the text file is the old one or, only on success, the new one. -/
theorem persist_ensures (m : Manifest) (d : Disk) :
    Ensures m.persist d
      (fun r d' => Disk.SameExcept m.paths d d' ∧
        ((r = .ok () ∧ d'.lookup m.filename = some (.regular m.manifestText)) ∨
          ((∃ e, r = .error e) ∧ d'.lookup m.filename = d.lookup m.filename)))
      (fun d' => Disk.SameExcept m.paths d d' ∧ d'.lookup m.filename = d.lookup m.filename) := by
  have hne := m.temporary_ne.symm
  rw [persist]
  refine .seq (fun created d' => Disk.SameExcept m.paths d d' ∧
    d'.lookup m.filename = d.lookup m.filename ∧
    (created = true → d'.lookup m.temporary = some (.regular []))) ?_ ?_
  · exact .attempt ⟨Disk.SameExcept.refl.put (by simp [paths]), Disk.lookup_put_ne hne,
      fun _ => Disk.lookup_put⟩ (fun _ => ⟨.refl, rfl, by simp⟩) (fun _ => ⟨.refl, rfl⟩)
  · intro created d₁ h₁
    obtain ⟨hsame, hold, hempty⟩ := h₁
    cases created with
    | false => exact .pure ⟨hsame, Or.inr ⟨⟨_, rfl⟩, hold⟩⟩
    | true =>
      refine .seq (fun written d' => Disk.SameExcept m.paths d d' ∧
        d'.lookup m.filename = d.lookup m.filename ∧
        (written = true → d'.lookup m.temporary = some (.regular m.manifestText))) ?_ ?_
      · have hkeep : ∀ bs, Disk.SameExcept m.paths d (Disk.append m.temporary bs d₁) ∧
            (Disk.append m.temporary bs d₁).lookup m.filename = d.lookup m.filename :=
          fun bs => ⟨hsame.append _ (by simp [paths]), (Disk.lookup_put_ne hne).trans hold⟩
        refine .attempt ⟨(hkeep _).1, (hkeep _).2, fun _ => ?_⟩
          (fun _ => ⟨(hkeep _).1, (hkeep _).2, by simp⟩) (fun _ => hkeep _)
        rw [Disk.lookup_append _ (hempty rfl), List.nil_append]
      · intro written d₂ h₂
        obtain ⟨hsame₂, hold₂, hwritten⟩ := h₂
        cases written with
        | false => exact .pure ⟨hsame₂, Or.inr ⟨⟨_, rfl⟩, hold₂⟩⟩
        | true =>
          refine .seq (fun renamed d' => Disk.SameExcept m.paths d d' ∧
            d'.lookup m.filename = if renamed = true then some (.regular m.manifestText)
              else d.lookup m.filename) ?_ ?_
          · refine .attempt ?_ (fun _ => ⟨hsame₂, by simpa using hold₂⟩) (fun _ => ⟨hsame₂, hold₂⟩)
            simp only [hwritten rfl, if_true]
            exact ⟨(hsame₂.erase (by simp [paths])).put (by simp [paths]), AList.lookup_insert _⟩
          · intro renamed d₃ h₃
            obtain ⟨hsame₃, hnew⟩ := h₃
            cases renamed with
            | false => exact .pure ⟨hsame₃, Or.inr ⟨⟨_, rfl⟩, by simpa using hnew⟩⟩
            | true => exact .pure ⟨hsame₃, Or.inl ⟨rfl, by simpa using hnew⟩⟩

theorem addTable_succeeds (m : Manifest) (table : SSTableMetadata) (d : Disk) :
    ∃ d', Succeeds (m.addTable table) d (.ok (), m.pushed table) d' ∧
      d'.lookup m.filename = some (.regular (m.pushed table).manifestText) ∧
      Disk.SameExcept m.paths d d' := by
  obtain ⟨d', hrun, hfile, hsame⟩ := persist_succeeds (m.pushed table) d
  exact ⟨d', hrun.bind .pure, hfile, hsame⟩

theorem addTable_ensures (m : Manifest) (table : SSTableMetadata) (d : Disk) :
    Ensures (m.addTable table) d
      (fun r d' => Disk.SameExcept m.paths d d' ∧
        ((r = (.ok (), m.pushed table) ∧
            d'.lookup m.filename = some (.regular (m.pushed table).manifestText)) ∨
          ((∃ e, r = (.error e, m.popped table)) ∧ d'.lookup m.filename = d.lookup m.filename)))
      (fun d' => Disk.SameExcept m.paths d d' ∧ d'.lookup m.filename = d.lookup m.filename) := by
  refine (persist_ensures (m.pushed table) d).bind ?_
  intro r d' h
  obtain ⟨hsame, ⟨rfl, hfile⟩ | ⟨⟨e, rfl⟩, hfile⟩⟩ := h
  · exact .pure ⟨hsame, Or.inl ⟨rfl, hfile⟩⟩
  · exact .pure ⟨hsame, Or.inr ⟨⟨e, rfl⟩, hfile⟩⟩

theorem removeTables_succeeds (m : Manifest) (ids : List ℕ) (d : Disk) :
    ∃ d', Succeeds (m.removeTables ids) d (.ok (), m.without ids) d' ∧
      d'.lookup m.filename = some (.regular (m.without ids).manifestText) ∧
      Disk.SameExcept m.paths d d' := by
  obtain ⟨d', hrun, hfile, hsame⟩ := persist_succeeds (m.without ids) d
  exact ⟨d', hrun.bind .pure, hfile, hsame⟩

theorem removeTables_ensures (m : Manifest) (ids : List ℕ) (d : Disk) :
    Ensures (m.removeTables ids) d
      (fun r d' => Disk.SameExcept m.paths d d' ∧
        ((r = (.ok (), m.without ids) ∧
            d'.lookup m.filename = some (.regular (m.without ids).manifestText)) ∨
          ((∃ e, r = (.error e, m)) ∧ d'.lookup m.filename = d.lookup m.filename)))
      (fun d' => Disk.SameExcept m.paths d d' ∧ d'.lookup m.filename = d.lookup m.filename) := by
  refine (persist_ensures (m.without ids) d).bind ?_
  intro r d' h
  obtain ⟨hsame, ⟨rfl, hfile⟩ | ⟨⟨e, rfl⟩, hfile⟩⟩ := h
  · exact .pure ⟨hsame, Or.inl ⟨rfl, hfile⟩⟩
  · exact .pure ⟨hsame, Or.inr ⟨⟨e, rfl⟩, hfile⟩⟩

theorem load_eq_parse {filename contents : Bytes}
    (hd : d.lookup filename = some (.regular contents)) :
    Succeeds (load filename) d (parse filename contents) d := by
  simp [Succeeds, load, Disk.contents_of_lookup hd]

theorem load_succeeds (h : m.Printable)
    (hd : d.lookup m.filename = some (.regular m.manifestText)) :
    Succeeds (load m.filename) d (.ok m) d := by
  have hload := load_eq_parse hd
  rwa [parse_manifestText h] at hload

theorem load_missing {filename : Bytes} (hd : d.lookup filename = none) :
    Succeeds (load filename) d (.ok ⟨filename, [], 1⟩) d := by
  have hcontents : Disk.contents d filename = none := by simp [Disk.contents, hd]
  simp [Succeeds, load, hcontents]

end Persisting

section Rebuilding

variable {d : Disk}

/-- A table found by listing the directory: a readable table file of that directory. -/
structure Found (d : Disk) (table : SSTableMetadata) : Prop where
  parses : ∃ contents data, d.lookup table.filename = some (.regular contents) ∧
    SSTables.parseTable contents = .ok data
  extension_eq : FilePaths.extension (FilePaths.filenamePart table.filename) = text ".sst"

theorem extension_of_tableIdOf {path : Bytes} {node : Node} {id : ℕ}
    (h : tableIdOf path node = some id) :
    FilePaths.extension (FilePaths.filenamePart path) = text ".sst" := by
  simp only [tableIdOf] at h
  split_ifs at h with _ hext
  exact not_not.mp hext

/-- What the directory iteration makes of one of the listed files. -/
structure Rebuilt (d : Disk) (files : List (Bytes × Node)) (table : SSTableMetadata) : Prop where
  listed : ∃ node, (table.filename, node) ∈ files ∧ tableIdOf table.filename node = some table.id
  made : ∃ data, SSTables.loadResult d table.filename = .ok data ∧ data.entries ≠ [] ∧
    table = rebuiltMetadata table.id table.filename data

theorem Rebuilt.found {files : List (Bytes × Node)} {table : SSTableMetadata}
    (h : Rebuilt d files table) : Found d table := by
  obtain ⟨node, -, hid⟩ := h.listed
  obtain ⟨data, hload, -⟩ := h.made
  obtain ⟨contents, hfile, hparse⟩ := SSTables.lookup_of_loadResult hload
  exact ⟨⟨contents, data, hfile, hparse⟩, extension_of_tableIdOf hid⟩

theorem Rebuilt.of_tail {file : Bytes × Node} {files : List (Bytes × Node)}
    {table : SSTableMetadata} (h : Rebuilt d files table) : Rebuilt d (file :: files) table := by
  obtain ⟨node, hmem, hid⟩ := h.listed
  exact ⟨⟨node, List.mem_cons_of_mem _ hmem, hid⟩, h.made⟩

theorem rebuildTables_succeeds (d : Disk) (files : List (Bytes × Node)) :
    ∃ tables, Succeeds (rebuildTables files) d tables d ∧
      (tables.map SSTableMetadata.filename).Sublist (files.map Prod.fst) ∧
      ∀ t ∈ tables, Rebuilt d files t := by
  induction files with
  | nil => exact ⟨[], rfl, .slnil, by simp⟩
  | cons file files ih =>
    obtain ⟨path, node⟩ := file
    obtain ⟨tables, hrun, hsub, hmade⟩ := ih
    have hsub' := hsub.cons path
    have hmade' : ∀ t ∈ tables, Rebuilt d ((path, node) :: files) t :=
      fun t ht => (hmade t ht).of_tail
    cases hid : tableIdOf path node with
    | none => exact ⟨tables, by simpa [rebuildTables, hid] using hrun, hsub', hmade'⟩
    | some id =>
      have hload := SSTables.load_eq d ⟨id, path, [], [], 0⟩
      rw [rebuildTables, hid]
      cases hr : SSTables.loadResult d path with
      | error e =>
        rw [hr] at hload
        exact ⟨tables, hload.bind hrun, hsub', hmade'⟩
      | ok data =>
        rw [hr] at hload
        by_cases hempty : data.entries = []
        · refine ⟨tables, hload.bind ?_, hsub', hmade'⟩
          simpa [hempty] using hrun
        · refine ⟨rebuiltMetadata id path data :: tables, hload.bind ?_, hsub.cons_cons path, ?_⟩
          · simp only [hempty, if_false]
            exact hrun.bind .pure
          · intro t ht
            rcases List.mem_cons.mp ht with rfl | ht
            · exact ⟨⟨node, List.mem_cons_self, hid⟩, ⟨data, hr, hempty, rfl⟩⟩
            · exact hmade' t ht

def rebuilt (m : Manifest) (tables : List SSTableMetadata) : Manifest :=
  { m with tables := tables.insertionSort (fun left right => left.id ≤ right.id)
           nextTableId := if ((tables.map SSTableMetadata.id).foldl max 0 + 1) % 2 ^ 64 = 0 then 1
             else ((tables.map SSTableMetadata.id).foldl max 0 + 1) % 2 ^ 64 }

theorem mem_rebuilt {m : Manifest} {tables : List SSTableMetadata} {t : SSTableMetadata} :
    t ∈ (m.rebuilt tables).tables ↔ t ∈ tables :=
  (List.perm_insertionSort _ _).mem_iff

/-- Rebuilding always works and lists what the iteration has found. -/
theorem rebuildFromDirectory_run (m : Manifest) (directory : Bytes) (d : Disk) :
    ∃ tables d', (tables.map SSTableMetadata.filename).Sublist
        ((listDirectory d directory).map Prod.fst) ∧
      (∀ t ∈ tables, Rebuilt d (listDirectory d directory) t) ∧
      Succeeds (m.rebuildFromDirectory directory) d (.ok (), m.rebuilt tables) d' ∧
      d'.lookup m.filename = some (.regular (m.rebuilt tables).manifestText) ∧
      Disk.SameExcept m.paths d d' := by
  obtain ⟨tables, hrun, hsub, hmade⟩ := rebuildTables_succeeds d (listDirectory d directory)
  obtain ⟨d', hpersist, hfile, hsame⟩ := persist_succeeds (m.rebuilt tables) d
  exact ⟨tables, d', hsub, hmade,
    Succeeds.consult.bind (Succeeds.getDisk.bind (hrun.bind (hpersist.bind .pure))), hfile, hsame⟩

theorem rebuildFromDirectory_succeeds (m : Manifest) (directory : Bytes) (d : Disk) :
    ∃ m' d', Succeeds (m.rebuildFromDirectory directory) d (.ok (), m') d' ∧
      m'.filename = m.filename ∧ Disk.SameExcept m.paths d d' ∧
      ∀ t ∈ m'.tables, Found d t := by
  obtain ⟨tables, d', -, hmade, hrun, -, hsame⟩ := m.rebuildFromDirectory_run directory d
  exact ⟨m.rebuilt tables, d', hrun, rfl, hsame, fun t ht => (hmade t (mem_rebuilt.mp ht)).found⟩

end Rebuilding

end Manifest
end ForgeDB
