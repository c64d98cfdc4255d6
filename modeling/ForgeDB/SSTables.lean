import ForgeDB.CrashPrograms
import ForgeDB.Crc32
import ForgeDB.HeaderTypes
import ForgeDB.Serialization
import Mathlib.Data.List.Sort

/-!
# Immutable sorted tables

A table file is a magic number, a version, the number of entries, the entries in key
order, and the checksum of the entries. It is written once and then only read, as a
whole.
-/

namespace ForgeDB.SSTables
open CrashPrograms CrashPrograms.Io LayeredMaps LittleEndian Serialization

def sstableMagic : ℕ := 0x46444231

def sstableVersion : ℕ := 2

abbrev Entry := Σ _ : Bytes, MemTableEntry

def serializeEntry (buffer : Bytes) (item : Entry) : Bytes :=
  let buffer := appendUint32 buffer (item.1.length % 2 ^ 32)
  let buffer := buffer ++ item.1 ++ [if item.2.deleted then 1 else 0]
  let buffer := appendUint32 buffer (item.2.value.length % 2 ^ 32)
  buffer ++ item.2.value

def serializeEntries (entries : List Entry) : Bytes := entries.foldl serializeEntry []

/-- One turn of the decoding loop: the entry at `offset` and the offset behind it. A size
field is bounded by its own 32 bits only. -/
def deserializeEntry (buffer : Bytes) (offset : ℕ) : Option (Entry × ℕ) :=
  match readSized (2 ^ 32 - 1) buffer offset with
  | none => none
  | some (key, offset) =>
    if offset ≥ buffer.length then none
    else
      let deleted := buffer.getD offset 0 != 0
      match readSized (2 ^ 32 - 1) buffer (offset + 1) with
      | none => none
      | some (value, offset) => some (⟨key, value, deleted⟩, offset)

def deserializeEntries (buffer : Bytes) : ℕ → ℕ → Entries → Option Entries
  | 0, offset, data => if offset = buffer.length then some data else none
  | count + 1, offset, data =>
    match deserializeEntry buffer offset with
    | none => none
    | some (item, offset) => deserializeEntries buffer count offset (data.insert item.1 item.2)

/-- Magic number, version and entry count, and the offset behind them. -/
def readHeader (contents : Bytes) : Option (ℕ × ℕ × ℕ × ℕ) :=
  match readUint32 contents 0 with
  | none => none
  | some (magic, offset) =>
    match readUint32 contents offset with
    | none => none
    | some (version, offset) =>
      match readUint64 contents offset with
      | none => none
      | some (entryCount, offset) => some (magic, version, entryCount, offset)

def parseTable (contents : Bytes) : Except Bytes Entries :=
  match readHeader contents with
  | none => .error (text "SSTable header is incomplete")
  | some (magic, version, entryCount, offset) =>
    if magic ≠ sstableMagic then .error (text "Invalid SSTable magic")
    else if version ≠ sstableVersion then .error (text "Unsupported SSTable version")
    else if contents.length < offset + 4 then .error (text "SSTable checksum is missing")
    else
      let checksumOffset := contents.length - 4
      match readUint32 contents checksumOffset with
      | none => .error (text "Failed to read SSTable checksum")
      | some (storedChecksum, _) =>
        let payload := (contents.drop offset).take (checksumOffset - offset)
        if storedChecksum ≠ (Crc32.calculateCrc32 payload).toNat then
          .error (text "SSTable checksum mismatch")
        else
          match deserializeEntries payload entryCount 0 ∅ with
          | none => .error (text "Invalid SSTable entry data")
          | some data => .ok data

/-- `std::sort` by key; keys are distinct, so the result does not depend on the order of
the map's iteration. -/
def sortEntries (data : Entries) : List Entry :=
  data.entries.insertionSort (fun a b => a.1 ≤ b.1)

/-- The bytes `SSTable::write` puts into the file. -/
def tableContents (data : Entries) : Bytes :=
  let entries := sortEntries data
  let payload := serializeEntries entries
  let contents := appendUint32 [] sstableMagic
  let contents := appendUint32 contents sstableVersion
  let contents := appendUint64 contents entries.length
  appendUint32 (contents ++ payload) (Crc32.calculateCrc32 payload).toNat

def metadataOf (id : ℕ) (filename : Bytes) (data : Entries) : SSTableMetadata where
  id := id
  filename := filename
  smallestKey := ((sortEntries data).head?.map Sigma.fst).getD []
  largestKey := ((sortEntries data).getLast?.map Sigma.fst).getD []
  entryCount := (sortEntries data).length

def write (filename : Bytes) (id : ℕ) (data : Entries) : Io (Except Bytes SSTableMetadata) := do
  let created ← openTruncated filename
  if !created then
    return .error (text "Failed to create SSTable: " ++ filename)
  let written ← Io.write filename (tableContents data)
  if !written then
    return .error (text "Failed to write SSTable")
  return .ok (metadataOf id filename data)

def readFile (filename : Bytes) : Io (Except Bytes Bytes) := do
  let d ← getDisk
  let opened ← consult
  match opened, Disk.contents d filename with
  | true, some contents => do
    let told ← consult
    if !told then
      return .error (text "Failed to determine SSTable size")
    if contents.length = 0 then
      return .ok contents
    let read ← consult
    if !read then
      return .error (text "Failed to read SSTable")
    return .ok contents
  | _, _ => return .error (text "Failed to open SSTable: " ++ filename)

def load (table : SSTableMetadata) : Io (Except Bytes Entries) := do
  match ← readFile table.filename with
  | .error e => return .error e
  | .ok contents => return parseTable contents

def get (table : SSTableMetadata) (key : Bytes) : Io (Except Bytes (Option MemTableEntry)) := do
  if table.entryCount = 0 then
    return .ok none
  if key < table.smallestKey ∨ table.largestKey < key then
    return .ok none
  match ← load table with
  | .error e => return .error e
  | .ok data => return .ok ((data.lookup key).map MemTableEntry.reported)

def encodeEntry (item : Entry) : Bytes :=
  encode 4 (item.1.length % 2 ^ 32) ++ (item.1 ++ ([if item.2.deleted then 1 else 0] ++
    (encode 4 (item.2.value.length % 2 ^ 32) ++ item.2.value)))

/-- Entries whose two sizes fit their fields. -/
def SmallEntry (item : Entry) : Prop := item.1.length < 2 ^ 32 ∧ item.2.value.length < 2 ^ 32

instance (item : Entry) : Decidable (SmallEntry item) := inferInstanceAs (Decidable (_ ∧ _))

theorem serializeEntry_eq (buffer : Bytes) (item : Entry) :
    serializeEntry buffer item = buffer ++ encodeEntry item := by
  simp only [serializeEntry, encodeEntry, appendUint32, appendWord_eq, List.append_assoc]

theorem serializeEntries_eq (entries : List Entry) :
    serializeEntries entries = (entries.map encodeEntry).flatten := by
  have h : ∀ buffer, entries.foldl serializeEntry buffer =
      buffer ++ (entries.map encodeEntry).flatten := by
    induction entries with
    | nil => simp
    | cons item entries ih =>
      intro buffer
      rw [List.foldl_cons, ih, serializeEntry_eq, List.map_cons, List.flatten_cons,
        List.append_assoc]
  exact h []

theorem length_encodeEntry_pos (item : Entry) : 0 < (encodeEntry item).length := by
  simp [encodeEntry]

theorem deserializeEntry_encode {item : Entry} (h : SmallEntry item) (pre rest : Bytes) :
    deserializeEntry (pre ++ (encodeEntry item ++ rest)) pre.length =
      some (item, (pre ++ encodeEntry item).length) := by
  obtain ⟨key, value, deleted⟩ := item
  obtain ⟨hk, hv⟩ := h
  simp only at hk hv
  have henc : encodeEntry ⟨key, value, deleted⟩ = encode 4 key.length ++ (key ++
      ([if deleted then 1 else 0] ++ (encode 4 value.length ++ value))) := by
    simp only [encodeEntry, Nat.mod_eq_of_lt hk, Nat.mod_eq_of_lt hv]
  have hlen : (pre ++ encodeEntry ⟨key, value, deleted⟩).length =
      pre.length + 4 + key.length + 1 + 4 + value.length := by
    simp only [henc, List.length_append, length_encode, List.length_singleton]
    omega
  rw [hlen, henc]
  simp only [List.append_assoc]
  generalize hbuf : pre ++ (encode 4 key.length ++ (key ++ ([if deleted then 1 else 0] ++
    (encode 4 value.length ++ (value ++ rest))))) = buffer
  have hread₁ : readSized (2 ^ 32 - 1) buffer pre.length =
      some (key, pre.length + 4 + key.length) := by
    rw [← hbuf]
    exact readSized_encode pre key _ (by omega) hk
  -- the same buffer cut behind the key and behind the flag
  have hcut : buffer = (pre ++ encode 4 key.length ++ key) ++ ([if deleted then 1 else 0] ++
      (encode 4 value.length ++ (value ++ rest))) := by
    simp only [← hbuf, List.append_assoc]
  have hread₂ : readSized (2 ^ 32 - 1) buffer (pre.length + 4 + key.length + 1) =
      some (value, pre.length + 4 + key.length + 1 + 4 + value.length) := by
    have hcut₂ : buffer = (pre ++ encode 4 key.length ++ key ++ [if deleted then 1 else 0]) ++
        (encode 4 value.length ++ (value ++ rest)) := by
      simp only [hcut, List.append_assoc]
    have hoff : pre.length + 4 + key.length + 1 =
        (pre ++ encode 4 key.length ++ key ++ [if deleted then 1 else 0]).length := by
      simp only [List.length_append, length_encode, List.length_singleton]
    rw [hcut₂, hoff]
    exact readSized_encode _ value rest (by omega) hv
  have hoff : pre.length + 4 + key.length = (pre ++ encode 4 key.length ++ key).length := by
    simp only [List.length_append, length_encode]
  have hin : ¬ pre.length + 4 + key.length ≥ buffer.length := by
    rw [hcut, List.length_append, ← hoff]
    simp
  have hflag : (buffer.getD (pre.length + 4 + key.length) 0 != 0) = deleted := by
    rw [hcut, hoff, List.getD_append_right _ _ _ _ (le_refl _), Nat.sub_self]
    cases deleted <;> rfl
  simp only [deserializeEntry, hread₁, if_neg hin, hread₂, hflag]

/-- Decoding the bytes of some entries with a given count: only their own number works. -/
theorem deserializeEntries_flatten (entries : List Entry) (hsmall : ∀ e ∈ entries, SmallEntry e)
    (count : ℕ) (pre : Bytes) (data : Entries) :
    deserializeEntries (pre ++ (entries.map encodeEntry).flatten) count pre.length data =
      if count = entries.length then some (entries.foldl (fun d e => d.insert e.1 e.2) data)
      else none := by
  induction entries generalizing count pre data with
  | nil =>
    cases count with
    | zero => simp [deserializeEntries]
    | succ count =>
      have hread : readSized (2 ^ 32 - 1) (pre ++ []) pre.length = none := by
        have h4 : readUint32 (pre ++ []) pre.length = none := by
          rw [readUint32, readWord_append]
          rfl
        rw [readSized, h4]
      simp only [List.map_nil, List.flatten_nil, deserializeEntries, deserializeEntry, hread]
      rfl
  | cons item entries ih =>
    cases count with
    | zero =>
      have hpos := length_encodeEntry_pos item
      have hne : pre.length ≠ (pre ++ ((item :: entries).map encodeEntry).flatten).length := by
        simp only [List.map_cons, List.flatten_cons, List.length_append]
        omega
      rw [deserializeEntries, if_neg hne, if_neg (by simp)]
    | succ count =>
      have hstep := deserializeEntry_encode (hsmall item List.mem_cons_self) pre
        (entries.map encodeEntry).flatten
      rw [List.map_cons, List.flatten_cons, deserializeEntries, hstep]
      simp only
      rw [← List.append_assoc, ih (fun e he => hsmall e (List.mem_cons_of_mem _ he))]
      simp

theorem perm_sortEntries (data : Entries) : (sortEntries data).Perm data.entries :=
  List.perm_insertionSort _ _

theorem mem_sortEntries {data : Entries} {e : Entry} : e ∈ sortEntries data ↔ e ∈ data.entries :=
  (perm_sortEntries data).mem_iff

theorem sorted_sortEntries (data : Entries) :
    (sortEntries data).Pairwise (fun a b => a.1 ≤ b.1) :=
  haveI : Std.Total (fun a b : Entry => a.1 ≤ b.1) := ⟨fun a b => le_total a.1 b.1⟩
  haveI : IsTrans Entry (fun a b : Entry => a.1 ≤ b.1) := ⟨fun _ _ _ => le_trans⟩
  List.pairwise_insertionSort _ _

/-- The map a reader gets back from a table file. -/
def loadedEntries (data : Entries) : Entries :=
  (sortEntries data).foldl (fun d e => d.insert e.1 e.2) ∅

@[simp] theorem lookup_loadedEntries (data : Entries) (key : Bytes) :
    (loadedEntries data).lookup key = data.lookup key := by
  have hnodup : (sortEntries data).NodupKeys :=
    (List.perm_nodupKeys (perm_sortEntries data)).mpr data.nodupKeys
  have hsorted : loadedEntries data = overwrite ∅ ⟨sortEntries data, hnodup⟩ := rfl
  rw [hsorted, lookup_overwrite]
  have hsame : AList.lookup key (⟨sortEntries data, hnodup⟩ : Entries) = data.lookup key :=
    List.perm_dlookup key hnodup (perm_sortEntries data)
  rw [hsame]
  cases data.lookup key <;> rfl

/-- Data that a table file can represent. -/
structure Storable (data : Entries) : Prop where
  small : ∀ e ∈ data.entries, SmallEntry e
  count_lt : data.entries.length < 2 ^ 64

theorem length_sortEntries (data : Entries) : (sortEntries data).length = data.entries.length :=
  (perm_sortEntries data).length_eq

def tablePayload (data : Entries) : Bytes := serializeEntries (sortEntries data)

theorem tableContents_eq (data : Entries) :
    tableContents data = encode 4 sstableMagic ++ (encode 4 sstableVersion ++
      (encode 8 data.entries.length ++ (tablePayload data ++
        encode 4 (Crc32.calculateCrc32 (tablePayload data)).toNat))) := by
  simp only [tableContents, tablePayload, appendUint32, appendUint64, appendWord_eq,
    length_sortEntries, List.nil_append, List.append_assoc]

theorem readHeader_within {contents : Bytes} {magic version entryCount offset : ℕ}
    (h : readHeader contents = some (magic, version, entryCount, offset)) :
    offset = 16 ∧ 16 ≤ contents.length := by
  rw [readHeader] at h
  cases hmagic : readUint32 contents 0 with
  | none => simp [hmagic] at h
  | some p =>
    obtain ⟨m, o₁⟩ := p
    obtain ⟨rfl, -⟩ := readWord_within hmagic
    cases hversion : readUint32 contents (0 + 4) with
    | none => simp [hmagic, hversion] at h
    | some p =>
      obtain ⟨v, o₂⟩ := p
      obtain ⟨rfl, -⟩ := readWord_within hversion
      cases hcount : readUint64 contents (0 + 4 + 4) with
      | none => simp [hmagic, hversion, hcount] at h
      | some p =>
        obtain ⟨n, o₃⟩ := p
        obtain ⟨rfl, hle⟩ := readWord_within hcount
        simp only [hmagic, hversion, hcount, Option.some.injEq, Prod.mk.injEq] at h
        omega

theorem readHeader_short {contents : Bytes} (hshort : contents.length < 16) :
    readHeader contents = none := by
  cases h : readHeader contents with
  | none => rfl
  | some p =>
    have hlong := (readHeader_within h).2
    omega

theorem readHeader_append {magic version count : Bytes} (hm : magic.length = 4)
    (hv : version.length = 4) (hn : count.length = 8) (rest : Bytes) :
    readHeader (magic ++ (version ++ (count ++ rest))) =
      some (value magic, value version, value count, 16) := by
  have h₁ : readUint32 (magic ++ (version ++ (count ++ rest))) 0 = some (value magic, 4) := by
    have h := readWord_append 4 [] (magic ++ (version ++ (count ++ rest)))
    rw [if_pos (by simp [hm]), List.take_left' hm] at h
    exact h
  have h₂ : readUint32 (magic ++ (version ++ (count ++ rest))) 4 = some (value version, 8) := by
    have h := readWord_append 4 magic (version ++ (count ++ rest))
    rw [if_pos (by simp [hv]), List.take_left' hv, hm] at h
    exact h
  have h₃ : readUint64 (magic ++ (version ++ (count ++ rest))) 8 = some (value count, 16) := by
    have h := readWord_append 8 (magic ++ version) (count ++ rest)
    rw [if_pos (by simp [hn]), List.take_left' hn, List.length_append, hm, hv,
      List.append_assoc] at h
    exact h
  simp only [readHeader, h₁, h₂, h₃]

theorem parseTable_parts {magic version count payload stored : Bytes} (hm : magic.length = 4)
    (hv : version.length = 4) (hn : count.length = 8) (hs : stored.length = 4) :
    parseTable (magic ++ (version ++ (count ++ (payload ++ stored)))) =
      if value magic ≠ sstableMagic then .error (text "Invalid SSTable magic")
      else if value version ≠ sstableVersion then .error (text "Unsupported SSTable version")
      else if value stored ≠ (Crc32.calculateCrc32 payload).toNat then
        .error (text "SSTable checksum mismatch")
      else match deserializeEntries payload (value count) 0 ∅ with
        | none => .error (text "Invalid SSTable entry data")
        | some data => .ok data := by
  have hlen : (magic ++ (version ++ (count ++ (payload ++ stored)))).length =
      16 + payload.length + 4 := by
    simp only [List.length_append, hm, hv, hn, hs]
    omega
  have hlong : ¬ (magic ++ (version ++ (count ++ (payload ++ stored)))).length < 16 + 4 := by omega
  have hend : (magic ++ (version ++ (count ++ (payload ++ stored)))).length - 4 =
      16 + payload.length := by omega
  have hstored : readUint32 (magic ++ (version ++ (count ++ (payload ++ stored))))
      (16 + payload.length) = some (value stored, 16 + payload.length + 4) := by
    have h := readWord_append 4 (magic ++ version ++ count ++ payload) stored
    have hpre : (magic ++ version ++ count ++ payload).length = 16 + payload.length := by
      simp only [List.length_append, hm, hv, hn]
    rw [if_pos (by omega), List.take_of_length_le (by omega), hpre] at h
    simp only [List.append_assoc] at h
    exact h
  have hpay : ((magic ++ (version ++ (count ++ (payload ++ stored)))).drop 16).take
      (16 + payload.length - 16) = payload := by
    have hcut : magic ++ (version ++ (count ++ (payload ++ stored))) =
        (magic ++ version ++ count) ++ (payload ++ stored) := by simp only [List.append_assoc]
    rw [hcut, List.drop_left' (by simp only [List.length_append, hm, hv, hn]),
      Nat.add_sub_cancel_left, List.take_left]
  simp only [parseTable, readHeader_append hm hv hn, if_neg hlong, hend, hstored, hpay]

/-- The decoder accepts a written payload with the number of its entries and no other. -/
theorem deserializeEntries_tablePayload {data : Entries} (h : ∀ e ∈ data.entries, SmallEntry e)
    (count : ℕ) :
    deserializeEntries (tablePayload data) count 0 ∅ =
      if count = data.entries.length then some (loadedEntries data) else none := by
  have hflat := deserializeEntries_flatten (sortEntries data)
    (fun e he => h e (mem_sortEntries.mp he)) count [] ∅
  rw [length_sortEntries, ← serializeEntries_eq] at hflat
  exact hflat

theorem parseTable_tableContents {data : Entries} (h : Storable data) :
    parseTable (tableContents data) = .ok (loadedEntries data) := by
  have hcount : value (encode 8 data.entries.length) = data.entries.length :=
    value_encode_of_lt (by simpa using h.count_lt)
  rw [tableContents_eq, parseTable_parts (length_encode 4 _) (length_encode 4 _)
    (length_encode 8 _) (length_encode 4 _), if_neg (by decide), if_neg (by decide),
    value_encode_of_lt (Crc32.toNat_calculateCrc32_lt _), if_neg (by simp), hcount,
    deserializeEntries_tablePayload h.small, if_pos rfl]

section Operations

variable {d : Disk} {filename key : Bytes} {id : ℕ} {data : Entries} {table : SSTableMetadata}

/-- What reading a table file gives when every step succeeds. -/
def loadResult (d : Disk) (filename : Bytes) : Except Bytes Entries :=
  match Disk.contents d filename with
  | none => .error (text "Failed to open SSTable: " ++ filename)
  | some contents => parseTable contents

theorem load_eq (d : Disk) (table : SSTableMetadata) :
    Succeeds (load table) d (loadResult d table.filename) d := by
  rw [loadResult]
  cases h : Disk.contents d table.filename with
  | none => simp [Succeeds, load, readFile, h]
  | some contents =>
    by_cases hempty : contents = []
    · simp [Succeeds, load, readFile, h, hempty]
    · simp [Succeeds, load, readFile, h, hempty]

theorem loadResult_of_lookup {contents : Bytes} (h : d.lookup filename = some (.regular contents)) :
    loadResult d filename = parseTable contents := by
  simp [loadResult, Disk.contents_of_lookup h]

theorem lookup_of_loadResult (h : loadResult d filename = .ok data) :
    ∃ contents, d.lookup filename = some (.regular contents) ∧ parseTable contents = .ok data := by
  rw [loadResult] at h
  cases hc : Disk.contents d filename with
  | none => simp [hc] at h
  | some contents =>
    rw [hc] at h
    exact ⟨contents, Disk.lookup_of_contents hc, h⟩

theorem load_succeeds (hm : Storable data)
    (h : d.lookup table.filename = some (.regular (tableContents data))) :
    Succeeds (load table) d (.ok (loadedEntries data)) d := by
  have hload := load_eq d table
  rwa [loadResult_of_lookup h, parseTable_tableContents hm] at hload

/-- Reading changes no file and never returns anything but the file's bytes. -/
theorem readFile_reads (d : Disk) (filename : Bytes) :
    Ensures (readFile filename) d
      (fun r d' => d' = d ∧ ∀ contents, r = .ok contents → Disk.contents d filename = some contents)
      (fun d' => d' = d) := by
  rw [readFile]
  refine .seq (fun x d' => x = d ∧ d' = d) (.getDisk ⟨rfl, rfl⟩) ?_
  intro x d' hx
  obtain ⟨rfl, rfl⟩ := hx
  refine .seq (fun _ d₁ => d₁ = d') (.consult (fun _ => rfl) rfl) ?_
  intro opened d₁ hd₁
  subst hd₁
  cases opened with
  | false => exact .pure ⟨rfl, by simp⟩
  | true =>
    cases hfile : Disk.contents d₁ filename with
    | none => exact .pure ⟨rfl, by simp⟩
    | some contents =>
      refine .seq (fun _ d₂ => d₂ = d₁) (.consult (fun _ => rfl) rfl) ?_
      intro told d₂ hd₂
      subst hd₂
      cases told with
      | false => exact .pure ⟨rfl, by simp⟩
      | true =>
        simp only [Bool.not_true, Bool.false_eq_true, if_false]
        split
        · exact .pure ⟨rfl, fun c hc => by rw [Except.ok.inj hc]⟩
        · refine .seq (fun _ d₃ => d₃ = d₂) (.consult (fun _ => rfl) rfl) ?_
          intro read d₃ hd₃
          subst hd₃
          cases read with
          | false => exact .pure ⟨rfl, by simp⟩
          | true => exact .pure ⟨rfl, fun c hc => by rw [Except.ok.inj hc]⟩

theorem load_reads (d : Disk) (table : SSTableMetadata) :
    Ensures (load table) d
      (fun r d' => d' = d ∧ ∀ data, r = .ok data → loadResult d table.filename = .ok data)
      (fun d' => d' = d) := by
  rw [load]
  refine (readFile_reads d table.filename).bind ?_
  rintro r d' ⟨rfl, hread⟩
  cases r with
  | error e => exact .pure ⟨rfl, by simp⟩
  | ok contents =>
    refine .pure ⟨rfl, fun data hdata => ?_⟩
    rw [loadResult, hread contents rfl, ← hdata]

theorem load_ensures (hm : Storable data)
    (h : d.lookup table.filename = some (.regular (tableContents data))) :
    Ensures (load table) d
      (fun r d' => (r = .ok (loadedEntries data) ∨ ∃ e, r = .error e) ∧ d' = d)
      (fun d' => d' = d) := by
  refine (load_reads d table).mono ?_ (fun _ hd' => hd')
  rintro r d' ⟨rfl, hread⟩
  refine ⟨?_, rfl⟩
  cases r with
  | error e => exact Or.inr ⟨e, rfl⟩
  | ok found =>
    have hfound := hread found rfl
    rw [loadResult_of_lookup h, parseTable_tableContents hm] at hfound
    exact Or.inl hfound.symm

theorem get_reads (d : Disk) (table : SSTableMetadata) (key : Bytes) :
    Ensures (get table key) d (fun _ d' => d' = d) (fun d' => d' = d) := by
  rw [get]
  split
  · exact .pure rfl
  split
  · exact .pure rfl
  refine ((load_reads d table).mono (fun _ _ h => h.1) (fun _ h => h)).bind ?_
  rintro r d' rfl
  cases r with
  | error e => exact .pure rfl
  | ok data => exact .pure rfl

theorem range_of_lookup (id : ℕ) (filename : Bytes) {e : MemTableEntry}
    (h : data.lookup key = some e) :
    (metadataOf id filename data).entryCount ≠ 0 ∧
      (metadataOf id filename data).smallestKey ≤ key ∧
      key ≤ (metadataOf id filename data).largestKey := by
  have hmem : (⟨key, e⟩ : Entry) ∈ sortEntries data :=
    mem_sortEntries.mpr (AList.mem_lookup_iff.mp h)
  have hsorted := sorted_sortEntries data
  rw [metadataOf]
  generalize sortEntries data = entries at hmem hsorted
  refine ⟨?_, ?_, ?_⟩
  · exact (List.length_pos_of_mem hmem).ne'
  · cases entries with
    | nil => cases hmem
    | cons first rest =>
      rcases List.mem_cons.mp hmem with rfl | hrest
      · exact le_refl _
      · exact List.rel_of_pairwise_cons hsorted hrest
  · rcases List.eq_nil_or_concat entries with rfl | ⟨front, last, rfl⟩
    · cases hmem
    · simp only [List.concat_eq_append, List.getLast?_append, List.getLast?_singleton,
        Option.some_or, Option.map_some, Option.getD_some] at hmem hsorted ⊢
      rcases List.mem_append.mp hmem with hfront | hlast
      · exact (List.pairwise_append.mp hsorted).2.2 _ hfront _ (List.mem_singleton_self _)
      · cases List.mem_singleton.mp hlast
        exact le_refl _

/-- The bounds of a table that is not empty are two of its keys. -/
theorem exists_range (id : ℕ) (filename : Bytes) (hne : data.entries ≠ []) :
    (∃ e ∈ data.entries, (metadataOf id filename data).smallestKey = e.1) ∧
      ∃ e ∈ data.entries, (metadataOf id filename data).largestKey = e.1 := by
  have hsorted : sortEntries data ≠ [] := by
    intro h
    have hlen := length_sortEntries data
    rw [h, List.length_nil] at hlen
    exact hne (List.length_eq_zero_iff.mp hlen.symm)
  constructor
  · refine ⟨(sortEntries data).head hsorted, mem_sortEntries.mp (List.head_mem hsorted), ?_⟩
    simp only [metadataOf, List.head?_eq_some_head hsorted, Option.map_some, Option.getD_some]
  · refine ⟨(sortEntries data).getLast hsorted, mem_sortEntries.mp (List.getLast_mem hsorted), ?_⟩
    simp only [metadataOf, List.getLast?_eq_some_getLast hsorted, Option.map_some,
      Option.getD_some]

/-- One table answers exactly from the map it was written from. -/
theorem get_succeeds (id : ℕ) (hm : Storable data)
    (h : d.lookup filename = some (.regular (tableContents data))) (key : Bytes) :
    Succeeds (get (metadataOf id filename data) key) d
      (.ok ((data.lookup key).map MemTableEntry.reported)) d := by
  have hload : Succeeds (load (metadataOf id filename data)) d (.ok (loadedEntries data)) d :=
    load_succeeds hm h
  rw [Succeeds] at hload ⊢
  rw [get]
  cases hk : data.lookup key with
  | none =>
    split_ifs
    · rfl
    · rfl
    · simp [hload, hk]
  | some e =>
    obtain ⟨hcount, hsmall, hlarge⟩ := range_of_lookup id filename hk
    rw [if_neg hcount, if_neg (by simp [not_lt.mpr hsmall, not_lt.mpr hlarge])]
    simp [hload, hk]

theorem write_succeeds (d : Disk) (filename : Bytes) (id : ℕ) (data : Entries) :
    ∃ d', Succeeds (write filename id data) d (.ok (metadataOf id filename data)) d' ∧
      d'.lookup filename = some (.regular (tableContents data)) ∧
      Disk.SameExcept [filename] d d' := by
  refine ⟨Disk.append filename (tableContents data) (Disk.put filename [] d), ?_, ?_, ?_⟩
  · simp [Succeeds, write, openTruncated, Io.write]
  · rw [Disk.lookup_append _ Disk.lookup_put, List.nil_append]
  · exact (Disk.SameExcept.refl.put (by simp)).append _ (by simp)

/-- A write that does not complete touches nothing but its own file. -/
theorem write_ensures (d : Disk) (filename : Bytes) (id : ℕ) (data : Entries) :
    Ensures (write filename id data) d
      (fun r d' => Disk.SameExcept [filename] d d' ∧
        ((∃ e, r = .error e) ∨ (r = .ok (metadataOf id filename data) ∧
          d'.lookup filename = some (.regular (tableContents data)))))
      (fun d' => Disk.SameExcept [filename] d d') := by
  rw [write]
  refine .seq (fun created d' => Disk.SameExcept [filename] d d' ∧
    (created = true → d'.lookup filename = some (.regular []))) ?_ ?_
  · exact .attempt ⟨Disk.SameExcept.refl.put (by simp), fun _ => Disk.lookup_put⟩
      (fun _ => ⟨.refl, by simp⟩) (fun _ => .refl)
  · intro created d₁ h₁
    obtain ⟨hsame, hfile⟩ := h₁
    cases created with
    | false => exact .pure ⟨hsame, Or.inl ⟨_, rfl⟩⟩
    | true =>
      refine .seq (fun written d' => Disk.SameExcept [filename] d d' ∧
        (written = true → d'.lookup filename = some (.regular (tableContents data)))) ?_ ?_
      · refine .attempt ⟨hsame.append _ (by simp), fun _ => ?_⟩
          (fun _ => ⟨hsame.append _ (by simp), by simp⟩) (fun _ => hsame.append _ (by simp))
        simpa using Disk.lookup_append (tableContents data) (hfile rfl)
      · intro written d₂ h₂
        obtain ⟨hsame₂, hfile₂⟩ := h₂
        cases written with
        | false => exact .pure ⟨hsame₂, Or.inl ⟨_, rfl⟩⟩
        | true => exact .pure ⟨hsame₂, Or.inr ⟨rfl, hfile₂ rfl⟩⟩

/-- Whether a call of `SSTable::write` gets as far as creating its file. -/
def creations (filename : Bytes) (w : World) : ℕ :=
  match openTruncated filename w with
  | .returned true _ => 1
  | _ => 0

/-- A write that returns has not touched the disk, or has created its file and filled part
of it. -/
theorem write_returned {filename : Bytes} {id : ℕ} {data : Entries} {w w' : World}
    {r : Except Bytes SSTableMetadata} (h : write filename id data w = .returned r w') :
    (creations filename w = 0 ∧ w'.disk = w.disk ∧ ∃ e, r = .error e) ∨
      (creations filename w = 1 ∧ (r = .ok (metadataOf id filename data) ∨ ∃ e, r = .error e) ∧
        Disk.SameExcept [filename] w.disk w'.disk ∧
        ∃ part, part <+: tableContents data ∧ w'.disk.lookup filename = some (.regular part)) := by
  have hfill : ∀ {d : Disk}, d.lookup filename = some (.regular []) →
      Ensures (Io.write filename (tableContents data)) d (fun _ d' => Disk.SameExcept [filename] d d' ∧
        ∃ part, part <+: tableContents data ∧ d'.lookup filename = some (.regular part))
        (fun _ => True) := by
    intro d hd
    refine .attempt ⟨Disk.SameExcept.refl.append _ (by simp), _, List.prefix_rfl, ?_⟩
      (fun n => ⟨Disk.SameExcept.refl.append _ (by simp), _, List.take_prefix n _, ?_⟩)
      (fun _ => trivial)
    · simpa using Disk.lookup_append (tableContents data) hd
    · simpa using Disk.lookup_append ((tableContents data).take n) hd
  obtain ⟨created, w₁, hopen, h⟩ := bind_returned h
  have hdisk : Ensures (openTruncated filename) w.disk (fun created d' =>
      d' = if created then Disk.put filename [] w.disk else w.disk) (fun _ => True) :=
    .attempt rfl (fun _ => rfl) (fun _ => trivial)
  have hdisk₁ := hdisk.of_run hopen
  cases created with
  | false =>
    cases h
    exact Or.inl ⟨by rw [creations, hopen], hdisk₁, _, rfl⟩
  | true =>
    have hempty : w₁.disk.lookup filename = some (.regular []) := by
      rw [hdisk₁]
      exact Disk.lookup_put
    have hsame₁ : Disk.SameExcept [filename] w.disk w₁.disk := by
      rw [hdisk₁]
      exact Disk.SameExcept.refl.put (by simp)
    obtain ⟨written, w₂, hwrite, h⟩ := bind_returned h
    obtain ⟨hsame₂, hpart⟩ := (hfill hempty).of_run hwrite
    refine Or.inr ⟨by rw [creations, hopen], ?_⟩
    cases written with
    | false =>
      cases h
      exact ⟨Or.inr ⟨_, rfl⟩, hsame₁.trans hsame₂, hpart⟩
    | true =>
      cases h
      exact ⟨Or.inl rfl, hsame₁.trans hsame₂, hpart⟩

end Operations

end ForgeDB.SSTables
