import ForgeDB.SSTables
import Mathlib.Order.Bounds.Basic

/-!
# Whole and torn table files

A table file is determined by the map alone, whatever order the map is iterated in, and
reading it gives the map back. A file cut short is refused because its entry count is
in front: decoding that many entries needs all bytes of the payload, so the checksum of
the shortened content does not matter.
-/

namespace ForgeDB.TableFiles
open CrashPrograms CrashPrograms.Io LayeredMaps LittleEndian Serialization SSTables

theorem sortEntries_increasing (data : Entries) :
    (sortEntries data).Pairwise (fun a b => a.1 < b.1) := by
  have hnodup : (sortEntries data).NodupKeys :=
    (List.perm_nodupKeys (perm_sortEntries data)).mpr data.nodupKeys
  have hdistinct : (sortEntries data).Pairwise (fun a b => a.1 ≠ b.1) :=
    List.nodupKeys_iff_pairwise.mp hnodup
  refine ((sorted_sortEntries data).and hdistinct).imp ?_
  rintro a b ⟨hle, hne⟩
  exact lt_of_le_of_ne hle hne

theorem sortEntries_congr {data data' : Entries} (h : data'.entries.Perm data.entries) :
    sortEntries data' = sortEntries data := by
  have hperm : (sortEntries data').Perm (sortEntries data) :=
    (perm_sortEntries data').trans (h.trans (perm_sortEntries data).symm)
  refine hperm.eq_of_pairwise ?_ (sortEntries_increasing data') (sortEntries_increasing data)
  intro a b _ _ hab hba
  exact absurd hab (lt_asymm hba)

theorem tableContents_congr {data data' : Entries} (h : data'.entries.Perm data.entries) :
    tableContents data' = tableContents data := by
  rw [tableContents, tableContents, sortEntries_congr h]

theorem metadataOf_congr (id : ℕ) (filename : Bytes) {data data' : Entries}
    (h : data'.entries.Perm data.entries) :
    metadataOf id filename data' = metadataOf id filename data := by
  rw [metadataOf, metadataOf, sortEntries_congr h]

theorem isLeast_smallestKey (id : ℕ) (filename : Bytes) {data : Entries} (hne : data.entries ≠ []) :
    IsLeast {key | key ∈ data} (metadataOf id filename data).smallestKey := by
  obtain ⟨⟨e, he, hkey⟩, -⟩ := exists_range id filename hne
  constructor
  · rw [hkey]
    exact AList.mem_keys.mpr (List.mem_map_of_mem he)
  · intro key hkey
    obtain ⟨entry, hentry⟩ := Option.isSome_iff_exists.mp (AList.lookup_isSome.mpr hkey)
    exact (range_of_lookup id filename hentry).2.1

theorem isGreatest_largestKey (id : ℕ) (filename : Bytes) {data : Entries}
    (hne : data.entries ≠ []) :
    IsGreatest {key | key ∈ data} (metadataOf id filename data).largestKey := by
  obtain ⟨-, e, he, hkey⟩ := exists_range id filename hne
  constructor
  · rw [hkey]
    exact AList.mem_keys.mpr (List.mem_map_of_mem he)
  · intro key hkey
    obtain ⟨entry, hentry⟩ := Option.isSome_iff_exists.mp (AList.lookup_isSome.mpr hkey)
    exact (range_of_lookup id filename hentry).2.2

/-- Entries whose tombstones carry no value are reported as they are stored. -/
theorem lookup_reported {data : Entries}
    (htomb : ∀ e ∈ data.entries, e.2.deleted = true → e.2.value = []) (key : Bytes) :
    (data.lookup key).map MemTableEntry.reported = data.lookup key := by
  cases h : data.lookup key with
  | none => rfl
  | some entry =>
    have hvalue := htomb ⟨key, entry⟩ (AList.mem_lookup_iff.mp h)
    obtain ⟨value, deleted⟩ := entry
    cases deleted with
    | false => rfl
    | true =>
      have hempty : value = [] := hvalue rfl
      subst hempty
      rfl

/-- Writing a map in any iteration order leaves the same file and metadata, and that file
gives the map back, as a whole and key by key. -/
theorem write_load_get (d : Disk) (filename : Bytes) (id : ℕ) (data : Entries)
    (hsmall : ∀ e ∈ data.entries, e.1.length < 2 ^ 32 ∧ e.2.value.length < 2 ^ 32)
    (hcount : data.entries.length < 2 ^ 64)
    (htomb : ∀ e ∈ data.entries, e.2.deleted = true → e.2.value = []) :
    ∃ contents table,
      (∀ data' : Entries, data'.entries.Perm data.entries →
        ∃ d', Succeeds (write filename id data') d (.ok table) d' ∧
          d'.lookup filename = some (.regular contents)) ∧
      (∃ entries : List Entry, entries.Perm data.entries ∧
        entries.Pairwise (fun a b => a.1 < b.1) ∧
        contents = encode 4 sstableMagic ++ encode 4 sstableVersion ++ encode 8 entries.length ++
          (entries.map encodeEntry).flatten ++
          encode 4 (Crc32.calculateCrc32 (entries.map encodeEntry).flatten).toNat) ∧
      table.entryCount = data.entries.length ∧
      (data.entries ≠ [] → IsLeast {key | key ∈ data} table.smallestKey ∧
        IsGreatest {key | key ∈ data} table.largestKey) ∧
      ∀ d' : Disk, d'.lookup filename = some (.regular contents) →
        (∃ loaded : Entries, Succeeds (load table) d' (.ok loaded) d' ∧
          ∀ key, loaded.lookup key = data.lookup key) ∧
        ∀ key, Succeeds (get table key) d' (.ok (data.lookup key)) d' := by
  refine ⟨tableContents data, metadataOf id filename data, ?_, ?_, ?_, ?_, ?_⟩
  · intro data' hperm
    obtain ⟨d', hwrite, hfile, -⟩ := write_succeeds d filename id data'
    rw [tableContents_congr hperm] at hfile
    rw [metadataOf_congr id filename hperm] at hwrite
    exact ⟨d', hwrite, hfile⟩
  · refine ⟨sortEntries data, perm_sortEntries data, sortEntries_increasing data, ?_⟩
    rw [tableContents_eq, tablePayload, serializeEntries_eq, length_sortEntries]
    simp only [List.append_assoc]
  · exact length_sortEntries data
  · intro hne
    exact ⟨isLeast_smallestKey id filename hne, isGreatest_largestKey id filename hne⟩
  · intro d' hfile
    constructor
    · exact ⟨loadedEntries data, load_succeeds ⟨hsmall, hcount⟩ hfile, lookup_loadedEntries data⟩
    · intro key
      have hget := get_succeeds id ⟨hsmall, hcount⟩ hfile key
      rwa [lookup_reported htomb] at hget

def threeEntries : Entries :=
  ((AList.singleton (text "b") ⟨text "1", false⟩).insert (text "a") ⟨[], true⟩).insert [] ⟨[0], false⟩

theorem write_load_get_threeEntries :
    ∃ contents table,
      (∀ data' : Entries, data'.entries.Perm threeEntries.entries →
        ∃ d', Succeeds (write (text "table_1.sst") 1 data') ∅ (.ok table) d' ∧
          d'.lookup (text "table_1.sst") = some (.regular contents)) ∧
      (∃ entries : List Entry, entries.Perm threeEntries.entries ∧
        entries.Pairwise (fun a b => a.1 < b.1) ∧
        contents = encode 4 sstableMagic ++ encode 4 sstableVersion ++ encode 8 entries.length ++
          (entries.map encodeEntry).flatten ++
          encode 4 (Crc32.calculateCrc32 (entries.map encodeEntry).flatten).toNat) ∧
      table.entryCount = threeEntries.entries.length ∧
      (threeEntries.entries ≠ [] → IsLeast {key | key ∈ threeEntries} table.smallestKey ∧
        IsGreatest {key | key ∈ threeEntries} table.largestKey) ∧
      ∀ d' : Disk, d'.lookup (text "table_1.sst") = some (.regular contents) →
        (∃ loaded : Entries, Succeeds (load table) d' (.ok loaded) d' ∧
          ∀ key, loaded.lookup key = threeEntries.lookup key) ∧
        ∀ key, Succeeds (get table key) d' (.ok (threeEntries.lookup key)) d' :=
  write_load_get ∅ (text "table_1.sst") 1 threeEntries (by decide) (by decide) (by decide)

/-- What the decoder reads at an offset is the encoding of the entry it returns, up to the
flag byte, which may be any byte. -/
theorem deserializeEntry_eq_some {pre rest : Bytes} {item : Entry} {offset : ℕ}
    (h : deserializeEntry (pre ++ rest) pre.length = some (item, offset)) :
    SmallEntry item ∧ ∃ flag tail, rest = encode 4 item.1.length ++ (item.1 ++ ([flag] ++
      (encode 4 item.2.value.length ++ (item.2.value ++ tail)))) := by
  rw [deserializeEntry] at h
  cases hread : readSized (2 ^ 32 - 1) (pre ++ rest) pre.length with
  | none => simp only [hread, reduceCtorEq] at h
  | some p =>
    obtain ⟨key, next⟩ := p
    obtain ⟨-, hklt, rfl, tail, rfl⟩ := readSized_eq_some hread
    simp only [hread] at h
    split at h
    · cases h
    · next hin =>
      cases tail with
      | nil =>
        simp only [List.append_nil, List.length_append, length_encode] at hin
        omega
      | cons flag tail =>
        -- the same buffer cut behind the flag
        have hcut : pre ++ (encode 4 key.length ++ (key ++ flag :: tail)) =
            (pre ++ encode 4 key.length ++ key ++ [flag]) ++ tail := by simp
        have hoff : pre.length + 4 + key.length + 1 =
            (pre ++ encode 4 key.length ++ key ++ [flag]).length := by
          simp only [List.length_append, length_encode, List.length_singleton]
        cases hread₂ : readSized (2 ^ 32 - 1) (pre ++ (encode 4 key.length ++ (key ++ flag :: tail)))
            (pre.length + 4 + key.length + 1) with
        | none => simp only [hread₂, reduceCtorEq] at h
        | some q =>
          obtain ⟨value, last⟩ := q
          simp only [hread₂, Option.some.injEq, Prod.mk.injEq] at h
          rw [hcut, hoff] at hread₂
          obtain ⟨-, hvlt, -, tail', rfl⟩ := readSized_eq_some hread₂
          obtain ⟨rfl, -⟩ := h
          exact ⟨⟨hklt, hvlt⟩, flag, tail', rfl⟩

theorem deserializeEntry_torn {item : Entry} (hsmall : SmallEntry item) (pre : Bytes) {torn : Bytes}
    (hpre : torn <+: encodeEntry item) (hlt : torn.length < (encodeEntry item).length) :
    deserializeEntry (pre ++ torn) pre.length = none := by
  cases h : deserializeEntry (pre ++ torn) pre.length with
  | none => rfl
  | some p =>
    obtain ⟨item', offset⟩ := p
    obtain ⟨⟨hk, hv⟩, flag, tail, rfl⟩ := deserializeEntry_eq_some h
    obtain ⟨more, hmore⟩ := hpre
    have henc : encodeEntry item = encode 4 item.1.length ++ (item.1 ++
        ([if item.2.deleted then 1 else 0] ++ (encode 4 item.2.value.length ++ item.2.value))) := by
      rw [encodeEntry, Nat.mod_eq_of_lt hsmall.1, Nat.mod_eq_of_lt hsmall.2]
    have hpow : (2 : ℕ) ^ 32 = 256 ^ 4 := by norm_num
    rw [henc] at hmore hlt
    simp only [List.append_assoc] at hmore
    -- both size fields agree, so the piece is as long as the entry
    obtain ⟨hkey, hmore⟩ := encode_append_inj (hpow ▸ hk) (hpow ▸ hsmall.1) hmore
    obtain ⟨-, hmore⟩ := List.append_inj hmore hkey
    obtain ⟨-, hmore⟩ := List.append_inj hmore rfl
    obtain ⟨hvalue, -⟩ := encode_append_inj (hpow ▸ hv) (hpow ▸ hsmall.2) hmore
    simp only [List.length_append, length_encode, List.length_singleton, hkey, hvalue] at hlt
    omega

/-- Decoding as many entries as were written fails on every proper prefix of their bytes. -/
theorem deserializeEntries_torn (entries : List Entry) (hsmall : ∀ e ∈ entries, SmallEntry e)
    (pre : Bytes) {torn : Bytes} (hpre : torn <+: (entries.map encodeEntry).flatten)
    (hlt : torn.length < (entries.map encodeEntry).flatten.length) (data : Entries) :
    deserializeEntries (pre ++ torn) entries.length pre.length data = none := by
  induction entries generalizing pre torn data with
  | nil => simp at hlt
  | cons item entries ih =>
    have hitem := hsmall item List.mem_cons_self
    rw [List.map_cons, List.flatten_cons] at hpre hlt
    rw [List.length_cons, deserializeEntries]
    by_cases hlen : (encodeEntry item).length ≤ torn.length
    · obtain ⟨rest, rfl⟩ := List.prefix_of_prefix_length_le (List.prefix_append _ _) hpre hlen
      have hrest : rest <+: (entries.map encodeEntry).flatten :=
        (List.prefix_append_right_inj _).mp hpre
      rw [List.length_append, List.length_append] at hlt
      simp only [deserializeEntry_encode hitem]
      rw [← List.append_assoc]
      exact ih (fun e he => hsmall e (List.mem_cons_of_mem _ he)) _ hrest (by omega) _
    · have hshort : torn <+: encodeEntry item :=
        List.prefix_of_prefix_length_le hpre (List.prefix_append _ _) (by omega)
      rw [deserializeEntry_torn hitem pre hshort (by omega)]

/-- Decoding any number of entries from a prefix of their bytes yields entries of the list. -/
theorem deserializeEntries_prefix {p : Entry → Prop} (entries : List Entry)
    (hsmall : ∀ e ∈ entries, SmallEntry e) (hp : ∀ e ∈ entries, p e) (count : ℕ) (pre : Bytes)
    {part : Bytes} (hpart : part <+: (entries.map encodeEntry).flatten) {data found : Entries}
    (hdata : ∀ e ∈ data.entries, p e)
    (h : deserializeEntries (pre ++ part) count pre.length data = some found) :
    ∀ e ∈ found.entries, p e := by
  induction entries generalizing count pre part data with
  | nil =>
    rw [List.map_nil, List.flatten_nil, List.prefix_nil] at hpart
    subst hpart
    have hflat : deserializeEntries (pre ++ []) count pre.length data =
        if count = 0 then some data else none := deserializeEntries_flatten [] hsmall count pre data
    rw [hflat] at h
    split at h
    · exact Option.some.inj h ▸ hdata
    · cases h
  | cons item entries ih =>
    cases count with
    | zero =>
      rw [deserializeEntries] at h
      split at h
      · exact Option.some.inj h ▸ hdata
      · cases h
    | succ count =>
      have hitem := hsmall item List.mem_cons_self
      rw [List.map_cons, List.flatten_cons] at hpart
      rw [deserializeEntries] at h
      by_cases hlen : (encodeEntry item).length ≤ part.length
      · obtain ⟨rest, rfl⟩ := List.prefix_of_prefix_length_le (List.prefix_append _ _) hpart hlen
        simp only [deserializeEntry_encode hitem] at h
        rw [← List.append_assoc] at h
        exact ih (fun e he => hsmall e (List.mem_cons_of_mem _ he))
          (fun e he => hp e (List.mem_cons_of_mem _ he)) count _
          ((List.prefix_append_right_inj _).mp hpart)
          (forall_mem_insert hdata (hp item List.mem_cons_self)) h
      · have hshort : part <+: encodeEntry item :=
          List.prefix_of_prefix_length_le hpart (List.prefix_append _ _) (by omega)
        rw [deserializeEntry_torn hitem pre hshort (by omega)] at h
        cases h

/-- The parser on a prefix of a table file: it lacks the header or the checksum, or the entries
are decoded from a prefix of the payload. -/
theorem parseTable_cut {data : Entries} {torn : Bytes} (hpre : torn <+: tableContents data) :
    (∃ error, parseTable torn = .error error) ∨
      ∃ payload, payload <+: tablePayload data ∧ torn.length = 20 + payload.length ∧
        ∀ found, parseTable torn = .ok found →
          deserializeEntries payload (value (encode 8 data.entries.length)) 0 ∅ = some found := by
  by_cases hheader : torn.length < 16
  · rw [parseTable, readHeader_short hheader]
    exact Or.inl ⟨_, rfl⟩
  have hcontents : tableContents data = (encode 4 sstableMagic ++ (encode 4 sstableVersion ++
      encode 8 data.entries.length)) ++ (tablePayload data ++
        encode 4 (Crc32.calculateCrc32 (tablePayload data)).toNat) := by
    rw [tableContents_eq]
    simp only [List.append_assoc]
  have hlen : (encode 4 sstableMagic ++ (encode 4 sstableVersion ++
      encode 8 data.entries.length)).length = 16 := by
    simp only [List.length_append, length_encode]
  rw [hcontents] at hpre
  obtain ⟨rest, rfl⟩ := List.prefix_of_prefix_length_le (List.prefix_append _ _) hpre (by omega)
  have hrest : rest <+: tablePayload data ++
      encode 4 (Crc32.calculateCrc32 (tablePayload data)).toNat :=
    (List.prefix_append_right_inj _).mp hpre
  simp only [List.append_assoc]
  by_cases hroom : rest.length < 4
  · rw [parseTable, readHeader_append (length_encode 4 _) (length_encode 4 _) (length_encode 8 _)]
    simp only
    rw [if_neg (by decide), if_neg (by decide), if_pos]
    · exact Or.inl ⟨_, rfl⟩
    · simp only [List.length_append, length_encode]
      omega
  obtain ⟨payload, stored, rfl, hstored⟩ : ∃ payload stored, rest = payload ++ stored ∧
      stored.length = 4 := by
    refine ⟨rest.take (rest.length - 4), rest.drop (rest.length - 4),
      (List.take_append_drop _ _).symm, ?_⟩
    rw [List.length_drop]
    omega
  have hle := hrest.length_le
  rw [List.length_append, List.length_append, length_encode] at hle
  refine Or.inr ⟨payload, ?_, ?_, ?_⟩
  · exact List.prefix_of_prefix_length_le ((List.prefix_append _ _).trans hrest)
      (List.prefix_append _ _) (by omega)
  · simp only [List.length_append, length_encode, hstored]
    omega
  · intro found hfound
    rw [parseTable_parts (length_encode 4 _) (length_encode 4 _) (length_encode 8 _) hstored,
      if_neg (by decide), if_neg (by decide)] at hfound
    split at hfound
    · cases hfound
    · split at hfound
      · cases hfound
      · next data' hdecode =>
        rw [hdecode, Except.ok.inj hfound]

theorem parseTable_torn {data : Entries} (h : Storable data) {torn : Bytes}
    (hpre : torn <+: tableContents data) (hne : torn ≠ tableContents data) :
    ∃ error, parseTable torn = .error error := by
  have hlt : torn.length < (tableContents data).length :=
    lt_of_le_of_ne hpre.length_le (fun hlen => hne (hpre.eq_of_length hlen))
  rcases parseTable_cut hpre with herror | ⟨payload, hpart, hlen, hfound⟩
  · exact herror
  have hcount : value (encode 8 data.entries.length) = data.entries.length :=
    value_encode_of_lt (by simpa using h.count_lt)
  have hshort : payload.length < (tablePayload data).length := by
    rw [tableContents_eq] at hlt
    simp only [List.length_append, length_encode] at hlt
    omega
  have hdecode : deserializeEntries payload data.entries.length 0 ∅ = none := by
    rw [tablePayload, serializeEntries_eq] at hpart hshort
    rw [← length_sortEntries]
    exact deserializeEntries_torn (sortEntries data)
      (fun e he => h.small e (mem_sortEntries.mp he)) [] hpart hshort ∅
  cases hparse : parseTable torn with
  | error e => exact ⟨e, rfl⟩
  | ok found =>
    have hsome := hfound found hparse
    rw [hcount, hdecode] at hsome
    cases hsome

/-- Whatever a prefix of a table file is read as, it is entries of the table. -/
theorem mem_of_parseTable_prefix {data found : Entries} (hsmall : ∀ e ∈ data.entries, SmallEntry e)
    {torn : Bytes} (hpre : torn <+: tableContents data) (h : parseTable torn = .ok found) :
    ∀ e ∈ found.entries, e ∈ data.entries := by
  rcases parseTable_cut hpre with ⟨error, herror⟩ | ⟨payload, hpart, -, hfound⟩
  · rw [herror] at h
    cases h
  · rw [tablePayload, serializeEntries_eq] at hpart
    have hmem : ∀ e ∈ sortEntries data, e ∈ data.entries := fun e he => mem_sortEntries.mp he
    exact deserializeEntries_prefix (sortEntries data) (fun e he => hsmall e (hmem e he)) hmem _ []
      hpart (fun e he => absurd he List.not_mem_nil) (hfound found h)

/-- However a written table file is cut short, the parser refuses it. -/
theorem parse_after_cut (d : Disk) (filename : Bytes) (id : ℕ) (data : Entries)
    (hsmall : ∀ e ∈ data.entries, e.1.length < 2 ^ 32 ∧ e.2.value.length < 2 ^ 32)
    (hcount : data.entries.length < 2 ^ 64) :
    ∃ d' contents, Succeeds (write filename id data) d (.ok (metadataOf id filename data)) d' ∧
      d'.lookup filename = some (.regular contents) ∧
      ∀ torn, torn <+: contents → torn ≠ contents → ∃ error, parseTable torn = .error error := by
  obtain ⟨d', hwrite, hfile, -⟩ := write_succeeds d filename id data
  refine ⟨d', tableContents data, hwrite, hfile, ?_⟩
  intro torn hpre hne
  exact parseTable_torn ⟨hsmall, hcount⟩ hpre hne

theorem parse_after_cut_threeEntries :
    ∃ d' contents, Succeeds (write (text "table_1.sst") 1 threeEntries) ∅
        (.ok (metadataOf 1 (text "table_1.sst") threeEntries)) d' ∧
      d'.lookup (text "table_1.sst") = some (.regular contents) ∧
      ∀ torn, torn <+: contents → torn ≠ contents → ∃ error, parseTable torn = .error error :=
  parse_after_cut ∅ (text "table_1.sst") 1 threeEntries (by decide) (by decide)

end ForgeDB.TableFiles
