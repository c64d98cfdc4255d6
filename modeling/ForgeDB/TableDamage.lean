import ForgeDB.SSTables

/-!
# Burst damage to a table file

The checksum covers the entries only. A damaged magic number or version is compared
away, a damaged entry count leaves the decoder short of bytes or with bytes left over,
and everything else lies in the code word made of the entries and their checksum.
-/

namespace ForgeDB.TableDamage
open CrashPrograms CrashPrograms.Io FeedbackRegisters LittleEndian SSTables

/-- A window over a file is a window over what follows a header. -/
theorem differWithin_drop {start width n : ℕ} {xs ys : Bytes} (h : DifferWithin start width xs ys) :
    DifferWithin (start - n) width (xs.drop n) (ys.drop n) := by
  refine ⟨by simp [h.1], ?_⟩
  intro i hi
  rw [List.getElem?_drop, List.getElem?_drop]
  exact h.2 (n + i) (by omega)

theorem drop_header {magic version count : Bytes} (hm : magic.length = 4)
    (hv : version.length = 4) (hn : count.length = 8) (rest : Bytes) :
    (magic ++ (version ++ (count ++ rest))).drop 16 = rest := by
  rw [← List.append_assoc, ← List.append_assoc]
  exact List.drop_left' (by simp only [List.length_append, hm, hv, hn])

/-- A file of at least twenty bytes, cut where the parser cuts it. -/
theorem exists_parts {contents : Bytes} (h : 20 ≤ contents.length) :
    ∃ magic version count payload stored : Bytes,
      contents = magic ++ (version ++ (count ++ (payload ++ stored))) ∧
      magic.length = 4 ∧ version.length = 4 ∧ count.length = 8 ∧ stored.length = 4 := by
  refine ⟨contents.take 4, (contents.drop 4).take 4, (contents.drop 8).take 8,
    (contents.drop 16).take (contents.length - 20), (contents.drop 16).drop (contents.length - 20),
    ?_, ?_, ?_, ?_, ?_⟩
  · have h₁ : contents.drop 8 = (contents.drop 4).drop 4 := by rw [List.drop_drop]
    have h₂ : contents.drop 16 = (contents.drop 8).drop 8 := by rw [List.drop_drop]
    rw [List.take_append_drop, h₂, List.take_append_drop, h₁, List.take_append_drop,
      List.take_append_drop]
  · simp only [List.length_take]
    omega
  · simp only [List.length_take, List.length_drop]
    omega
  · simp only [List.length_take, List.length_drop]
    omega
  · simp only [List.length_drop]
    omega

/-- A file the parser accepts, damaged inside four bytes, is not accepted any more. -/
theorem parseTable_damaged {data : Entries} (hsmall : ∀ e ∈ data.entries, SmallEntry e)
    {start : ℕ} {damaged : Bytes} (hd : DifferWithin start 4 (tableContents data) damaged)
    (hne : damaged ≠ tableContents data) : ∃ error, parseTable damaged = .error error := by
  have hlen : 20 ≤ damaged.length := by
    rw [← hd.1, tableContents_eq]
    simp only [List.length_append, length_encode]
    omega
  obtain ⟨magic, version, count, payload, stored, rfl, hm, hv, hn, hs⟩ := exists_parts hlen
  rw [parseTable_parts hm hv hn hs]
  by_cases hmagic : value magic = sstableMagic
  swap
  · exact ⟨_, if_pos hmagic⟩
  rw [if_neg (not_not.mpr hmagic)]
  by_cases hversion : value version = sstableVersion
  swap
  · exact ⟨_, if_pos hversion⟩
  rw [if_neg (not_not.mpr hversion)]
  by_cases hsum : value stored = (Crc32.calculateCrc32 payload).toNat
  swap
  · exact ⟨_, if_pos hsum⟩
  rw [if_neg (not_not.mpr hsum)]
  -- the checksum matches, so the code word is intact
  have hword : tablePayload data ++ encode 4 (Crc32.calculateCrc32 (tablePayload data)).toNat =
      payload ++ stored := by
    by_contra hdiff
    have hwindow := differWithin_drop (n := 16) hd
    rw [tableContents_eq, drop_header (length_encode 4 _) (length_encode 4 _) (length_encode 8 _),
      drop_header hm hv hn] at hwindow
    exact Crc32.stored_checksum_burst hs hwindow hdiff hsum
  have hpayload : tablePayload data = payload :=
    List.append_inj_left' hword (by rw [length_encode, hs])
  have hm' : magic = encode 4 sstableMagic := by
    rw [← hmagic, ← hm, encode_value]
  have hv' : version = encode 4 sstableVersion := by
    rw [← hversion, ← hv, encode_value]
  -- so the damage is in the entry count
  have hcount : value count ≠ data.entries.length := by
    intro heq
    apply hne
    rw [tableContents_eq, hm', hv', hword, ← heq, ← hn, encode_value]
  rw [← hpayload, deserializeEntries_tablePayload hsmall, if_neg hcount]
  exact ⟨_, rfl⟩

/-- Whatever happens to a written table file inside one window of four bytes, the parser
sees it. -/
theorem parse_after_burst (d : Disk) (filename : Bytes) (id : ℕ) (data : Entries)
    (hsmall : ∀ e ∈ data.entries, e.1.length < 2 ^ 32 ∧ e.2.value.length < 2 ^ 32) :
    ∃ d' contents, Succeeds (write filename id data) d (.ok (metadataOf id filename data)) d' ∧
      d'.lookup filename = some (.regular contents) ∧
      ∀ start damaged, DifferWithin start 4 contents damaged → damaged ≠ contents →
        ∃ error, parseTable damaged = .error error := by
  obtain ⟨d', hwrite, hfile, -⟩ := write_succeeds d filename id data
  refine ⟨d', tableContents data, hwrite, hfile, ?_⟩
  intro start damaged hd hne
  exact parseTable_damaged hsmall hd hne

theorem parse_after_burst_tombstone :
    ∃ d' contents, Succeeds (write (text "table_1.sst") 1
        (AList.singleton (text "a") ⟨[], true⟩)) ∅
        (.ok (metadataOf 1 (text "table_1.sst") (AList.singleton (text "a") ⟨[], true⟩))) d' ∧
      d'.lookup (text "table_1.sst") = some (.regular contents) ∧
      ∀ start damaged, DifferWithin start 4 contents damaged → damaged ≠ contents →
        ∃ error, parseTable damaged = .error error :=
  parse_after_burst ∅ (text "table_1.sst") 1 (AList.singleton (text "a") ⟨[], true⟩) (by decide)

end ForgeDB.TableDamage
