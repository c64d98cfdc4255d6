import ForgeDB.WalCuts

/-!
# Records the writer accepts and the reader refuses

The writer casts the payload length to 32 bits and checks nothing. The reader refuses
lengths above its own limit, so a log of acknowledged appends is read back exactly when
no record exceeds that limit. A length that wraps around to an admitted one announces a
proper prefix of the record, and no record is a proper prefix of another.
-/

namespace ForgeDB.WalLimits
open CrashPrograms CrashPrograms.Io LittleEndian WalRecords WalRecovery WalCuts

/-- The file is missing and the stream closed: the constructor could not open it. -/
structure Absent (w : Wal) (d : Disk) : Prop where
  missing : d.lookup w.filename = none
  closed : w.isOpen = false

/-- Opening succeeds only with the bytes there were, and a missing file is created empty. -/
theorem openAppend_acknowledged {w : Wal} {d : Disk} {s : Bytes}
    (h : w.Carries d s ∨ (Absent w d ∧ s = [])) :
    Ensures w.openAppend d
      (fun out d' => (out.1 = true → out.2.Carries d' s) ∧ w.SameFile out.2 ∧
        (out.2.Carries d' s ∨ (Absent out.2 d' ∧ s = [])))
      (fun _ => True) := by
  rcases h with h | ⟨h, rfl⟩
  · refine (Wal.openAppend_ensures h).mono ?_ (fun _ _ => trivial)
    rintro out d' ⟨hcar, hsame, -⟩
    exact ⟨fun _ => hcar, hsame, Or.inl hcar⟩
  · rw [Wal.openAppend, if_neg (by simp [h.closed])]
    refine .seq (fun _ d' => d' = d) ?_ ?_
    · rw [Wal.makeParent]
      split
      · exact .pure rfl
      · exact .consult (fun _ => rfl) trivial
    · rintro made d' rfl
      cases made with
      | false => exact .pure ⟨by simp, ⟨rfl, rfl⟩, Or.inr ⟨h, rfl⟩⟩
      | true =>
        refine .seq (fun opened d₁ => d₁ = if opened then Disk.put w.filename [] d' else d') ?_ ?_
        · exact .attempt (by simp [h.missing]) (fun _ => rfl) (fun _ => trivial)
        · rintro opened d₁ rfl
          cases opened with
          | false => exact .pure ⟨by simp, ⟨rfl, rfl⟩, Or.inr ⟨⟨h.missing, h.closed⟩, rfl⟩⟩
          | true =>
            have hcar : Wal.Carries { w with isOpen := true, good := true, buffered := [] }
                (Disk.put w.filename [] d') [] :=
              ⟨⟨[], Disk.lookup_put, rfl⟩, fun _ => rfl, fun _ => rfl, fun _ => rfl⟩
            exact .pure ⟨fun _ => hcar, ⟨rfl, rfl⟩, Or.inl hcar⟩

theorem streamWrite_acknowledged (w : Wal) (bs : Bytes) (d : Disk) :
    Ensures (w.streamWrite bs) d
      (fun w' d' => w'.good = true →
        w.good = true ∧ w' = { w with buffered := w.buffered ++ bs } ∧ d' = d)
      (fun _ => True) := by
  rw [Wal.streamWrite]
  split
  · next hg => exact .pure (fun hgood => by simp [hgood] at hg)
  · next hg =>
    refine .seq (fun taken d' => taken = true → d' = d)
      (.attempt (fun _ => rfl) (fun _ => by simp) (fun _ => trivial)) ?_
    intro taken d' hd'
    cases taken with
    | false => exact .pure (by simp)
    | true => exact .pure (fun _ => ⟨by simpa using hg, rfl, hd' rfl⟩)

/-- A sync that answers true has handed the whole buffer to the file. -/
theorem sync_acknowledged (w : Wal) (d : Disk) :
    Ensures w.sync d
      (fun out d' => out.1 = true →
        out.2 = { w with buffered := [] } ∧ d' = Disk.append w.filename w.buffered d)
      (fun _ => True) := by
  rw [Wal.sync]
  split
  · exact .pure (by simp)
  · refine .seq (fun w' d' => w'.good = true →
      w' = { w with buffered := [] } ∧ d' = Disk.append w.filename w.buffered d) ?_ ?_
    · rw [Wal.flush]
      split
      · next hg => exact .pure (fun hgood => by simp [hgood] at hg)
      · refine .seq (fun written d' => written = true → d' = Disk.append w.filename w.buffered d)
          (.attempt (fun _ => rfl) (fun _ => by simp) (fun _ => trivial)) ?_
        intro written d' hd'
        cases written with
        | false => exact .pure (by simp)
        | true => exact .pure (fun _ => ⟨rfl, hd' rfl⟩)
    · intro w' d' hw'
      exact .pure hw'

theorem openAppend_isOpen (w : Wal) (d : Disk) :
    Ensures w.openAppend d (fun out _ => out.1 = true → out.2.isOpen = true) (fun _ => True) := by
  rw [Wal.openAppend]
  split
  · next hopen => exact .pure (fun _ => hopen)
  refine .seq (fun _ _ => True) ((Wal.makeParent_frame _ d).mono (fun _ _ _ => trivial)
    (fun _ _ => trivial)) ?_
  intro made d' _
  cases made with
  | false => exact .pure (by simp)
  | true =>
    refine .seq (fun _ _ => True) (.attempt trivial (fun _ => trivial) (fun _ => trivial)) ?_
    intro opened d₁ _
    cases opened with
    | true => exact .pure (fun _ => rfl)
    | false => exact .pure (by simp)

/-- An append that answers true has put one frame behind the bytes of the log, whatever
happened to the steps before it. -/
theorem appendRecord_acknowledged (hc : HeaderConstants) {w : Wal} {d : Disk} {s : Bytes}
    (h : w.Carries d s ∨ (Absent w d ∧ s = [])) (r : WalRecord) :
    Ensures (w.appendRecord hc r) d
      (fun out d' => out.1 = true → out.2.Carries d' (s ++ Wal.frame hc r) ∧ w.SameFile out.2)
      (fun _ => True) := by
  rw [Wal.appendRecord]
  refine (((openAppend_acknowledged h).and (openAppend_isOpen w d)).mono (fun _ _ h => h)
    (fun _ _ => trivial)).bind ?_
  rintro ⟨opened, w₁⟩ d₁ ⟨⟨hcar, ⟨hname, hmode⟩, -⟩, hopen⟩
  cases opened with
  | false => exact .pure (by simp)
  | true =>
    refine (streamWrite_acknowledged w₁ (Wal.frame hc r) d₁).bind ?_
    intro w₂ d₂ hw₂
    cases hg : w₂.good with
    | false => exact .pure (by simp)
    | true =>
      obtain ⟨hgood, rfl, rfl⟩ := hw₂ hg
      obtain ⟨c, hcont, hs⟩ := (hcar rfl).stored
      rw [if_neg (by simp)]
      by_cases hsync : w₁.durabilityMode = .sync
      · rw [if_pos (by simp [Wal.shouldSync, hsync])]
        refine (sync_acknowledged _ _).mono ?_ (fun _ _ => trivial)
        rintro ⟨ok, w₃⟩ d₃ hout hok
        obtain ⟨rfl, rfl⟩ := hout hok
        refine ⟨⟨⟨c ++ (w₁.buffered ++ Wal.frame hc r), Disk.lookup_append _ hcont, ?_⟩,
          fun _ => hgood, fun _ => rfl, fun _ => rfl⟩, hname, hmode⟩
        simp [← hs]
      · rw [if_neg (by simp [Wal.shouldSync, hsync])]
        refine .pure (fun _ => ⟨⟨⟨c, hcont, by simp [← hs]⟩, fun _ => hgood, fun hclosed => ?_,
          fun hmode' => absurd hmode' hsync⟩, hname, hmode⟩)
        have ho : w₁.isOpen = true := hopen rfl
        simp [ho] at hclosed

theorem close_closed {w : Wal} {d : Disk} (h : w.isOpen = false → w.buffered = []) :
    Ensures w.close d (fun w' _ => w'.isOpen = false ∧ w'.buffered = []) (fun _ => True) := by
  rw [Wal.close]
  split
  · next ho =>
    have hclosed : w.isOpen = false := by simpa using ho
    exact .pure ⟨hclosed, h hclosed⟩
  · refine ((Wal.flush_frame w d).mono (fun _ _ h => h) (fun _ _ => trivial)).bind ?_
    intro w' d' _
    exact .pure ⟨rfl, rfl⟩

/-- A truncation to zero that answers true leaves an empty log. -/
theorem truncate_acknowledged {w : Wal} {d : Disk} (h : w.isOpen = false → w.buffered = []) :
    Ensures (w.truncate 0) d (fun out d' => out.1 = true → out.2.Carries d' []) (fun _ => True) := by
  rw [Wal.truncate]
  refine (close_closed h).bind ?_
  rintro w₁ d₁ ⟨hclosed, hbuffered⟩
  refine .seq (fun _ _ => True) (.consult (fun _ => trivial) trivial) ?_
  intro looked d₂ _
  cases looked with
  | false => exact .pure (by simp)
  | true =>
    refine .seq (fun _ _ => True) ?_ ?_
    · rw [Wal.ensurePresent]
      refine .seq (fun _ _ => True) (.getDisk trivial) ?_
      intro _ d₃ _
      split
      · exact .pure trivial
      · exact .attempt trivial (fun _ => trivial) (fun _ => trivial)
    · intro present d₃ _
      cases present with
      | false => exact .pure (by simp)
      | true =>
        refine .seq (fun resized d₄ => resized = true →
          d₄.lookup w₁.filename = some (.regular [])) ?_ ?_
        · exact .attempt (fun _ => by simp) (fun _ => by simp) (fun _ => trivial)
        · intro resized d₄ hempty
          cases resized with
          | false => exact .pure (by simp)
          | true =>
            have hcar : w₁.Carries d₄ [] :=
              ⟨⟨[], hempty rfl, hbuffered⟩, fun ho => by simp [hclosed] at ho, fun _ => hbuffered,
                fun _ => hbuffered⟩
            exact (Wal.openAppend_ensures hcar).mono (fun _ _ h _ => h.1) (fun _ _ => trivial)

theorem appendAll_acknowledged (hc : HeaderConstants) (ops : List LogOperation) {w : Wal} {d : Disk}
    {s : Bytes} (h : w.Carries d s ∨ (Absent w d ∧ s = [])) (hsync : w.durabilityMode = .sync) :
    Ensures (appendAll hc ops w) d
      (fun out d' => out.1 = true →
        (d'.lookup w.filename = some (.regular (s ++ frames hc (ops.map LogOperation.record))) ∨
          (d'.lookup w.filename = none ∧ s = [] ∧ ops = [])))
      (fun _ => True) := by
  induction ops generalizing w d s with
  | nil =>
    refine .pure (fun _ => ?_)
    rcases h with h | ⟨h, rfl⟩
    · exact Or.inl (by simpa using h.lookup_of_sync hsync)
    · exact Or.inr ⟨h.missing, rfl, rfl⟩
  | cons op ops ih =>
    rw [appendAll, LogOperation.append_eq]
    refine (appendRecord_acknowledged hc h op.record).bind ?_
    rintro ⟨accepted, w₁⟩ d₁ h₁
    cases accepted with
    | false => exact .pure (by simp)
    | true =>
      obtain ⟨hcar, hname, hmode⟩ := h₁ rfl
      refine (ih (Or.inl hcar) (hmode.trans hsync)).mono ?_ (fun _ _ => trivial)
      intro out d' hout hok
      rcases hout hok with hfile | ⟨hnone, hempty, -⟩
      · refine Or.inl ?_
        rw [← hname, hfile, List.map_cons, frames_cons, List.append_assoc]
      · have hlen : 0 < (Wal.frame hc op.record).length := length_frame_pos op.record
        rw [List.append_eq_nil_iff] at hempty
        simp [hempty.2] at hlen

/-- The constructor never answers; the file is there and empty, or still missing. -/
theorem create_acknowledged {filename : Bytes} {d : Disk} (h : d.lookup filename = none) :
    Ensures (Wal.create filename .sync) d
      (fun w d' => w.filename = filename ∧ w.durabilityMode = .sync ∧
        (w.Carries d' [] ∨ Absent w d'))
      (fun _ => True) := by
  rw [Wal.create]
  refine (openAppend_acknowledged (Or.inr ⟨⟨h, rfl⟩, rfl⟩)).bind ?_
  rintro ⟨opened, w⟩ d' ⟨-, ⟨hname, hmode⟩, hstate⟩
  refine .pure ⟨hname, hmode, ?_⟩
  rcases hstate with hcar | ⟨habsent, -⟩
  · exact Or.inl hcar
  · exact Or.inr habsent

/-- A record above the reader's limit is refused wherever it stands. Its length field holds
zero, a length above the limit, or the length of a proper prefix of the record. -/
theorem readRecord_oversized (hc : HeaderConstants) {r : WalRecord} (henc : Encodable r)
    (hmax : maxRecordSize < 9 + r.key.length + r.value.length) (rest : Bytes) :
    ∃ error, readRecord hc (Wal.frame hc r ++ rest) = .corrupted error := by
  have hlen := length_serializeWalRecord hc r
  have hlt : (serializeWalRecord hc r).length % 2 ^ 32 < 256 ^ 4 := by
    norm_num
    omega
  generalize hp : serializeWalRecord hc r = payload at *
  generalize hn : payload.length % 2 ^ 32 = length at *
  have hframe : Wal.frame hc r ++ rest = encode 4 length ++
      (payload ++ (encode 4 (Crc32.calculateCrc32 payload).toNat ++ rest)) := by
    rw [Wal.frame, hp, hn]
    simp
  have hhead : (Wal.frame hc r ++ rest).take 4 = encode 4 length := by
    rw [hframe, List.take_left' (length_encode 4 _)]
  have htail : (Wal.frame hc r ++ rest).drop 4 =
      payload ++ (encode 4 (Crc32.calculateCrc32 payload).toNat ++ rest) := by
    rw [hframe, List.drop_left' (length_encode 4 _)]
  have h4 : ¬ (Wal.frame hc r ++ rest).length < 4 := by
    rw [hframe]
    simp
  simp only [readRecord, if_neg h4, hhead, htail, value_encode_of_lt hlt]
  split
  · exact ⟨_, rfl⟩
  · next hfit =>
    have hshort : length < payload.length := by omega
    have htake : (payload ++ (encode 4 (Crc32.calculateCrc32 payload).toNat ++ rest)).take length =
        payload.take length := List.take_append_of_le_length hshort.le
    rw [if_neg (by simp only [List.length_append]; omega),
      if_neg (by simp only [List.length_drop, List.length_append, length_encode]; omega), htake]
    split
    · exact ⟨_, rfl⟩
    · cases hd : deserializeWalRecord hc (payload.take length) with
      | none => exact ⟨_, rfl⟩
      | some r' =>
        obtain ⟨hser, hadm⟩ := serialize_of_deserialize hd
        have happ : serializeWalRecord hc r' ++ payload.drop length = serializeWalRecord hc r ++ [] := by
          rw [← hser, List.take_append_drop, hp, List.append_nil]
        obtain ⟨-, hnil⟩ := serializeWalRecord_append_inj hc hadm.encodable henc happ
        have hzero := congrArg List.length hnil
        simp only [List.length_drop, List.length_nil] at hzero
        omega

/-- Recovery of written frames succeeds exactly when none of them is oversized. -/
theorem recoverFrom_success_iff (hc : HeaderConstants) (ops : List LogOperation)
    (hops : ∀ op ∈ ops, Encodable op.record) (data : Entries) :
    (recoverFrom hc data (frames hc (ops.map LogOperation.record))).1.status = .success ↔
      ∀ op ∈ ops, 9 + op.record.key.length + op.record.value.length ≤ maxRecordSize := by
  induction ops generalizing data with
  | nil => simp [recoverFrom_nil]
  | cons op ops ih =>
    have hrest := ih (fun op' h => hops op' (List.mem_cons_of_mem _ h))
    rw [List.map_cons, frames_cons, List.forall_mem_cons]
    by_cases hfit : 9 + op.record.key.length + op.record.value.length ≤ maxRecordSize
    · rw [recoverFrom_eq, readRecord_frame (LogOperation.loggable hfit)]
      simp only [hrest, hfit, true_and]
    · obtain ⟨error, herr⟩ := readRecord_oversized hc (hops op List.mem_cons_self)
        (by omega) (frames hc (ops.map LogOperation.record))
      rw [recoverFrom_eq, herr]
      simp [hfit]

/-- Whatever recovery makes of written frames, a property of all of them is one of the result. -/
theorem recoverFrom_forall (hc : HeaderConstants) {p : (Σ _ : Bytes, MemTableEntry) → Prop}
    (ops : List LogOperation) (hops : ∀ op ∈ ops, Encodable op.record)
    (hp : ∀ op ∈ ops, p ⟨op.key, op.entry⟩) {data : Entries} (hdata : ∀ e ∈ data.entries, p e) :
    ∀ e ∈ (recoverFrom hc data (frames hc (ops.map LogOperation.record))).2.entries, p e := by
  induction ops generalizing data with
  | nil => exact hdata
  | cons op ops ih =>
    rw [List.map_cons, frames_cons]
    by_cases hfit : 9 + op.record.key.length + op.record.value.length ≤ maxRecordSize
    · rw [recoverFrom_eq, readRecord_frame (LogOperation.loggable hfit)]
      refine ih (fun op' h => hops op' (List.mem_cons_of_mem _ h))
        (fun op' h => hp op' (List.mem_cons_of_mem _ h)) ?_
      rw [LogOperation.applyRecord_record]
      exact LayeredMaps.forall_mem_insert hdata (hp op List.mem_cons_self)
    · obtain ⟨error, herr⟩ := readRecord_oversized hc (hops op List.mem_cons_self)
        (by omega) (frames hc (ops.map LogOperation.record))
      rw [recoverFrom_eq, herr]
      exact hdata

/-- Recovery of the log at `filename` succeeds with the in-memory table of the operations. -/
def ReadBack (hc : HeaderConstants) (filename : Bytes) (ops : List LogOperation) (d : Disk) : Prop :=
  ∃ result data, Succeeds (recoverWal hc filename) d (result, data) d ∧ result.status = .success ∧
    ∀ key, data.lookup key = (ops.foldl LogOperation.apply MemTable.empty).data.lookup key

theorem readBack_iff (hc : HeaderConstants) {filename : Bytes} {ops : List LogOperation} {d : Disk}
    (hops : ∀ op ∈ ops, Encodable op.record)
    (h : d.lookup filename = some (.regular (frames hc (ops.map LogOperation.record)))) :
    ReadBack hc filename ops d ↔
      ∀ op ∈ ops, 9 + op.record.key.length + op.record.value.length ≤ maxRecordSize := by
  have hrun : Succeeds (recoverWal hc filename) d _ d := recoverWal_succeeds h
  rw [← recoverFrom_success_iff hc ops hops ∅]
  constructor
  · rintro ⟨result, data, hrecover, hstatus, -⟩
    obtain ⟨heq, -⟩ := hrun.unique hrecover
    rw [heq]
    exact hstatus
  · intro hstatus
    have hfit := (recoverFrom_success_iff hc ops hops ∅).mp hstatus
    have hlog : ∀ r ∈ ops.map LogOperation.record, Loggable r := by
      intro r hr
      obtain ⟨op, hop, rfl⟩ := List.mem_map.mp hr
      exact LogOperation.loggable (hfit op hop)
    have hframes : recoverFrom hc ∅ (frames hc (ops.map LogOperation.record) ++ []) = _ :=
      recoverFrom_frames _ hlog ∅ []
    rw [List.append_nil, recoverFrom_nil] at hframes
    rw [hframes] at hrun
    refine ⟨⟨.success, []⟩, replay ∅ (ops.map LogOperation.record), hrun, rfl, fun key => ?_⟩
    rw [LogOperation.foldl_apply_data]
    rfl

/-- A log whose appends were all acknowledged in synchronous mode, whatever else went wrong
before, is read back in full exactly when every record is within the reader's limit. -/
theorem acknowledged_log_readBack_iff (hc : HeaderConstants) (filename : Bytes)
    (ops : List LogOperation)
    (hops : ∀ op ∈ ops, op.record.key.length < 2 ^ 32 ∧ op.record.value.length < 2 ^ 32)
    (d : Disk) (hd : d.lookup filename = none) (plan : List Outcome) (w : Wal) (world : World)
    (hrun : (Wal.create filename .sync >>= appendAll hc ops) ⟨d, plan⟩ = .returned (true, w) world) :
    ReadBack hc filename ops world.disk ↔
      ∀ op ∈ ops, 9 + op.record.key.length + op.record.value.length ≤ maxRecordSize := by
  have hfile : world.disk.lookup filename =
        some (.regular (frames hc (ops.map LogOperation.record))) ∨
      (world.disk.lookup filename = none ∧ ops = []) := by
    have hall : Ensures (Wal.create filename .sync >>= appendAll hc ops) d
        (fun out d' => out.1 = true →
          (d'.lookup filename = some (.regular (frames hc (ops.map LogOperation.record))) ∨
            (d'.lookup filename = none ∧ ops = []))) (fun _ => True) := by
      refine (create_acknowledged hd).bind ?_
      rintro w₁ d₁ ⟨rfl, hmode, hstate⟩
      have hstart : w₁.Carries d₁ [] ∨ (Absent w₁ d₁ ∧ ([] : Bytes) = []) :=
        hstate.imp_right (fun h => ⟨h, rfl⟩)
      refine (appendAll_acknowledged hc ops hstart hmode).mono ?_ (fun _ _ => trivial)
      intro out d' hout hok
      exact (hout hok).imp_right (fun h => ⟨h.1, h.2.2⟩)
    exact hall.of_returned hrun rfl
  rcases hfile with hfile | ⟨hnone, rfl⟩
  · exact readBack_iff hc (fun op hop => ⟨(hops op hop).1, (hops op hop).2⟩) hfile
  · -- without an append the file may still be missing, and then counts as an empty log
    refine iff_of_true ⟨⟨.success, []⟩, ∅, ?_, rfl, fun _ => rfl⟩ (by simp)
    simp [Succeeds, recoverWal, Disk.contents, hnone]

theorem acknowledged_log_readBack_iff_overwrite :
    ∃ w d, Succeeds (Wal.create (text "d/wal/active.log") .sync >>= appendAll HeaderConstants.least
        [.put (text "a") (text "b"), .delete (text "a")]) ∅ (true, w) d ∧
      (ReadBack HeaderConstants.least (text "d/wal/active.log")
        [.put (text "a") (text "b"), .delete (text "a")] d ↔
          ∀ op ∈ [LogOperation.put (text "a") (text "b"), .delete (text "a")],
            9 + op.record.key.length + op.record.value.length ≤ maxRecordSize) := by
  obtain ⟨w, d, hcreate, hcar, -⟩ :=
    Wal.create_succeeds (text "d/wal/active.log") .sync ∅ [] (Or.inr ⟨AList.lookup_empty _, rfl⟩)
  obtain ⟨w₁, d₁, happend, -⟩ := appendAll_succeeds HeaderConstants.least
    [.put (text "a") (text "b"), .delete (text "a")] hcar
  exact ⟨w₁, d₁, hcreate.bind happend, acknowledged_log_readBack_iff _ _ _ (by decide) ∅
    (AList.lookup_empty _) [] w₁ ⟨d₁, []⟩ (hcreate.bind happend)⟩

/-- One value of 16 MiB: the append is acknowledged and the log is then refused. -/
theorem acknowledged_log_refused :
    ∃ ops : List LogOperation,
      (∀ op ∈ ops, op.record.key.length < 2 ^ 32 ∧ op.record.value.length < 2 ^ 32) ∧
      ∃ w d, Succeeds (Wal.create (text "d/wal/active.log") .sync >>=
          appendAll HeaderConstants.least ops) ∅ (true, w) d ∧
        ¬ ReadBack HeaderConstants.least (text "d/wal/active.log") ops d := by
  obtain ⟨value, hvalue⟩ : ∃ value : Bytes, value.length = 16 * 1024 * 1024 :=
    ⟨List.replicate _ 0, List.length_replicate⟩
  have hsize : ∀ op ∈ [LogOperation.put [] value],
      op.record.key.length < 2 ^ 32 ∧ op.record.value.length < 2 ^ 32 := by
    simp only [List.mem_singleton, forall_eq, LogOperation.record, List.length_nil, hvalue]
    omega
  obtain ⟨w, d, hcreate, hcar, hname, hmode, -⟩ :=
    Wal.create_succeeds (text "d/wal/active.log") .sync ∅ [] (Or.inr ⟨AList.lookup_empty _, rfl⟩)
  obtain ⟨w₁, d₁, happend, hcar₁, hname₁, hmode₁⟩ :=
    appendAll_succeeds HeaderConstants.least [.put [] value] hcar
  refine ⟨_, hsize, w₁, d₁, hcreate.bind happend, ?_⟩
  have hfile := hcar₁.lookup_of_sync (hmode₁.trans hmode)
  rw [hname₁, hname] at hfile
  rw [readBack_iff HeaderConstants.least (fun op hop => ⟨(hsize op hop).1, (hsize op hop).2⟩) hfile]
  simp only [List.mem_singleton, forall_eq, LogOperation.record, List.length_nil, hvalue,
    maxRecordSize]
  omega

end ForgeDB.WalLimits
