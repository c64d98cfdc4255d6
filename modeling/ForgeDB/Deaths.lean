import ForgeDB.RestartAnswers

/-!
# What a dead process leaves

A synchronous process may die in any step of a start or of a command, also in the middle
of a record of the log. What it leaves is read back as before the command or as after it.
-/

namespace ForgeDB
open CommandParser CrashPrograms CrashPrograms.Io Database LayeredMaps ReachedStates RestartAnswers
open WalRecovery

namespace Wal

variable {w : Wal} {d : Disk} {s : Bytes}

theorem openAppend_dies (h : w.Carries d s) :
    Ensures w.openAppend d (fun r d' => d' = d ∧ (r.1 = true → Succeeds w.openAppend d r d))
      (fun d' => d' = d) := by
  obtain ⟨c, hcont, -⟩ := h.stored
  have hmade : makeParent w.filename ⟨d, []⟩ = .returned true ⟨d, []⟩ := by
    rw [makeParent]
    split <;> rfl
  cases ho : w.isOpen with
  | true =>
    rw [openAppend, ho]
    exact .pure ⟨rfl, fun _ => rfl⟩
  | false =>
    have hopened : Succeeds w.openAppend d
        (true, { w with isOpen := true, good := true, buffered := [] }) d := by
      simp [Succeeds, openAppend, ho, hmade, openAppending, hcont]
    rw [openAppend, ho] at hopened ⊢
    refine .seq (fun _ d' => d' = d) (makeParent_frame w.filename d) ?_
    rintro made d' rfl
    cases made with
    | false => exact .pure ⟨rfl, by simp⟩
    | true =>
      refine .seq (fun _ d₂ => d₂ = d') ?_ ?_
      · exact .attempt (by simp [hcont]) (fun _ => rfl) (fun _ => rfl)
      · rintro opened d₂ rfl
        cases opened with
        | false => exact .pure ⟨rfl, by simp⟩
        | true => exact .pure ⟨rfl, fun _ => hopened⟩

theorem streamWrite_dies (w : Wal) (bs : Bytes) (d : Disk) :
    Ensures (w.streamWrite bs) d
      (fun w' d' => w'.good = true → d' = d ∧ w' = { w with buffered := w.buffered ++ bs } ∧
        Succeeds (w.streamWrite bs) d w' d)
      (fun d' => ∃ n, d' = Disk.append w.filename ((w.buffered ++ bs).take n) d) := by
  cases hgood : w.good with
  | false =>
    rw [streamWrite, hgood]
    exact .pure (by simp [hgood])
  | true =>
    have hwritten : Succeeds (w.streamWrite bs) d { w with buffered := w.buffered ++ bs } d := by
      simp [Succeeds, streamWrite, hgood]
    rw [streamWrite, hgood] at hwritten ⊢
    refine .seq (fun taken d' => taken = true → d' = d)
      (.attempt (fun _ => rfl) (by simp) (fun n => ⟨n, rfl⟩)) ?_
    intro taken d' htaken
    cases taken with
    | false => exact .pure (by simp)
    | true =>
      obtain rfl := htaken rfl
      exact .pure (fun _ => ⟨rfl, rfl, hwritten⟩)

theorem flush_dies (w : Wal) (d : Disk) :
    Ensures w.flush d (fun w' d' => w'.good = true → Succeeds w.flush d w' d')
      (fun d' => ∃ n, d' = Disk.append w.filename (w.buffered.take n) d) := by
  cases hgood : w.good with
  | false =>
    rw [flush, hgood]
    exact .pure (by simp [hgood])
  | true =>
    have hflushed : Succeeds w.flush d { w with buffered := [] }
        (Disk.append w.filename w.buffered d) := by
      simp [Succeeds, flush, hgood, write]
    rw [flush, hgood] at hflushed ⊢
    refine .seq (fun written d' => written = true → d' = Disk.append w.filename w.buffered d)
      (.attempt (fun _ => rfl) (by simp) (fun n => ⟨n, rfl⟩)) ?_
    intro written d' hwritten
    cases written with
    | false => exact .pure (by simp)
    | true =>
      obtain rfl := hwritten rfl
      exact .pure (fun _ => hflushed)

/-- An append that works has done all its steps, and one that dies leaves a beginning of its
frame behind the log. -/
theorem appendRecord_dies (hc : HeaderConstants) (h : w.Carries d s)
    (hsync : w.durabilityMode = .sync) (r : WalRecord) :
    Ensures (w.appendRecord hc r) d
      (fun out d' => out.1 = true → Succeeds (w.appendRecord hc r) d out d')
      (fun d' => (∃ n, d'.lookup w.filename = some (.regular (s ++ (frame hc r).take n))) ∧
        Disk.SameExcept [w.filename] d d') := by
  have hcont := h.lookup_of_sync hsync
  have hcut : ∀ n, (∃ count, (Disk.append w.filename ((frame hc r).take n) d).lookup w.filename =
      some (.regular (s ++ (frame hc r).take count))) ∧
      Disk.SameExcept [w.filename] d (Disk.append w.filename ((frame hc r).take n) d) :=
    fun n => ⟨⟨n, Disk.lookup_append _ hcont⟩, Disk.SameExcept.refl.append _ List.mem_cons_self⟩
  obtain ⟨w', hopen, hcar, ⟨hname, hmode⟩, hisOpen⟩ := openAppend_succeeds h
  have hempty := hcar.empty_of_sync (hmode.trans hsync)
  rw [appendRecord]
  refine ((openAppend_dies h).mono (fun _ _ hr => hr) ?_).bind ?_
  · rintro d' rfl
    exact ⟨⟨0, by rw [List.take_zero, List.append_nil]; exact hcont⟩, .refl⟩
  rintro ⟨opened, w₁⟩ d₁ ⟨rfl, hopened⟩
  cases opened with
  | false => exact .pure (by simp)
  | true =>
    obtain ⟨heq, -⟩ := (hopened rfl).unique hopen
    obtain rfl : w₁ = w' := (Prod.mk.inj heq).2
    refine ((streamWrite_dies w₁ (frame hc r) d₁).mono (fun _ _ hr => hr) ?_).bind ?_
    · rintro d' ⟨n, rfl⟩
      rw [hname, hempty, List.nil_append]
      exact hcut n
    intro w₂ d₂ hw₂
    cases hgood : w₂.good with
    | false => exact .pure (by simp)
    | true =>
      obtain ⟨rfl, rfl, hwritten⟩ := hw₂ hgood
      have hshould : ({ w₁ with buffered := w₁.buffered ++ frame hc r } : Wal).shouldSync = true := by
        simp [shouldSync, hmode, hsync]
      simp only [hshould, if_true]
      rw [sync, hisOpen]
      refine ((flush_dies _ d₂).mono (fun _ _ hr => hr) ?_).bind ?_
      · rintro d' ⟨n, rfl⟩
        simp only [hname, hempty, List.nil_append]
        exact hcut n
      · intro w₃ d₃ hw₃
        refine .pure (fun hok => ?_)
        have hflushed := hw₃ hok
        refine (hopened rfl).bind (hwritten.bind ?_)
        rw [if_neg (by rw [hgood]; decide), if_pos hshould, sync, if_neg (by simp [hisOpen])]
        rw [hisOpen]
        exact hflushed.bind .pure

end Wal

section Start

variable {hc : HeaderConstants} {l : Layout} {d d' : Disk} {spent : ℕ} {ms : List Entries}
  {log : Bytes}

def Untouched (l : Layout) (d d' : Disk) : Prop :=
  d' = d ∨ (d.lookup l.walFilename = none ∧ d' = Disk.put l.walFilename [] d)

theorem Untouched.same (h : Untouched l d d') : Disk.SameExcept [l.walFilename] d d' := by
  obtain rfl | ⟨-, rfl⟩ := h
  · exact .refl
  · exact Disk.SameExcept.refl.put List.mem_cons_self

theorem Survives.untouched (h : Survives l d spent ms log) (hsame : Untouched l d d') :
    Survives l d' spent ms log := by
  obtain ⟨⟨m, hp, hs, hnext⟩, hlog⟩ := h
  refine ⟨⟨m, hp.of_same (hsame.same _ ?_), hs.frame_wal hsame.same, hnext⟩, ?_⟩
  · rw [List.mem_singleton]
    exact l.wal_ne_manifest.symm
  · obtain rfl | ⟨hnone, rfl⟩ := hsame
    · exact hlog
    · obtain hfile | ⟨-, rfl⟩ := hlog
      · rw [hnone] at hfile
        cases hfile
      · exact Or.inl Disk.lookup_put

theorem Wal.create_dies (l : Layout) (mode : DurabilityMode) (d : Disk) :
    Ensures (Wal.create l.walFilename mode) d (fun _ d' => Untouched l d d')
      (fun d' => Untouched l d d') := by
  rw [Wal.create, Wal.openAppend, if_neg Bool.false_ne_true]
  refine .seq (fun _ d' => Untouched l d d') ?_ (fun r d' hd' => .pure hd')
  refine .seq (fun _ d' => d' = d)
    ((Wal.makeParent_frame l.walFilename d).mono (fun _ _ h => h) (fun _ h => Or.inl h)) ?_
  rintro made d' rfl
  cases made with
  | false => exact .pure (Or.inl rfl)
  | true =>
    refine .seq (fun _ d₁ => Untouched l d' d₁) ?_ ?_
    · refine .attempt ?_ (fun _ => Or.inl rfl) (fun _ => Or.inl rfl)
      cases hfile : d'.lookup l.walFilename with
      | some node => exact Or.inl (by simp)
      | none => exact Or.inr ⟨hfile, by simp⟩
    · intro opened d₁ hd₁
      cases opened with
      | false => exact .pure hd₁
      | true => exact .pure hd₁

theorem Persisted.load_ensures {m : Manifest} (h : Persisted l d m) :
    Ensures (Manifest.load l.manifestFilename) d
      (fun r d' => (r = .ok m ∨ r = .ok ⟨l.manifestFilename, [], 1⟩) ∧ d' = d) (fun d' => d' = d) := by
  rw [Manifest.load]
  refine .seq (fun _ d' => d' = d) (.consult (fun _ => rfl) rfl) ?_
  rintro opened d' rfl
  refine .seq (fun x d₁ => x = d' ∧ d₁ = d') (.getDisk ⟨rfl, rfl⟩) ?_
  rintro x d₁ ⟨rfl, rfl⟩
  cases opened with
  | false => exact .pure ⟨Or.inr rfl, rfl⟩
  | true =>
    obtain ⟨hfile, hprint, hname⟩ | ⟨hnone, rfl⟩ := h
    · have hparsed := Manifest.parse_manifestText hprint
      rw [hname] at hparsed
      rw [Disk.contents_of_lookup hfile]
      exact .pure ⟨Or.inl hparsed, rfl⟩
    · have hcontents : Disk.contents d₁ l.manifestFilename = none := by
        rw [Disk.contents, hnone]
      rw [hcontents]
      exact .pure ⟨Or.inl rfl, rfl⟩

theorem ensureDirectories_frame (walFilename : Bytes) (d : Disk) :
    Ensures (Storage.ensureDirectories walFilename) d (fun _ d' => d' = d) (fun d' => d' = d) := by
  rw [Storage.ensureDirectories]
  refine .seq (fun _ d' => d' = d) (Wal.makeParent_frame _ d) ?_
  rintro made d' rfl
  cases made with
  | false => exact .pure rfl
  | true =>
    refine .seq (fun _ d₁ => d₁ = d') (.consult (fun _ => rfl) rfl) ?_
    rintro made d₁ rfl
    cases made with
    | false => exact .pure rfl
    | true =>
      rw [if_neg (by decide)]
      exact Wal.makeParent_frame _ d₁

/-- Nothing is rebuilt where every listed table has its file, or no table is listed. -/
theorem initializeStorage_dies (mode : DurabilityMode) (h : Survives l d spent ms log) :
    Ensures (Storage.initializeStorage l.walFilename mode) d (fun _ d' => Untouched l d d')
      (fun d' => Untouched l d d') := by
  have hensure := (ensureDirectories_frame l.walFilename d).mono (fun _ _ h => h)
    (fun _ h => (Or.inl h : Untouched l d _))
  rw [Storage.initializeStorage]
  refine hensure.bind ?_
  rintro made d' rfl
  cases made with
  | false => exact .pure (Or.inl rfl)
  | true =>
    refine (Wal.create_dies l mode d').bind ?_
    intro wal d₁ hd₁
    obtain ⟨⟨m, hp, hs, -⟩, -⟩ := h.untouched hd₁
    refine (hp.load_ensures.mono (fun _ _ h => h) (fun d₂ hd₂ => hd₂ ▸ hd₁)).bind ?_
    rintro r d₂ ⟨hr, rfl⟩
    have hall : ∀ m', r = .ok m' →
        m'.tables.all (fun table => (d₂.lookup table.filename).isSome) = true := by
      rintro m' rfl
      obtain hm | hm := hr
      · obtain rfl := Except.ok.inj hm
        rw [List.all_eq_true]
        intro t ht
        obtain ⟨data, -, hdata⟩ := exists_holds hs.holds ht
        rw [hdata.file]
        rfl
      · obtain rfl := Except.ok.inj hm
        rfl
    cases r with
    | error e => exact .pure hd₁
    | ok m' =>
      refine .seq (fun x d₃ => x = d₂ ∧ d₃ = d₂) (.getDisk ⟨rfl, rfl⟩) ?_
      rintro x d₃ ⟨rfl, rfl⟩
      rw [if_pos (hall m' rfl)]
      exact .pure hd₁

theorem recoverWal_frame (hc : HeaderConstants) (filename : Bytes) (d : Disk) :
    Ensures (recoverWal hc filename) d (fun _ d' => d' = d) (fun d' => d' = d) := by
  rw [recoverWal]
  refine .seq (fun _ d' => d' = d) (.consult (fun _ => rfl) rfl) ?_
  rintro opened d' rfl
  refine .seq (fun _ d₁ => d₁ = d') (.getDisk rfl) ?_
  rintro x d₁ rfl
  split
  · exact .pure rfl
  · exact .pure rfl

theorem load_frame (hc : HeaderConstants) (s : Storage) (d : Disk) :
    Ensures (s.load hc) d (fun _ d' => d' = d) (fun d' => d' = d) := by
  have htables : Ensures (Storage.loadTables s.manifest.tables ∅) d (fun _ d' => d' = d)
      (fun d' => d' = d) :=
    (loadTables_forall (p := fun _ => True) (by simp) (by simp)).mono (fun _ _ h => h.1)
      (fun _ h => h)
  rw [Storage.load]
  refine htables.bind ?_
  rintro r d' rfl
  cases r with
  | error e => exact .pure rfl
  | ok data =>
    refine (recoverWal_frame hc s.wal.filename d').bind ?_
    rintro ⟨⟨status, message⟩, walData⟩ d₁ rfl
    cases status with
    | success => exact .pure rfl
    | recoveredIncompleteTail => exact .pure rfl
    | corrupted => exact .pure rfl
    | ioError => exact .pure rfl

/-- A start that dies, or gives up, leaves files that show the same. -/
theorem initializeDatabase_dies (hc : HeaderConstants) (mode : DurabilityMode)
    (h : Survives l d spent ms log) :
    Ensures (initializeDatabase hc l.walFilename mode) d (fun _ d' => Untouched l d d')
      (fun d' => Untouched l d d') := by
  rw [initializeDatabase]
  refine (initializeStorage_dies mode h).bind ?_
  intro r d₁ hd₁
  cases r with
  | error e => exact .pure hd₁
  | ok s =>
    refine ((load_frame hc s d₁).mono (fun _ _ h => h) (fun d₂ hd₂ => hd₂ ▸ hd₁)).bind ?_
    rintro r d₂ rfl
    cases r with
    | error e => exact .pure hd₁
    | ok data => exact .pure hd₁

end Start

def Torn (hc : HeaderConstants) (tail : Bytes) : Prop :=
  ∃ r, Loggable r ∧ tail <+: Wal.frame hc r ∧ tail.length < (Wal.frame hc r).length

/-- Files that show `f`, perhaps with a torn record behind the log. -/
structure Remains (hc : HeaderConstants) (l : Layout) (d : Disk) (ms : List Entries)
    (rs : List WalRecord) (tail : Bytes) (f : Bytes → Option MemTableEntry) : Prop where
  survives : Survives l d 0 ms (frames hc rs ++ tail)
  loggable : ∀ r ∈ rs, Loggable r
  records_fit : ∀ key e, (replay ∅ rs).lookup key = some e → Fit ⟨key, e⟩
  tables_fit : ∀ m ∈ ms, ∀ e ∈ m.entries, Fit e
  shown : ∀ key, ((replay ∅ rs).lookup key).or (newest ms key) = f key
  torn : Torn hc tail

def Whole (hc : HeaderConstants) (l : Layout) (d : Disk) : Prop :=
  ∃ rs, (∀ r ∈ rs, Loggable r) ∧ LogFile l d (frames hc rs)

section Remains

variable {hc : HeaderConstants} {l : Layout} {d d' : Disk} {db : Database} {ms : List Entries}
  {rs rs' : List WalRecord} {tail : Bytes} {f : Bytes → Option MemTableEntry}

theorem torn_nil (hc : HeaderConstants) : Torn hc [] :=
  ⟨⟨.put, [], []⟩, ⟨by decide, by simp⟩, List.nil_prefix, length_frame_pos _⟩

theorem tail_eq_nil (hrs : ∀ r ∈ rs, Loggable r) (hrs' : ∀ r ∈ rs', Loggable r) (htorn : Torn hc tail)
    (h : frames hc rs ++ tail = frames hc rs') : tail = [] := by
  induction rs generalizing rs' with
  | nil =>
    rw [frames_nil, List.nil_append] at h
    cases rs' with
    | nil => exact h
    | cons r' rs' =>
      obtain ⟨r, hr, hprefix, hlt⟩ := htorn
      have hread : readRecord hc (Wal.frame hc r' ++ frames hc rs') = .success r' (frames hc rs') :=
        readRecord_frame (hrs' r' List.mem_cons_self) _
      rw [← frames_cons, ← h] at hread
      obtain hstop | hstop := readRecord_torn hr hprefix hlt
      · rw [hread] at hstop
        cases hstop
      · rw [hread] at hstop
        cases hstop
  | cons r rs ih =>
    have hread : readRecord hc (Wal.frame hc r ++ (frames hc rs ++ tail)) =
        .success r (frames hc rs ++ tail) := readRecord_frame (hrs r List.mem_cons_self) _
    rw [frames_cons, List.append_assoc] at h
    cases rs' with
    | nil =>
      have hlen := congrArg List.length h
      have hpos : 0 < (Wal.frame hc r).length := length_frame_pos r
      rw [List.length_append, frames_nil, List.length_nil] at hlen
      omega
    | cons r' rs' =>
      rw [h, frames_cons, readRecord_frame (hrs' r' List.mem_cons_self)] at hread
      obtain ⟨-, hrest⟩ := ReadResult.success.inj hread
      exact ih (fun r hr => hrs r (List.mem_cons_of_mem _ hr))
        (fun r hr => hrs' r (List.mem_cons_of_mem _ hr)) hrest.symm

theorem LogFile.unique {log log' : Bytes} (h : LogFile l d log) (h' : LogFile l d log') :
    log = log' := by
  obtain h | ⟨h, rfl⟩ := h
  · obtain h' | ⟨h', -⟩ := h'
    · rw [h] at h'
      cases h'
      rfl
    · rw [h] at h'
      cases h'
  · obtain h' | ⟨-, rfl⟩ := h'
    · rw [h] at h'
      cases h'
    · rfl

theorem Remains.recoverable (h : Remains hc l d ms rs tail f) (hwhole : Whole hc l d) :
    Recoverable hc l d 0 ms rs f := by
  obtain ⟨rs', hrs', hlog⟩ := hwhole
  obtain rfl := tail_eq_nil h.loggable hrs' h.torn (h.survives.log.unique hlog)
  have hsurvives := h.survives
  rw [List.append_nil] at hsurvives
  exact ⟨hsurvives, h.loggable, h.records_fit, h.tables_fit, h.shown⟩

theorem remains_of_recoverable (h : Recoverable hc l d 0 ms rs f) : Remains hc l d ms rs [] f :=
  ⟨by rw [List.append_nil]; exact h.survives, h.loggable, h.records_fit, h.tables_fit, h.shown,
    torn_nil hc⟩

theorem Remains.untouched (h : Remains hc l d ms rs tail f) (hsame : Untouched l d d') :
    Remains hc l d' ms rs tail f :=
  ⟨h.survives.untouched hsame, h.loggable, h.records_fit, h.tables_fit, h.shown, h.torn⟩

theorem Remains.opens (h : Remains hc l d ms rs tail f) :
    ∃ db d', Succeeds (initializeDatabase hc l.walFilename .sync) d (.ok db) d' ∧
      ∀ key, Succeeds (db.execute hc ⟨.get, key, []⟩) d' (answer (f key), db) d' := by
  obtain ⟨⟨m, hp, hs, -⟩, hlog⟩ := h.survives
  obtain ⟨r, hr, hprefix, hlt⟩ := h.torn
  obtain ⟨hdata, hstatus⟩ := recoverFrom_torn hr hprefix hlt (replay ∅ rs)
  rw [← recoverFrom_frames rs h.loggable ∅ tail] at hdata hstatus
  obtain ⟨db, d', hinit, -, hman, -, -, hsame, hmem⟩ := initialize_succeeds hc .sync hp hs hlog hstatus
  refine ⟨db, d', hinit, fun key => ?_⟩
  have hview : db.view ms key = f key := by
    rw [view, hmem, hdata, MemTable.replace_data, lookup_overwrite, lookup_loadTables, ← h.shown]
    cases (replay ∅ rs).lookup key <;> cases newest ms key <;> rfl
  rw [← hview]
  exact (executeGet_succeeds (hman ▸ hs.frame_wal hsame) ⟨.get, key, []⟩).bind .pure

theorem Survives.with_log {spent : ℕ} {log log' : Bytes} (h : Survives l d spent ms log)
    (hsame : Disk.SameExcept [l.walFilename] d d')
    (hlog : d'.lookup l.walFilename = some (.regular log')) : Survives l d' spent ms log' := by
  obtain ⟨⟨m, hp, hs, hnext⟩, -⟩ := h
  refine ⟨⟨m, hp.of_same (hsame _ ?_), hs.frame_wal hsame, hnext⟩, Or.inl hlog⟩
  rw [List.mem_singleton]
  exact l.wal_ne_manifest.symm

def viewAfter (op : LogOperation) (f : Bytes → Option MemTableEntry) (key : Bytes) :
    Option MemTableEntry := if key = op.key then some op.entry else f key

/-- A death in the middle of an append: the record is not there, or all of it is. -/
theorem append_died (h : Consistent hc l d 0 db ms rs) {op : LogOperation} (hop : Fit ⟨op.key, op.entry⟩)
    {plan : List Outcome} (hdied : op.append hc db.storage.wal ⟨d, plan⟩ = .died d') :
    ∃ rs' tail f, Remains hc l d' ms rs' tail f ∧ (f = db.view ms ∨ f = viewAfter op (db.view ms)) := by
  obtain ⟨wal, d₁, happend, -⟩ := Wal.appendRecord_succeeds hc h.standing.carries op.record
  rw [← LogOperation.append_eq] at happend
  have hwritten := (h.written hop happend).recoverable
  rw [LogOperation.append_eq] at hdied
  obtain ⟨⟨n, hlog⟩, hsame⟩ :=
    (Wal.appendRecord_dies hc h.standing.carries h.standing.sync op.record).of_died hdied
  rw [h.standing.wired.wal_eq] at hlog hsame
  obtain hlt | hle := Nat.lt_or_ge n (Wal.frame hc op.record).length
  · refine ⟨rs, (Wal.frame hc op.record).take n, db.view ms, ?_, Or.inl rfl⟩
    refine ⟨h.standing.survives.with_log hsame hlog, h.loggable,
      fun _ _ hk => h.fit_lookup (h.held _ _ hk), h.tables_fit, h.agrees,
      op.record, hwritten.loggable _ (by simp), List.take_prefix _ _, ?_⟩
    rw [List.length_take]
    omega
  · rw [List.take_of_length_le hle] at hlog
    have hfull : frames hc (rs ++ [op.record]) ++ [] = frames hc rs ++ Wal.frame hc op.record := by
      rw [frames_append, frames_cons, frames_nil, List.append_nil, List.append_nil]
    refine ⟨rs ++ [op.record], [], viewAfter op (db.view ms), ?_, Or.inr rfl⟩
    refine ⟨h.standing.survives.with_log hsame (hfull ▸ hlog), hwritten.loggable,
      hwritten.records_fit, hwritten.tables_fit, fun key => ?_, torn_nil hc⟩
    rw [hwritten.shown, view_written]
    rfl

theorem execute_other_died {command : Command} (hop : operation command = none) {plan : List Outcome}
    (hdied : db.execute hc command ⟨d, plan⟩ = .died d') : d' = d := by
  have hensures : Ensures (db.execute hc command) d (fun _ _ => True) (fun d' => d' = d) := by
    rw [execute]
    obtain ht | ht | ht := operation_eq_none hop <;> simp only [ht]
    · exact (db.executeGet_reads command d).bind (fun _ _ _ => .pure trivial)
    · exact .pure trivial
    · exact .pure trivial
  exact hensures.of_died hdied

theorem execute_died (hplain : l.Plain) (h : Consistent hc l d 0 db ms rs) {input : Bytes}
    (hacc : Acceptable hc db (parseCommand input)) {plan : List Outcome}
    (hdied : db.execute hc (parseCommand input) ⟨d, plan⟩ = .died d') :
    ∃ ms' rs' tail f, Remains hc l d' ms' rs' tail f ∧
      (f = db.view ms ∨ ∃ op, operation (parseCommand input) = some op ∧
        f = viewAfter op (db.view ms)) := by
  cases hop : operation (parseCommand input) with
  | none =>
    obtain rfl := execute_other_died hop hdied
    exact ⟨ms, rs, [], db.view ms, remains_of_recoverable h.recoverable, Or.inl rfl⟩
  | some op =>
    rw [execute_write hc db hop, bind_run] at hdied
    cases happend : op.append hc db.storage.wal ⟨d, plan⟩ with
    | died d₁ =>
      rw [happend] at hdied
      cases hdied
      obtain ⟨rs', tail, f, hremains, hf⟩ := append_died h (fit_operation hacc hop) happend
      exact ⟨ms, rs', tail, f, hremains, hf.imp_right (fun hf => ⟨op, rfl, hf⟩)⟩
    | returned out w =>
      obtain ⟨ok, wal⟩ := out
      rw [happend] at hdied
      cases ok with
      | false => cases hdied
      | true =>
        -- the record is in the log, so the process dies in the flush
        have hsucceeds := (Wal.appendRecord_dies hc h.standing.carries h.standing.sync
          op.record).of_returned (LogOperation.append_eq hc _ op ▸ happend) rfl
        rw [← LogOperation.append_eq] at hsucceeds
        have hmid : Midway hc db d input (db.written wal op) w.disk := ⟨hacc, op, wal, hop, hsucceeds, rfl⟩
        have hids : hc.compactionTableThreshold + 0 < 2 ^ 64 := hc.compactionThreshold_lt
        obtain ⟨ms', rs', hrec⟩ := (hmid.flushIfDue_ensures hplain h hids).of_died hdied
        refine ⟨ms', rs', [], _, remains_of_recoverable hrec, Or.inr ⟨op, rfl, ?_⟩⟩
        funext key
        exact view_written db wal op ms key

end Remains
end ForgeDB
