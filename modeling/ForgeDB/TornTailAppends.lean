import ForgeDB.Restarts

/-!
# Writing behind a torn tail

A start on a log with a torn tail keeps the tail in the file, and later records go behind
it. The next start reads the tail and these records as one: unless nothing that matters
was written, they are lost or the start fails.
-/

namespace ForgeDB.TornTailAppends
open CrashPrograms CrashPrograms.Io Database LayeredMaps SSTables WalRecovery

/-- Every write leaves the table in memory below the flush threshold. -/
def StaysBelow (hc : HeaderConstants) : MemTable → List LogOperation → Prop
  | _, [] => True
  | t, op :: ops =>
    (op.apply t).sizeInBytes < hc.memtableFlushThreshold ∧ StaysBelow hc (op.apply t) ops

/-- The records of the writes among some commands. -/
def recordsOf (commands : List Command) : List WalRecord :=
  (commands.filterMap operation).map LogOperation.record

/-- A restart succeeds, and it finds exactly the given records in the log. -/
def Recovers (hc : HeaderConstants) (l : Layout) (d : Disk) (rs : List WalRecord) : Prop :=
  (∃ db d', Succeeds (initializeDatabase hc l.walFilename .sync) d (.ok db) d') ∧
    ∃ result data, Succeeds (recoverWal hc l.walFilename) d (result, data) d ∧
      ∀ key, data.lookup key = (replay ∅ rs).lookup key

/-- The torn tail and what was written behind it are still read as a torn tail, and what was
written changes nothing. -/
def Harmless (hc : HeaderConstants) (as : List WalRecord) (tail : Bytes) (bs : List WalRecord) :
    Prop :=
  (readRecord hc (tail ++ frames hc bs) = .eofReached ∨
      readRecord hc (tail ++ frames hc bs) = .incomplete) ∧
    ∀ key, (replay ∅ (as ++ bs)).lookup key = (replay ∅ as).lookup key

section Writes

variable {hc : HeaderConstants} {l : Layout} {d : Disk} {db : Database} {log : Bytes}

theorem executeAll_below (commands : List Command)
    (hwrites : ∀ c ∈ commands, (operation c).isSome = true)
    (hbelow : StaysBelow hc db.memtable (commands.filterMap operation))
    (hcar : db.storage.wal.Carries d log) :
    ∃ db' d', Succeeds (db.executeAll hc commands) d (commands.map (fun _ => text "OK"), db') d' ∧
      db'.storage.wal.Carries d' (log ++ frames hc (recordsOf commands)) ∧
      db.storage.wal.SameFile db'.storage.wal ∧
      Disk.SameExcept [db.storage.wal.filename] d d' := by
  induction commands generalizing db d log with
  | nil => exact ⟨db, d, .pure, by simpa [recordsOf] using hcar, ⟨rfl, rfl⟩, .refl⟩
  | cons command commands ih =>
    obtain ⟨op, hop⟩ := Option.isSome_iff_exists.mp (hwrites command List.mem_cons_self)
    rw [List.filterMap_cons_some hop] at hbelow
    obtain ⟨hfirst, hrest⟩ := hbelow
    obtain ⟨wal, d₁, happend, hcar₁, ⟨hname₁, hmode₁⟩, hsame₁⟩ :=
      Wal.appendRecord_succeeds hc hcar op.record
    have hexec : Succeeds (db.execute hc command) d (text "OK", db.written wal op) d₁ := by
      rw [execute_write hc db hop, LogOperation.append_eq]
      apply happend.bind
      have hend : flushIfDue hc (db.written wal op) = return (text "OK", db.written wal op) :=
        if_pos hfirst
      simp only [Bool.not_true, Bool.false_eq_true, if_false, hend]
      exact .pure
    have hcar₂ : (db.written wal op).storage.wal.Carries d₁ (log ++ Wal.frame hc op.record) := hcar₁
    obtain ⟨db', d', hruns, hcar', ⟨hname', hmode'⟩, hsame'⟩ :=
      ih (fun c hc => hwrites c (List.mem_cons_of_mem _ hc)) hrest hcar₂
    refine ⟨db', d', hexec.bind (hruns.bind .pure), ?_, ⟨hname'.trans hname₁, hmode'.trans hmode₁⟩, ?_⟩
    · rw [recordsOf, List.filterMap_cons_some hop, List.map_cons, frames_cons, ← List.append_assoc]
      exact hcar'
    · exact hsame₁.trans (hname₁ ▸ hsame')

end Writes

section Restart

variable {hc : HeaderConstants} {l : Layout} {d : Disk} {m : Manifest} {ms : List Entries}
  {as bs : List WalRecord} {tail : Bytes}

/-- A piece of a frame is read as a torn tail; less than a length field is read as nothing. -/
theorem readRecord_tail {r : WalRecord} (hr : Loggable r ∨ tail.length < 4)
    (hpre : tail <+: Wal.frame hc r) (hlt : tail.length < (Wal.frame hc r).length) :
    readRecord hc tail = .eofReached ∨ readRecord hc tail = .incomplete := by
  rcases hr with hr | hr
  · exact readRecord_torn hr hpre hlt
  · exact Or.inl (if_pos hr)

theorem recovers_of_harmless (hp : Persisted l d m) (hs : Shows l d m ms)
    (has : ∀ r ∈ as, Loggable r)
    (hfile : d.lookup l.walFilename = some (.regular (frames hc as ++ (tail ++ frames hc bs))))
    (h : Harmless hc as tail bs) : Recovers hc l d (as ++ bs) := by
  obtain ⟨hread, hsame⟩ := h
  obtain ⟨hdata, hstatus⟩ := recoverFrom_stops (replay ∅ as) hread
  rw [← recoverFrom_frames as has] at hdata hstatus
  obtain ⟨db, d', hinit, -⟩ := initialize_succeeds hc .sync hp hs (Or.inl hfile) hstatus
  refine ⟨⟨db, d', hinit⟩, (recoverFrom hc ∅ (frames hc as ++ (tail ++ frames hc bs))).1,
    (recoverFrom hc ∅ (frames hc as ++ (tail ++ frames hc bs))).2, recoverWal_succeeds hfile, ?_⟩
  intro key
  rw [hdata, hsame]

theorem harmless_of_recovers (hp : Persisted l d m) (hs : Shows l d m ms)
    (has : ∀ r ∈ as, Loggable r)
    (hfile : d.lookup l.walFilename = some (.regular (frames hc as ++ (tail ++ frames hc bs))))
    (h : Recovers hc l d (as ++ bs)) :
    Harmless hc as tail bs ∨
      ∃ record rest, readRecord hc (tail ++ frames hc bs) = .success record rest := by
  obtain ⟨⟨db, d', hinit⟩, result, data, hrec, hdata⟩ := h
  obtain ⟨hresult, -⟩ := hrec.unique (recoverWal_succeeds hfile)
  have hstep : recoverFrom hc ∅ (frames hc as ++ (tail ++ frames hc bs)) =
      recoverFrom hc (replay ∅ as) (tail ++ frames hc bs) := recoverFrom_frames as has ∅ _
  have hread : recoverFrom hc (replay ∅ as) (tail ++ frames hc bs) = _ := recoverFrom_eq _ _
  -- a refused log contradicts the start
  have hgood : ¬ ((recoverFrom hc ∅ (frames hc as ++ (tail ++ frames hc bs))).1.status = .corrupted ∨
      (recoverFrom hc ∅ (frames hc as ++ (tail ++ frames hc bs))).1.status = .ioError) := by
    intro hbad
    obtain ⟨d₁, hrefused⟩ := initialize_refused hc .sync hp hs (Or.inl hfile) hbad
    obtain ⟨hcontra, -⟩ := hinit.unique hrefused
    cases hcontra
  have hquiet : (recoverFrom hc (replay ∅ as) (tail ++ frames hc bs)).2 = replay ∅ as →
      ∀ key, (replay ∅ (as ++ bs)).lookup key = (replay ∅ as).lookup key := by
    intro hsame key
    rw [← hdata, ← hsame, ← hstep, ← hresult]
  rw [hstep] at hgood
  cases hr : readRecord hc (tail ++ frames hc bs) with
  | success record rest => exact Or.inr ⟨record, rest, rfl⟩
  | eofReached =>
    rw [hr] at hread
    exact Or.inl ⟨Or.inl hr, hquiet (by rw [hread])⟩
  | incomplete =>
    rw [hr] at hread
    exact Or.inl ⟨Or.inr hr, hquiet (by rw [hread])⟩
  | corrupted e =>
    rw [hread, hr] at hgood
    exact absurd (Or.inl rfl) hgood
  | ioError e =>
    rw [hread, hr] at hgood
    exact absurd (Or.inr rfl) hgood

end Restart

/-- Writes acknowledged after a start on a torn log are found by the next start when they are
harmless, in particular when there are none. The only other case is that the torn tail and
the bytes behind it happen to make up a record with a right checksum. -/
theorem torn_tail_appends (hc : HeaderConstants) (l : Layout) (d : Disk) (m : Manifest)
    (ms : List Entries) (hp : Persisted l d m) (hs : Shows l d m ms) (as : List WalRecord)
    (has : ∀ r ∈ as, Loggable r) (r : WalRecord) (tail : Bytes)
    (hr : Loggable r ∨ tail.length < 4) (hpre : tail <+: Wal.frame hc r)
    (hlt : tail.length < (Wal.frame hc r).length)
    (hfile : d.lookup l.walFilename = some (.regular (frames hc as ++ tail))) :
    ∃ db d₁, Succeeds (initializeDatabase hc l.walFilename .sync) d (.ok db) d₁ ∧
      ∀ commands, (∀ c ∈ commands, (operation c).isSome = true) →
        StaysBelow hc db.memtable (commands.filterMap operation) →
        ∃ db₂ d₂, Succeeds (db.executeAll hc commands) d₁ (commands.map (fun _ => text "OK"), db₂)
            d₂ ∧
          (commands = [] → Harmless hc as tail (recordsOf commands)) ∧
          (Harmless hc as tail (recordsOf commands) → Recovers hc l d₂ (as ++ recordsOf commands)) ∧
          (Recovers hc l d₂ (as ++ recordsOf commands) → Harmless hc as tail (recordsOf commands) ∨
            ∃ record rest,
              readRecord hc (tail ++ frames hc (recordsOf commands)) = .success record rest) := by
  have htail := readRecord_tail hr hpre hlt
  obtain ⟨-, hstatus⟩ := recoverFrom_stops (replay ∅ as) htail
  rw [← recoverFrom_frames as has] at hstatus
  obtain ⟨db, d₁, hinit, hw, hman, hcar, hsync, hsame, -⟩ :=
    initialize_succeeds hc .sync hp hs (Or.inl hfile) hstatus
  refine ⟨db, d₁, hinit, ?_⟩
  intro commands hwrites hbelow
  obtain ⟨db₂, d₂, hruns, hcar₂, ⟨hname, hmode⟩, hsame₂⟩ :=
    executeAll_below commands hwrites hbelow hcar
  rw [hw.wal_eq] at hname hsame₂
  have hall := hsame.trans hsame₂
  have hp₂ := hp.of_same (hall _ (by simpa using l.wal_ne_manifest.symm))
  have hs₂ := hs.frame_wal hall
  have hfile₂ : d₂.lookup l.walFilename =
      some (.regular (frames hc as ++ (tail ++ frames hc (recordsOf commands)))) := by
    have hlookup := hcar₂.lookup_of_sync (hmode.trans hsync)
    rwa [hname, List.append_assoc] at hlookup
  refine ⟨db₂, d₂, hruns, ?_, recovers_of_harmless hp₂ hs₂ has hfile₂,
    harmless_of_recovers hp₂ hs₂ has hfile₂⟩
  rintro rfl
  refine ⟨?_, fun key => ?_⟩
  · rw [show tail ++ frames hc (recordsOf []) = tail from List.append_nil tail]
    exact htail
  · rw [show as ++ recordsOf [] = as from List.append_nil as]

/-- Constants with which nothing is flushed here. -/
def roomy : HeaderConstants := .ofThresholds 1000 1000 (by decide) (by decide)

def directory : Layout := Layout.ofDirectory (text "d")

def first : WalRecord := ⟨.put, text "a", text "x"⟩

/-- The log after a crash in the middle of writing `torn`: its first five bytes are there. -/
def tornLog (torn : WalRecord) : Disk :=
  AList.singleton directory.walFilename
    (.regular (frames roomy [first] ++ (Wal.frame roomy torn).take 5))

def restarted : Database where
  memtable := MemTable.empty.replace (AList.singleton (text "a") ⟨text "x", false⟩)
  storage := ⟨directory.walFilename, .sync, ⟨directory.walFilename, .sync, true, true, []⟩,
    ⟨directory.manifestFilename, [], 1⟩⟩

/-- The log with one more record behind the torn one. -/
def behind (torn next : WalRecord) : Disk :=
  AList.singleton directory.walFilename (.regular (frames roomy [first] ++
    ((Wal.frame roomy torn).take 5 ++ frames roomy [next])))

theorem persisted_tornLog (torn : WalRecord) :
    Persisted directory (tornLog torn) ⟨directory.manifestFilename, [], 1⟩ := Or.inr ⟨rfl, rfl⟩

def short : WalRecord := ⟨.put, text "b", text "y"⟩

def long : WalRecord := ⟨.put, text "b", text "a value of more than thirty bytes"⟩

/-- Writing the same value again behind a long torn record. -/
theorem torn_tail_appends_again :
    ∃ db₂ d₂, Succeeds (restarted.executeAll roomy [⟨.put, text "a", text "x"⟩]) (tornLog long)
        ([text "OK"], db₂) d₂ ∧ Recovers roomy directory d₂ [first, first] := by
  have hloggable : ∀ r ∈ [first], Loggable r := by
    intro r hr
    rw [List.mem_singleton.mp hr]
    exact ⟨by decide +kernel, by rintro ⟨⟩⟩
  have hlong : Loggable long := ⟨by decide +kernel, by rintro ⟨⟩⟩
  obtain ⟨db, d₁, hinit, hall⟩ := torn_tail_appends roomy directory (tornLog long) _ []
    (persisted_tornLog long) (.empty directory _) [first] hloggable long ((Wal.frame roomy long).take 5)
    (Or.inl hlong) (List.take_prefix _ _) (by decide +kernel) rfl
  have hrestarted : Succeeds (initializeDatabase roomy directory.walFilename .sync) (tornLog long)
      (.ok restarted) (tornLog long) := by decide +kernel
  obtain ⟨hdb, rfl⟩ := hinit.unique hrestarted
  cases hdb
  obtain ⟨db₂, d₂, hruns, -, hrec, -⟩ := hall [⟨.put, text "a", text "x"⟩] (by decide)
    ⟨by decide +kernel, trivial⟩
  refine ⟨db₂, d₂, hruns, hrec ⟨Or.inr (by decide +kernel), fun key => ?_⟩⟩
  have hsame : replay ∅ ([first] ++ recordsOf [⟨.put, text "a", text "x"⟩]) = replay ∅ [first] := by
    decide +kernel
  rw [hsame]

def third : Command := ⟨.put, text "c", text "z"⟩

def written : Database := { restarted with memtable := restarted.memtable.put third.key third.value }

/-- A write acknowledged behind a torn record: the next start fails when the torn record was
short, and forgets the write when it was long. -/
theorem write_behind_torn_tail_lost :
    (Succeeds (initializeDatabase roomy directory.walFilename .sync) (tornLog short) (.ok restarted)
        (tornLog short) ∧
      Succeeds (restarted.execute roomy third) (tornLog short) (text "OK", written)
        (behind short ⟨.put, third.key, third.value⟩) ∧
      Succeeds (initializeDatabase roomy directory.walFilename .sync)
        (behind short ⟨.put, third.key, third.value⟩) (.error (text "WAL checksum mismatch"))
        (behind short ⟨.put, third.key, third.value⟩)) ∧
    Succeeds (initializeDatabase roomy directory.walFilename .sync) (tornLog long) (.ok restarted)
        (tornLog long) ∧
      Succeeds (restarted.execute roomy third) (tornLog long) (text "OK", written)
        (behind long ⟨.put, third.key, third.value⟩) ∧
      Succeeds (initializeDatabase roomy directory.walFilename .sync)
        (behind long ⟨.put, third.key, third.value⟩) (.ok restarted)
        (behind long ⟨.put, third.key, third.value⟩) ∧
      ¬ Recovers roomy directory (behind long ⟨.put, third.key, third.value⟩)
        [first, ⟨.put, third.key, third.value⟩] := by
  refine ⟨⟨by decide +kernel, by decide +kernel, by decide +kernel⟩, by decide +kernel,
    by decide +kernel, by decide +kernel, ?_⟩
  rintro ⟨-, result, data, hrec, hdata⟩
  have hfound : Succeeds (recoverWal roomy directory.walFilename)
      (behind long ⟨.put, third.key, third.value⟩)
      (⟨.recoveredIncompleteTail, text "Recovered WAL with incomplete final record"⟩,
        AList.singleton (text "a") ⟨text "x", false⟩)
      (behind long ⟨.put, third.key, third.value⟩) := by decide +kernel
  obtain ⟨hresult, -⟩ := hrec.unique hfound
  obtain ⟨-, rfl⟩ := Prod.mk.inj hresult
  exact absurd (hdata (text "c")) (by decide +kernel)

end ForgeDB.TornTailAppends
