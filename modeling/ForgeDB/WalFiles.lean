import ForgeDB.CrashPrograms
import ForgeDB.Crc32
import ForgeDB.FilePaths
import ForgeDB.WalRecords

/-!
# The log file

The log is an output stream in append mode. Bytes given to the stream wait in its
buffer until a flush hands them to the file; a stream in an error state ignores
further writes until it is reopened. Numbers are written in the machine's own byte
order, taken to be little-endian.
-/

namespace ForgeDB
open CrashPrograms CrashPrograms.Io LittleEndian WalRecords

structure Wal where
  filename : Bytes
  durabilityMode : DurabilityMode
  isOpen : Bool
  good : Bool
  buffered : Bytes
  deriving DecidableEq

namespace Wal

/-- The physical record: payload length, payload, checksum of the payload. -/
def frame (hc : HeaderConstants) (record : WalRecord) : Bytes :=
  let payload := serializeWalRecord hc record
  encode 4 (payload.length % 2 ^ 32) ++ payload ++ encode 4 (Crc32.calculateCrc32 payload).toNat

/-- The directories made here are not tracked: the step succeeds or fails. -/
def makeParent (filename : Bytes) : Io Bool :=
  if FilePaths.parentPath filename = [] then pure true else consult

def openAppend (w : Wal) : Io (Bool × Wal) := do
  if w.isOpen then
    return (true, w)
  let made ← makeParent w.filename
  if !made then
    return (false, w)
  let opened ← openAppending w.filename
  if opened then
    return (true, { w with isOpen := true, good := true, buffered := [] })
  else
    return (false, { w with good := false })

/-- The constructor opens the file and does not look at the result. -/
def create (filename : Bytes) (mode : DurabilityMode) : Io Wal := do
  let (_, w) ← openAppend ⟨filename, mode, false, true, []⟩
  return w

/-- `file_.write`: a failing or dying process may have handed on part of the buffer. -/
def streamWrite (w : Wal) (bs : Bytes) : Io Wal := do
  if !w.good then
    return w
  let taken ← attempt id (fun n => Disk.append w.filename ((w.buffered ++ bs).take n))
  if taken then
    return { w with buffered := w.buffered ++ bs }
  else
    return { w with good := false, buffered := [] }

def flush (w : Wal) : Io Wal := do
  if !w.good then
    return w
  let written ← write w.filename w.buffered
  if written then
    return { w with buffered := [] }
  else
    return { w with good := false, buffered := [] }

def sync (w : Wal) : Io (Bool × Wal) := do
  if !w.isOpen then
    return (false, w)
  let w ← w.flush
  return (w.good, w)

def shouldSync (w : Wal) : Bool := w.durabilityMode = .sync

def appendRecord (hc : HeaderConstants) (w : Wal) (record : WalRecord) : Io (Bool × Wal) := do
  let (opened, w) ← w.openAppend
  if !opened then
    return (false, w)
  let w ← w.streamWrite (frame hc record)
  if !w.good then
    return (false, w)
  if w.shouldSync then
    w.sync
  else
    return (true, w)

def appendPut (hc : HeaderConstants) (w : Wal) (key value : Bytes) : Io (Bool × Wal) :=
  w.appendRecord hc ⟨.put, key, value⟩

def appendDelete (hc : HeaderConstants) (w : Wal) (key : Bytes) : Io (Bool × Wal) :=
  w.appendRecord hc ⟨.delete, key, []⟩

/-- Flush and close; what a stream in an error state still holds is lost. -/
def close (w : Wal) : Io Wal := do
  if !w.isOpen then
    return w
  let w ← w.flush
  return { w with isOpen := false, buffered := [] }

def ensurePresent (filename : Bytes) : Io Bool := do
  let d ← getDisk
  if (d.lookup filename).isSome then
    return true
  openTruncated filename

def truncate (w : Wal) (size : ℕ) : Io (Bool × Wal) := do
  let w ← w.close
  let looked ← consult
  if !looked then
    return (false, w)
  let present ← ensurePresent w.filename
  if !present then
    return (false, w)
  let resized ← resize w.filename size
  if !resized then
    return (false, w)
  w.openAppend

/-- The file and the stream's buffer together hold exactly the bytes `s`. -/
structure Carries (w : Wal) (d : Disk) (s : Bytes) : Prop where
  stored : ∃ c, d.lookup w.filename = some (.regular c) ∧ c ++ w.buffered = s
  good_of_open : w.isOpen = true → w.good = true
  empty_of_closed : w.isOpen = false → w.buffered = []
  empty_of_sync : w.durabilityMode = .sync → w.buffered = []

def SameFile (w w' : Wal) : Prop :=
  w'.filename = w.filename ∧ w'.durabilityMode = w.durabilityMode

variable {w : Wal} {d : Disk} {s : Bytes}

theorem Carries.of_same {d' : Disk} (h : w.Carries d s)
    (hsame : d'.lookup w.filename = d.lookup w.filename) : w.Carries d' s := by
  obtain ⟨c, hcont, hs⟩ := h.stored
  exact ⟨⟨c, hsame.trans hcont, hs⟩, h.good_of_open, h.empty_of_closed, h.empty_of_sync⟩

theorem openAppend_succeeds (h : w.Carries d s) :
    ∃ w', Succeeds w.openAppend d (true, w') d ∧ w'.Carries d s ∧ w.SameFile w' ∧
      w'.isOpen = true := by
  obtain ⟨c, hc, hs⟩ := h.stored
  cases ho : w.isOpen with
  | true => exact ⟨w, by simp [Succeeds, openAppend, ho], h, ⟨rfl, rfl⟩, ho⟩
  | false =>
    have hb := h.empty_of_closed ho
    refine ⟨{ w with isOpen := true, good := true, buffered := [] }, ?_,
      ⟨⟨c, hc, by simpa [hb] using hs⟩, fun _ => rfl, fun _ => rfl, fun _ => rfl⟩, ⟨rfl, rfl⟩, rfl⟩
    have hm : makeParent w.filename ⟨d, []⟩ = .returned true ⟨d, []⟩ := by
      rw [makeParent]
      split <;> rfl
    simp [Succeeds, openAppend, ho, hm, openAppending, hc]

theorem appendRecord_succeeds (hc : HeaderConstants) (h : w.Carries d s) (r : WalRecord) :
    ∃ w' d', Succeeds (w.appendRecord hc r) d (true, w') d' ∧ w'.Carries d' (s ++ frame hc r) ∧
      w.SameFile w' ∧ Disk.SameExcept [w.filename] d d' := by
  obtain ⟨w₁, hopen, hw₁, ⟨hname, hmode⟩, ho⟩ := openAppend_succeeds h
  obtain ⟨c, hcont, hs⟩ := hw₁.stored
  have hgood := hw₁.good_of_open ho
  cases hsync : w₁.durabilityMode with
  | sync =>
    have hb := hw₁.empty_of_sync hsync
    refine ⟨{ w₁ with buffered := [] }, Disk.append w₁.filename (w₁.buffered ++ frame hc r) d, ?_,
      ⟨⟨c ++ (w₁.buffered ++ frame hc r), Disk.lookup_append _ hcont, ?_⟩, fun _ => hgood,
        fun _ => rfl, fun _ => rfl⟩, ⟨hname, hmode⟩, ?_⟩
    · rw [Succeeds] at hopen ⊢
      simp [appendRecord, hopen, streamWrite, hgood, shouldSync, hsync, sync, ho, flush, write]
    · simp [← hs, List.append_assoc]
    · exact Disk.SameExcept.refl.append _ (by simp [hname])
  | async =>
    refine ⟨{ w₁ with buffered := w₁.buffered ++ frame hc r }, d, ?_,
      ⟨⟨c, hcont, by simp [← hs, List.append_assoc]⟩, fun _ => hgood, fun hcl => ?_,
        fun hsy => ?_⟩, ⟨hname, hmode⟩, Disk.SameExcept.refl⟩
    · rw [Succeeds] at hopen ⊢
      simp [appendRecord, hopen, streamWrite, hgood, shouldSync, hsync]
    · rw [ho] at hcl
      cases hcl
    · rw [hsync] at hsy
      cases hsy

theorem makeParent_frame (filename : Bytes) (d : Disk) :
    Ensures (makeParent filename) d (fun _ d' => d' = d) (fun d' => d' = d) := by
  rw [makeParent]
  split
  · exact .pure rfl
  · exact .consult (fun _ => rfl) rfl

theorem openAppend_frame (w : Wal) (d : Disk) :
    Ensures w.openAppend d (fun r d' => w.SameFile r.2 ∧ Disk.SameExcept [w.filename] d d')
      (fun d' => Disk.SameExcept [w.filename] d d') := by
  rw [openAppend]
  split
  · exact .pure ⟨⟨rfl, rfl⟩, .refl⟩
  refine .seq (fun _ d' => d' = d) ((makeParent_frame w.filename d).mono (fun _ _ h => h) ?_) ?_
  · rintro d' rfl
    exact .refl
  rintro made d' rfl
  cases made with
  | false => exact .pure ⟨⟨rfl, rfl⟩, .refl⟩
  | true =>
    refine .seq (fun _ d₁ => Disk.SameExcept [w.filename] d' d₁) ?_ ?_
    · refine .attempt ?_ (fun _ => .refl) (fun _ => .refl)
      split
      · exact .refl
      · exact Disk.SameExcept.refl.put (by simp)
    · intro opened d₁ hsame
      cases opened with
      | true => exact .pure ⟨⟨rfl, rfl⟩, hsame⟩
      | false => exact .pure ⟨⟨rfl, rfl⟩, hsame⟩

theorem streamWrite_frame (w : Wal) (bs : Bytes) (d : Disk) :
    Ensures (w.streamWrite bs) d (fun w' d' => w.SameFile w' ∧ Disk.SameExcept [w.filename] d d')
      (fun d' => Disk.SameExcept [w.filename] d d') := by
  rw [streamWrite]
  split
  · exact .pure ⟨⟨rfl, rfl⟩, .refl⟩
  · refine .seq (fun _ d' => Disk.SameExcept [w.filename] d d') ?_ ?_
    · exact .attempt .refl (fun _ => Disk.SameExcept.refl.append _ (by simp))
        (fun _ => Disk.SameExcept.refl.append _ (by simp))
    · intro taken d' hsame
      cases taken with
      | true => exact .pure ⟨⟨rfl, rfl⟩, hsame⟩
      | false => exact .pure ⟨⟨rfl, rfl⟩, hsame⟩

theorem flush_frame (w : Wal) (d : Disk) :
    Ensures w.flush d (fun w' d' => w.SameFile w' ∧ Disk.SameExcept [w.filename] d d')
      (fun d' => Disk.SameExcept [w.filename] d d') := by
  rw [flush]
  split
  · exact .pure ⟨⟨rfl, rfl⟩, .refl⟩
  · refine .seq (fun _ d' => Disk.SameExcept [w.filename] d d') ?_ ?_
    · exact .attempt (Disk.SameExcept.refl.append _ (by simp))
        (fun _ => Disk.SameExcept.refl.append _ (by simp))
        (fun _ => Disk.SameExcept.refl.append _ (by simp))
    · intro written d' hsame
      cases written with
      | true => exact .pure ⟨⟨rfl, rfl⟩, hsame⟩
      | false => exact .pure ⟨⟨rfl, rfl⟩, hsame⟩

theorem appendRecord_frame (hc : HeaderConstants) (w : Wal) (r : WalRecord) (d : Disk) :
    Ensures (w.appendRecord hc r) d
      (fun out d' => w.SameFile out.2 ∧ Disk.SameExcept [w.filename] d d')
      (fun d' => Disk.SameExcept [w.filename] d d') := by
  rw [appendRecord]
  refine (openAppend_frame w d).bind ?_
  rintro ⟨opened, w₁⟩ d₁ ⟨⟨hname, hmode⟩, hsame⟩
  cases opened with
  | false => exact .pure ⟨⟨hname, hmode⟩, hsame⟩
  | true =>
    have hwrite := streamWrite_frame w₁ (frame hc r) d₁
    rw [hname] at hwrite
    refine (hwrite.mono (fun _ _ h => h) (fun _ h => hsame.trans h)).bind ?_
    rintro w₂ d₂ ⟨⟨hname₂, hmode₂⟩, hsame₂⟩
    have hsame₂ := hsame.trans hsame₂
    have hfile₂ : w.SameFile w₂ := ⟨hname₂.trans hname, hmode₂.trans hmode⟩
    split
    · exact .pure ⟨hfile₂, hsame₂⟩
    split
    · rw [sync]
      split
      · exact .pure ⟨hfile₂, hsame₂⟩
      · have hflush := flush_frame w₂ d₂
        rw [hfile₂.1] at hflush
        refine (hflush.mono (fun _ _ h => h) (fun _ h => hsame₂.trans h)).bind ?_
        rintro w₃ d₃ ⟨⟨hname₃, hmode₃⟩, hsame₃⟩
        exact .pure ⟨⟨hname₃.trans hfile₂.1, hmode₃.trans hfile₂.2⟩, hsame₂.trans hsame₃⟩
    · exact .pure ⟨hfile₂, hsame₂⟩

theorem close_frame (w : Wal) (d : Disk) :
    Ensures w.close d (fun w' d' => w.SameFile w' ∧ Disk.SameExcept [w.filename] d d')
      (fun d' => Disk.SameExcept [w.filename] d d') := by
  rw [close]
  split
  · exact .pure ⟨⟨rfl, rfl⟩, .refl⟩
  · refine (flush_frame w d).bind ?_
    rintro w' d' ⟨hfile, hsame⟩
    exact .pure ⟨hfile, hsame⟩

theorem truncate_frame (w : Wal) (size : ℕ) (d : Disk) :
    Ensures (w.truncate size) d
      (fun out d' => w.SameFile out.2 ∧ Disk.SameExcept [w.filename] d d')
      (fun d' => Disk.SameExcept [w.filename] d d') := by
  rw [truncate]
  refine (close_frame w d).bind ?_
  rintro w₁ d₁ ⟨⟨hname, hmode⟩, hsame⟩
  refine .seq (fun _ d' => d' = d₁) (.consult (fun _ => rfl) hsame) ?_
  rintro looked d₂ rfl
  cases looked with
  | false => exact .pure ⟨⟨hname, hmode⟩, hsame⟩
  | true =>
    refine .seq (fun _ d₃ => Disk.SameExcept [w.filename] d d₃) ?_ ?_
    · rw [ensurePresent, hname]
      refine .seq (fun _ d₃ => d₃ = d₂) (.getDisk rfl) ?_
      rintro _ d₃ rfl
      split
      · exact .pure hsame
      · exact .attempt (hsame.put (by simp)) (fun _ => hsame) (fun _ => hsame)
    · intro present d₃ hsame₃
      cases present with
      | false => exact .pure ⟨⟨hname, hmode⟩, hsame₃⟩
      | true =>
        rw [hname]
        refine .seq (fun _ d₄ => Disk.SameExcept [w.filename] d d₄)
          (.attempt (hsame₃.put (by simp)) (fun _ => hsame₃) (fun _ => hsame₃)) ?_
        intro resized d₄ hsame₄
        cases resized with
        | false => exact .pure ⟨⟨hname, hmode⟩, hsame₄⟩
        | true =>
          have hopen := openAppend_frame w₁ d₄
          rw [hname] at hopen
          refine hopen.mono ?_ (fun _ h => hsame₄.trans h)
          rintro out d₅ ⟨⟨hname₅, hmode₅⟩, hsame₅⟩
          exact ⟨⟨hname₅.trans hname, hmode₅.trans hmode⟩, hsame₄.trans hsame₅⟩

private theorem append_nil_same (hcont : d.lookup w.filename = some (.regular s)) :
    (Disk.append w.filename [] d).lookup w.filename = some (.regular s) ∧
      Disk.SameExcept [w.filename] d (Disk.append w.filename [] d) :=
  ⟨by simpa using Disk.lookup_append [] hcont, Disk.SameExcept.refl.append _ (by simp)⟩

theorem Carries.lookup_of_sync (h : w.Carries d s) (hsync : w.durabilityMode = .sync) :
    d.lookup w.filename = some (.regular s) := by
  obtain ⟨c, hcont, hs⟩ := h.stored
  rw [h.empty_of_sync hsync, List.append_nil] at hs
  exact hs ▸ hcont

theorem flush_ensures (h : w.Carries d s) (hsync : w.durabilityMode = .sync) :
    Ensures w.flush d
      (fun w' d' => w'.buffered = [] ∧ w.SameFile w' ∧
        d'.lookup w.filename = some (.regular s) ∧ Disk.SameExcept [w.filename] d d')
      (fun d' => d'.lookup w.filename = some (.regular s) ∧ Disk.SameExcept [w.filename] d d') := by
  have hcont := h.lookup_of_sync hsync
  have hb := h.empty_of_sync hsync
  have hkeep := append_nil_same hcont
  rw [flush]
  split
  · exact .pure ⟨hb, ⟨rfl, rfl⟩, hcont, .refl⟩
  · refine .seq (fun _ d' => d'.lookup w.filename = some (.regular s) ∧
      Disk.SameExcept [w.filename] d d') ?_ ?_
    · rw [hb]
      exact .attempt hkeep (fun n => by simpa using hkeep) (fun n => by simpa using hkeep)
    · intro written d' hd'
      cases written with
      | true => exact .pure ⟨rfl, ⟨rfl, rfl⟩, hd'⟩
      | false => exact .pure ⟨rfl, ⟨rfl, rfl⟩, hd'⟩

theorem close_ensures (h : w.Carries d s) (hsync : w.durabilityMode = .sync) :
    Ensures w.close d
      (fun w' d' => w'.Carries d' s ∧ w.SameFile w' ∧ Disk.SameExcept [w.filename] d d')
      (fun d' => d'.lookup w.filename = some (.regular s) ∧ Disk.SameExcept [w.filename] d d') := by
  rw [close]
  split
  · exact .pure ⟨h, ⟨rfl, rfl⟩, .refl⟩
  · refine (flush_ensures h hsync).bind ?_
    rintro w' d' ⟨-, ⟨hname, hmode⟩, hcont, hsame⟩
    refine .pure ⟨⟨⟨s, ?_, by simp⟩, ?_, fun _ => rfl, fun _ => rfl⟩, ⟨hname, hmode⟩, hsame⟩
    · rw [← hcont, ← hname]
    · rintro ⟨⟩

theorem openAppend_ensures (h : w.Carries d s) :
    Ensures w.openAppend d
      (fun r d' => r.2.Carries d' s ∧ w.SameFile r.2 ∧ d' = d) (fun d' => d' = d) := by
  obtain ⟨c, hcont, hs⟩ := h.stored
  rw [openAppend]
  split
  · exact .pure ⟨h, ⟨rfl, rfl⟩, rfl⟩
  · rename_i ho
    have hclosed : w.isOpen = false := by simpa using ho
    have hb := h.empty_of_closed hclosed
    refine .seq (fun _ d' => d' = d) ?_ ?_
    · rw [makeParent]
      split
      · exact .pure rfl
      · exact .consult (fun _ => rfl) rfl
    · rintro made d' rfl
      cases made with
      | false => exact .pure ⟨h, ⟨rfl, rfl⟩, rfl⟩
      | true =>
        refine .seq (fun _ d₂ => d₂ = d') ?_ ?_
        · exact .attempt (by simp [hcont]) (fun _ => rfl) (fun _ => rfl)
        · rintro opened d₂ rfl
          cases opened with
          | true =>
            exact .pure ⟨⟨⟨c, hcont, by simpa [hb] using hs⟩, fun _ => rfl, fun _ => rfl,
              fun _ => rfl⟩, ⟨rfl, rfl⟩, rfl⟩
          | false =>
            refine .pure ⟨⟨⟨c, hcont, hs⟩, fun hop => ?_, fun _ => hb, fun _ => hb⟩, ⟨rfl, rfl⟩, rfl⟩
            simp [hclosed] at hop

/-- However a truncation to zero ends, the file is as it was or empty. -/
theorem truncate_ensures (h : w.Carries d s) (hsync : w.durabilityMode = .sync) :
    Ensures (w.truncate 0) d
      (fun r d' => (r.2.Carries d' s ∨ r.2.Carries d' []) ∧ (r.1 = true → r.2.Carries d' []) ∧
        w.SameFile r.2 ∧ Disk.SameExcept [w.filename] d d')
      (fun d' => (d'.lookup w.filename = some (.regular s) ∨
        d'.lookup w.filename = some (.regular [])) ∧ Disk.SameExcept [w.filename] d d') := by
  rw [truncate]
  refine ((close_ensures h hsync).mono (fun _ _ hp => hp) (fun d' hd' => ⟨Or.inl hd'.1, hd'.2⟩)).bind ?_
  rintro w₁ d₁ ⟨hw₁, ⟨hname, hmode⟩, hsame⟩
  have hcont : d₁.lookup w.filename = some (.regular s) :=
    hname ▸ hw₁.lookup_of_sync (hmode.trans hsync)
  refine .seq (fun _ d' => d' = d₁) (.consult (fun _ => rfl) ⟨Or.inl hcont, hsame⟩) ?_
  rintro looked d' rfl
  cases looked with
  | false => exact .pure ⟨Or.inl hw₁, by simp, ⟨hname, hmode⟩, hsame⟩
  | true =>
    refine .seq (fun present d₂ => present = true ∧ d₂ = d') ?_ ?_
    · refine .seq (fun x d₂ => x = d' ∧ d₂ = d') (.getDisk ⟨rfl, rfl⟩) ?_
      rintro x d₂ ⟨rfl, rfl⟩
      rw [if_pos (by rw [hname, hcont]; rfl)]
      exact .pure ⟨rfl, rfl⟩
    · rintro present d₂ ⟨rfl, rfl⟩
      have hempty : (Disk.put w.filename [] d₂).lookup w.filename = some (.regular []) :=
        Disk.lookup_put
      have hoff : Disk.SameExcept [w.filename] d (Disk.put w.filename [] d₂) := hsame.put (by simp)
      refine .seq (fun ok d₃ => (ok = false ∧ d₃ = d₂) ∨
        (ok = true ∧ d₃ = Disk.put w.filename [] d₂)) ?_ ?_
      · rw [hname]
        exact .attempt (Or.inr ⟨rfl, by simp⟩) (fun _ => Or.inl ⟨rfl, rfl⟩)
          (fun _ => ⟨Or.inl hcont, hsame⟩)
      · rintro ok d₃ (⟨rfl, rfl⟩ | ⟨rfl, rfl⟩)
        · exact .pure ⟨Or.inl hw₁, by simp, ⟨hname, hmode⟩, hsame⟩
        · have hw₂ : w₁.Carries (Disk.put w.filename [] d₂) [] :=
            ⟨⟨[], hname ▸ hempty, by simp [hw₁.empty_of_sync (hmode.trans hsync)]⟩,
              hw₁.good_of_open, hw₁.empty_of_closed, hw₁.empty_of_sync⟩
          refine (openAppend_ensures hw₂).mono ?_ ?_
          · rintro ⟨ok, w₃⟩ d₄ ⟨hw₃, ⟨hname₃, hmode₃⟩, rfl⟩
            exact ⟨Or.inr hw₃, fun _ => hw₃, ⟨hname₃.trans hname, hmode₃.trans hmode⟩, hoff⟩
          · rintro d₄ rfl
            exact ⟨Or.inr hempty, hoff⟩

theorem close_succeeds (h : w.Carries d s) :
    ∃ w' d', Succeeds w.close d w' d' ∧ w'.Carries d' s ∧ w.SameFile w' ∧
      Disk.SameExcept [w.filename] d d' ∧ w'.isOpen = false := by
  obtain ⟨c, hcont, hs⟩ := h.stored
  cases ho : w.isOpen with
  | false => exact ⟨w, d, by simp [Succeeds, close, ho], h, ⟨rfl, rfl⟩, .refl, ho⟩
  | true =>
    refine ⟨{ w with isOpen := false, buffered := [] }, Disk.append w.filename w.buffered d, ?_,
      ⟨⟨s, by simpa [hs] using Disk.lookup_append w.buffered hcont, by simp⟩, ?_, fun _ => rfl,
        fun _ => rfl⟩, ⟨rfl, rfl⟩, Disk.SameExcept.refl.append _ (by simp), rfl⟩
    · simp [Succeeds, close, ho, flush, h.good_of_open ho, write]
    · rintro ⟨⟩

theorem truncate_succeeds (h : w.Carries d s) :
    ∃ w' d', Succeeds (w.truncate 0) d (true, w') d' ∧ w'.Carries d' [] ∧ w.SameFile w' ∧
      Disk.SameExcept [w.filename] d d' := by
  obtain ⟨w₁, d₁, hclose, hw₁, ⟨hname, hmode⟩, hsame, hcl⟩ := close_succeeds h
  obtain ⟨c, hcont, -⟩ := hw₁.stored
  have hw₂ : w₁.Carries (Disk.put w₁.filename [] d₁) [] :=
    ⟨⟨[], Disk.lookup_put, by simp [hw₁.empty_of_closed hcl]⟩, hw₁.good_of_open,
      hw₁.empty_of_closed, hw₁.empty_of_sync⟩
  obtain ⟨w₂, hopen, hcar, ⟨hname₂, hmode₂⟩, -⟩ := openAppend_succeeds hw₂
  refine ⟨w₂, Disk.put w₁.filename [] d₁, ?_, hcar, ⟨hname₂.trans hname, hmode₂.trans hmode⟩,
    hsame.put (by simp [hname])⟩
  rw [Succeeds] at hclose hopen ⊢
  simp [truncate, hclose, ensurePresent, hcont, resize, hopen]

/-- A new log object on a file that is there, or in a place where it can be made. -/
theorem create_succeeds (filename : Bytes) (mode : DurabilityMode) (d : Disk) (s : Bytes)
    (h : d.lookup filename = some (.regular s) ∨ (d.lookup filename = none ∧ s = [])) :
    ∃ w d', Succeeds (create filename mode) d w d' ∧ w.Carries d' s ∧ w.filename = filename ∧
      w.durabilityMode = mode ∧ d'.lookup filename = some (.regular s) ∧
      (∀ q ≠ filename, d'.lookup q = d.lookup q) := by
  have hm : makeParent filename ⟨d, []⟩ = .returned true ⟨d, []⟩ := by
    rw [makeParent]
    split <;> rfl
  rcases h with h | ⟨h, rfl⟩
  · refine ⟨⟨filename, mode, true, true, []⟩, d, ?_,
      ⟨⟨s, h, by simp⟩, fun _ => rfl, fun _ => rfl, fun _ => rfl⟩, rfl, rfl, h, fun _ _ => rfl⟩
    simp [Succeeds, create, openAppend, hm, openAppending, h]
  · refine ⟨⟨filename, mode, true, true, []⟩, Disk.put filename [] d, ?_,
      ⟨⟨[], Disk.lookup_put, rfl⟩, fun _ => rfl, fun _ => rfl, fun _ => rfl⟩, rfl, rfl,
      Disk.lookup_put, fun q hq => Disk.lookup_put_ne hq⟩
    simp [Succeeds, create, openAppend, hm, openAppending, h]

end Wal
end ForgeDB
