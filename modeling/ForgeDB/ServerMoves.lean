import Mathlib.Logic.Relation
import ForgeDB.Servers

/-!
# What the server process can do

Every callback is a sequence of moves of one connection: bytes arrive, a request is
answered, output is sent, the connection is discarded. The moves say what each part of the
code does to the process when the connections it points to exist; that they do is the
invariant `Owned`, which every move keeps. A property that every move keeps then holds in
every state of every run.
-/

namespace ForgeDB
open StreamFraming Protocol

namespace Process

variable {σ : Type}

/-- Every connection is in the table under its open descriptor, and every callback belongs
to the connection in the table or to the listening socket. -/
structure Owned (p : Process σ) : Prop where
  exists_object : ∀ {fd id}, p.connections.lookup fd = some id → ∃ o, p.objects id = some o ∧ o.fd = fd
  lookup_fd : ∀ {id o}, p.objects id = some o → p.connections.lookup o.fd = some id
  fd_nonneg : ∀ {id o}, p.objects id = some o → 0 ≤ o.fd
  not_closed : ∀ {id o}, p.objects id = some o → o.state ≠ .closed
  lt_created : ∀ {id o}, p.objects id = some o → id < p.created
  reads : ∀ {fd id}, p.readCallbacks fd = some (.connection id) → p.connections.lookup fd = some id
  accepts : ∀ {fd}, p.readCallbacks fd = some .server → fd = p.serverFd ∧ 0 ≤ fd
  writes : ∀ {fd id}, p.writeCallbacks fd = some id → p.connections.lookup fd = some id
  open_iff : ∀ {fd}, fd ∈ p.descriptors ↔
    (fd = p.serverFd ∧ 0 ≤ fd) ∨ ∃ id, p.connections.lookup fd = some id
  server_unowned : 0 ≤ p.serverFd → p.connections.lookup p.serverFd = none

def discarded (p : Process σ) (id : ℕ) (fd : ℤ) : Process σ :=
  { p with
    connections := p.connections.erase fd
    objects := Function.update p.objects id none
    readCallbacks := Function.update p.readCallbacks fd none
    writeCallbacks := Function.update p.writeCallbacks fd none
    registrations := p.registrations.tail.tail
    descriptors := p.descriptors.erase fd }

def gained (p : Process σ) (id : ℕ) (o : ConnectionObject) (bytes : Bytes) : Process σ :=
  { p.put id { o with inputBuffer := o.inputBuffer ++ bytes } with
    received := Function.update p.received id (p.received id ++ bytes) }

def advanced (p : Process σ) (id : ℕ) (o : ConnectionObject) (taken : Bytes) : Process σ :=
  { p.put id { o with outputOffset := o.outputOffset + taken.length } with
    sent := Function.update p.sent id (p.sent id ++ taken) }

def drained (p : Process σ) (id : ℕ) (o : ConnectionObject) : Process σ :=
  { p.put id { o with state := .reading, outputBuffer := [], outputOffset := 0 } with
    writeCallbacks := Function.update p.writeCallbacks o.fd none
    registrations := p.registrations.tail }

/-- A client has been accepted under a new descriptor. -/
def accepted (p : Process σ) (fd : ℤ) : Process σ :=
  { p.put p.created ⟨fd, .reading, [], [], 0⟩ with
    connections := p.connections.insert fd p.created
    created := p.created + 1
    readCallbacks := Function.update p.readCallbacks fd
      (if p.registrations.headD true then some (.connection p.created) else none)
    registrations := p.registrations.tail
    descriptors := insert fd p.descriptors }

def detached (p : Process σ) (fd : ℤ) : Process σ :=
  { p with
    readCallbacks := Function.update p.readCallbacks fd none
    writeCallbacks := Function.update p.writeCallbacks fd none
    registrations := p.registrations.tail.tail }

end Process

namespace Service

variable {σ : Type} (S : Service σ)

/-- The response of the handler to a request made now. -/
def responseTo (p : Process σ) (payload : Bytes) : Bytes :=
  (S.messageHandler p.handlerState payload).2.response

def asked (p : Process σ) (id : ℕ) (payload : Bytes) : Process σ :=
  { p with
    handlerState := (S.messageHandler p.handlerState payload).1
    served := p.served ++ [⟨id, payload, S.responseTo p payload⟩] }

/-- A request has been answered; `rest` is the input behind it. -/
def answered (p : Process σ) (id : ℕ) (o : ConnectionObject) (payload rest : Bytes) : Process σ :=
  { (S.asked p id payload).put id
      { o with
        state := .writing
        inputBuffer := rest
        outputBuffer := o.outputBuffer ++ createFrame S.maxMessageSize (S.responseTo p payload) } with
    writeCallbacks := Function.update p.writeCallbacks o.fd
      (if p.registrations.headD true then some id else none)
    registrations := p.registrations.tail }

/-- A request whose response is too large: the connection is discarded, and read again. -/
def overflowed (p : Process σ) (id : ℕ) (o : ConnectionObject) (payload : Bytes) : Process σ :=
  ((S.asked p id payload).discarded id o.fd).fail (.destroyed id)

/-- One move of the process, on behalf of the numbered connection. -/
inductive Move : ℕ → Process σ → Process σ → Prop where
  | gain {p : Process σ} {id : ℕ} {o : ConnectionObject} (bytes : Bytes) (ho : p.objects id = some o) :
      Move id p (p.gained id o bytes)
  | answer {p : Process σ} {id : ℕ} {o : ConnectionObject} {payload rest : Bytes}
      (ho : p.objects id = some o)
      (hlook : (framer S.maxMessageSize).look o.inputBuffer = .framed payload rest)
      (hfits : (S.responseTo p payload).length ≤ S.maxMessageSize) :
      Move id p (S.answered p id o payload rest)
  | overflow {p : Process σ} {id : ℕ} {o : ConnectionObject} {payload rest : Bytes}
      (ho : p.objects id = some o)
      (hlook : (framer S.maxMessageSize).look o.inputBuffer = .framed payload rest)
      (hlarge : ¬ (S.responseTo p payload).length ≤ S.maxMessageSize) :
      Move id p (S.overflowed p id o payload)
  | settle {p : Process σ} {id : ℕ} {o : ConnectionObject} (ho : p.objects id = some o)
      (hready : ¬ (framer S.maxMessageSize).Ready o.inputBuffer) :
      Move id p (p.put id
        { o with inputBuffer := (framer S.maxMessageSize).settled o.inputBuffer })
  | advance {p : Process σ} {id : ℕ} {o : ConnectionObject} (count : ℕ)
      (ho : p.objects id = some o) :
      Move id p (p.advanced id o ((o.outputBuffer.drop o.outputOffset).take count))
  | drain {p : Process σ} {id : ℕ} {o : ConnectionObject} (ho : p.objects id = some o)
      (hdone : o.outputBuffer.length ≤ o.outputOffset) : Move id p (p.drained id o)
  | discard {p : Process σ} {id : ℕ} {o : ConnectionObject} (ho : p.objects id = some o) :
      Move id p (p.discarded id o.fd)
  | accept {p : Process σ} {fd : ℤ} (hfresh : fd ∉ p.descriptors) (hfd : 0 ≤ fd) :
      Move p.created p (p.accepted fd)

end Service

namespace Process

variable {σ : Type} {p : Process σ} {id : ℕ} {o o' : ConnectionObject} {fd : ℤ}

@[simp] theorem put_objects_self : (p.put id o).objects id = some o := Function.update_self ..

theorem put_objects_of_ne {id' : ℕ} (h : id' ≠ id) : (p.put id o).objects id' = p.objects id' :=
  Function.update_of_ne h ..

theorem addRead_eq (p : Process σ) (fd : ℤ) (callback : Target) :
    p.addRead fd callback = (p.registrations.headD true,
      { p with
        readCallbacks := Function.update p.readCallbacks fd
          (if p.registrations.headD true then some callback else none)
        registrations := p.registrations.tail }) := by
  rw [addRead, registerEvent]
  cases p.registrations.headD true with
  | true => rfl
  | false => simp only [Bool.false_eq_true, if_false, Function.update_idem]

theorem addWrite_eq (p : Process σ) (fd : ℤ) (id : ℕ) :
    p.addWrite fd id = (p.registrations.headD true,
      { p with
        writeCallbacks := Function.update p.writeCallbacks fd
          (if p.registrations.headD true then some id else none)
        registrations := p.registrations.tail }) := by
  rw [addWrite, registerEvent]
  cases p.registrations.headD true with
  | true => rfl
  | false => simp only [Bool.false_eq_true, if_false, Function.update_idem]

theorem closeDescriptor_of_mem (h : fd ∈ p.descriptors) :
    p.closeDescriptor fd = { p with descriptors := p.descriptors.erase fd } := if_pos h

theorem closeDescriptor_insert (h : fd ∉ p.descriptors) :
    closeDescriptor { p with descriptors := insert fd p.descriptors } fd = p := by
  rw [closeDescriptor_of_mem (Finset.mem_insert_self ..)]
  simp only [Finset.erase_insert h]

theorem allocate_not_mem (p : Process σ) (descriptor : ℕ) :
    p.allocate descriptor ∉ p.descriptors := by
  rw [allocate]
  split
  · intro hmem
    have hle : Int.toNat ((p.descriptors.sup Int.toNat + 1 : ℕ) : ℤ) ≤ p.descriptors.sup Int.toNat :=
      Finset.le_sup hmem
    rw [Int.toNat_natCast] at hle
    omega
  · assumption

theorem allocate_nonneg (p : Process σ) (descriptor : ℕ) : 0 ≤ p.allocate descriptor := by
  rw [allocate]
  split <;> exact Int.natCast_nonneg _

namespace Owned

/-- Where a connection is in the table, its descriptor is open and not the server's. -/
theorem fd_mem (h : p.Owned) (ho : p.objects id = some o) : o.fd ∈ p.descriptors :=
  h.open_iff.mpr (Or.inr ⟨id, h.lookup_fd ho⟩)

theorem fd_injective (h : p.Owned) {id' : ℕ} (ho : p.objects id = some o)
    (ho' : p.objects id' = some o') (hfd : o.fd = o'.fd) : id = id' := by
  have hlookup := h.lookup_fd ho
  rw [hfd, h.lookup_fd ho'] at hlookup
  exact (Option.some.inj hlookup).symm

theorem server_ne (h : p.Owned) (ho : p.objects id = some o) : p.serverFd ≠ o.fd := by
  intro heq
  have hnone := h.server_unowned (heq ▸ h.fd_nonneg ho)
  rw [heq, h.lookup_fd ho] at hnone
  cases hnone

end Owned

/-- Closing a connection that exists takes it out of everything. -/
theorem closeConnection_eq (h : p.Owned) (ho : p.objects id = some o) :
    p.closeConnection id = p.discarded id o.fd := by
  have hmem : o.fd ∈ p.descriptors := h.fd_mem ho
  simp only [closeConnection, ho, if_neg (h.not_closed ho), remove, removeRead, removeWrite,
    registerEvent, put, if_pos (h.fd_nonneg ho), closeDescriptor_of_mem, hmem, removeConnection,
    h.lookup_fd ho, destroy, Function.update_self, Function.update_idem, discarded,
    Int.reduceNeg, Int.reduceLE, if_false]

/-- A new descriptor is not in the table, so the connection is kept and started. -/
theorem addConnection_eq (h : p.Owned) (hfresh : fd ∉ p.descriptors) :
    { p with descriptors := insert fd p.descriptors }.addConnection fd = p.accepted fd := by
  have hnone : p.connections.lookup fd = none := by
    cases hlookup : p.connections.lookup fd with
    | none => rfl
    | some id => exact absurd (h.open_iff.mpr (Or.inr ⟨id, hlookup⟩)) hfresh
  simp only [addConnection, put, hnone, Option.isSome_none, Bool.false_eq_true, if_false,
    AList.lookup_insert, start, Function.update_self, reduceCtorEq, addRead_eq, accepted]

namespace Owned

theorem put (h : p.Owned) (ho : p.objects id = some o) (hfd : o'.fd = o.fd)
    (hstate : o'.state ≠ .closed) : (p.put id o').Owned := by
  have hobject : ∀ {i x}, (p.put id o').objects i = some x →
      ∃ y, p.objects i = some y ∧ x.fd = y.fd ∧ x.state ≠ .closed := by
    intro i x hx
    by_cases hi : i = id
    · subst hi
      rw [put_objects_self] at hx
      cases hx
      exact ⟨o, ho, hfd, hstate⟩
    · rw [put_objects_of_ne hi] at hx
      exact ⟨x, hx, rfl, h.not_closed hx⟩
  refine ⟨?_, ?_, ?_, ?_, ?_, h.reads, h.accepts, h.writes, h.open_iff, h.server_unowned⟩
  · intro fd i hlookup
    obtain ⟨y, hy, hyfd⟩ := h.exists_object hlookup
    by_cases hi : i = id
    · subst hi
      rw [ho] at hy
      cases hy
      exact ⟨o', put_objects_self, hfd.trans hyfd⟩
    · exact ⟨y, (put_objects_of_ne hi).trans hy, hyfd⟩
  · intro i x hx
    obtain ⟨y, hy, hxy, -⟩ := hobject hx
    rw [hxy]
    exact h.lookup_fd hy
  · intro i x hx
    obtain ⟨y, hy, hxy, -⟩ := hobject hx
    rw [hxy]
    exact h.fd_nonneg hy
  · intro i x hx
    obtain ⟨y, -, -, hxstate⟩ := hobject hx
    exact hxstate
  · intro i x hx
    obtain ⟨y, hy, -, -⟩ := hobject hx
    exact h.lt_created hy

theorem congr (h : p.Owned) {q : Process σ} (hserver : q.serverFd = p.serverFd)
    (hconnections : q.connections = p.connections) (hobjects : q.objects = p.objects)
    (hcreated : q.created = p.created) (hreads : q.readCallbacks = p.readCallbacks)
    (hwrites : q.writeCallbacks = p.writeCallbacks) (hopen : q.descriptors = p.descriptors) :
    q.Owned := by
  obtain ⟨h₁, h₂, h₃, h₄, h₅, h₆, h₇, h₈, h₉, h₁₀⟩ := h
  rw [← hserver, ← hconnections, ← hobjects, ← hcreated, ← hreads, ← hwrites, ← hopen] at *
  exact ⟨h₁, h₂, h₃, h₄, h₅, h₆, h₇, h₈, h₉, h₁₀⟩

theorem setWrite (h : p.Owned) (ho : p.objects id = some o) (registered : Bool)
    (registrations : List Bool) :
    Owned { p with
      writeCallbacks := Function.update p.writeCallbacks o.fd (if registered then some id else none)
      registrations := registrations } := by
  refine ⟨h.exists_object, h.lookup_fd, h.fd_nonneg, h.not_closed, h.lt_created, h.reads, h.accepts,
    ?_, h.open_iff, h.server_unowned⟩
  intro fd i hwrite
  by_cases hfd : fd = o.fd
  · subst hfd
    simp only [Function.update_self] at hwrite
    split at hwrite
    · cases hwrite
      exact h.lookup_fd ho
    · cases hwrite
  · simp only [Function.update_of_ne hfd] at hwrite
    exact h.writes hwrite

theorem asked {S : Service σ} (h : p.Owned) (id : ℕ) (payload : Bytes) :
    (S.asked p id payload).Owned :=
  h.congr rfl rfl rfl rfl rfl rfl rfl

theorem detached (h : p.Owned) (fd : ℤ) : (p.detached fd).Owned := by
  refine ⟨h.exists_object, h.lookup_fd, h.fd_nonneg, h.not_closed, h.lt_created, ?_, ?_, ?_,
    h.open_iff, h.server_unowned⟩
  · intro fd' i hread
    simp only [Process.detached, Function.update_apply] at hread
    split at hread
    · cases hread
    · exact h.reads hread
  · intro fd' hread
    simp only [Process.detached, Function.update_apply] at hread
    split at hread
    · cases hread
    · exact h.accepts hread
  · intro fd' i hwrite
    simp only [Process.detached, Function.update_apply] at hwrite
    split at hwrite
    · cases hwrite
    · exact h.writes hwrite

theorem discarded (h : p.Owned) (ho : p.objects id = some o) : (p.discarded id o.fd).Owned := by
  have hobject : ∀ {i x}, (p.discarded id o.fd).objects i = some x →
      p.objects i = some x ∧ x.fd ≠ o.fd := by
    intro i x hx
    simp only [Process.discarded, Function.update_apply] at hx
    split at hx
    · cases hx
    · next hi => exact ⟨hx, fun hfd => hi (h.fd_injective hx ho hfd)⟩
  have hlookup : ∀ {fd i}, fd ≠ o.fd →
      ((p.discarded id o.fd).connections.lookup fd = some i ↔ p.connections.lookup fd = some i) := by
    intro fd i hfd
    rw [Process.discarded, AList.lookup_erase_ne hfd]
  have herased : (p.discarded id o.fd).connections.lookup o.fd = none := AList.lookup_erase ..
  have hdetached := h.detached o.fd
  have hread_ne : ∀ {fd target}, (p.detached o.fd).readCallbacks fd = some target → fd ≠ o.fd := by
    intro fd target hread hfd
    simp only [hfd, Process.detached, Function.update_self] at hread
    cases hread
  have hwrite_ne : ∀ {fd i}, (p.detached o.fd).writeCallbacks fd = some i → fd ≠ o.fd := by
    intro fd i hwrite hfd
    simp only [hfd, Process.detached, Function.update_self] at hwrite
    cases hwrite
  refine ⟨?_, ?_, ?_, ?_, ?_, ?_, ?_, ?_, ?_, ?_⟩
  · intro fd i hfound
    have hfd : fd ≠ o.fd := by
      intro hfd
      rw [hfd, herased] at hfound
      cases hfound
    obtain ⟨x, hx, hxfd⟩ := h.exists_object ((hlookup hfd).mp hfound)
    have hi : i ≠ id := by
      rintro rfl
      rw [ho] at hx
      cases hx
      exact hfd hxfd.symm
    exact ⟨x, (Function.update_of_ne hi ..).trans hx, hxfd⟩
  · intro i x hx
    obtain ⟨hx, hfd⟩ := hobject hx
    exact (hlookup hfd).mpr (h.lookup_fd hx)
  · exact fun hx => h.fd_nonneg (hobject hx).1
  · exact fun hx => h.not_closed (hobject hx).1
  · exact fun hx => h.lt_created (hobject hx).1
  · exact fun hread => (hlookup (hread_ne hread)).mpr (hdetached.reads hread)
  · exact fun hread => hdetached.accepts hread
  · exact fun hwrite => (hlookup (hwrite_ne hwrite)).mpr (hdetached.writes hwrite)
  · intro fd
    have hserver := h.server_ne ho
    by_cases hfd : fd = o.fd
    · subst hfd
      have hclosed : o.fd ∉ (p.discarded id o.fd).descriptors := Finset.notMem_erase _ _
      refine iff_of_false hclosed ?_
      rintro (⟨heq, -⟩ | ⟨i, hfound⟩)
      · exact hserver heq.symm
      · rw [herased] at hfound
        cases hfound
    · have hmem : fd ∈ (p.discarded id o.fd).descriptors ↔ fd ∈ p.descriptors :=
        (Finset.mem_erase).trans (and_iff_right hfd)
      rw [hmem, h.open_iff]
      simp only [hlookup hfd]
      rfl
  · intro hserver
    have hne := h.server_ne ho
    exact (AList.lookup_erase_ne hne).trans (h.server_unowned hserver)

theorem accepted (h : p.Owned) (hfresh : fd ∉ p.descriptors) (hfd : 0 ≤ fd) :
    (p.accepted fd).Owned := by
  have hnone : ∀ {i}, p.connections.lookup fd ≠ some i :=
    fun hlookup => hfresh (h.open_iff.mpr (Or.inr ⟨_, hlookup⟩))
  have hlookup : ∀ {fd' i}, p.connections.lookup fd' = some i →
      (p.accepted fd).connections.lookup fd' = some i := by
    intro fd' i hfound
    have hne : fd' ≠ fd := by
      rintro rfl
      exact hnone hfound
    exact (AList.lookup_insert_ne hne).trans hfound
  have hself : (p.accepted fd).connections.lookup fd = some p.created := AList.lookup_insert ..
  have hfound : ∀ {fd' i}, (p.accepted fd).connections.lookup fd' = some i →
      (fd' = fd ∧ i = p.created) ∨ p.connections.lookup fd' = some i := by
    intro fd' i hfound
    by_cases hne : fd' = fd
    · subst hne
      rw [hself] at hfound
      exact Or.inl ⟨rfl, (Option.some.inj hfound).symm⟩
    · exact Or.inr ((AList.lookup_insert_ne hne).symm.trans hfound)
  have hobject : ∀ {i x}, (p.accepted fd).objects i = some x →
      (i = p.created ∧ x = ⟨fd, .reading, [], [], 0⟩) ∨ p.objects i = some x := by
    intro i x hx
    by_cases hi : i = p.created
    · subst hi
      simp only [Process.accepted, Process.put, Function.update_self] at hx
      exact Or.inl ⟨rfl, (Option.some.inj hx).symm⟩
    · simp only [Process.accepted, Process.put, Function.update_of_ne hi] at hx
      exact Or.inr hx
  refine ⟨?_, ?_, ?_, ?_, ?_, ?_, ?_, ?_, ?_, ?_⟩
  · intro fd' i hin
    obtain ⟨rfl, rfl⟩ | hin := hfound hin
    · exact ⟨_, Function.update_self .., rfl⟩
    · obtain ⟨x, hx, hxfd⟩ := h.exists_object hin
      have hi : i ≠ p.created := Nat.ne_of_lt (h.lt_created hx)
      exact ⟨x, (Function.update_of_ne hi ..).trans hx, hxfd⟩
  · intro i x hx
    obtain ⟨rfl, rfl⟩ | hx := hobject hx
    · exact hself
    · exact hlookup (h.lookup_fd hx)
  · intro i x hx
    obtain ⟨-, rfl⟩ | hx := hobject hx
    · exact hfd
    · exact h.fd_nonneg hx
  · intro i x hx
    obtain ⟨-, rfl⟩ | hx := hobject hx
    · simp
    · exact h.not_closed hx
  · intro i x hx
    obtain ⟨rfl, -⟩ | hx := hobject hx
    · exact Nat.lt_succ_self _
    · exact Nat.lt_succ_of_lt (h.lt_created hx)
  · intro fd' i hread
    by_cases hne : fd' = fd
    · subst hne
      simp only [Process.accepted, Function.update_self] at hread
      split at hread
      · cases hread
        exact hself
      · cases hread
    · simp only [Process.accepted, Function.update_of_ne hne] at hread
      exact hlookup (h.reads hread)
  · intro fd' hread
    by_cases hne : fd' = fd
    · subst hne
      simp only [Process.accepted, Function.update_self] at hread
      split at hread <;> cases hread
    · simp only [Process.accepted, Function.update_of_ne hne] at hread
      exact h.accepts hread
  · exact fun hwrite => hlookup (h.writes hwrite)
  · intro fd'
    have hmem : fd' ∈ (p.accepted fd).descriptors ↔ fd' = fd ∨ fd' ∈ p.descriptors :=
      Finset.mem_insert
    rw [hmem, h.open_iff]
    constructor
    · rintro (rfl | hserver | ⟨i, hin⟩)
      · exact Or.inr ⟨_, hself⟩
      · exact Or.inl hserver
      · exact Or.inr ⟨i, hlookup hin⟩
    · rintro (hserver | ⟨i, hin⟩)
      · exact Or.inr (Or.inl hserver)
      · obtain ⟨rfl, -⟩ | hin := hfound hin
        · exact Or.inl rfl
        · exact Or.inr (Or.inr ⟨i, hin⟩)
  · intro hserver
    have hne : p.serverFd ≠ fd := fun heq =>
      hfresh (h.open_iff.mpr (Or.inl ⟨heq.symm, hfd⟩))
    exact (AList.lookup_insert_ne hne).trans (h.server_unowned hserver)

theorem move {S : Service σ} {q : Process σ} (hmove : S.Move id p q) (h : p.Owned) : q.Owned := by
  cases hmove with
  | @gain _ _ o bytes ho =>
    have hopen := h.not_closed ho
    have hput : (p.put id { o with inputBuffer := o.inputBuffer ++ bytes }).Owned :=
      h.put ho rfl hopen
    exact hput.congr rfl rfl rfl rfl rfl rfl rfl
  | @answer _ _ o payload rest ho hlook hfits =>
    have hwrite := (h.asked (S := S) id payload).setWrite ho (p.registrations.headD true)
      p.registrations.tail
    exact hwrite.put ho rfl (by simp)
  | @overflow _ _ o payload rest ho hlook hlarge =>
    have hgone : ((S.asked p id payload).discarded id o.fd).Owned :=
      (h.asked (S := S) id payload).discarded ho
    exact hgone.congr rfl rfl rfl rfl rfl rfl rfl
  | settle ho hready =>
    have hopen := h.not_closed ho
    exact h.put ho rfl hopen
  | @advance _ _ o count ho =>
    have hopen := h.not_closed ho
    have hput : (p.put id { o with outputOffset := o.outputOffset +
        ((o.outputBuffer.drop o.outputOffset).take count).length }).Owned :=
      h.put ho rfl hopen
    exact hput.congr rfl rfl rfl rfl rfl rfl rfl
  | @drain _ _ o ho hdone =>
    have hwrite := h.setWrite ho false p.registrations.tail
    exact hwrite.put ho rfl (by simp)
  | discard ho => exact h.discarded ho
  | accept hfresh hfd => exact h.accepted hfresh hfd

end Owned
end Process

namespace Service

variable {σ : Type} {S : Service σ} {p q : Process σ} {id : ℕ} {o : ConnectionObject}
  {payload rest : Bytes}

/-- Moves of one connection, one after the other. -/
abbrev Moves (S : Service σ) (id : ℕ) : Process σ → Process σ → Prop :=
  Relation.ReflTransGen (S.Move id)

/-- No complete request of the connection is waiting. -/
def Settled (S : Service σ) (p : Process σ) (id : ℕ) : Prop :=
  ∀ o, p.objects id = some o → ¬ (framer S.maxMessageSize).Ready o.inputBuffer

theorem serveOf_of_fits (h : p.Owned) (ho : p.objects id = some o)
    (hfits : (S.responseTo p payload).length ≤ S.maxMessageSize) :
    S.serveOf (p.put id { o with inputBuffer := rest }) id payload =
      S.answered p id o payload rest := by
  have hframe : createFrame S.maxMessageSize (S.messageHandler p.handlerState payload).2.response ≠ [] :=
    createFrame_ne_nil_iff.mpr hfits
  simp only [serveOf, queueResponseOf, Process.put, Function.update_self, if_neg (h.not_closed ho),
    hframe, false_and, if_false, Process.addWrite_eq, Function.update_idem, answered, asked,
    responseTo]

theorem serveOf_of_not_fits (h : p.Owned) (ho : p.objects id = some o)
    (hlarge : ¬ (S.responseTo p payload).length ≤ S.maxMessageSize) :
    S.serveOf (p.put id { o with inputBuffer := rest }) id payload =
      (S.asked p id payload).discarded id o.fd := by
  have hframe : createFrame S.maxMessageSize (S.messageHandler p.handlerState payload).2.response = [] :=
    not_not.mp (fun hne => hlarge (createFrame_ne_nil_iff.mp hne))
  have hresponse : (S.messageHandler p.handlerState payload).2.response ≠ [] := by
    intro hnil
    rw [responseTo, hnil] at hlarge
    exact hlarge (Nat.zero_le _)
  have hopen := h.not_closed ho
  have hkept : (p.put id { o with inputBuffer := rest }).Owned := h.put ho rfl hopen
  have hput : (S.asked (p.put id { o with inputBuffer := rest }) id payload).Owned :=
    hkept.asked id payload
  have hclose := Process.closeConnection_eq hput (Process.put_objects_self ..)
  simp only [serveOf, queueResponseOf, Process.put, Function.update_self, if_neg hopen, hframe,
    hresponse, true_and, ne_eq, not_false_eq_true, if_true]
  refine hclose.trans ?_
  simp only [Process.discarded, asked, Process.put, Function.update_idem]
  rfl

theorem tryExtractFrame_of_not_ready {limit : ℕ} {s : Bytes} (h : ¬ (framer limit).Ready s) :
    tryExtractFrame limit s = (none, (framer limit).settled s) := by
  rw [tryExtractFrame_eq, Framer.settled]
  cases hlook : (framer limit).look s with
  | framed payload rest => exact absurd ⟨payload, rest, hlook⟩ h
  | incomplete => rfl
  | refused => rfl

theorem not_ready_settled {limit : ℕ} {s : Bytes} (h : ¬ (framer limit).Ready s) :
    ¬ (framer limit).Ready ((framer limit).settled s) := by
  by_cases hrefused : (framer limit).look s = .refused
  · rw [Framer.settled_of_refused hrefused]
    exact Framer.not_ready_nil
  · rw [Framer.settled_of_not_refused hrefused]
    exact h

theorem settled_of_none (h : p.objects id = none) : S.Settled p id := by
  intro o ho
  rw [h] at ho
  cases ho

theorem processTurnsOf_moves (turns : ℕ) (p : Process σ) (o : ConnectionObject) (h : p.Owned)
    (ho : p.objects id = some o) (hturns : o.inputBuffer.length < turns) :
    S.Moves id p (S.processTurnsOf turns p id) ∧ S.Settled (S.processTurnsOf turns p id) id := by
  induction turns generalizing p o with
  | zero => omega
  | succ turns ih =>
    rw [processTurnsOf, ho]
    simp only [if_neg (h.not_closed ho)]
    by_cases hready : (framer S.maxMessageSize).Ready o.inputBuffer
    · obtain ⟨payload, rest, hlook⟩ := hready
      have hshort := (framer S.maxMessageSize).shorter hlook
      simp only [tryExtractFrame_eq, hlook]
      by_cases hfits : (S.responseTo p payload).length ≤ S.maxMessageSize
      · have hmove := Move.answer ho hlook hfits
        rw [serveOf_of_fits h ho hfits]
        obtain ⟨hmoves, hsettled⟩ := ih (S.answered p id o payload rest) _ (h.move hmove)
          Process.put_objects_self (by simp only; omega)
        exact ⟨hmoves.head hmove, hsettled⟩
      · -- the connection is gone when the loop tests its state again
        have hmove := Move.overflow ho hlook hfits
        have hnone : ((S.asked p id payload).discarded id o.fd).objects id = none :=
          Function.update_self ..
        have hbroken : S.processTurnsOf turns ((S.asked p id payload).discarded id o.fd) id =
            S.overflowed p id o payload := by
          cases turns with
          | zero => omega
          | succ turns => rw [processTurnsOf, hnone, overflowed]
        rw [serveOf_of_not_fits h ho hfits, hbroken]
        exact ⟨Relation.ReflTransGen.single hmove, settled_of_none hnone⟩
    · simp only [tryExtractFrame_of_not_ready hready]
      refine ⟨Relation.ReflTransGen.single (Move.settle ho hready), ?_⟩
      intro o' ho'
      rw [Process.put_objects_self] at ho'
      cases ho'
      exact not_ready_settled hready

theorem processMessagesOf_moves (h : p.Owned) (ho : p.objects id = some o) :
    S.Moves id p (S.processMessagesOf p id) ∧ S.Settled (S.processMessagesOf p id) id := by
  rw [processMessagesOf, ho]
  exact processTurnsOf_moves _ p o h ho (Nat.lt_succ_self _)

theorem closeConnection_moves (h : p.Owned) (ho : p.objects id = some o) :
    S.Moves id p (p.closeConnection id) ∧ S.Settled (p.closeConnection id) id := by
  rw [Process.closeConnection_eq h ho]
  exact ⟨Relation.ReflTransGen.single (Move.discard ho), settled_of_none (Function.update_self ..)⟩

theorem receiveOf_moves (results : List RecvResult) (p : Process σ) (o : ConnectionObject)
    (h : p.Owned) (ho : p.objects id = some o) :
    S.Moves id p (S.receiveOf results p id) ∧ S.Settled (S.receiveOf results p id) id := by
  induction results generalizing p o with
  | nil => exact processMessagesOf_moves h ho
  | cons result results ih =>
    cases result with
    | received bytes =>
      rw [receiveOf, ho]
      simp only
      split
      · exact closeConnection_moves h ho
      · have hmove : S.Move id p (p.gained id o bytes) := Move.gain bytes ho
        obtain ⟨hmoves, hsettled⟩ := ih (p.gained id o bytes) _ (h.move hmove)
          Process.put_objects_self
        exact ⟨hmoves.head hmove, hsettled⟩
    | failed errno =>
      cases errno with
      | again => exact processMessagesOf_moves h ho
      | interrupted => exact ih p o h ho
      | other => exact closeConnection_moves h ho

theorem finishWritingOf_eq (p : Process σ) (id : ℕ) (o : ConnectionObject) :
    S.finishWritingOf p id o = S.processMessagesOf (p.drained id o) id := by
  simp only [finishWritingOf, Process.drained, Process.put, Process.removeWrite,
    Process.registerEvent, Function.update_idem]

theorem finishWritingOf_moves (h : p.Owned) (ho : p.objects id = some o)
    (hdone : ¬ o.outputOffset < o.outputBuffer.length) :
    S.Moves id p (S.finishWritingOf p id o) ∧ S.Settled (S.finishWritingOf p id o) id := by
  have hmove : S.Move id p (p.drained id o) := Move.drain ho (by omega)
  rw [finishWritingOf_eq]
  obtain ⟨hmoves, hsettled⟩ := processMessagesOf_moves (S := S) (h.move hmove)
    Process.put_objects_self
  exact ⟨hmoves.head hmove, hsettled⟩

theorem refl_moves (ho : p.objects id = some o)
    (hready : ¬ (framer S.maxMessageSize).Ready o.inputBuffer) :
    S.Moves id p p ∧ S.Settled p id := by
  refine ⟨Relation.ReflTransGen.refl, ?_⟩
  intro o' ho'
  rw [ho] at ho'
  cases ho'
  exact hready

theorem transmitOf_moves (results : List SendResult) (p : Process σ) (o : ConnectionObject)
    (h : p.Owned) (ho : p.objects id = some o)
    (hready : ¬ (framer S.maxMessageSize).Ready o.inputBuffer) :
    S.Moves id p (S.transmitOf results p id) ∧ S.Settled (S.transmitOf results p id) id := by
  induction results generalizing p o with
  | nil =>
    rw [transmitOf, ho]
    simp only
    split
    · exact refl_moves ho hready
    · next hdone => exact finishWritingOf_moves h ho hdone
  | cons result results ih =>
    rw [transmitOf, ho]
    simp only
    split
    · cases result with
      | sent count =>
        simp only
        split
        · exact closeConnection_moves h ho
        · have hmove : S.Move id p
              (p.advanced id o ((o.outputBuffer.drop o.outputOffset).take count)) :=
            Move.advance count ho
          obtain ⟨hmoves, hsettled⟩ := ih _ _ (h.move hmove) Process.put_objects_self hready
          exact ⟨hmoves.head hmove, hsettled⟩
      | failed errno =>
        cases errno with
        | again => exact refl_moves ho hready
        | interrupted => exact ih p o h ho hready
        | other => exact closeConnection_moves h ho
    · next hdone => exact finishWritingOf_moves h ho hdone

theorem Move.objects_of_ne (hmove : S.Move id p q) {id' : ℕ} (hne : id' ≠ id) :
    q.objects id' = p.objects id' := by
  cases hmove with
  | gain bytes ho => exact Process.put_objects_of_ne hne
  | answer ho hlook hfits => exact Process.put_objects_of_ne hne
  | overflow ho hlook hlarge => exact Function.update_of_ne hne ..
  | settle ho hready => exact Process.put_objects_of_ne hne
  | advance count ho => exact Process.put_objects_of_ne hne
  | drain ho hdone => exact Process.put_objects_of_ne hne
  | discard ho => exact Function.update_of_ne hne ..
  | accept hfresh hfd => exact Process.put_objects_of_ne hne

theorem Moves.objects_of_ne (hmoves : S.Moves id p q) {id' : ℕ} (hne : id' ≠ id) :
    q.objects id' = p.objects id' := by
  induction hmoves with
  | refl => rfl
  | tail _ hmove ih => exact (hmove.objects_of_ne hne).trans ih

/-- Moves of some connections, one after the other. -/
abbrev MovesAmong (S : Service σ) (among : ℕ → Prop) : Process σ → Process σ → Prop :=
  Relation.ReflTransGen (fun p q => ∃ id, among id ∧ S.Move id p q)

variable {among : ℕ → Prop}

theorem Moves.movesAmong (hmoves : S.Moves id p q) (hid : among id) : S.MovesAmong among p q :=
  hmoves.lift (fun p => p) (fun _ _ hmove => ⟨id, hid, hmove⟩)

theorem MovesAmong.preserves {I : Process σ → Prop}
    (hkeep : ∀ {id p q}, among id → S.Move id p q → p.Owned → I p → I q)
    (hmoves : S.MovesAmong among p q) (h : p.Owned) (hI : I p) : q.Owned ∧ I q := by
  induction hmoves with
  | refl => exact ⟨h, hI⟩
  | tail _ hnext ih =>
    obtain ⟨id, hid, hnext⟩ := hnext
    obtain ⟨howned, hI⟩ := ih
    exact ⟨howned.move hnext, hkeep hid hnext howned hI⟩

theorem Moves.settled (hmoves : S.Moves id p q) (hq : S.Settled q id)
    (hp : ∀ id', S.Settled p id') (id' : ℕ) : S.Settled q id' := by
  by_cases hid : id' = id
  · rw [hid]
    exact hq
  · intro o ho
    exact hp id' o ((hmoves.objects_of_ne hid).symm.trans ho)

theorem handleAccept_moves (accepts : List AcceptResult) (p : Process σ) (h : p.Owned)
    (hp : ∀ id, S.Settled p id) (hnew : ∀ id, p.created ≤ id → among id) :
    S.MovesAmong among p (p.handleAccept accepts) ∧
      ∀ id, S.Settled (p.handleAccept accepts) id := by
  have hstay : S.MovesAmong among p p ∧ ∀ id, S.Settled p id := ⟨Relation.ReflTransGen.refl, hp⟩
  induction accepts generalizing p with
  | nil => exact hstay
  | cons result accepts ih =>
    cases result with
    | accepted descriptor nonBlocking =>
      have hfresh := p.allocate_not_mem descriptor
      rw [Process.handleAccept]
      split
      · have hmove : S.Move p.created p (p.accepted (p.allocate descriptor)) :=
          Move.accept hfresh (p.allocate_nonneg descriptor)
        have hsettled : ∀ id, S.Settled (p.accepted (p.allocate descriptor)) id := by
          refine Moves.settled (Relation.ReflTransGen.single hmove) ?_ hp
          intro o ho
          obtain rfl := Option.some.inj (Process.put_objects_self.symm.trans ho)
          exact Framer.not_ready_nil
        have hnext := ih _ (h.move hmove) hsettled
          (fun id hid => hnew id (Nat.le_of_succ_le hid)) ⟨Relation.ReflTransGen.refl, hsettled⟩
        rw [Process.addConnection_eq h hfresh]
        exact ⟨hnext.1.head ⟨_, hnew _ (Nat.le_refl _), hmove⟩, hnext.2⟩
      · rw [Process.closeDescriptor_insert hfresh]
        exact ih p h hp hnew hstay
    | failed errno =>
      cases errno with
      | again => exact hstay
      | interrupted => exact ih p h hp hnew hstay
      | other => exact hstay

/-- The connections an event is about: the one called back, or new ones. -/
def Concerned (p : Process σ) (event : KernelEvent) (id : ℕ) : Prop :=
  match event with
  | .read fd _ _ => p.readCallbacks fd = some (.connection id) ∨ p.created ≤ id
  | .write fd _ => p.writeCallbacks fd = some id
  | .error _ => False

/-- What one event does is a sequence of moves, after which no request waits again; an error
takes the callbacks away. -/
theorem dispatch_moves (h : p.Owned) (hp : ∀ id, S.Settled p id) (event : KernelEvent) :
    (S.MovesAmong (Concerned p event) p (S.dispatch p event) ∨
      ∃ fd, event = .error fd ∧ S.dispatch p event = p.detached fd) ∧
      ∀ id, S.Settled (S.dispatch p event) id := by
  cases event with
  | read fd accepts results =>
    rw [dispatch]
    split
    · exact ⟨Or.inl Relation.ReflTransGen.refl, hp⟩
    · obtain ⟨hmoves, hsettled⟩ := handleAccept_moves (S := S) accepts p h hp
        (fun id hid => (Or.inr hid : Concerned p (.read fd accepts results) id))
      exact ⟨Or.inl hmoves, hsettled⟩
    · next id hread =>
      obtain ⟨o, ho, -⟩ := h.exists_object (h.reads hread)
      rw [handleReadableOf, ho]
      simp only [if_neg (h.not_closed ho)]
      obtain ⟨hmoves, hsettled⟩ := receiveOf_moves (S := S) results p o h ho
      exact ⟨Or.inl (hmoves.movesAmong (Or.inl hread)), hmoves.settled hsettled hp⟩
  | write fd results =>
    rw [dispatch]
    split
    · exact ⟨Or.inl Relation.ReflTransGen.refl, hp⟩
    · next id hwrite =>
      obtain ⟨o, ho, -⟩ := h.exists_object (h.writes hwrite)
      rw [handleWritableOf, ho]
      simp only [if_neg (h.not_closed ho)]
      obtain ⟨hmoves, hsettled⟩ := transmitOf_moves (S := S) results p o h ho (hp id o ho)
      exact ⟨Or.inl (hmoves.movesAmong hwrite), hmoves.settled hsettled hp⟩
  | error fd => exact ⟨Or.inr ⟨fd, rfl, rfl⟩, hp⟩

end Service
end ForgeDB
