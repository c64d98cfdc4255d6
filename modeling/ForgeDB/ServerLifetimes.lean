import ForgeDB.ServerMoves

/-!
# Connections live as long as they are used

In every state a server reaches, the event loop points to connections that exist, and the
open descriptors are the listening socket and those of the table. The one way to touch a
destroyed connection is a response too large to frame: the connection closes, the server
destroys it, and the loop that asked for the response reads it again. Stopping the server
closes whatever is still open.
-/

namespace ForgeDB
open StreamFraming Protocol

namespace Process

variable {σ : Type} {p : Process σ}

/-- Nothing but perhaps the listening socket is there. -/
structure Idle (p : Process σ) : Prop where
  connections : p.connections = ∅
  objects : ∀ id, p.objects id = none
  writes : ∀ fd, p.writeCallbacks fd = none
  reads : ∀ {fd target}, p.readCallbacks fd = some target →
    target = .server ∧ fd = p.serverFd ∧ 0 ≤ fd
  opened : ∀ {fd}, fd ∈ p.descriptors ↔ fd = p.serverFd ∧ 0 ≤ fd

theorem Idle.owned (h : p.Idle) : p.Owned := by
  have hlookup : ∀ fd, p.connections.lookup fd = none := by
    intro fd
    rw [h.connections]
    exact AList.lookup_empty fd
  refine ⟨?_, ?_, ?_, ?_, ?_, ?_, ?_, ?_, ?_, fun _ => hlookup _⟩
  · intro fd id hfound
    rw [hlookup] at hfound
    cases hfound
  · intro id o ho
    rw [h.objects] at ho
    cases ho
  · intro id o ho
    rw [h.objects] at ho
    cases ho
  · intro id o ho
    rw [h.objects] at ho
    cases ho
  · intro id o ho
    rw [h.objects] at ho
    cases ho
  · intro fd id hread
    cases (h.reads hread).1
  · exact fun hread => (h.reads hread).2
  · intro fd id hwrite
    rw [h.writes] at hwrite
    cases hwrite
  · intro fd
    rw [h.opened]
    simp [hlookup]

theorem idle_fresh (s : σ) (registrations : List Bool) : (fresh s registrations).Idle := by
  refine ⟨rfl, fun _ => rfl, fun _ => rfl, fun hread => ?_, ?_⟩
  · cases hread
  · intro fd
    simp only [fresh, Finset.notMem_empty, false_iff]
    omega

def listening (s : σ) (registrations : List Bool) (fd : ℤ) : Process σ :=
  { fresh s registrations with
    serverFd := fd
    readCallbacks := Function.update (fun _ => none) fd (some .server)
    descriptors := {fd} }

theorem idle_listening (s : σ) (registrations : List Bool) {fd : ℤ} (hfd : 0 ≤ fd) :
    (listening s registrations fd).Idle := by
  refine ⟨rfl, fun _ => rfl, fun _ => rfl, fun {fd' target} hread => ?_, ?_⟩
  · simp only [listening, Function.update_apply] at hread
    split at hread
    · next heq =>
      cases hread
      exact ⟨rfl, heq, heq ▸ hfd⟩
    · cases hread
  · intro fd'
    simp only [listening, Finset.mem_singleton]
    constructor
    · rintro rfl
      exact ⟨rfl, hfd⟩
    · exact And.left

theorem abandon_eq (s : σ) (registrations : List Bool) (fd : ℤ) (reads : ℤ → Option Target) :
    Process.abandon { fresh s registrations with
      serverFd := fd, readCallbacks := reads, descriptors := {fd} } =
    { fresh s registrations with readCallbacks := reads } := by
  rw [abandon, closeDescriptor_of_mem (Finset.mem_singleton_self fd)]
  simp only [Finset.erase_singleton]
  rfl

/-- The listening socket is set up, or the error has left nothing behind. -/
theorem createListeningSocket_cases (setup : Setup) (s : σ) (registrations : List Bool) :
    (∃ error, (fresh s registrations).createListeningSocket setup =
      (some error, fresh s registrations)) ∨
    ∃ fd, 0 ≤ fd ∧ (fresh s registrations).createListeningSocket setup =
      (none, { fresh s registrations with serverFd := fd, descriptors := {fd} }) := by
  rw [createListeningSocket]
  cases setup.socket with
  | error what => exact Or.inl ⟨_, rfl⟩
  | ok descriptor =>
    have habandon := abandon_eq s registrations ((fresh s registrations).allocate descriptor)
      fun _ => none
    cases setup.setsockopt with
    | some what => exact Or.inl ⟨_, congrArg _ habandon⟩
    | none =>
      cases setup.bind with
      | some what => exact Or.inl ⟨_, congrArg _ habandon⟩
      | none =>
        cases setup.listen with
        | some what => exact Or.inl ⟨_, congrArg _ habandon⟩
        | none => exact Or.inr ⟨_, allocate_nonneg _ _, rfl⟩

theorem initializeServer_cases (setup : Setup) (s : σ) (registrations : List Bool) :
    (∃ error rest, (fresh s registrations).initializeServer setup = (some error, fresh s rest)) ∨
    ∃ fd, 0 ≤ fd ∧ (fresh s registrations).initializeServer setup =
      (none, listening s registrations.tail fd) := by
  obtain ⟨error, hsocket⟩ | ⟨fd, hfd, hsocket⟩ := createListeningSocket_cases setup s registrations
  · rw [initializeServer, hsocket]
    exact Or.inl ⟨error, registrations, rfl⟩
  · rw [initializeServer, hsocket]
    simp only
    cases setNonBlocking setup with
    | some error => exact Or.inl ⟨error, registrations, congrArg _ (abandon_eq ..)⟩
    | none =>
      simp only [addRead_eq]
      cases hregistered : registrations.headD true with
      | false =>
        have hregistered' : (fresh s registrations).registrations.headD true = false := hregistered
        refine Or.inl ⟨text "Failed to register listening socket with event loop", registrations.tail, ?_⟩
        have hreads : Function.update (fresh s registrations).readCallbacks fd none = fun _ => none :=
          Function.update_eq_self fd (fresh s registrations).readCallbacks
        simp only [hregistered', Bool.false_eq_true, if_false, hreads]
        exact congrArg _ (abandon_eq s registrations.tail fd fun _ => none)
      | true =>
        have hregistered' : (fresh s registrations).registrations.headD true = true := hregistered
        simp only [hregistered', if_true]
        exact Or.inr ⟨fd, hfd, rfl⟩

end Process

namespace Service

variable {σ : Type} {S : Service σ} {p q : Process σ}

/-- Between two events: the connections are owned and no request of theirs waits. -/
structure Resting (S : Service σ) (p : Process σ) : Prop where
  owned : p.Owned
  settled : ∀ id, S.Settled p id

theorem resting_of_idle (h : p.Idle) : S.Resting p :=
  ⟨h.owned, fun id => settled_of_none (h.objects id)⟩

variable {I : Process σ → Prop}

/-- Whatever every move and every error keeps holds after an event. -/
theorem Resting.stepOf (hmove : ∀ {id p q}, S.Move id p q → p.Owned → I p → I q)
    (event : KernelEvent) (herror : ∀ {p fd}, event = .error fd → p.Owned → I p → I (p.detached fd))
    (h : S.Resting p) (hI : I p) : S.Resting (S.stepOf p event) ∧ I (S.stepOf p event) := by
  rw [Service.stepOf]
  split
  · obtain ⟨hmoves | ⟨fd, hevent, heq⟩, hsettled⟩ := dispatch_moves h.owned h.settled event
    · obtain ⟨howned, hI⟩ := hmoves.preserves (fun _ hnext => hmove hnext) h.owned hI
      exact ⟨⟨howned, hsettled⟩, hI⟩
    · rw [heq] at hsettled ⊢
      exact ⟨⟨h.owned.detached fd, hsettled⟩, herror hevent h.owned hI⟩
  · exact ⟨h, hI⟩

theorem runEvents_keeps (hstep : ∀ {p} event, I p → I (S.stepOf p event))
    (events : List KernelEvent) (h : I p) : I (S.runEvents p events) := by
  induction events generalizing p with
  | nil => exact h
  | cons event events ih => exact ih (hstep event h)

/-- What every event keeps holds when the loop waits or ends. -/
theorem runLoop_keeps (hstep : ∀ {p} event, I p → I (S.stepOf p event)) (polls : List Poll)
    (h : I p) : I (S.runLoop polls p) := by
  induction polls generalizing p with
  | nil => exact h
  | cons poll polls ih =>
    cases poll with
    | events events => exact ih (runEvents_keeps hstep events h)
    | failed errno =>
      cases errno with
      | again => exact h
      | interrupted => exact ih h
      | other => exact h

theorem Resting.runEvents (hmove : ∀ {id p q}, S.Move id p q → p.Owned → I p → I q)
    (events : List KernelEvent)
    (herror : ∀ {p fd}, .error fd ∈ events → p.Owned → I p → I (p.detached fd))
    (h : S.Resting p) (hI : I p) : S.Resting (S.runEvents p events) ∧ I (S.runEvents p events) := by
  induction events generalizing p with
  | nil => exact ⟨h, hI⟩
  | cons event events ih =>
    obtain ⟨hrest, hI⟩ := h.stepOf hmove event
      (fun heq => herror (heq ▸ List.mem_cons_self)) hI
    exact ih (fun hmem => herror (List.mem_cons_of_mem _ hmem)) hrest hI

theorem Resting.runLoop (hmove : ∀ {id p q}, S.Move id p q → p.Owned → I p → I q)
    (polls : List Poll)
    (herror : ∀ {p fd}, .error fd ∈ Poll.reported polls → p.Owned → I p → I (p.detached fd))
    (h : S.Resting p) (hI : I p) :
    S.Resting (S.runLoop polls p) ∧ I (S.runLoop polls p) := by
  induction polls generalizing p with
  | nil => exact ⟨h, hI⟩
  | cons poll polls ih =>
    cases poll with
    | events events =>
      obtain ⟨hrest, hI⟩ := h.runEvents hmove events
        (fun hmem => herror (List.mem_append_left _ hmem)) hI
      exact ih (fun hmem => herror (List.mem_append_right _ hmem)) hrest hI
    | failed errno =>
      cases errno with
      | again => exact ⟨h, hI⟩
      | interrupted => exact ih herror h hI
      | other => exact ⟨h, hI⟩

/-- The rule for every state a server reaches: what holds when it starts to listen, and is
kept by every move and every reported error, holds there. -/
theorem resting_reached (hmove : ∀ {id p q}, S.Move id p q → p.Owned → I p → I q)
    (setup : Setup) (s : σ) (registrations : List Bool) (polls : List Poll)
    (herror : ∀ {p fd}, .error fd ∈ Poll.reported polls → p.Owned → I p → I (p.detached fd))
    (hlistening : ∀ fd, I (Process.listening s registrations.tail fd))
    (hstart : ((Process.fresh s registrations).initializeServer setup).1 = none) :
    S.Resting (S.runLoop polls ((Process.fresh s registrations).initializeServer setup).2) ∧
      I (S.runLoop polls ((Process.fresh s registrations).initializeServer setup).2) := by
  obtain ⟨error, rest, hinit⟩ | ⟨fd, hfd, hinit⟩ :=
    Process.initializeServer_cases setup s registrations
  · rw [hinit] at hstart
    cases hstart
  · rw [hinit]
    have hrest : S.Resting (Process.listening s registrations.tail fd) :=
      resting_of_idle (Process.idle_listening s registrations.tail hfd)
    exact hrest.runLoop hmove polls herror (hlistening fd)

/-- A connection has been read after its end just when some response was too large. -/
structure Accounted (S : Service σ) (p : Process σ) : Prop where
  fault_eq_none_iff : p.fault = none ↔ ∀ e ∈ p.served, e.response.length ≤ S.maxMessageSize
  of_fault : ∀ fault, p.fault = some fault →
    ∃ e ∈ p.served, fault = .destroyed e.connection ∧ S.maxMessageSize < e.response.length

theorem Accounted.congr (h : S.Accounted p) (hfault : q.fault = p.fault)
    (hserved : q.served = p.served) : S.Accounted q := by
  obtain ⟨hiff, hof⟩ := h
  rw [← hfault, ← hserved] at hiff hof
  exact ⟨hiff, hof⟩

theorem Accounted.move {id : ℕ} (hmove : S.Move id p q) (h : S.Accounted p) : S.Accounted q := by
  cases hmove with
  | gain bytes ho => exact h.congr rfl rfl
  | @answer _ _ o payload rest ho hlook hfits =>
    constructor
    · rw [answered]
      change p.fault = none ↔ ∀ e ∈ p.served ++ [⟨id, payload, S.responseTo p payload⟩], _
      rw [List.forall_mem_append, h.fault_eq_none_iff, List.forall_mem_singleton]
      exact (and_iff_left hfits).symm
    · intro fault hfault
      obtain ⟨e, he, hlarge⟩ := h.of_fault fault hfault
      exact ⟨e, List.mem_append_left _ he, hlarge⟩
  | @overflow _ _ o payload rest ho hlook hlarge =>
    have hlast : (⟨id, payload, S.responseTo p payload⟩ : Exchange) ∈
        (S.overflowed p id o payload).served := List.mem_append_right _ List.mem_cons_self
    constructor
    · refine iff_of_false (by simp [overflowed, Process.fail]) ?_
      exact fun hall => hlarge (hall _ hlast)
    · intro fault hfault
      cases hfault
      exact ⟨_, hlast, rfl, Nat.lt_of_not_le hlarge⟩
  | settle ho hready => exact h.congr rfl rfl
  | advance count ho => exact h.congr rfl rfl
  | drain ho hdone => exact h.congr rfl rfl
  | discard ho => exact h.congr rfl rfl
  | accept hfresh hfd => exact h.congr rfl rfl

theorem accounted_listening (s : σ) (registrations : List Bool) (fd : ℤ) :
    S.Accounted (Process.listening s registrations fd) := by
  constructor
  · refine iff_of_true rfl ?_
    intro e he
    cases he
  · intro fault hfault
    cases hfault

end Service

namespace Process

variable {σ : Type} {p : Process σ}

/-- These connections exist, each with an open descriptor of its own. -/
structure Disjoint (p : Process σ) (ids : List ℕ) : Prop where
  nodup : ids.Nodup
  live : ∀ id ∈ ids, ∃ o, p.objects id = some o ∧ 0 ≤ o.fd ∧ o.fd ∈ p.descriptors
  apart : ∀ {id id' o o'}, p.objects id = some o → p.objects id' = some o' → o.fd = o'.fd → id = id'

/-- Destroying some connections closes their descriptors and changes nothing else. -/
theorem foldl_destroy (ids : List ℕ) (p : Process σ) (h : p.Disjoint ids) :
    ∃ objects descriptors,
      ids.foldl destroy p = { p with objects := objects, descriptors := descriptors } ∧
      (∀ id, objects id = if id ∈ ids then none else p.objects id) ∧
      ∀ fd, fd ∈ descriptors ↔
        fd ∈ p.descriptors ∧ ∀ id ∈ ids, ∀ o, p.objects id = some o → o.fd ≠ fd := by
  induction ids generalizing p with
  | nil => exact ⟨p.objects, p.descriptors, rfl, by simp, by simp⟩
  | cons id ids ih =>
    obtain ⟨o, ho, hfd, hmem⟩ := h.live id List.mem_cons_self
    obtain ⟨hnotin, hnodup⟩ := List.nodup_cons.mp h.nodup
    have hdestroy : p.destroy id =
        { p with objects := Function.update p.objects id none
                 descriptors := p.descriptors.erase o.fd } := by
      rw [destroy, ho]
      simp only [if_pos hfd, closeDescriptor_of_mem hmem]
    have hne : ∀ {id'}, id' ∈ ids → id' ≠ id := fun hin heq => hnotin (heq ▸ hin)
    have hrest : (p.destroy id).Disjoint ids := by
      rw [hdestroy]
      refine ⟨hnodup, ?_, ?_⟩
      · intro id' hin
        obtain ⟨o', ho', hfd', hmem'⟩ := h.live id' (List.mem_cons_of_mem _ hin)
        refine ⟨o', (Function.update_of_ne (hne hin) ..).trans ho', hfd', ?_⟩
        exact Finset.mem_erase.mpr ⟨fun heq => hne hin (h.apart ho' ho heq), hmem'⟩
      · intro i i' x x' hx hx'
        simp only [Function.update_apply] at hx hx'
        split at hx
        · cases hx
        · split at hx'
          · cases hx'
          · exact h.apart hx hx'
    obtain ⟨objects, descriptors, heq, hobjects, hdescriptors⟩ := ih _ hrest
    refine ⟨objects, descriptors, ?_, ?_, ?_⟩
    · rw [List.foldl_cons, heq, hdestroy]
    · intro i
      rw [hobjects, hdestroy]
      by_cases hi : i = id
      · subst hi
        simp
      · simp [hi]
    · intro fd
      rw [hdescriptors, hdestroy]
      simp only [Finset.mem_erase, List.forall_mem_cons]
      constructor
      · rintro ⟨⟨hfd', hin⟩, hothers⟩
        refine ⟨hin, ?_, ?_⟩
        · intro x hx heq
          rw [ho] at hx
          cases hx
          exact hfd' heq.symm
        · intro id' hid' x hx
          exact hothers id' hid' x ((Function.update_of_ne (hne hid') ..).trans hx)
      · rintro ⟨hin, hfirst, hothers⟩
        refine ⟨⟨fun heq => hfirst o ho heq.symm, hin⟩, ?_⟩
        intro id' hid' x hx
        exact hothers id' hid' x ((Function.update_of_ne (hne hid') ..).symm.trans hx)

theorem mem_owned_iff (h : p.Owned) {id : ℕ} :
    id ∈ p.connections.entries.map Sigma.snd ↔ ∃ o, p.objects id = some o := by
  rw [List.mem_map]
  constructor
  · rintro ⟨⟨fd, id⟩, hmem, rfl⟩
    obtain ⟨o, ho, -⟩ := h.exists_object (AList.mem_lookup_iff.mpr hmem)
    exact ⟨o, ho⟩
  · rintro ⟨o, ho⟩
    exact ⟨⟨o.fd, id⟩, AList.mem_lookup_iff.mp (h.lookup_fd ho), rfl⟩

theorem Owned.disjoint (h : p.Owned) : p.Disjoint (p.connections.entries.map Sigma.snd) := by
  refine ⟨?_, ?_, fun ho ho' heq => h.fd_injective ho ho' heq⟩
  · have hkeys : p.connections.entries.Nodup := (AList.nodupKeys p.connections).nodup
    refine hkeys.map_on ?_
    rintro ⟨fd, id⟩ hmem ⟨fd', id'⟩ hmem' heq
    obtain rfl : id = id' := heq
    obtain ⟨o, ho, hfd⟩ := h.exists_object (AList.mem_lookup_iff.mpr hmem)
    obtain ⟨o', ho', hfd'⟩ := h.exists_object (AList.mem_lookup_iff.mpr hmem')
    rw [ho] at ho'
    cases ho'
    rw [← hfd, ← hfd']
  · intro id hmem
    obtain ⟨o, ho⟩ := (mem_owned_iff h).mp hmem
    exact ⟨o, ho, h.fd_nonneg ho, h.fd_mem ho⟩

/-- Nothing is open and no connection is left. A callback that is still registered is that
of a connection that has been destroyed: clearing the table does not deregister it. -/
structure Released (p : Process σ) : Prop where
  descriptors : p.descriptors = ∅
  objects : ∀ id, p.objects id = none
  connections : p.connections = ∅
  serverFd : p.serverFd < 0
  reads : ∀ {fd target}, p.readCallbacks fd = some target →
    ∃ id, target = .connection id ∧ id < p.created
  writes : ∀ {fd id}, p.writeCallbacks fd = some id → id < p.created

theorem Owned.created_of_lookup (h : p.Owned) {fd : ℤ} {id : ℕ}
    (hlookup : p.connections.lookup fd = some id) : id < p.created := by
  obtain ⟨o, ho, -⟩ := h.exists_object hlookup
  exact h.lt_created ho

theorem Owned.created_of_read (h : p.Owned) {fd : ℤ} {target : Target}
    (hread : p.readCallbacks fd = some target) (hserver : fd = p.serverFd → fd < 0) :
    ∃ id, target = .connection id ∧ id < p.created := by
  cases target with
  | server =>
    obtain ⟨heq, hfd⟩ := h.accepts hread
    exact absurd (hserver heq) (not_lt.mpr hfd)
  | connection id => exact ⟨id, rfl, h.created_of_lookup (h.reads hread)⟩

theorem Owned.released_stop (h : p.Owned) :
    p.stop.Released ∧ p.stop.fault = p.fault ∧ p.stop.served = p.served := by
  obtain ⟨objects, descriptors, heq, hobjects, hdescriptors⟩ := foldl_destroy _ p h.disjoint
  have hnone : ∀ id, objects id = none := by
    intro id
    rw [hobjects]
    split
    · rfl
    · next hout =>
      cases ho : p.objects id with
      | none => rfl
      | some o => exact absurd ((mem_owned_iff h).mpr ⟨o, ho⟩) hout
  have hopen : ∀ fd, fd ∈ descriptors ↔ fd = p.serverFd ∧ 0 ≤ fd := by
    intro fd
    rw [hdescriptors, h.open_iff]
    constructor
    · rintro ⟨hserver | ⟨id, hlookup⟩, hothers⟩
      · exact hserver
      · obtain ⟨o, ho, hfd⟩ := h.exists_object hlookup
        exact absurd hfd (hothers id ((mem_owned_iff h).mpr ⟨o, ho⟩) o ho)
    · rintro ⟨rfl, hfd⟩
      exact ⟨Or.inl ⟨rfl, hfd⟩, fun id _ o ho => (h.server_ne ho).symm⟩
  have hclear : p.clearConnections =
      { p with objects := objects, descriptors := descriptors, connections := ∅ } := by
    rw [clearConnections, heq]
  rw [stop, hclear]
  by_cases hserver : 0 ≤ p.serverFd
  · have hmem : p.serverFd ∈ descriptors := (hopen _).mpr ⟨rfl, hserver⟩
    simp only [if_pos hserver, remove, removeRead, removeWrite, registerEvent,
      closeDescriptor_of_mem, hmem]
    refine ⟨⟨?_, hnone, rfl, by simp, ?_, ?_⟩, trivial, trivial⟩
    · ext fd
      simp only [Finset.mem_erase, hopen, Finset.notMem_empty, iff_false]
      rintro ⟨hne, heq, -⟩
      exact hne heq
    · intro fd target hread
      simp only [Function.update_apply] at hread
      split at hread
      · cases hread
      · next hfd => exact h.created_of_read hread (fun heq => absurd heq hfd)
    · intro fd id hwrite
      simp only [Function.update_apply] at hwrite
      split at hwrite
      · cases hwrite
      · exact h.created_of_lookup (h.writes hwrite)
  · simp only [if_neg hserver]
    refine ⟨⟨?_, hnone, rfl, by simpa using hserver, ?_, ?_⟩, trivial, trivial⟩
    · ext fd
      simp only [hopen, Finset.notMem_empty, iff_false]
      rintro ⟨rfl, hfd⟩
      exact hserver hfd
    · intro fd target hread
      exact h.created_of_read hread (fun heq => heq ▸ not_le.mp hserver)
    · intro fd id hwrite
      exact h.created_of_lookup (h.writes hwrite)

end Process

def doubling : Service ℕ where
  maxMessageSize := 8
  messageHandler := fun count payload => (count + 1, .returned (payload ++ payload))

def plainSetup : Setup := ⟨.ok 3, none, none, none, none, none⟩

/-- Two clients; the first asks in two pieces, the second leaves at once. -/
def twoClients : List Poll :=
  [.events [.read 3 [.accepted 4 true, .accepted 5 true, .failed .again] []],
    .events [.read 4 [] [.received [2, 0, 0, 0, 104]], .read 5 [] [.received []]],
    .failed .interrupted,
    .events [.read 4 [] [.received [105, 1, 0]], .write 4 [.sent 3, .failed .again]]]

def largeRequest : List Poll :=
  [.events [.read 3 [.accepted 4 true] []],
    .events [.read 4 [] [.received [5, 0, 0, 0, 104, 101, 108, 108, 111]]]]

/-- In every state a server reaches, callbacks point to connections that own their
descriptor, and exactly the descriptors of the table and of the listening socket are open. -/
theorem callbacks_point_to_owned_connections {σ : Type} (S : Service σ) (setup : Setup) (s : σ)
    (registrations : List Bool) (polls : List Poll)
    (hstart : ((Process.fresh s registrations).initializeServer setup).1 = none) :
    (S.runLoop polls ((Process.fresh s registrations).initializeServer setup).2).Owned :=
  (Service.resting_reached (I := fun _ => True) (fun _ _ _ => trivial) setup s registrations polls
    (fun _ _ _ => trivial) (fun _ => trivial) hstart).1.owned

theorem callbacks_point_to_owned_connections_twoClients :
    (doubling.runLoop twoClients ((Process.fresh 0 []).initializeServer plainSetup).2).Owned :=
  callbacks_point_to_owned_connections doubling plainSetup 0 [] twoClients rfl

/-- A destroyed connection is read just when the handler gives some response that is too
large to frame, and nothing else goes wrong. -/
theorem fault_iff_response_too_large {σ : Type} (S : Service σ) (setup : Setup) (s : σ)
    (registrations : List Bool) (polls : List Poll)
    (hstart : ((Process.fresh s registrations).initializeServer setup).1 = none) :
    S.Accounted (S.runLoop polls ((Process.fresh s registrations).initializeServer setup).2) :=
  (Service.resting_reached (fun hmove _ h => h.move hmove) setup s registrations polls
    (fun _ _ h => h.congr rfl rfl) (Service.accounted_listening s registrations.tail) hstart).2

theorem fault_iff_response_too_large_largeRequest :
    (doubling.runLoop largeRequest ((Process.fresh 0 []).initializeServer plainSetup).2).fault =
        some (.destroyed 0) ∧
      doubling.Accounted
        (doubling.runLoop largeRequest ((Process.fresh 0 []).initializeServer plainSetup).2) :=
  ⟨by decide, fault_iff_response_too_large doubling plainSetup 0 [] largeRequest rfl⟩

/-- However the start goes and whatever happens until the loop ends, the server leaves no
descriptor open and no connection behind, provided every response could be framed. What it
may leave are callbacks of destroyed connections. -/
theorem lifetime_releases_everything {σ : Type} (S : Service σ) (setup : Setup) (s : σ)
    (registrations : List Bool) (polls : List Poll)
    (hresponses : ∀ e ∈ (S.lifetime setup polls (Process.fresh s registrations)).served,
      e.response.length ≤ S.maxMessageSize) :
    (S.lifetime setup polls (Process.fresh s registrations)).fault = none ∧
      (S.lifetime setup polls (Process.fresh s registrations)).Released := by
  rw [Service.lifetime] at hresponses ⊢
  have hreached := Service.resting_reached (S := S) (fun hmove _ h => h.move hmove) setup s
    registrations polls (fun _ _ h => h.congr rfl rfl)
    (Service.accounted_listening s registrations.tail)
  obtain ⟨error, rest, hinit⟩ | ⟨fd, hfd, hinit⟩ :=
    Process.initializeServer_cases setup s registrations
  · rw [hinit]
    obtain ⟨hreleased, hfault, -⟩ := (Process.idle_fresh s rest).owned.released_stop
    exact ⟨hfault, hreleased⟩
  · rw [hinit] at hresponses hreached ⊢
    obtain ⟨hrest, haccounted⟩ := hreached rfl
    obtain ⟨hreleased, hfault, hserved⟩ := hrest.owned.released_stop
    have hall : ∀ e ∈ (S.runLoop polls (Process.listening s registrations.tail fd)).served,
        e.response.length ≤ S.maxMessageSize := by
      intro e he
      rw [← hserved] at he
      exact hresponses e he
    exact ⟨hfault.trans (haccounted.fault_eq_none_iff.mpr hall), hreleased⟩

theorem lifetime_releases_everything_twoClients :
    (doubling.lifetime plainSetup twoClients (Process.fresh 0 [])).fault = none ∧
      (doubling.lifetime plainSetup twoClients (Process.fresh 0 [])).Released :=
  lifetime_releases_everything doubling plainSetup 0 [] twoClients (by decide)

end ForgeDB
