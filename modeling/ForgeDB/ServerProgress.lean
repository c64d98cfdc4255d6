import ForgeDB.ServerExchanges

/-!
# No connection is forgotten, unless an error is reported

As long as the event loop can register what it is asked to and reports no error, every
connection is called back when it can read, and called back to write while it holds output
back; no complete request waits in between. An error reported for a descriptor takes its
callbacks away and nothing else: the connection stays in the table with its descriptor open
and is never called again.
-/

namespace ForgeDB
open StreamFraming Protocol

namespace Process

variable {σ : Type} {p q : Process σ} {id : ℕ} {o : ConnectionObject}

/-- Everybody is called back. -/
structure Attended (p : Process σ) : Prop where
  reliable : ∀ result ∈ p.registrations, result = true
  listens : p.readCallbacks p.serverFd = some .server
  reads : ∀ {id o}, p.objects id = some o → p.readCallbacks o.fd = some (.connection id)
  writes : ∀ {id o}, p.objects id = some o → o.outputOffset < o.outputBuffer.length →
    p.writeCallbacks o.fd = some id

theorem headD_of_reliable {registrations : List Bool} (h : ∀ result ∈ registrations, result = true) :
    registrations.headD true = true := by
  cases registrations with
  | nil => rfl
  | cons result rest => exact h result List.mem_cons_self

namespace Attended

/-- A connection changes, and with it its own write callback. -/
theorem of_put (h : p.Attended) (howned : p.Owned) (ho : p.objects id = some o)
    {o' : ConnectionObject} (hobjects : q.objects = Function.update p.objects id (some o'))
    (hfd : o'.fd = o.fd) (hserver : q.serverFd = p.serverFd)
    (hreads : q.readCallbacks = p.readCallbacks)
    (hregistrations : ∀ result ∈ q.registrations, result = true)
    (hothers : ∀ fd, fd ≠ o.fd → q.writeCallbacks fd = p.writeCallbacks fd)
    (hwrite : o'.outputOffset < o'.outputBuffer.length → q.writeCallbacks o.fd = some id) :
    q.Attended := by
  have hobject : ∀ {i x}, q.objects i = some x →
      (i = id ∧ x = o') ∨ (i ≠ id ∧ p.objects i = some x) := by
    intro i x hx
    rw [hobjects] at hx
    by_cases hi : i = id
    · subst hi
      rw [Function.update_self] at hx
      exact Or.inl ⟨rfl, (Option.some.inj hx).symm⟩
    · rw [Function.update_of_ne hi] at hx
      exact Or.inr ⟨hi, hx⟩
  refine ⟨hregistrations, ?_, ?_, ?_⟩
  · rw [hserver, hreads]
    exact h.listens
  · intro i x hx
    rw [hreads]
    obtain ⟨rfl, rfl⟩ | ⟨hi, hx⟩ := hobject hx
    · rw [hfd]
      exact h.reads ho
    · exact h.reads hx
  · intro i x hx hpending
    obtain ⟨rfl, rfl⟩ | ⟨hi, hx⟩ := hobject hx
    · rw [hfd]
      exact hwrite hpending
    · rw [hothers _ (fun heq => hi (howned.fd_injective hx ho heq))]
      exact h.writes hx hpending

theorem discard (h : p.Attended) (howned : p.Owned) (ho : p.objects id = some o) :
    (p.discarded id o.fd).Attended := by
  have hobject : ∀ {i x}, (p.discarded id o.fd).objects i = some x →
      p.objects i = some x ∧ x.fd ≠ o.fd := by
    intro i x hx
    simp only [discarded, Function.update_apply] at hx
    split at hx
    · cases hx
    · next hi => exact ⟨hx, fun heq => hi (howned.fd_injective hx ho heq)⟩
  refine ⟨?_, ?_, ?_, ?_⟩
  · intro result hmem
    exact h.reliable result (List.mem_of_mem_tail (List.mem_of_mem_tail hmem))
  · exact (Function.update_of_ne (howned.server_ne ho) ..).trans h.listens
  · intro i x hx
    obtain ⟨hx, hfd⟩ := hobject hx
    exact (Function.update_of_ne hfd ..).trans (h.reads hx)
  · intro i x hx hpending
    obtain ⟨hx, hfd⟩ := hobject hx
    exact (Function.update_of_ne hfd ..).trans (h.writes hx hpending)

theorem accept (h : p.Attended) (howned : p.Owned) {fd : ℤ} (hfresh : fd ∉ p.descriptors) :
    (p.accepted fd).Attended := by
  have hregistered := headD_of_reliable h.reliable
  have hne : ∀ {fd'}, fd' ∈ p.descriptors → fd' ≠ fd := fun hmem heq => hfresh (heq ▸ hmem)
  have hobject : ∀ {i x}, (p.accepted fd).objects i = some x →
      (i = p.created ∧ x = ⟨fd, .reading, [], [], 0⟩) ∨ p.objects i = some x := by
    intro i x hx
    by_cases hi : i = p.created
    · subst hi
      exact Or.inl ⟨rfl, (Option.some.inj (put_objects_self.symm.trans hx)).symm⟩
    · exact Or.inr ((put_objects_of_ne hi).symm.trans hx)
  refine ⟨fun result hmem => h.reliable result (List.mem_of_mem_tail hmem), ?_, ?_, ?_⟩
  · have hserver : p.serverFd ∈ p.descriptors := howned.open_iff.mpr (Or.inl ⟨rfl, (howned.accepts h.listens).2⟩)
    exact (Function.update_of_ne (hne hserver) ..).trans h.listens
  · intro i x hx
    obtain ⟨rfl, rfl⟩ | hx := hobject hx
    · simp only [accepted, Function.update_self, hregistered, if_true]
    · exact (Function.update_of_ne (hne (howned.fd_mem hx)) ..).trans (h.reads hx)
  · intro i x hx hpending
    obtain ⟨rfl, rfl⟩ | hx := hobject hx
    · cases hpending
    · exact h.writes hx hpending

end Attended
end Process

namespace Service

variable {σ : Type} {S : Service σ} {p q : Process σ} {id : ℕ} {o : ConnectionObject}

theorem attended_move (hmove : S.Move id p q) (howned : p.Owned) (h : p.Attended) : q.Attended := by
  have htail : ∀ result ∈ p.registrations.tail, result = true :=
    fun result hmem => h.reliable result (List.mem_of_mem_tail hmem)
  cases hmove with
  | gain bytes ho =>
    have hwrites := h.writes ho
    exact h.of_put howned ho rfl rfl rfl rfl h.reliable (fun _ _ => rfl) hwrites
  | @answer _ _ o payload rest ho hlook hfits =>
    refine h.of_put howned ho rfl rfl rfl rfl htail (fun _ hne => Function.update_of_ne hne ..) ?_
    intro _
    simp only [answered, Function.update_self, Process.headD_of_reliable h.reliable, if_true]
  | @overflow _ _ o payload rest ho hlook hlarge =>
    have hasked : (S.asked p id payload).Attended := ⟨h.reliable, h.listens, h.reads, h.writes⟩
    have hgone := hasked.discard (howned.asked id payload) ho
    exact ⟨hgone.reliable, hgone.listens, hgone.reads, hgone.writes⟩
  | settle ho hready =>
    have hwrites := h.writes ho
    exact h.of_put howned ho rfl rfl rfl rfl h.reliable (fun _ _ => rfl) hwrites
  | advance count ho =>
    refine h.of_put howned ho rfl rfl rfl rfl h.reliable (fun _ _ => rfl) ?_
    intro hpending
    simp only at hpending
    exact h.writes ho (by omega)
  | drain ho hdone =>
    refine h.of_put howned ho rfl rfl rfl rfl htail (fun _ hne => Function.update_of_ne hne ..) ?_
    intro hpending
    cases hpending
  | discard ho => exact h.discard howned ho
  | accept hfresh hfd => exact h.accept howned hfresh

theorem attended_listening (s : σ) {registrations : List Bool}
    (hreliable : ∀ result ∈ registrations, result = true) (fd : ℤ) :
    (Process.listening s registrations.tail fd).Attended := by
  refine ⟨fun result hmem => hreliable result (List.mem_of_mem_tail hmem), ?_, ?_, ?_⟩
  · simp only [Process.listening, Function.update_self]
  · intro id o ho
    cases ho
  · intro id o ho
    cases ho

end Service

namespace Service

variable {σ : Type} {S : Service σ} {p q : Process σ} {id : ℕ} {o : ConnectionObject}

theorem Move.callbacks_of_ne {id' : ℕ} (hmove : S.Move id' p q) (howned : p.Owned) (hne : id ≠ id')
    (ho : p.objects id = some o) :
    q.readCallbacks o.fd = p.readCallbacks o.fd ∧ q.writeCallbacks o.fd = p.writeCallbacks o.fd := by
  have hfd : ∀ {o'}, p.objects id' = some o' → o.fd ≠ o'.fd :=
    fun ho' heq => hne (howned.fd_injective ho ho' heq)
  cases hmove with
  | gain bytes ho' => exact ⟨rfl, rfl⟩
  | answer ho' hlook hfits => exact ⟨rfl, Function.update_of_ne (hfd ho') ..⟩
  | overflow ho' hlook hlarge =>
    exact ⟨Function.update_of_ne (hfd ho') .., Function.update_of_ne (hfd ho') ..⟩
  | settle ho' hready => exact ⟨rfl, rfl⟩
  | advance count ho' => exact ⟨rfl, rfl⟩
  | drain ho' hdone => exact ⟨rfl, Function.update_of_ne (hfd ho') ..⟩
  | discard ho' => exact ⟨Function.update_of_ne (hfd ho') .., Function.update_of_ne (hfd ho') ..⟩
  | @accept _ fd hfresh hfd' =>
    have hold : o.fd ≠ fd := fun heq => hfresh (heq ▸ howned.fd_mem ho)
    exact ⟨Function.update_of_ne hold .., rfl⟩

/-- A connection that is never called: it has not changed since `p`. -/
structure Abandoned (p : Process σ) (id : ℕ) (o : ConnectionObject) (q : Process σ) : Prop where
  object : q.objects id = some o
  read : q.readCallbacks o.fd = none
  write : q.writeCallbacks o.fd = none
  unmoved : Unmoved p q id

theorem Unmoved.trans {r : Process σ} (h : Unmoved p q id) (h' : Unmoved q r id) :
    Unmoved p r id :=
  ⟨h'.objects.trans h.objects, h'.received.trans h.received, h'.sent.trans h.sent,
    h'.requests.trans h.requests, h'.responses.trans h.responses, h.created_le.trans h'.created_le⟩

theorem Abandoned.stepOf {r : Process σ} (hrest : S.Resting q) (h : Abandoned p id o q)
    (event : KernelEvent) (hr : r = S.stepOf q event) : S.Resting r ∧ Abandoned p id o r := by
  rw [Service.stepOf] at hr
  split at hr
  · subst hr
    obtain ⟨hmoves | ⟨fd, -, heq⟩, hsettled⟩ := dispatch_moves hrest.owned hrest.settled event
    · have hother : ∀ {id'}, Concerned q event id' → id' ≠ id := by
        rintro _ hconcerned rfl
        cases event with
        | read fd accepts results =>
          obtain hread | hnew := hconcerned
          · obtain ⟨x, hx, hfd⟩ := hrest.owned.exists_object (hrest.owned.reads hread)
            cases h.object.symm.trans hx
            rw [← hfd, h.read] at hread
            cases hread
          · exact absurd (hrest.owned.lt_created h.object) (Nat.not_lt.mpr hnew)
        | write fd results =>
          obtain ⟨x, hx, hfd⟩ := hrest.owned.exists_object (hrest.owned.writes hconcerned)
          cases h.object.symm.trans hx
          have hwrite : q.writeCallbacks fd = some _ := hconcerned
          rw [← hfd, h.write] at hwrite
          cases hwrite
        | error fd => exact hconcerned
      obtain ⟨howned, habandoned⟩ := hmoves.preserves (I := Abandoned p id o)
        (fun hid hmove howned h => by
          obtain ⟨hread, hwrite⟩ := hmove.callbacks_of_ne howned (hother hid).symm h.object
          have hsame := hmove.unmoved (hother hid).symm
          exact ⟨hsame.objects.trans h.object, hread.trans h.read, hwrite.trans h.write,
            h.unmoved.trans hsame⟩) hrest.owned h
      exact ⟨⟨howned, hsettled⟩, habandoned⟩
    · rw [heq] at hsettled ⊢
      refine ⟨⟨hrest.owned.detached fd, hsettled⟩, h.object, ?_, ?_, h.unmoved.trans
        ⟨rfl, rfl, rfl, rfl, rfl, Nat.le_refl _⟩⟩
      · simp only [Process.detached, Function.update_apply, h.read, ite_self]
      · simp only [Process.detached, Function.update_apply, h.write, ite_self]
  · subst hr
    exact ⟨hrest, h⟩

theorem runEvents_of_fault (hfault : p.fault ≠ none) (events : List KernelEvent) :
    S.runEvents p events = p :=
  runEvents_keeps (I := fun q => q = p)
    (fun event h => by rw [h, stepOf, if_neg hfault]) events rfl

end Service

/-- As long as registrations succeed and no error is reported, the listening socket and all
connections are called back, those that hold output back also to write, and no complete
request waits. -/
theorem no_connection_forgotten {σ : Type} (S : Service σ) (setup : Setup) (s : σ)
    (registrations : List Bool) (hreliable : ∀ result ∈ registrations, result = true)
    (polls : List Poll) (hcalm : ∀ fd, .error fd ∉ Poll.reported polls)
    (hstart : ((Process.fresh s registrations).initializeServer setup).1 = none) :
    (S.runLoop polls ((Process.fresh s registrations).initializeServer setup).2).Attended ∧
      ∀ id, S.Settled
        (S.runLoop polls ((Process.fresh s registrations).initializeServer setup).2) id := by
  obtain ⟨hrest, hattended⟩ := Service.resting_reached Service.attended_move setup s registrations
    polls (fun hmem => absurd hmem (hcalm _)) (Service.attended_listening s hreliable) hstart
  exact ⟨hattended, hrest.settled⟩

theorem no_connection_forgotten_twoClients :
    (doubling.runLoop twoClients ((Process.fresh 0 []).initializeServer plainSetup).2).Attended ∧
      ∀ id, doubling.Settled
        (doubling.runLoop twoClients ((Process.fresh 0 []).initializeServer plainSetup).2) id :=
  no_connection_forgotten doubling plainSetup 0 [] (by simp) twoClients
    (by simp [twoClients, Poll.reported]) rfl

/-- After an error is reported for the descriptor of a connection, nothing that happens
later reaches the connection: it is never read, answered or closed, and its descriptor
stays open. -/
theorem error_leaves_connection_open {σ : Type} (S : Service σ) (setup : Setup) (s : σ)
    (registrations : List Bool) (polls : List Poll)
    (hstart : ((Process.fresh s registrations).initializeServer setup).1 = none)
    (p : Process σ)
    (hp : p = S.runLoop polls ((Process.fresh s registrations).initializeServer setup).2)
    (id : ℕ) (o : ConnectionObject) (ho : p.objects id = some o) (events : List KernelEvent) :
    (S.runEvents p (.error o.fd :: events)).objects id = some o ∧
      o.fd ∈ (S.runEvents p (.error o.fd :: events)).descriptors ∧
      Service.Unmoved p (S.runEvents p (.error o.fd :: events)) id := by
  obtain ⟨hrest, -⟩ := Service.resting_reached (S := S) (I := fun _ => True) (fun _ _ _ => trivial)
    setup s registrations polls (fun _ _ _ => trivial) (fun _ => trivial) hstart
  rw [← hp] at hrest
  by_cases hfault : p.fault = none
  swap
  · -- the process takes no step any more
    rw [Service.runEvents_of_fault hfault]
    exact ⟨ho, hrest.owned.fd_mem ho, rfl, rfl, rfl, rfl, rfl, Nat.le_refl _⟩
  have hstep : S.stepOf p (.error o.fd) = p.detached o.fd := if_pos hfault
  have habandoned : Service.Abandoned p id o (p.detached o.fd) :=
    ⟨ho, Function.update_self .., Function.update_self .., rfl, rfl, rfl, rfl, rfl, Nat.le_refl _⟩
  have hfirst : S.Resting (p.detached o.fd) := ⟨hrest.owned.detached o.fd, hrest.settled⟩
  obtain ⟨hend, h⟩ := Service.runEvents_keeps
    (I := fun q => S.Resting q ∧ Service.Abandoned p id o q)
    (fun event h => h.2.stepOf h.1 event rfl) events ⟨hfirst, habandoned⟩
  rw [Service.runEvents, List.foldl_cons, hstep]
  exact ⟨h.object, hend.owned.fd_mem h.object, h.unmoved⟩

/-- The first client again, after an error for its descriptor. -/
def afterError : List KernelEvent :=
  [.read 4 [] [.received [0, 0]], .write 4 [.sent 100], .read 4 [] [.received []]]

theorem error_leaves_connection_open_twoClients :
    let p := doubling.runLoop twoClients ((Process.fresh 0 []).initializeServer plainSetup).2
    let o : ConnectionObject := ⟨4, .writing, [1, 0], [4, 0, 0, 0, 104, 105, 104, 105], 3⟩
    (doubling.runEvents p (.error 4 :: afterError)).objects 0 = some o ∧
      (4 : ℤ) ∈ (doubling.runEvents p (.error 4 :: afterError)).descriptors ∧
      Service.Unmoved p (doubling.runEvents p (.error 4 :: afterError)) 0 :=
  error_leaves_connection_open doubling plainSetup 0 [] twoClients rfl _ rfl 0
    ⟨4, .writing, [1, 0], [4, 0, 0, 0, 104, 105, 104, 105], 3⟩ (by decide) afterError

end ForgeDB
