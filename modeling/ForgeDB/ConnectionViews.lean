import ForgeDB.ServerProgress

/-!
# A connection of the server seen on its own

Seen from one of its connections, the server is that connection with its socket and its
event loop: what it does for the others shows in the state of the handler and in the
registrations that are left, and in nothing else. The code of the server that serves a
connection does to this view what the code of a single connection does, so every connection
of a server is in a state that a single connection reaches when others use the handler in
between.
-/

namespace ForgeDB
open StreamFraming Protocol

/-- The same connection after the process has been busy with others. -/
def Connection.shared {σ : Type} (c : Connection σ) (handlerState : σ) (registrations : List Bool) :
    Connection σ :=
  { c with
    eventLoop := { c.eventLoop with registrations := registrations }
    handlerState := handlerState }

namespace Process

variable {σ : Type}

/-- What the process holds of a connection that exists. -/
def connectionView (p : Process σ) (id : ℕ) (o : ConnectionObject) : Connection σ where
  state := o.state
  inputBuffer := o.inputBuffer
  outputBuffer := o.outputBuffer
  outputOffset := o.outputOffset
  eventLoop := ⟨p.readCallbacks o.fd = some (.connection id), p.writeCallbacks o.fd = some id,
    p.registrations⟩
  handlerState := p.handlerState
  handed := p.requestsOf id
  sent := p.sent id

/-- The process holds the connection, or has discarded it when it was closed. -/
inductive Mirrors (p : Process σ) (id : ℕ) : Connection σ → Prop where
  | living {o : ConnectionObject} (ho : p.objects id = some o) : Mirrors p id (p.connectionView id o)
  | gone {c : Connection σ} (hnone : p.objects id = none) (hclosed : c.state = .closed)
      (hloop : c.eventLoop = ⟨false, false, p.registrations⟩)
      (hstate : c.handlerState = p.handlerState) (hhanded : c.handed = p.requestsOf id)
      (hsent : c.sent = p.sent id) : Mirrors p id c

/-- What an event of the process is for one connection. -/
def eventFor (p : Process σ) (id : ℕ) : KernelEvent → Option Event
  | .read fd _ results =>
    if p.readCallbacks fd = some (.connection id) then some (.readable results) else none
  | .write fd results => if p.writeCallbacks fd = some id then some (.writable results) else none
  | .error fd => if p.connections.lookup fd = some id then some .error else none

variable {p q : Process σ} {id : ℕ} {o : ConnectionObject} {c : Connection σ}

theorem Mirrors.shared_self (h : p.Mirrors id c) : c.shared p.handlerState p.registrations = c := by
  cases h with
  | living ho => rfl
  | gone hnone hclosed hloop hstate hhanded hsent =>
    rw [Connection.shared, hloop, ← hloop, ← hstate]

theorem Mirrors.eq_view (h : p.Mirrors id c) (ho : p.objects id = some o) :
    c = p.connectionView id o := by
  cases h with
  | living ho' =>
    cases ho.symm.trans ho'
    rfl
  | gone hnone hclosed hloop hstate hhanded hsent => cases hnone.symm.trans ho

theorem Mirrors.fail (h : p.Mirrors id c) (fault : Misuse) : (p.fail fault).Mirrors id c := by
  cases h with
  | living ho => exact .living (p := p.fail fault) ho
  | gone hnone hclosed hloop hstate hhanded hsent =>
    exact .gone hnone hclosed hloop hstate hhanded hsent

/-- What is unchanged for a connection is unchanged in its view. -/
theorem Mirrors.shared (h : p.Mirrors id c) (hsame : Service.Unmoved p q id)
    (hcallbacks : ∀ o, p.objects id = some o →
      q.readCallbacks o.fd = p.readCallbacks o.fd ∧ q.writeCallbacks o.fd = p.writeCallbacks o.fd) :
    q.Mirrors id (c.shared q.handlerState q.registrations) := by
  cases h with
  | @living o ho =>
    obtain ⟨hread, hwrite⟩ := hcallbacks o ho
    have hview : (p.connectionView id o).shared q.handlerState q.registrations =
        q.connectionView id o := by
      simp only [Connection.shared, connectionView, hread, hwrite, hsame.sent, hsame.requests]
    rw [hview]
    exact .living (hsame.objects.trans ho)
  | gone hnone hclosed hloop hstate hhanded hsent =>
    refine .gone (hsame.objects.trans hnone) hclosed ?_ rfl (hhanded.trans hsame.requests.symm)
      (hsent.trans hsame.sent.symm)
    rw [Connection.shared, hloop]

/-- A connection that is discarded is closed in its view. -/
theorem mirrors_discarded (hopen : o.state ≠ .closed) (fd : ℤ) :
    (p.discarded id fd).Mirrors id (p.connectionView id o).close := by
  have hview : (p.connectionView id o).state ≠ .closed := hopen
  rw [Connection.close, if_neg hview]
  refine .gone (Function.update_self ..) rfl ?_ rfl rfl rfl
  rw [EventLoop.remove_eq]
  rfl

end Process

namespace Service

variable {σ : Type} {S : Service σ} {p q : Process σ} {id : ℕ} {o : ConnectionObject}
  {c : Connection σ} {payload rest : Bytes}

theorem serve_view (hopen : o.state ≠ .closed)
    (hfits : (S.responseTo p payload).length ≤ S.maxMessageSize) :
    S.serve (p.connectionView id { o with inputBuffer := rest }) payload =
      (S.answered p id o payload rest).connectionView id
        { o with
          state := .writing
          inputBuffer := rest
          outputBuffer :=
            o.outputBuffer ++ createFrame S.maxMessageSize (S.responseTo p payload) } := by
  have hrequests : (S.answered p id o payload rest).requestsOf id = p.requestsOf id ++ [payload] :=
    requestsOf_asked_self
  have hwrite : ∀ registered : Bool,
      decide ((if registered then some id else none) = some id) = registered := by
    intro registered
    cases registered <;> simp
  rw [serve_of_fits (c := p.connectionView id { o with inputBuffer := rest }) hopen hfits,
    EventLoop.addWrite_eq]
  simp only [Process.connectionView, hrequests]
  simp only [answered, asked, Process.put, Function.update_self, responseTo, hwrite]
  rfl

theorem serve_view_of_large (hopen : o.state ≠ .closed)
    (hlarge : ¬ (S.responseTo p payload).length ≤ S.maxMessageSize) :
    S.serve (p.connectionView id o) payload =
      ((S.asked p id payload).connectionView id o).close := by
  have hrequests : (S.asked p id payload).requestsOf id = p.requestsOf id ++ [payload] :=
    requestsOf_asked_self
  rw [serve_of_large (c := p.connectionView id o) hopen hlarge]
  simp only [Process.connectionView, hrequests]
  rfl

theorem processTurnsOf_mirrors (turns : ℕ) (p : Process σ) (o : ConnectionObject) (h : p.Owned)
    (ho : p.objects id = some o) :
    (S.processTurnsOf turns p id).Mirrors id (S.processTurns turns (p.connectionView id o)) := by
  induction turns generalizing p o with
  | zero => exact .living ho
  | succ turns ih =>
    have hopen := h.not_closed ho
    rw [processTurnsOf, ho]
    simp only [if_neg hopen]
    by_cases hready : (framer S.maxMessageSize).Ready o.inputBuffer
    · obtain ⟨payload, rest, hlook⟩ := hready
      have hturn : S.processTurns (turns + 1) (p.connectionView id o) = S.processTurns turns
          (S.serve (p.connectionView id { o with inputBuffer := rest }) payload) :=
        processTurns_of_framed hlook hopen
      rw [hturn]
      simp only [tryExtractFrame_eq, hlook]
      by_cases hfits : (S.responseTo p payload).length ≤ S.maxMessageSize
      · rw [serveOf_of_fits h ho hfits, serve_view hopen hfits]
        exact ih _ _ (h.move (Move.answer ho hlook hfits)) Process.put_objects_self
      · -- the loop of the server reads the destroyed connection, the other one stops
        have hclosed : S.serve (p.connectionView id { o with inputBuffer := rest }) payload =
            ((S.asked p id payload).connectionView id { o with inputBuffer := rest }).close :=
          serve_view_of_large hopen hfits
        have hgone : ((S.asked p id payload).discarded id o.fd).Mirrors id
            ((S.asked p id payload).connectionView id { o with inputBuffer := rest }).close :=
          Process.mirrors_discarded (o := { o with inputBuffer := rest }) hopen o.fd
        rw [serveOf_of_not_fits h ho hfits, hclosed, processTurns_of_closed _ (close_state _)]
        cases turns with
        | zero => exact hgone
        | succ turns =>
          have hnone : ((S.asked p id payload).discarded id o.fd).objects id = none :=
            Function.update_self ..
          rw [processTurnsOf, hnone]
          exact hgone.fail _
    · have hnone : ¬ (framer S.maxMessageSize).Ready (p.connectionView id o).inputBuffer := hready
      have hview : (p.connectionView id o).state ≠ .closed := hopen
      rw [processTurns, if_neg hview]
      simp only [tryExtractFrame_of_not_ready hready, tryExtractFrame_of_not_ready hnone]
      exact .living Process.put_objects_self

theorem processMessagesOf_mirrors (h : p.Owned) (ho : p.objects id = some o) :
    (S.processMessagesOf p id).Mirrors id (S.processMessages (p.connectionView id o)) := by
  rw [processMessagesOf, ho]
  exact processTurnsOf_mirrors _ p o h ho

theorem closeConnection_mirrors (h : p.Owned) (ho : p.objects id = some o) :
    (p.closeConnection id).Mirrors id (p.connectionView id o).close := by
  rw [Process.closeConnection_eq h ho]
  exact Process.mirrors_discarded (h.not_closed ho) o.fd

theorem receiveOf_mirrors (results : List RecvResult) (p : Process σ) (o : ConnectionObject)
    (h : p.Owned) (ho : p.objects id = some o) :
    (S.receiveOf results p id).Mirrors id (S.receive results (p.connectionView id o)) := by
  induction results generalizing p o with
  | nil => exact processMessagesOf_mirrors h ho
  | cons result results ih =>
    cases result with
    | received bytes =>
      rw [receiveOf, ho, receive]
      simp only
      split
      · exact closeConnection_mirrors h ho
      · have hmove : S.Move id p (p.gained id o bytes) := Move.gain bytes ho
        exact ih (p.gained id o bytes) _ (h.move hmove) Process.put_objects_self
    | failed errno =>
      cases errno with
      | again => exact processMessagesOf_mirrors h ho
      | interrupted => exact ih p o h ho
      | other => exact closeConnection_mirrors h ho

theorem finishWriting_view (p : Process σ) (id : ℕ) (o : ConnectionObject) :
    S.finishWriting (p.connectionView id o) = S.processMessages ((p.drained id o).connectionView id
      { o with state := .reading, outputBuffer := [], outputOffset := 0 }) := by
  simp only [finishWriting, Connection.disableWriting, EventLoop.removeWrite_eq,
    Process.connectionView, Process.drained, Function.update_self, reduceCtorEq, decide_false]
  rfl

theorem finishWritingOf_mirrors (h : p.Owned) (ho : p.objects id = some o)
    (hdone : ¬ o.outputOffset < o.outputBuffer.length) :
    (S.finishWritingOf p id o).Mirrors id (S.finishWriting (p.connectionView id o)) := by
  have hmove : S.Move id p (p.drained id o) := Move.drain ho (by omega)
  rw [finishWritingOf_eq, finishWriting_view]
  exact processMessagesOf_mirrors (h.move hmove) Process.put_objects_self

theorem advanced_view (p : Process σ) (id : ℕ) (o : ConnectionObject) (taken : Bytes) :
    (p.advanced id o taken).connectionView id
        { o with outputOffset := o.outputOffset + taken.length } =
      { p.connectionView id o with
        outputOffset := o.outputOffset + taken.length
        sent := p.sent id ++ taken } := by
  simp only [Process.connectionView, Process.advanced, Function.update_self]
  rfl

theorem transmitOf_mirrors (results : List SendResult) (p : Process σ) (o : ConnectionObject)
    (h : p.Owned) (ho : p.objects id = some o) :
    (S.transmitOf results p id).Mirrors id (S.transmit results (p.connectionView id o)) := by
  induction results generalizing p o with
  | nil =>
    rw [transmitOf, ho, transmit]
    by_cases hpending : o.outputOffset < o.outputBuffer.length
    · have hview : (p.connectionView id o).outputOffset <
          (p.connectionView id o).outputBuffer.length := hpending
      simp only [if_pos hpending, if_pos hview]
      exact .living ho
    · have hview : ¬ (p.connectionView id o).outputOffset <
          (p.connectionView id o).outputBuffer.length := hpending
      simp only [if_neg hpending, if_neg hview]
      exact finishWritingOf_mirrors h ho hpending
  | cons result results ih =>
    rw [transmitOf, ho]
    unfold transmit
    by_cases hpending : o.outputOffset < o.outputBuffer.length
    · have hview : (p.connectionView id o).outputOffset <
          (p.connectionView id o).outputBuffer.length := hpending
      simp only [if_pos hpending, if_pos hview]
      cases result with
      | sent count =>
        by_cases htaken : (o.outputBuffer.drop o.outputOffset).take count = []
        · have hnone : (p.connectionView id o).pending.take count = [] := htaken
          simp only [if_pos htaken, if_pos hnone]
          exact closeConnection_mirrors h ho
        · have hsome : (p.connectionView id o).pending.take count ≠ [] := htaken
          have hmove : S.Move id p
              (p.advanced id o ((o.outputBuffer.drop o.outputOffset).take count)) :=
            Move.advance count ho
          have hnext := ih _ _ (h.move hmove) Process.put_objects_self
          rw [advanced_view] at hnext
          simp only [if_neg htaken, if_neg hsome]
          exact hnext
      | failed errno =>
        cases errno with
        | again => exact .living ho
        | interrupted => exact ih p o h ho
        | other => exact closeConnection_mirrors h ho
    · have hview : ¬ (p.connectionView id o).outputOffset <
          (p.connectionView id o).outputBuffer.length := hpending
      simp only [if_neg hpending, if_neg hview]
      exact finishWritingOf_mirrors h ho hpending

theorem Move.mirrors {id' : ℕ} (hmove : S.Move id' p q) (howned : p.Owned) (hne : id ≠ id')
    (h : p.Mirrors id c) : q.Mirrors id (c.shared q.handlerState q.registrations) :=
  h.shared (hmove.unmoved hne) (fun _ ho => hmove.callbacks_of_ne howned hne ho)

theorem MovesAmong.mirrors {among : ℕ → Prop} (hmoves : S.MovesAmong among p q)
    (hothers : ∀ {i}, among i → id ≠ i) (howned : p.Owned) (h : p.Mirrors id c) :
    q.Mirrors id (c.shared q.handlerState q.registrations) := by
  have hstart : p.Mirrors id (c.shared p.handlerState p.registrations) := by
    rw [h.shared_self]
    exact h
  refine (hmoves.preserves
    (I := fun r => r.Mirrors id (c.shared r.handlerState r.registrations)) ?_ howned hstart).2
  intro i r r' hi hmove howned h
  have hnext := hmove.mirrors howned (hothers hi) h
  exact hnext

/-- An event of the connection itself. -/
theorem dispatch_own (h : p.Owned) (hc : p.Mirrors id c) {kernelEvent : KernelEvent} {event : Event}
    (hown : p.eventFor id kernelEvent = some event) :
    (S.dispatch p kernelEvent).Mirrors id (S.step c event) := by
  cases kernelEvent with
  | read fd accepts results =>
    simp only [Process.eventFor, Option.ite_none_right_eq_some, Option.some.injEq] at hown
    obtain ⟨hread, rfl⟩ := hown
    obtain ⟨o, ho, rfl⟩ := h.exists_object (h.reads hread)
    obtain rfl := hc.eq_view ho
    have hcallback : (p.connectionView id o).eventLoop.readCallback = true := decide_eq_true hread
    have hopen : (p.connectionView id o).state ≠ .closed := h.not_closed ho
    simp only [dispatch, hread, handleReadableOf, ho, if_neg (h.not_closed ho), step, hcallback,
      if_true, handleReadable, if_neg hopen]
    exact receiveOf_mirrors results p o h ho
  | write fd results =>
    simp only [Process.eventFor, Option.ite_none_right_eq_some, Option.some.injEq] at hown
    obtain ⟨hwrite, rfl⟩ := hown
    obtain ⟨o, ho, rfl⟩ := h.exists_object (h.writes hwrite)
    obtain rfl := hc.eq_view ho
    have hcallback : (p.connectionView id o).eventLoop.writeCallback = true := decide_eq_true hwrite
    have hopen : (p.connectionView id o).state ≠ .closed := h.not_closed ho
    simp only [dispatch, hwrite, handleWritableOf, ho, if_neg (h.not_closed ho), step, hcallback,
      if_true, handleWritable, if_neg hopen]
    exact transmitOf_mirrors results p o h ho
  | error fd =>
    simp only [Process.eventFor, Option.ite_none_right_eq_some, Option.some.injEq] at hown
    obtain ⟨hlookup, rfl⟩ := hown
    obtain ⟨o, ho, rfl⟩ := h.exists_object hlookup
    obtain rfl := hc.eq_view ho
    have hdetached : S.step (p.connectionView id o) .error =
        (p.detached o.fd).connectionView id o := by
      simp only [step, EventLoop.remove_eq, Process.connectionView, Process.detached,
        Function.update_self, reduceCtorEq, decide_false]
      rfl
    rw [hdetached]
    exact .living (p := p.detached o.fd) ho

/-- An event of the process is for the connection what it is to the connection alone, or a
change of what it shares. -/
theorem dispatch_mirrors (h : S.Resting p) (hid : id < p.created) (hc : p.Mirrors id c)
    (event : KernelEvent) :
    (S.dispatch p event).Mirrors id (((p.eventFor id event).elim c (S.step c)).shared
      (S.dispatch p event).handlerState (S.dispatch p event).registrations) := by
  cases hown : p.eventFor id event with
  | some own =>
    have hstep := dispatch_own (S := S) h.owned hc hown
    rw [Option.elim_some, hstep.shared_self]
    exact hstep
  | none =>
    rw [Option.elim_none]
    obtain ⟨hmoves | ⟨fd, rfl, heq⟩, -⟩ := dispatch_moves h.owned h.settled event
    · refine hmoves.mirrors ?_ h.owned hc
      rintro i hconcerned rfl
      cases event with
      | read fd accepts results =>
        obtain hread | hnew := hconcerned
        · simp only [Process.eventFor, if_pos hread, reduceCtorEq] at hown
        · omega
      | write fd results =>
        have hwrite : p.writeCallbacks fd = some id := hconcerned
        simp only [Process.eventFor, if_pos hwrite, reduceCtorEq] at hown
      | error fd => exact hconcerned
    · rw [heq]
      refine hc.shared ⟨rfl, rfl, rfl, rfl, rfl, Nat.le_refl _⟩ ?_
      intro o ho
      have hne : o.fd ≠ fd := by
        rintro rfl
        simp only [Process.eventFor, if_pos (h.owned.lookup_fd ho), reduceCtorEq] at hown
      exact ⟨Function.update_of_ne hne .., Function.update_of_ne hne ..⟩

/-- A connection alone, with a handler and an event loop that others use in between. -/
inductive Turn (S : Service σ) : Connection σ → Connection σ → Prop where
  | event (c : Connection σ) (event : Event) : Turn S c (S.step c event)
  | others (c : Connection σ) (handlerState : σ) (registrations : List Bool) :
      Turn S c (c.shared handlerState registrations)

/-- The connection is in a state that such a run reaches. -/
def Lived (S : Service σ) (c : Connection σ) : Prop :=
  ∃ handlerState registrations, Relation.ReflTransGen (Turn S)
    (Connection.start handlerState ⟨false, false, registrations⟩) c

theorem Lived.turn {c' : Connection σ} (h : S.Lived c) (hturn : S.Turn c c') : S.Lived c' := by
  obtain ⟨handlerState, registrations, hrun⟩ := h
  exact ⟨handlerState, registrations, hrun.tail hturn⟩

/-- Every connection that was ever accepted is seen as one that has lived alone. -/
def LivedAlone (S : Service σ) (p : Process σ) : Prop :=
  ∀ id, id < p.created → ∃ c, S.Lived c ∧ p.Mirrors id c

structure Viewed (S : Service σ) (p : Process σ) : Prop where
  resting : S.Resting p
  exchanging : ∀ id, S.Exchanging p id
  alone : S.LivedAlone p

theorem Move.created_eq (hmove : S.Move id p q) (hid : id < p.created) : q.created = p.created := by
  cases hmove with
  | accept hfresh hfd => exact absurd hid (Nat.lt_irrefl _)
  | _ => rfl

theorem Moves.created_eq (hmoves : S.Moves id p q) (hid : id < p.created) :
    q.created = p.created := by
  induction hmoves with
  | refl => rfl
  | tail _ hmove ih => exact (hmove.created_eq (ih.symm ▸ hid)).trans ih

/-- A connection that is accepted starts as a single one does. -/
theorem accepted_view (howned : p.Owned) (h : S.Exchanging p p.created) (fd : ℤ) :
    (p.accepted fd).connectionView p.created ⟨fd, .reading, [], [], 0⟩ =
      Connection.start p.handlerState ⟨false, false, p.registrations⟩ := by
  obtain ⟨-, hsent, hrequests, -⟩ := h.unborn (Nat.le_refl _)
  have hrequests' : (p.accepted fd).requestsOf p.created = [] := hrequests
  have hsent' : (p.accepted fd).sent p.created = [] := hsent
  have hwrite : p.writeCallbacks fd ≠ some p.created :=
    fun hwrite => Nat.lt_irrefl _ (howned.created_of_lookup (howned.writes hwrite))
  rw [Connection.start, EventLoop.addRead_eq, Process.connectionView, hrequests', hsent']
  simp only [Process.accepted, Process.put, Function.update_self, hwrite, decide_false]
  cases p.registrations.headD true <;> simp

theorem LivedAlone.accepted {fd : ℤ} (h : S.LivedAlone p) (howned : p.Owned)
    (hexchanging : ∀ id, S.Exchanging p id) (hfresh : fd ∉ p.descriptors) (hfd : 0 ≤ fd) :
    S.LivedAlone (p.accepted fd) := by
  have hmove : S.Move p.created p (p.accepted fd) := Move.accept hfresh hfd
  intro id hid
  obtain hold | rfl := Nat.lt_succ_iff_lt_or_eq.mp hid
  · obtain ⟨c, hc, hmirrors⟩ := h id hold
    exact ⟨_, hc.turn (.others c _ _), hmove.mirrors howned hold.ne hmirrors⟩
  · have hview := accepted_view howned (hexchanging p.created) fd
    refine ⟨_, ⟨p.handlerState, p.registrations, Relation.ReflTransGen.refl⟩, ?_⟩
    rw [← hview]
    exact .living Process.put_objects_self

theorem LivedAlone.handleAccept (accepts : List AcceptResult) (p : Process σ) (howned : p.Owned)
    (hexchanging : ∀ id, S.Exchanging p id) (h : S.LivedAlone p) :
    S.LivedAlone (p.handleAccept accepts) := by
  induction accepts generalizing p with
  | nil => exact h
  | cons result accepts ih =>
    cases result with
    | accepted descriptor nonBlocking =>
      have hfresh := p.allocate_not_mem descriptor
      have hfd := p.allocate_nonneg descriptor
      have hmove : S.Move p.created p (p.accepted (p.allocate descriptor)) :=
        Move.accept hfresh hfd
      rw [Process.handleAccept]
      cases nonBlocking with
      | true =>
        simp only [if_true, Process.addConnection_eq howned hfresh]
        exact ih _ (howned.move hmove) (Exchanging.move hmove howned hexchanging)
          (h.accepted howned hexchanging hfresh hfd)
      | false =>
        simp only [Bool.false_eq_true, if_false, Process.closeDescriptor_insert hfresh]
        exact ih p howned hexchanging h
    | failed errno =>
      cases errno with
      | again => exact h
      | interrupted => exact ih p howned hexchanging h
      | other => exact h

/-- No event but one of the listening socket makes new connections. -/
theorem dispatch_created_eq (h : p.Owned) (hsettled : ∀ id, S.Settled p id) (event : KernelEvent)
    (hserver : ∀ fd accepts results, event = .read fd accepts results →
      p.readCallbacks fd ≠ some .server) : (S.dispatch p event).created = p.created := by
  cases event with
  | read fd accepts results =>
    rw [dispatch]
    split
    · rfl
    · next hread => exact absurd hread (hserver fd accepts results rfl)
    · next id hread =>
      obtain ⟨o, ho, -⟩ := h.exists_object (h.reads hread)
      rw [handleReadableOf, ho]
      simp only [if_neg (h.not_closed ho)]
      exact (receiveOf_moves results p o h ho).1.created_eq (h.lt_created ho)
  | write fd results =>
    rw [dispatch]
    split
    · rfl
    · next id hwrite =>
      obtain ⟨o, ho, -⟩ := h.exists_object (h.writes hwrite)
      rw [handleWritableOf, ho]
      simp only [if_neg (h.not_closed ho)]
      exact (transmitOf_moves results p o h ho (hsettled id o ho)).1.created_eq (h.lt_created ho)
  | error fd => rfl

theorem Viewed.dispatch (h : S.Viewed p) (event : KernelEvent) :
    S.LivedAlone (S.dispatch p event) := by
  obtain ⟨hrest, hexchanging, halone⟩ := h
  by_cases hserver : ∃ fd accepts results, event = .read fd accepts results ∧
      p.readCallbacks fd = some .server
  · obtain ⟨fd, accepts, results, rfl, hread⟩ := hserver
    simp only [Service.dispatch, hread]
    exact LivedAlone.handleAccept accepts p hrest.owned hexchanging halone
  · have hcreated : (S.dispatch p event).created = p.created :=
      dispatch_created_eq hrest.owned hrest.settled event
        (fun fd accepts results heq hread => hserver ⟨fd, accepts, results, heq, hread⟩)
    intro id hid
    rw [hcreated] at hid
    obtain ⟨c, hc, hmirrors⟩ := halone id hid
    have hnext := dispatch_mirrors hrest hid hmirrors event
    refine ⟨_, Lived.turn ?_ (.others _ _ _), hnext⟩
    cases p.eventFor id event with
    | none => exact hc
    | some own => exact hc.turn (.event c own)

theorem Viewed.stepOf (h : S.Viewed p) (event : KernelEvent) : S.Viewed (S.stepOf p event) := by
  obtain ⟨hrest, hexchanging⟩ := h.resting.stepOf (I := fun q => ∀ id, S.Exchanging q id)
    Exchanging.move event
    (fun _ _ hI id => (hI id).of_unmoved ⟨rfl, rfl, rfl, rfl, rfl, Nat.le_refl _⟩) h.exchanging
  refine ⟨hrest, hexchanging, ?_⟩
  rw [Service.stepOf]
  split
  · exact h.dispatch event
  · exact h.alone

end Service

/-- In every state a server reaches, each connection it ever accepted is in the state of a
single connection that has lived alone, while others used the handler and the event loop
in between. -/
theorem connections_lived_alone {σ : Type} (S : Service σ) (setup : Setup) (s : σ)
    (registrations : List Bool) (polls : List Poll)
    (hstart : ((Process.fresh s registrations).initializeServer setup).1 = none) :
    S.LivedAlone (S.runLoop polls ((Process.fresh s registrations).initializeServer setup).2) := by
  obtain ⟨error, rest, hinit⟩ | ⟨fd, hfd, hinit⟩ :=
    Process.initializeServer_cases setup s registrations
  · rw [hinit] at hstart
    cases hstart
  · have hfirst : S.Viewed (Process.listening s registrations.tail fd) :=
      ⟨Service.resting_of_idle (Process.idle_listening s registrations.tail hfd),
        (Service.working_listening s registrations.tail fd).exchanging,
        fun id hid => absurd hid (Nat.not_lt_zero id)⟩
    rw [hinit]
    exact (Service.runLoop_keeps (fun event h => h.stepOf event) polls hfirst).alone

end ForgeDB
