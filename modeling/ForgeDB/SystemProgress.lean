import ForgeDB.FairRuns
import ForgeDB.ServerProgress
import ForgeDB.Systems

/-!
# Every command is answered

While registrations succeed and no error is reported, a client that waits has something
under way, and a step of its own or of the server moves it on: its connection is accepted,
or bytes of its command or of a response go further. So a client can have its answer without
the other clients, and it has it in every run that goes on moving what can be moved.
-/

namespace ForgeDB
open StreamFraming Serialization Protocol FairRuns

namespace Client

variable {limit : ℕ} {c : Client}

/-- The client is neither at its prompt nor behind its loop. -/
def Busy (c : Client) : Prop := c.state ≠ .prompting ∧ c.state ≠ .finished

/-- A client that sends has bytes left, and one that waits has no complete response. -/
def Underway (limit : ℕ) (c : Client) : Prop :=
  match c.state with
  | .sending rest => rest ≠ []
  | .waiting inputBuffer => ¬ (framer limit).Ready inputBuffer
  | .prompting => True
  | .finished => True

theorem Underway.step (h : c.Underway limit) (call : ClientCall) :
    (c.step limit call).Underway limit := by
  obtain heq | heq | ⟨command, -, hcommand, heq⟩ | ⟨rest, count, -, -, heq⟩ |
    ⟨inputBuffer, bytes, hstate, hbytes, rfl⟩ := step_cases limit c call
  · rw [heq]
    exact h
  · rw [heq]
    trivial
  · rw [heq]
    exact createFrame_ne_nil_iff.mpr hcommand
  · rw [heq]
    by_cases hrest : rest.drop count = []
    · simp only [Underway, if_pos hrest]
      exact Framer.not_ready_nil
    · simp only [Underway, if_neg hrest]
      exact hrest
  · simp only [Client.step, hstate, receiveResponseTurn, if_neg hbytes]
    by_cases hready : (framer limit).Ready (inputBuffer ++ bytes)
    · obtain ⟨payload, rest, hlook⟩ := hready
      simp only [tryExtractFrame_eq, hlook, Underway]
    · rw [Service.tryExtractFrame_of_not_ready hready]
      exact Service.not_ready_settled hready

theorem asked_step (h : c.state ≠ .prompting) (call : ClientCall) :
    (c.step limit call).asked = c.asked := by
  obtain heq | heq | ⟨command, hstate, -, -⟩ | ⟨rest, count, -, -, heq⟩ |
    ⟨inputBuffer, bytes, hstate, hbytes, rfl⟩ := step_cases limit c call
  · rw [heq]
  · rw [heq]
  · exact absurd hstate h
  · rw [heq]
  · simp only [Client.step, hstate, receiveResponseTurn, if_neg hbytes]
    split <;> rfl

theorem step_send_all (limit : ℕ) {rest : Bytes} (hstate : c.state = .sending rest)
    (hrest : rest ≠ []) :
    c.step limit (.send (.sent rest.length)) =
      { c with state := .waiting [], transmitted := c.transmitted ++ rest } := by
  simp only [Client.step, hstate, sendAllTurn, List.take_length, List.drop_length, if_neg hrest,
    if_true]

/-- The client reads on: it keeps what it reads, and goes back to its prompt or waits. -/
theorem step_recv (limit : ℕ) {inputBuffer bytes : Bytes}
    (hstate : c.state = .waiting inputBuffer) (hbytes : bytes ≠ []) :
    (c.step limit (.recv (.received bytes))).obtained = c.obtained ++ bytes ∧
      (c.step limit (.recv (.received bytes))).transmitted = c.transmitted ∧
      (c.step limit (.recv (.received bytes))).state ≠ .finished := by
  simp only [Client.step, hstate, receiveResponseTurn, if_neg hbytes]
  split <;> simp

end Client

namespace Service

variable {σ : Type} {S : Service σ} {p q : Process σ} {id : ℕ} {o : ConnectionObject}

/-- Requests have been served: nothing more has arrived or gone out, and the connection is
there unless a response was too large. -/
structure ServedOnly (p q : Process σ) (id : ℕ) : Prop where
  received : q.received = p.received
  sent : q.sent = p.sent
  created : q.created = p.created
  alive : q.fault = none → ∃ o, q.objects id = some o

theorem processTurnsOf_servedOnly (turns : ℕ) (p : Process σ) (o : ConnectionObject) (h : p.Owned)
    (ho : p.objects id = some o) (hturns : o.inputBuffer.length < turns) :
    ServedOnly p (S.processTurnsOf turns p id) id := by
  induction turns generalizing p o with
  | zero => omega
  | succ turns ih =>
    rw [processTurnsOf, ho]
    simp only [if_neg (h.not_closed ho)]
    by_cases hready : (framer S.maxMessageSize).Ready o.inputBuffer
    · obtain ⟨payload, rest, hlook⟩ := hready
      have hshort := (framer S.maxMessageSize).shorter hlook
      simp only [tryExtractFrame_eq, hlook]
      by_cases hfits : (S.responseTo p payload).length ≤ S.maxMessageSize
      · have hmove := Move.answer ho hlook hfits
        rw [serveOf_of_fits h ho hfits]
        obtain ⟨hreceived, hsent, hcreated, halive⟩ := ih (S.answered p id o payload rest) _
          (h.move hmove) Process.put_objects_self (by simp only; omega)
        exact ⟨hreceived, hsent, hcreated, halive⟩
      · have hnone : ((S.asked p id payload).discarded id o.fd).objects id = none :=
          Function.update_self ..
        rw [serveOf_of_not_fits h ho hfits]
        cases turns with
        | zero => omega
        | succ turns =>
          rw [processTurnsOf, hnone]
          exact ⟨rfl, rfl, rfl, fun hfault => absurd hfault (Option.some_ne_none _)⟩
    · simp only [tryExtractFrame_of_not_ready hready]
      exact ⟨rfl, rfl, rfl, fun _ => ⟨_, Process.put_objects_self⟩⟩

theorem processMessagesOf_servedOnly (h : p.Owned) (ho : p.objects id = some o) :
    ServedOnly p (S.processMessagesOf p id) id := by
  rw [processMessagesOf, ho]
  exact processTurnsOf_servedOnly _ p o h ho (Nat.lt_succ_self _)

/-- A connection that is called back takes in what has arrived. -/
theorem stepOf_read (h : p.Owned) (hfault : p.fault = none) (ho : p.objects id = some o)
    (hread : p.readCallbacks o.fd = some (.connection id)) {bytes : Bytes} (hbytes : bytes ≠ []) :
    ServedOnly (p.gained id o bytes) (S.stepOf p (.read o.fd [] [.received bytes])) id := by
  have hmove : S.Move id p (p.gained id o bytes) := Move.gain bytes ho
  have hstep : S.stepOf p (.read o.fd [] [.received bytes]) =
      S.processMessagesOf (p.gained id o bytes) id := by
    simp only [stepOf, if_pos hfault, dispatch, hread, handleReadableOf, ho,
      if_neg (h.not_closed ho), receiveOf, if_neg hbytes]
    rfl
  rw [hstep]
  exact processMessagesOf_servedOnly (h.move hmove) Process.put_objects_self

theorem stepOf_write (h : p.Owned) (hfault : p.fault = none) (ho : p.objects id = some o)
    (hwrite : p.writeCallbacks o.fd = some id) (hpending : o.outputOffset < o.outputBuffer.length) :
    ∃ q, ServedOnly q
        (S.stepOf p (.write o.fd [.sent (o.outputBuffer.length - o.outputOffset)])) id ∧
      q.received = p.received ∧ q.created = p.created ∧
      q.sent = Function.update p.sent id (p.sent id ++ o.outputBuffer.drop o.outputOffset) := by
  have htake : (o.outputBuffer.drop o.outputOffset).take
      (o.outputBuffer.length - o.outputOffset) = o.outputBuffer.drop o.outputOffset := by
    rw [← List.length_drop, List.take_length]
  have hne : o.outputBuffer.drop o.outputOffset ≠ [] := by
    rw [ne_eq, List.drop_eq_nil_iff]
    omega
  have hmove := Move.advance (S := S) (o.outputBuffer.length - o.outputOffset) ho
  rw [htake] at hmove
  have howned := h.move hmove
  have hself : (p.advanced id o (o.outputBuffer.drop o.outputOffset)).objects id = some
      { o with outputOffset := o.outputOffset + (o.outputBuffer.drop o.outputOffset).length } :=
    Process.put_objects_self
  have hdone : ¬ o.outputOffset + (o.outputBuffer.drop o.outputOffset).length <
      o.outputBuffer.length := by
    rw [List.length_drop]
    omega
  have hdrain : S.Move id (p.advanced id o (o.outputBuffer.drop o.outputOffset)) _ :=
    Move.drain hself (Nat.le_of_not_lt hdone)
  have hstep : S.stepOf p (.write o.fd [.sent (o.outputBuffer.length - o.outputOffset)]) =
      S.transmitOf [] (p.advanced id o (o.outputBuffer.drop o.outputOffset)) id := by
    simp only [stepOf, if_pos hfault, dispatch, hwrite, handleWritableOf, ho,
      if_neg (h.not_closed ho), transmitOf, if_pos hpending, htake, if_neg hne, Process.advanced]
  rw [hstep, transmitOf, hself]
  simp only [if_neg hdone, finishWritingOf_eq]
  exact ⟨_, processMessagesOf_servedOnly (howned.move hdrain) Process.put_objects_self, rfl, rfl, rfl⟩

/-- The listening socket is called back and accepts one client. -/
theorem stepOf_accept (h : p.Owned) (hfault : p.fault = none)
    (hlistens : p.readCallbacks p.serverFd = some .server) :
    S.stepOf p (.read p.serverFd [.accepted 0 true] []) = p.accepted (p.allocate 0) := by
  simp only [stepOf, if_pos hfault, dispatch, hlistens, Process.handleAccept, if_true,
    Process.addConnection_eq h (p.allocate_not_mem 0)]

/-- A step in which no error is reported and only some of the clients act. -/
inductive CalmStep (S : Service σ) (among : ℕ → Prop) : System σ → System σ → Prop where
  | server {system : System σ} (event : KernelEvent) (hcalm : ∀ fd, event ≠ .error fd)
      (hdelivered : ∀ id, (S.serverStep system event).process.received id <+:
        (system.clients id).transmitted) :
      CalmStep S among system (S.serverStep system event)
  | client {system : System σ} (id : ℕ) (hid : among id) (call : ClientCall)
      (hdelivered : ((S.clientStep system id call).clients id).obtained <+:
        system.process.sent id) :
      CalmStep S among system (S.clientStep system id call)

def anyone (_ : ℕ) : Prop := True

theorem CalmStep.weaken {among : ℕ → Prop} {system next : System σ}
    (h : S.CalmStep among system next) : S.CalmStep anyone system next := by
  cases h with
  | server event hcalm hdelivered => exact .server event hcalm hdelivered
  | client id hid call hdelivered => exact .client id trivial call hdelivered

/-- A client that is not at its prompt takes no new command. -/
theorem CalmStep.asked_eq {among : ℕ → Prop} {system next : System σ}
    (h : S.CalmStep among system next) (hstate : (system.clients id).state ≠ .prompting) :
    (next.clients id).asked = (system.clients id).asked := by
  cases h with
  | server event hcalm hdelivered => rfl
  | client id' hid call hdelivered =>
    by_cases hid' : id = id'
    · subst hid'
      simp only [clientStep, Function.update_self]
      exact Client.asked_step hstate call
    · simp only [clientStep, Function.update_of_ne hid']

end Service

namespace System

variable {σ : Type}

/-- The connections accepted up to that of the client, and the bytes that have moved on it. -/
def progress (id : ℕ) (system : System σ) : ℕ :=
  min system.process.created (id + 1) + (system.clients id).transmitted.length +
    (system.process.received id).length + (system.process.sent id).length +
    (system.clients id).obtained.length

/-- The server has not given the connection of the client up. -/
def Connected (id : ℕ) (system : System σ) : Prop :=
  id < system.process.created → ∃ o, system.process.objects id = some o

end System

/-- A system in which every connection is called back. -/
structure Lively {σ : Type} (S : Service σ) (start : σ) (system : System σ) : Prop where
  coherent : Coherent S start system
  attended : system.process.Attended
  underway : ∀ id, (system.clients id).Underway S.maxMessageSize

/-- The client has entered these commands, and the last of them is not answered. -/
structure Waits {σ : Type} (S : Service σ) (start : σ) (id : ℕ) (commands : List Bytes)
    (system : System σ) : Prop where
  lively : Lively S start system
  fault : system.process.fault = none
  asked : (system.clients id).asked = commands
  busy : (system.clients id).Busy
  connected : system.Connected id

/-- A step of the client or of the server moves the client on, and nothing is given up
unless a response is too large. -/
def MovesOn {σ : Type} (S : Service σ) (id : ℕ) (system : System σ) : Prop :=
  ∃ next, S.CalmStep (· = id) system next ∧ system.progress id < next.progress id ∧
    (next.clients id).state ≠ .finished ∧ (next.process.fault = none → next.Connected id)

def Overflowed {σ : Type} (S : Service σ) (system : System σ) : Prop :=
  ∃ e ∈ system.process.served, S.maxMessageSize < e.response.length

/-- The client has the answers to these commands, or will not get them any more. -/
inductive Concluded {σ : Type} (S : Service σ) (id : ℕ) (commands : List Bytes)
    (system : System σ) : Prop where
  | answered (h : commands.length ≤ (system.clients id).printed.length)
  | finished (h : (system.clients id).state = .finished)
  | closed (hcreated : id < system.process.created) (hnone : system.process.objects id = none)
  | overflowed (h : Overflowed S system)

namespace Lively

variable {σ : Type} {S : Service σ} {start : σ} {system next : System σ} {among : ℕ → Prop}

theorem step (hmax : S.maxMessageSize < 2 ^ 32) (h : Lively S start system)
    (hstep : S.CalmStep among system next) : Lively S start next := by
  cases hstep with
  | server event hcalm hdelivered =>
    have hattended := (h.coherent.healthy.resting.stepOf (I := Process.Attended)
      Service.attended_move event (fun hevent => absurd hevent (hcalm _)) h.attended).2
    exact ⟨h.coherent.server hmax event hdelivered, hattended, h.underway⟩
  | client id hid call hdelivered =>
    refine ⟨h.coherent.client hmax id call hdelivered, h.attended, fun id' => ?_⟩
    by_cases hid' : id' = id
    · subst hid'
      simp only [Service.clientStep, Function.update_self]
      exact (h.underway id').step call
    · simp only [Service.clientStep, Function.update_of_ne hid']
      exact h.underway id'

theorem steps (hmax : S.maxMessageSize < 2 ^ 32) (h : Lively S start system)
    (hsteps : Relation.ReflTransGen (S.CalmStep among) system next) : Lively S start next := by
  induction hsteps with
  | refl => exact h
  | tail _ hstep ih => exact ih.step hmax hstep

theorem started {setup : Setup} {s : σ} {registrations : List Bool}
    (hreliable : ∀ result ∈ registrations, result = true)
    (hstart : ((Process.fresh s registrations).initializeServer setup).1 = none) :
    Lively S s
      (Service.initialSystem ((Process.fresh s registrations).initializeServer setup).2) := by
  refine ⟨Service.coherent_start hstart, ?_, fun _ => trivial⟩
  obtain ⟨error, rest, hinit⟩ | ⟨fd, hfd, hinit⟩ :=
    Process.initializeServer_cases setup s registrations
  · rw [hinit] at hstart
    cases hstart
  · rw [hinit]
    exact Service.attended_listening s hreliable fd

theorem overflowed_of_fault (h : Lively S start system) (hfault : system.process.fault ≠ none) :
    Overflowed S system := by
  have hsome := (not_congr h.coherent.healthy.accounted.fault_eq_none_iff).mp hfault
  simpa only [Overflowed, not_forall, Nat.not_le, exists_prop] using hsome

/-- A client that is back at its prompt has all its answers. -/
theorem answered_of_prompting (h : Lively S start system) (hfault : system.process.fault = none)
    {id : ℕ} (hprompting : (system.clients id).state = .prompting) :
    (system.clients id).asked.length ≤ (system.clients id).printed.length := by
  have hphase := (h.coherent.paired hfault id).phase
  rw [Client.Phase, hprompting] at hphase
  exact hphase.2.2.le

theorem waits_or_concluded (h : Lively S start system) {id : ℕ} {commands : List Bytes}
    (hasked : (system.clients id).asked = commands) :
    Waits S start id commands system ∨ Concluded S id commands system := by
  by_cases hfault : system.process.fault = none
  · by_cases hprompting : (system.clients id).state = .prompting
    · have hanswered := h.answered_of_prompting hfault hprompting
      rw [hasked] at hanswered
      exact Or.inr (.answered hanswered)
    · by_cases hfinished : (system.clients id).state = .finished
      · exact Or.inr (.finished hfinished)
      · by_cases hconnected : system.Connected id
        · exact Or.inl ⟨h, hfault, hasked, ⟨hprompting, hfinished⟩, hconnected⟩
        · obtain ⟨hcreated, hnone⟩ := Classical.not_imp.mp hconnected
          rw [not_exists] at hnone
          exact Or.inr (.closed hcreated (Option.eq_none_iff_forall_ne_some.mpr hnone))
  · exact Or.inr (.overflowed (h.overflowed_of_fault hfault))

end Lively

theorem length_framed_le (limit : ℕ) (payloads : List Bytes) :
    (framed limit payloads).length ≤ payloads.length * (limit + 4) := by
  induction payloads with
  | nil => simp
  | cons payload payloads ih =>
    have hframe : (createFrame limit payload).length ≤ limit + 4 := by
      rw [createFrame, appendUint32, appendWord_eq]
      split
      · simp
      · simp only [List.length_append, List.length_nil, LittleEndian.length_encode]
        omega
    rw [framed_cons, List.length_append, List.length_cons, Nat.succ_mul]
    omega

namespace Waits

variable {σ : Type} {S : Service σ} {start : σ} {system next : System σ} {id : ℕ}
  {commands : List Bytes}

theorem paired (h : Waits S start id commands system) :
    Paired S.maxMessageSize system.process id (system.clients id) :=
  h.lively.coherent.paired h.fault id

theorem exchanging (h : Waits S start id commands system) : S.Exchanging system.process id :=
  h.lively.coherent.healthy.working.exchanging id

theorem progress_le (h : Waits S start id commands system) (hmax : S.maxMessageSize < 2 ^ 32) :
    system.progress id ≤ id + 1 + 4 * (commands.length * (S.maxMessageSize + 4)) := by
  have htransmitted := h.paired.transmitted.length_le
  have hreceived := h.paired.delivered.length_le
  have hsent := h.exchanging.sent.length_le
  have hobtained := h.paired.obtained.length_le
  have hasked := length_framed_le S.maxMessageSize (system.clients id).asked
  have hanswers := length_framed_le S.maxMessageSize (system.process.responsesOf id)
  have hcount := h.paired.length_responses_le hmax h.exchanging
  have hframes : (system.process.responsesOf id).length * (S.maxMessageSize + 4) ≤
      (system.clients id).asked.length * (S.maxMessageSize + 4) :=
    Nat.mul_le_mul_right _ hcount
  rw [← h.asked, System.progress]
  omega

/-- Where everything has arrived and gone out, nobody waits: the last response would be a
complete frame in the buffer of the client. -/
theorem not_quiet (h : Waits S start id commands system) (hmax : S.maxMessageSize < 2 ^ 32)
    {inputBuffer : Bytes} (hstate : (system.clients id).state = .waiting inputBuffer)
    {o : ConnectionObject} (ho : system.process.objects id = some o)
    (hreceived : system.process.received id = (system.clients id).transmitted)
    (houtput : o.outputBuffer.length ≤ o.outputOffset)
    (hobtained : (system.clients id).obtained = system.process.sent id) : False := by
  have hphase := h.paired.phase
  have hunderway := h.lively.underway id
  rw [Client.Phase, hstate] at hphase
  rw [Client.Underway, hstate] at hunderway
  obtain ⟨htransmitted, hread, hcount⟩ := hphase
  have hnever : NeverRefused S.maxMessageSize (system.process.received id) :=
    neverRefused_of_framed hmax h.paired.sized (h.paired.delivered.trans h.paired.transmitted)
  have hinput := h.exchanging.input ho hnever
  have hasked := pull_framed_append hmax h.paired.sized []
  rw [List.append_nil, Framer.pull_nil, List.append_nil] at hasked
  rw [Framer.pull_of_not_ready (h.lively.coherent.healthy.resting.settled id o ho),
    List.append_nil, hreceived, htransmitted, hasked] at hinput
  have hrequests : (system.process.requestsOf id).length = (system.clients id).asked.length :=
    congrArg List.length (Prod.mk.inj hinput).1.symm
  have hresponses : (system.process.responsesOf id).length =
      (system.process.requestsOf id).length := by
    rw [Process.responsesOf, Process.requestsOf, List.length_map, List.length_map]
  have hsent := h.exchanging.output ho
  rw [List.drop_eq_nil_of_le houtput, List.append_nil, ← hobtained, hread] at hsent
  obtain ⟨response, hlast⟩ : ∃ response, system.process.responsesOf id =
      (system.clients id).printed ++ [response] := by
    obtain hsame | hmore := eq_or_concat_of_prefix h.paired.printed (by omega)
    · rw [hsame] at hresponses
      omega
    · exact hmore
  rw [hlast, framed_append, List.append_cancel_left_eq] at hsent
  have hfits : response.length ≤ S.maxMessageSize :=
    h.lively.coherent.healthy.fits h.fault id response
      (hlast ▸ List.mem_append_right _ List.mem_cons_self)
  refine hunderway ⟨response, [], ?_⟩
  rw [hsent]
  exact look_createFrame hmax hfits []

theorem movesOn_send (h : Waits S start id commands system) {rest : Bytes}
    (hstate : (system.clients id).state = .sending rest) : MovesOn S id system := by
  have hrest : rest ≠ [] := by
    have hunderway := h.lively.underway id
    rw [Client.Underway, hstate] at hunderway
    exact hunderway
  have hstep := Client.step_send_all S.maxMessageSize hstate hrest
  have hself : (S.clientStep system id (.send (.sent rest.length))).clients id = _ :=
    (Function.update_self ..).trans hstep
  have hlen : 0 < rest.length := List.length_pos_iff.mpr hrest
  refine ⟨S.clientStep system id (.send (.sent rest.length)), .client id (by rfl) _ ?_, ?_, ?_,
    fun _ => h.connected⟩
  · rw [hself]
    exact h.paired.obtained
  · simp only [System.progress, hself, List.length_append]
    simp only [Service.clientStep]
    omega
  · rw [hself]
    simp

theorem movesOn_recv (h : Waits S start id commands system) {inputBuffer : Bytes}
    (hstate : (system.clients id).state = .waiting inputBuffer)
    (hmore : (system.clients id).obtained ≠ system.process.sent id) : MovesOn S id system := by
  obtain ⟨bytes, hbytes⟩ := h.paired.obtained
  have hne : bytes ≠ [] := by
    rintro rfl
    exact hmore ((List.append_nil _).symm.trans hbytes)
  obtain ⟨hobtained, htransmitted, hfinished⟩ :=
    Client.step_recv S.maxMessageSize hstate hne
  have hself : (S.clientStep system id (.recv (.received bytes))).clients id =
      (system.clients id).step S.maxMessageSize (.recv (.received bytes)) :=
    Function.update_self ..
  have hlen : 0 < bytes.length := List.length_pos_iff.mpr hne
  refine ⟨S.clientStep system id (.recv (.received bytes)), .client id (by rfl) _ ?_, ?_, ?_,
    fun _ => h.connected⟩
  · rw [hself, hobtained, hbytes]
  · simp only [System.progress, hself, hobtained, htransmitted, List.length_append]
    simp only [Service.clientStep]
    omega
  · rw [hself]
    exact hfinished

theorem movesOn_accept (h : Waits S start id commands system)
    (hnew : system.process.created ≤ id) : MovesOn S id system := by
  have howned := h.lively.coherent.healthy.resting.owned
  have hstep : (S.serverStep system
      (.read system.process.serverFd [.accepted 0 true] [])).process =
      system.process.accepted (system.process.allocate 0) :=
    Service.stepOf_accept howned h.fault h.lively.attended.listens
  have hcreated : (system.process.accepted (system.process.allocate 0)).created =
      system.process.created + 1 := rfl
  refine ⟨_, .server (.read system.process.serverFd [.accepted 0 true] []) (by simp) ?_, ?_,
    h.busy.2, fun _ hid => ?_⟩
  · intro id'
    rw [hstep]
    exact (h.lively.coherent.paired h.fault id').delivered
  · simp only [System.progress, hstep, hcreated]
    simp only [Service.serverStep, Process.accepted, Process.put]
    omega
  · rw [hstep, hcreated] at hid
    obtain rfl : id = system.process.created := by omega
    exact ⟨_, by rw [hstep]; exact Process.put_objects_self⟩

theorem movesOn_read (h : Waits S start id commands system) {o : ConnectionObject}
    (ho : system.process.objects id = some o)
    (hmore : system.process.received id ≠ (system.clients id).transmitted) :
    MovesOn S id system := by
  have howned := h.lively.coherent.healthy.resting.owned
  obtain ⟨bytes, hbytes⟩ := h.paired.delivered
  have hne : bytes ≠ [] := by
    rintro rfl
    exact hmore ((List.append_nil _).symm.trans hbytes)
  have hserved : Service.ServedOnly (system.process.gained id o bytes)
      (S.serverStep system (.read o.fd [] [.received bytes])).process id :=
    Service.stepOf_read howned h.fault ho (h.lively.attended.reads ho) hne
  have hlen : 0 < bytes.length := List.length_pos_iff.mpr hne
  refine ⟨_, .server (.read o.fd [] [.received bytes]) (by simp) ?_, ?_, h.busy.2,
    fun hfault _ => hserved.alive hfault⟩
  · intro id'
    rw [hserved.received]
    by_cases hid : id' = id
    · subst hid
      simp only [Process.gained, Function.update_self, hbytes]
      exact List.prefix_refl _
    · simp only [Process.gained, Function.update_of_ne hid]
      exact (h.lively.coherent.paired h.fault id').delivered
  · simp only [System.progress, hserved.received, hserved.sent, hserved.created, Process.gained,
      Function.update_self, List.length_append]
    simp only [Service.serverStep, Process.put]
    omega

theorem movesOn_write (h : Waits S start id commands system) {o : ConnectionObject}
    (ho : system.process.objects id = some o)
    (hpending : o.outputOffset < o.outputBuffer.length) : MovesOn S id system := by
  have howned := h.lively.coherent.healthy.resting.owned
  obtain ⟨q, hserved, hreceived, hcreated, hsent⟩ := Service.stepOf_write (S := S) howned h.fault ho
    (h.lively.attended.writes ho hpending) hpending
  have hprocess : Service.ServedOnly q (S.serverStep system
      (.write o.fd [.sent (o.outputBuffer.length - o.outputOffset)])).process id := hserved
  refine ⟨_, .server (.write o.fd [.sent (o.outputBuffer.length - o.outputOffset)]) (by simp) ?_,
    ?_, h.busy.2, fun hfault _ => hprocess.alive hfault⟩
  · intro id'
    rw [hprocess.received, hreceived]
    exact (h.lively.coherent.paired h.fault id').delivered
  · simp only [System.progress, hprocess.received, hprocess.sent, hprocess.created, hreceived,
      hcreated, hsent, Function.update_self, List.length_append, List.length_drop]
    simp only [Service.serverStep]
    omega

theorem movesOn (h : Waits S start id commands system) (hmax : S.maxMessageSize < 2 ^ 32) :
    MovesOn S id system := by
  cases hstate : (system.clients id).state with
  | prompting => exact absurd hstate h.busy.1
  | finished => exact absurd hstate h.busy.2
  | sending rest => exact h.movesOn_send hstate
  | waiting inputBuffer =>
    by_cases hcreated : id < system.process.created
    · obtain ⟨o, ho⟩ := h.connected hcreated
      by_cases hreceived : system.process.received id = (system.clients id).transmitted
      · by_cases hpending : o.outputOffset < o.outputBuffer.length
        · exact h.movesOn_write ho hpending
        · by_cases hobtained : (system.clients id).obtained = system.process.sent id
          · exact (h.not_quiet hmax hstate ho hreceived (Nat.le_of_not_lt hpending) hobtained).elim
          · exact h.movesOn_recv hstate hobtained
      · exact h.movesOn_read ho hreceived
    · exact h.movesOn_accept (Nat.le_of_not_lt hcreated)

/-- One step leaves a client waiting or concludes its commands. -/
theorem step {among : ℕ → Prop} (h : Waits S start id commands system)
    (hmax : S.maxMessageSize < 2 ^ 32) (hstep : S.CalmStep among system next) :
    Waits S start id commands next ∨ Concluded S id commands next :=
  (h.lively.step hmax hstep).waits_or_concluded ((hstep.asked_eq h.busy.1).trans h.asked)

end Waits

/-- From every state without a reported error, a client can have the answers to all its
commands while the other clients do nothing. -/
theorem answered_without_others {σ : Type} (S : Service σ) (hmax : S.maxMessageSize < 2 ^ 32)
    (setup : Setup) (s : σ) (registrations : List Bool)
    (hreliable : ∀ result ∈ registrations, result = true)
    (hstart : ((Process.fresh s registrations).initializeServer setup).1 = none)
    (system : System σ)
    (hreached : Relation.ReflTransGen (S.CalmStep Service.anyone)
      (Service.initialSystem ((Process.fresh s registrations).initializeServer setup).2) system)
    (id : ℕ) (hfinished : (system.clients id).state ≠ .finished)
    (hconnected : system.Connected id) :
    ∃ next, Relation.ReflTransGen (S.CalmStep (· = id)) system next ∧
      ((system.clients id).asked.length ≤ (next.clients id).printed.length ∨
        Overflowed S next) := by
  have h : Lively S s system := (Lively.started hreliable hstart).steps hmax hreached
  obtain hwaits | hconcluded := h.waits_or_concluded rfl
  · refine exists_reached (fun a (ha : Waits S s id _ a) => ha.progress_le hmax) ?_ hwaits
    intro a ha
    obtain ⟨next, hstep, hless, hrunning, hkept⟩ := ha.movesOn hmax
    refine ⟨next, hstep, ?_⟩
    obtain hnext | hend := ha.step hmax hstep
    · exact Or.inr ⟨hnext, hless⟩
    · cases hend with
      | answered hanswered => exact Or.inl (Or.inl hanswered)
      | finished hend => exact absurd hend hrunning
      | closed hcreated hnone =>
        by_cases hfault : next.process.fault = none
        · obtain ⟨o, ho⟩ := hkept hfault hcreated
          cases hnone.symm.trans ho
        · exact Or.inl (Or.inr ((ha.lively.step hmax hstep).overflowed_of_fault hfault))
      | overflowed hlarge => exact Or.inl (Or.inr hlarge)
  · refine ⟨system, Relation.ReflTransGen.refl, ?_⟩
    cases hconcluded with
    | answered hanswered => exact Or.inl hanswered
    | finished hend => exact absurd hend hfinished
    | closed hcreated hnone =>
      obtain ⟨o, ho⟩ := hconnected hcreated
      cases hnone.symm.trans ho
    | overflowed hlarge => exact Or.inr hlarge

theorem halfWay_calm : Relation.ReflTransGen (doubling.CalmStep Service.anyone)
    (Service.initialSystem ((Process.fresh 0 []).initializeServer plainSetup).2) halfWay :=
  (((Relation.ReflTransGen.refl.tail
    (.client 0 trivial (.getline (some (text "hi"))) (by decide))).tail
    (.client 1 trivial (.getline (some (text "yo"))) (by decide))).tail
    (.server (.read 3 [.accepted 4 true] []) (by simp) (fun _ => List.nil_prefix))).tail
    (.client 0 trivial (.send (.sent 100)) (by decide))

/-- The second client, which the server has not accepted yet. -/
theorem answered_without_others_halfWay :
    ∃ next, Relation.ReflTransGen (doubling.CalmStep (· = 1)) halfWay next ∧
      ((halfWay.clients 1).asked.length ≤ (next.clients 1).printed.length ∨
        Overflowed doubling next) :=
  answered_without_others doubling (by decide) plainSetup 0 [] (by simp) rfl halfWay halfWay_calm 1
    (by decide) (fun hcreated => absurd hcreated (by decide))

/-- In a run without reported errors that goes on moving the bytes of a client whenever it
can, every command of the client is answered, unless the client ends, the server closes its
connection, or some response is too large. -/
theorem fair_runs_answer {σ : Type} (S : Service σ) (hmax : S.maxMessageSize < 2 ^ 32)
    (setup : Setup) (s : σ) (registrations : List Bool)
    (hreliable : ∀ result ∈ registrations, result = true)
    (hstart : ((Process.fresh s registrations).initializeServer setup).1 = none)
    (run : ℕ → System σ)
    (hfirst : run 0 =
      Service.initialSystem ((Process.fresh s registrations).initializeServer setup).2)
    (hrun : ∀ n, S.CalmStep Service.anyone (run n) (run (n + 1))) (id : ℕ)
    (hfair : ∀ n, ((run n).clients id).Busy →
      (∃ next, S.CalmStep Service.anyone (run n) next ∧
        (run n).progress id < next.progress id) →
      ∃ m, n ≤ m ∧ (run n).progress id < (run m).progress id) (n : ℕ) :
    ∃ m, n ≤ m ∧ Concluded S id ((run n).clients id).asked (run m) := by
  have hlively : ∀ n, Lively S s (run n) := by
    intro n
    induction n with
    | zero =>
      rw [hfirst]
      exact Lively.started hreliable hstart
    | succ n ih => exact ih.step hmax (hrun n)
  obtain hwaits | hconcluded := (hlively n).waits_or_concluded rfl
  · refine eventually_done run (fun a (ha : Waits S s id _ a) => ha.progress_le hmax)
      (fun m hm => hm.step hmax (hrun m)) ?_ hwaits
    intro m hm
    obtain ⟨next, hstep, hless, -, -⟩ := hm.movesOn hmax
    exact hfair m hm.busy ⟨next, hstep.weaken, hless⟩
  · exact ⟨n, Nat.le_refl _, hconcluded⟩

/-- The round trip, call by call; then the client stays at its prompt. -/
def roundTripStep (system : System ℕ) : ℕ → System ℕ
  | 0 => doubling.clientStep system 0 (.getline (some (text "hi")))
  | 1 => doubling.clientStep system 1 (.getline (some (text "yo")))
  | 2 => doubling.serverStep system (.read 3 [.accepted 4 true] [])
  | 3 => doubling.clientStep system 0 (.send (.sent 100))
  | 4 => doubling.serverStep system (.read 4 [] [.received [2, 0, 0, 0, 104, 105]])
  | 5 => doubling.serverStep system (.write 4 [.sent 100])
  | 6 => doubling.clientStep system 0 (.recv (.received [4, 0, 0, 0, 104, 105, 104, 105]))
  | _ + 7 => doubling.clientStep system 0 (.recv (.failed .interrupted))

def roundTripRun : ℕ → System ℕ
  | 0 => Service.initialSystem ((Process.fresh 0 []).initializeServer plainSetup).2
  | n + 1 => roundTripStep (roundTripRun n) n

theorem clientStep_eq_self {σ : Type} (S : Service σ) (system : System σ) (id : ℕ)
    (call : ClientCall)
    (h : (system.clients id).step S.maxMessageSize call = system.clients id) :
    S.clientStep system id call = system := by
  simp only [Service.clientStep, h, Function.update_eq_self, Client.marks, List.drop_length,
    List.map_nil, List.append_nil]

theorem roundTripRun_seven (n : ℕ) : roundTripRun (n + 7) = roundTrip := by
  induction n with
  | zero => rfl
  | succ n ih =>
    rw [Nat.add_right_comm, roundTripRun, ih]
    exact clientStep_eq_self doubling roundTrip 0 (.recv (.failed .interrupted)) rfl

theorem roundTripRun_calm (n : ℕ) :
    doubling.CalmStep Service.anyone (roundTripRun n) (roundTripRun (n + 1)) := by
  match n with
  | 0 => exact .client 0 trivial _ (by decide)
  | 1 => exact .client 1 trivial _ (by decide)
  | 2 => exact .server _ (by simp) (fun _ => List.nil_prefix)
  | 3 => exact .client 0 trivial _ (by decide)
  | 4 => exact .server _ (by simp) roundTrip_delivered
  | 5 => exact .server _ (by simp) roundTrip_delivered
  | 6 => exact .client 0 trivial _ (by decide)
  | n + 7 =>
    refine .client 0 trivial _ ?_
    rw [roundTripRun_seven]
    decide

theorem fair_runs_answer_roundTrip : ∃ m, 1 ≤ m ∧
    Concluded doubling 0 ((roundTripRun 1).clients 0).asked (roundTripRun m) := by
  refine fair_runs_answer doubling (by decide) plainSetup 0 [] (by simp) rfl roundTripRun rfl
    roundTripRun_calm 0 (fun n hbusy _ => ?_) 1
  by_cases hn : n < 7
  · have hgrows : ∀ n < 7, (roundTripRun n).progress 0 < (roundTripRun 7).progress 0 := by decide
    exact ⟨7, hn.le, hgrows n hn⟩
  · obtain ⟨k, rfl⟩ := Nat.exists_eq_add_of_le' (Nat.le_of_not_lt hn)
    rw [roundTripRun_seven] at hbusy
    exact absurd rfl hbusy.1

end ForgeDB
