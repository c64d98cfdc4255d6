import ForgeDB.Clients
import ForgeDB.Linearizability
import ForgeDB.ServerExchanges

/-!
# Clients and server together

Any number of clients talk to one server, each over the connection of its number. A step is
one event of the server or one call of one client; the network delivers, in order, bytes
that were sent, in whatever pieces and however late. The run records when a client asks,
when the handler is given a request, and when a client has its response.

Then what the clients see is linearizable: the server behaves like its handler used by one
client at a time, whatever the interleaving, as long as no response is too large to frame.
-/

namespace ForgeDB
open StreamFraming Protocol Linearizability

structure System (σ : Type) where
  process : Process σ
  clients : ℕ → Client
  trace : List (Point ℕ Bytes Bytes)

def Exchange.act (e : Exchange) : Act ℕ Bytes Bytes := ⟨e.connection, e.request, e.response⟩

def Client.marks (id : ℕ) (c c' : Client) : List (Mark ℕ Bytes Bytes) :=
  (c'.asked.drop c.asked.length).map (.invoke id) ++
    (c'.printed.drop c.printed.length).map (.respond id)

namespace Service

variable {σ : Type} (S : Service σ)

/-- The message handler, used by one client at a time. -/
def specification (start : σ) : Specification σ Bytes Bytes where
  start := start
  step := fun s payload => ((S.messageHandler s payload).1, (S.messageHandler s payload).2.response)

def serverStep (system : System σ) (event : KernelEvent) : System σ :=
  { system with
    process := S.stepOf system.process event
    trace := system.trace ++
      (((S.stepOf system.process event).served.drop system.process.served.length).map
        Exchange.act).map Point.act }

def clientStep (system : System σ) (id : ℕ) (call : ClientCall) : System σ :=
  let c := system.clients id
  let c' := c.step S.maxMessageSize call
  { system with
    clients := Function.update system.clients id c'
    trace := system.trace ++ (c.marks id c').map Point.mark }

/-- One step. No side receives what the other has not sent. -/
inductive SystemStep : System σ → System σ → Prop where
  | server {system : System σ} (event : KernelEvent)
      (hdelivered : ∀ id, (S.serverStep system event).process.received id <+:
        (system.clients id).transmitted) :
      SystemStep system (S.serverStep system event)
  | client {system : System σ} (id : ℕ) (call : ClientCall)
      (hdelivered : ((S.clientStep system id call).clients id).obtained <+:
        system.process.sent id) :
      SystemStep system (S.clientStep system id call)

def initialSystem (process : Process σ) : System σ := ⟨process, fun _ => Client.connected, []⟩

/-- The states that clients and server reach together. -/
def SystemReached (process : Process σ) : System σ → Prop :=
  Relation.ReflTransGen S.SystemStep (initialSystem process)

end Service

namespace Client

/-- What has gone over the socket when the client stands where it stands. -/
def Phase (limit : ℕ) (c : Client) : Prop :=
  match c.state with
  | .prompting => c.transmitted = framed limit c.asked ∧ c.obtained = framed limit c.printed ∧
      c.asked.length = c.printed.length
  | .sending rest => c.transmitted ++ rest = framed limit c.asked ∧
      c.obtained = framed limit c.printed ∧ c.asked.length = c.printed.length + 1
  | .waiting inputBuffer => c.transmitted = framed limit c.asked ∧
      c.obtained = framed limit c.printed ++ inputBuffer ∧ c.asked.length = c.printed.length + 1
  | .finished => True

variable (id : ℕ) (c c' : Client)

theorem invocations_marks (id' : ℕ) : invocations (c.marks id c') id' =
    if id' = id then c'.asked.drop c.asked.length else [] := by
  rw [marks, invocations_append, invocations, invocations, List.filterMap_map, List.filterMap_map]
  by_cases hid : id' = id
  · subst hid
    simp
  · simp [hid, Ne.symm hid]

theorem responses_marks (id' : ℕ) : responses (c.marks id c') id' =
    if id' = id then c'.printed.drop c.printed.length else [] := by
  rw [marks, responses_append, responses, responses, List.filterMap_map, List.filterMap_map]
  by_cases hid : id' = id
  · subst hid
    simp
  · simp [hid, Ne.symm hid]

/-- A call adds to what was asked and printed, and shows at most one mark. -/
theorem step_marks (limit : ℕ) (call : ClientCall) :
    c.asked <+: (c.step limit call).asked ∧ c.printed <+: (c.step limit call).printed ∧
      (c.marks id (c.step limit call) = [] ∨ ∃ mark, c.marks id (c.step limit call) = [mark]) := by
  obtain heq | heq | ⟨command, -, -, heq⟩ | ⟨rest, count, -, -, heq⟩ |
    ⟨inputBuffer, bytes, hstate, hbytes, rfl⟩ := step_cases limit c call
  · rw [heq]
    exact ⟨List.prefix_refl _, List.prefix_refl _, Or.inl (by simp [marks])⟩
  · rw [heq]
    exact ⟨List.prefix_refl _, List.prefix_refl _, Or.inl (by simp [marks])⟩
  · rw [heq]
    exact ⟨List.prefix_append _ _, List.prefix_refl _, Or.inr (by simp [marks])⟩
  · rw [heq]
    exact ⟨List.prefix_refl _, List.prefix_refl _, Or.inl (by simp [marks])⟩
  · simp only [step, hstate, receiveResponseTurn, if_neg hbytes]
    split
    · exact ⟨List.prefix_refl _, List.prefix_append _ _, Or.inr (by simp [marks])⟩
    · exact ⟨List.prefix_refl _, List.prefix_refl _, Or.inl (by simp [marks])⟩

end Client

/-- A client and the connection of its number. -/
structure Paired {σ : Type} (limit : ℕ) (p : Process σ) (id : ℕ) (c : Client) : Prop where
  sized : ∀ command ∈ c.asked, command.length ≤ limit
  transmitted : c.transmitted <+: framed limit c.asked
  delivered : p.received id <+: c.transmitted
  obtained : c.obtained <+: p.sent id
  printed : c.printed <+: p.responsesOf id
  phase : c.Phase limit

theorem eq_or_concat_of_prefix {α : Type} {l m : List α} (h : l <+: m)
    (hlen : m.length ≤ l.length + 1) : m = l ∨ ∃ a, m = l ++ [a] := by
  obtain ⟨t, rfl⟩ := h
  rw [List.length_append] at hlen
  cases t with
  | nil => exact Or.inl (List.append_nil _)
  | cons a t =>
    have ht : t = [] := by
      rw [List.length_cons] at hlen
      exact List.length_eq_zero_iff.mp (by omega)
    rw [ht]
    exact Or.inr ⟨a, rfl⟩

/-- What a waiting client finds: its buffer holds part of the next response, or exactly
that response. -/
theorem tryExtractFrame_of_next {limit : ℕ} (hlimit : limit < 2 ^ 32) {printed responses : List Bytes}
    {inputBuffer : Bytes} (hprinted : printed <+: responses)
    (hlen : responses.length ≤ printed.length + 1)
    (hfits : ∀ response ∈ responses, response.length ≤ limit)
    (hinput : framed limit printed ++ inputBuffer <+: framed limit responses) :
    tryExtractFrame limit inputBuffer = (none, inputBuffer) ∨
      ∃ response, tryExtractFrame limit inputBuffer = (some response, []) ∧
        responses = printed ++ [response] ∧ inputBuffer = createFrame limit response := by
  obtain rfl | ⟨response, rfl⟩ := eq_or_concat_of_prefix hprinted hlen
  · have hnil : inputBuffer = [] := by
      have hle := hinput.length_le
      rw [List.length_append] at hle
      exact List.length_eq_zero_iff.mp (by omega)
    subst hnil
    exact Or.inl rfl
  · have hresponse := hfits response (List.mem_append_right _ List.mem_cons_self)
    have hframe : framed limit [response] = createFrame limit response := List.append_nil _
    rw [framed_append, hframe, List.prefix_append_right_inj] at hinput
    obtain hlt | heq := Nat.lt_or_eq_of_le hinput.length_le
    · have hlook := look_torn hlimit hresponse hinput hlt
      rw [tryExtractFrame_eq, hlook]
      exact Or.inl rfl
    · obtain rfl := hinput.eq_of_length heq
      have hlook := look_createFrame hlimit hresponse []
      rw [List.append_nil] at hlook
      rw [tryExtractFrame_eq, hlook]
      exact Or.inr ⟨response, rfl, rfl, rfl⟩

namespace Paired

variable {σ : Type} {S : Service σ} {p q : Process σ} {id : ℕ} {c : Client}

/-- The handler has been given the beginning of what the client asked. -/
theorem requests_initial (h : Paired S.maxMessageSize p id c) (hmax : S.maxMessageSize < 2 ^ 32)
    (hexchanging : S.Exchanging p id) : p.requestsOf id <+: c.asked := by
  have hreceived := h.delivered.trans h.transmitted
  have hrequests := hexchanging.requests (neverRefused_of_framed hmax h.sized hreceived)
  rw [(pull_arrived hmax h.sized hreceived).1] at hrequests
  exact hrequests.trans (completeWithin_initial _ _)

theorem length_responses_le (h : Paired S.maxMessageSize p id c) (hmax : S.maxMessageSize < 2 ^ 32)
    (hexchanging : S.Exchanging p id) : (p.responsesOf id).length ≤ c.asked.length := by
  have hlen : (p.responsesOf id).length = (p.requestsOf id).length := by
    rw [Process.responsesOf, Process.requestsOf, List.length_map, List.length_map]
  rw [hlen]
  exact (h.requests_initial hmax hexchanging).length_le

theorem server {limit : ℕ} (h : Paired limit p id c) (hdelivered : q.received id <+: c.transmitted)
    (hsent : p.sent id <+: q.sent id) (hresponses : p.responsesOf id <+: q.responsesOf id) :
    Paired limit q id c :=
  ⟨h.sized, h.transmitted, hdelivered, h.obtained.trans hsent, h.printed.trans hresponses, h.phase⟩

theorem client (h : Paired S.maxMessageSize p id c) (hmax : S.maxMessageSize < 2 ^ 32)
    (hexchanging : S.Exchanging p id)
    (hfits : ∀ response ∈ p.responsesOf id, response.length ≤ S.maxMessageSize)
    (call : ClientCall)
    (hdelivered : (c.step S.maxMessageSize call).obtained <+: p.sent id) :
    Paired S.maxMessageSize p id (c.step S.maxMessageSize call) := by
  have hlen := h.length_responses_le hmax hexchanging
  have hphase := h.phase
  obtain heq | heq | ⟨command, hstate, hcommand, heq⟩ | ⟨rest, count, hstate, htaken, heq⟩ |
    ⟨inputBuffer, bytes, hstate, hbytes, rfl⟩ := Client.step_cases S.maxMessageSize c call
  · rw [heq]
    exact h
  · rw [heq]
    exact ⟨h.sized, h.transmitted, h.delivered, h.obtained, h.printed, trivial⟩
  · rw [Client.Phase, hstate] at hphase
    obtain ⟨htransmitted, hobtained, hcount⟩ := hphase
    have hframe : framed S.maxMessageSize (c.asked ++ [command]) =
        c.transmitted ++ createFrame S.maxMessageSize command := by
      rw [framed_append, htransmitted]
      exact congrArg _ (List.append_nil _)
    rw [heq]
    refine ⟨?_, ?_, h.delivered, h.obtained, h.printed, ?_⟩
    · exact List.forall_mem_append.mpr ⟨h.sized, List.forall_mem_singleton.mpr hcommand⟩
    · rw [hframe]
      exact List.prefix_append _ _
    · exact ⟨hframe.symm, hobtained, by simp [hcount]⟩
  · rw [Client.Phase, hstate] at hphase
    obtain ⟨htransmitted, hobtained, hcount⟩ := hphase
    have hall : c.transmitted ++ rest.take count ++ rest.drop count =
        framed S.maxMessageSize c.asked := by
      rw [List.append_assoc, List.take_append_drop]
      exact htransmitted
    rw [heq]
    refine ⟨h.sized, ?_, h.delivered.trans (List.prefix_append _ _), h.obtained, h.printed, ?_⟩
    · rw [← hall]
      exact List.prefix_append _ _
    · by_cases hrest : rest.drop count = []
      · rw [hrest, List.append_nil] at hall
        simp only [Client.Phase, if_pos hrest]
        exact ⟨hall, by rw [hobtained, List.append_nil], hcount⟩
      · simp only [Client.Phase, if_neg hrest]
        exact ⟨hall, hobtained, hcount⟩
  · rw [Client.Phase, hstate] at hphase
    obtain ⟨htransmitted, hobtained, hcount⟩ := hphase
    have hstep : c.step S.maxMessageSize (.recv (.received bytes)) =
        c.receiveResponseTurn S.maxMessageSize inputBuffer (.received bytes) := by
      simp only [Client.step, hstate]
    rw [hstep, Client.receiveResponseTurn, if_neg hbytes] at hdelivered ⊢
    have hgot : c.obtained ++ bytes <+: p.sent id := by
      refine List.IsPrefix.trans ?_ hdelivered
      split <;> exact List.prefix_refl _
    have hinput : framed S.maxMessageSize c.printed ++ (inputBuffer ++ bytes) <+:
        framed S.maxMessageSize (p.responsesOf id) := by
      rw [← List.append_assoc, ← hobtained]
      exact hgot.trans hexchanging.sent
    obtain hnone | ⟨response, hsome, hresponses, hframe⟩ :=
      tryExtractFrame_of_next hmax h.printed (hcount ▸ hlen) hfits hinput
    · rw [hnone]
      refine ⟨h.sized, h.transmitted, h.delivered, hgot, h.printed, htransmitted, ?_, hcount⟩
      simp only
      rw [hobtained, List.append_assoc]
    · rw [hsome]
      refine ⟨h.sized, h.transmitted, h.delivered, hgot, ?_, htransmitted, ?_, ?_⟩
      · simp only [hresponses]
        exact List.prefix_refl _
      · simp only
        rw [hobtained, List.append_assoc, hframe, framed_append]
        exact congrArg _ (List.append_nil _).symm
      · simp [hcount]

end Paired

namespace Service

variable {σ : Type} {S : Service σ} {start : σ} {p q r : Process σ} {id : ℕ}

structure Grown (p q : Process σ) : Prop where
  served : p.served <+: q.served
  sent : ∀ id, p.sent id <+: q.sent id

theorem grown_refl (p : Process σ) : Grown p p := ⟨List.prefix_refl _, fun _ => List.prefix_refl _⟩

theorem Grown.move (hmove : S.Move id q r) (h : Grown p q) : Grown p r := by
  cases hmove with
  | gain bytes ho => exact ⟨h.served, h.sent⟩
  | answer ho hlook hfits => exact ⟨h.served.trans (List.prefix_append _ _), h.sent⟩
  | overflow ho hlook hlarge => exact ⟨h.served.trans (List.prefix_append _ _), h.sent⟩
  | settle ho hready => exact ⟨h.served, h.sent⟩
  | @advance _ _ o count ho =>
    refine ⟨h.served, fun id' => (h.sent id').trans ?_⟩
    by_cases hid : id' = id
    · subst hid
      simp only [Process.advanced, Function.update_self]
      exact List.prefix_append _ _
    · simp only [Process.advanced, Function.update_of_ne hid]
      exact List.prefix_refl _
  | drain ho hdone => exact ⟨h.served, h.sent⟩
  | discard ho => exact ⟨h.served, h.sent⟩
  | accept hfresh hfd => exact ⟨h.served, h.sent⟩

theorem Grown.responses (h : Grown p q) (id : ℕ) : p.responsesOf id <+: q.responsesOf id := by
  obtain ⟨more, hmore⟩ := h.served
  rw [Process.responsesOf, Process.responsesOf, ← hmore, List.filter_append, List.map_append]
  exact List.prefix_append _ _

/-- All that an event keeps, for a server at work. -/
structure Healthy (S : Service σ) (start : σ) (p : Process σ) : Prop where
  resting : S.Resting p
  accounted : S.Accounted p
  working : S.Working start p

theorem Healthy.stepOf (h : S.Healthy start p) (event : KernelEvent) :
    S.Healthy start (S.stepOf p event) ∧ Grown p (S.stepOf p event) := by
  obtain ⟨hrest, haccounted, hworking, hgrown⟩ := h.resting.stepOf
    (I := fun q => S.Accounted q ∧ S.Working start q ∧ Grown p q)
    (fun hmove howned hq =>
      ⟨hq.1.move hmove, hq.2.1.move hmove howned, hq.2.2.move hmove⟩) event
    (fun _ _ hq => ⟨hq.1.congr rfl rfl, hq.2.1.detached _, hq.2.2.served, hq.2.2.sent⟩)
    ⟨h.accounted, h.working, grown_refl p⟩
  exact ⟨⟨hrest, haccounted, hworking⟩, hgrown⟩

theorem Healthy.fits (h : S.Healthy start p) (hfault : p.fault = none) (id : ℕ) :
    ∀ response ∈ p.responsesOf id, response.length ≤ S.maxMessageSize := by
  intro response hmem
  obtain ⟨e, he, rfl⟩ := List.mem_map.mp hmem
  exact h.accounted.fault_eq_none_iff.mp hfault e (List.mem_of_mem_filter he)

theorem fault_of_stepOf {event : KernelEvent} (h : (S.stepOf p event).fault = none) :
    p.fault = none := by
  by_contra hfault
  have hstep : S.stepOf p event = p := if_neg hfault
  rw [hstep] at h
  exact hfault h

end Service

/-- The run shows what the clients were asked and printed and what the server served; as
long as nothing has gone wrong, every client fits its connection, and every request was
handed on between the question and the answer. -/
structure Coherent {σ : Type} (S : Service σ) (start : σ) (system : System σ) : Prop where
  healthy : S.Healthy start system.process
  acts_eq : acts system.trace = system.process.served.map Exchange.act
  invocations_eq : ∀ id, invocations (seen system.trace) id = (system.clients id).asked
  responses_eq : ∀ id, responses (seen system.trace) id = (system.clients id).printed
  paired : system.process.fault = none →
    ∀ id, Paired S.maxMessageSize system.process id (system.clients id)
  paced : system.process.fault = none → Paced system.trace

namespace Coherent

variable {σ : Type} {S : Service σ} {start : σ} {system : System σ}

theorem map_input_actsOf (p : Process σ) (id : ℕ) :
    (actsOf (p.served.map Exchange.act) id).map Act.input = p.requestsOf id := by
  rw [actsOf, List.filter_map, List.map_map, Process.requestsOf]
  rfl

theorem map_output_actsOf (p : Process σ) (id : ℕ) :
    (actsOf (p.served.map Exchange.act) id).map Act.output = p.responsesOf id := by
  rw [actsOf, List.filter_map, List.map_map, Process.responsesOf]
  rfl

theorem initial {p : Process σ} (h : S.Healthy start p) (hserved : p.served = [])
    (hreceived : ∀ id, p.received id = []) : Coherent S start (Service.initialSystem p) := by
  refine ⟨h, ?_, fun _ => rfl, fun _ => rfl, ?_, fun _ => paced_nil⟩
  · simp only [Service.initialSystem, hserved]
    rfl
  · intro _ id
    refine ⟨?_, List.nil_prefix, ?_, List.nil_prefix, List.nil_prefix, rfl, rfl, rfl⟩
    · intro command hmem
      cases hmem
    · simp only [Service.initialSystem, hreceived]
      exact List.nil_prefix

theorem server (h : Coherent S start system) (hmax : S.maxMessageSize < 2 ^ 32) (event : KernelEvent)
    (hdelivered : ∀ id, (S.serverStep system event).process.received id <+:
      (system.clients id).transmitted) : Coherent S start (S.serverStep system event) := by
  obtain ⟨hhealthy, hgrown⟩ := h.healthy.stepOf event
  have hserved : system.process.served ++
      (S.stepOf system.process event).served.drop system.process.served.length =
      (S.stepOf system.process event).served := by
    rw [← List.prefix_iff_eq_append]
    exact hgrown.served
  have hseen : seen (S.serverStep system event).trace = seen system.trace := by
    simp only [Service.serverStep, seen_append, seen_map_act, List.append_nil]
  have hacts : acts (S.serverStep system event).trace =
      (S.serverStep system event).process.served.map Exchange.act := by
    simp only [Service.serverStep, acts_append, acts_map_act, h.acts_eq]
    rw [← List.map_append, hserved]
  have hpaired : (S.serverStep system event).process.fault = none → ∀ id,
      Paired S.maxMessageSize (S.serverStep system event).process id (system.clients id) := by
    intro hfault id
    exact (h.paired (Service.fault_of_stepOf hfault) id).server (hdelivered id) (hgrown.sent id)
      (hgrown.responses id)
  refine ⟨hhealthy, hacts, ?_, ?_, hpaired, ?_⟩
  · intro id
    rw [hseen]
    exact h.invocations_eq id
  · intro id
    rw [hseen]
    exact h.responses_eq id
  · intro hfault
    refine (h.paced (Service.fault_of_stepOf hfault)).append_acts _ ?_
    intro id
    rw [h.acts_eq, ← List.map_append, hserved, map_input_actsOf, h.invocations_eq id]
    exact (hpaired hfault id).requests_initial hmax (hhealthy.working.exchanging id)

/-- Where the run shows what happened and every client fits its connection, the marks are in
order. -/
theorem orderly (hmax : S.maxMessageSize < 2 ^ 32) (hhealthy : S.Healthy start system.process)
    (hacts : acts system.trace = system.process.served.map Exchange.act)
    (hinvocations : ∀ id, invocations (seen system.trace) id = (system.clients id).asked)
    (hresponses : ∀ id, responses (seen system.trace) id = (system.clients id).printed)
    (hpaired : ∀ id, Paired S.maxMessageSize system.process id (system.clients id)) :
    Orderly system.trace := by
  intro id
  rw [hacts, map_input_actsOf, map_output_actsOf, hinvocations, hresponses]
  exact ⟨(hpaired id).printed, (hpaired id).requests_initial hmax (hhealthy.working.exchanging id)⟩

theorem client (h : Coherent S start system) (hmax : S.maxMessageSize < 2 ^ 32) (id : ℕ)
    (call : ClientCall)
    (hdelivered : ((S.clientStep system id call).clients id).obtained <+: system.process.sent id) :
    Coherent S start (S.clientStep system id call) := by
  have hself : (S.clientStep system id call).clients id =
      (system.clients id).step S.maxMessageSize call := Function.update_self ..
  have hother : ∀ {id'}, id' ≠ id → (S.clientStep system id call).clients id' = system.clients id' :=
    fun hne => Function.update_of_ne hne ..
  have htrace : (S.clientStep system id call).trace = system.trace ++
      ((system.clients id).marks id ((system.clients id).step S.maxMessageSize call)).map Point.mark :=
    rfl
  obtain ⟨hasked, hprinted, hone⟩ := (system.clients id).step_marks id S.maxMessageSize call
  have hpaired : system.process.fault = none → ∀ id',
      Paired S.maxMessageSize system.process id' ((S.clientStep system id call).clients id') := by
    intro hfault id'
    by_cases hid : id' = id
    · subst hid
      rw [hself] at hdelivered ⊢
      exact (h.paired hfault id').client hmax (h.healthy.working.exchanging id')
        (h.healthy.fits hfault id') call hdelivered
    · rw [hother hid]
      exact h.paired hfault id'
  have hacts : acts (S.clientStep system id call).trace =
      system.process.served.map Exchange.act := by
    rw [htrace, acts_append, h.acts_eq, acts_map_mark, List.append_nil]
  have hinvocations : ∀ id', invocations (seen (S.clientStep system id call).trace) id' =
      ((S.clientStep system id call).clients id').asked := by
    intro id'
    rw [htrace, seen_append, seen_map_mark, invocations_append, h.invocations_eq id',
      Client.invocations_marks]
    by_cases hid : id' = id
    · subst hid
      rw [hself, if_pos rfl]
      exact (List.prefix_iff_eq_append.mp hasked)
    · rw [hother hid, if_neg hid, List.append_nil]
  have hresponses : ∀ id', responses (seen (S.clientStep system id call).trace) id' =
      ((S.clientStep system id call).clients id').printed := by
    intro id'
    rw [htrace, seen_append, seen_map_mark, responses_append, h.responses_eq id',
      Client.responses_marks]
    by_cases hid : id' = id
    · subst hid
      rw [hself, if_pos rfl]
      exact (List.prefix_iff_eq_append.mp hprinted)
    · rw [hother hid, if_neg hid, List.append_nil]
  refine ⟨h.healthy, hacts, hinvocations, hresponses, hpaired, ?_⟩
  intro hfault
  have horderly : Orderly (S.clientStep system id call).trace :=
    orderly hmax h.healthy hacts hinvocations hresponses (hpaired hfault)
  rw [htrace] at horderly ⊢
  obtain hmarks | ⟨mark, hmarks⟩ := hone
  · rw [hmarks, List.map_nil, List.append_nil]
    exact h.paced hfault
  · rw [hmarks] at horderly ⊢
    exact (h.paced hfault).append_singleton horderly

theorem reached {p : Process σ} (hmax : S.maxMessageSize < 2 ^ 32)
    (h : Coherent S start (Service.initialSystem p)) (hreached : S.SystemReached p system) :
    Coherent S start system := by
  induction hreached with
  | refl => exact h
  | tail _ hstep ih =>
    cases hstep with
    | server event hdelivered => exact ih.server hmax event hdelivered
    | client id call hdelivered => exact ih.client hmax id call hdelivered

end Coherent

namespace Service

variable {σ : Type} {S : Service σ}

theorem outputs_specification (start s : σ) (payloads : List Bytes) :
    (S.specification start).outputs s payloads = S.answers s payloads := by
  induction payloads generalizing s with
  | nil => rfl
  | cons payload payloads ih =>
    rw [Specification.outputs, answers, ih]
    rfl

theorem coherent_start {setup : Setup} {s : σ} {registrations : List Bool}
    (hstart : ((Process.fresh s registrations).initializeServer setup).1 = none) :
    Coherent S s (initialSystem ((Process.fresh s registrations).initializeServer setup).2) := by
  obtain ⟨error, rest, hinit⟩ | ⟨fd, hfd, hinit⟩ :=
    Process.initializeServer_cases setup s registrations
  · rw [hinit] at hstart
    cases hstart
  · rw [hinit]
    refine Coherent.initial ⟨?_, ?_, ?_⟩ rfl (fun _ => rfl)
    · exact resting_of_idle (Process.idle_listening s registrations.tail hfd)
    · exact accounted_listening s registrations.tail fd
    · exact working_listening s registrations.tail fd

end Service

/-- A command on its way to the server, while a second client asks too. -/
def halfWay : System ℕ :=
  let system := Service.initialSystem ((Process.fresh 0 []).initializeServer plainSetup).2
  let system := doubling.clientStep system 0 (.getline (some (text "hi")))
  let system := doubling.clientStep system 1 (.getline (some (text "yo")))
  let system := doubling.serverStep system (.read 3 [.accepted 4 true] [])
  doubling.clientStep system 0 (.send (.sent 100))

def roundTrip : System ℕ :=
  let system := doubling.serverStep halfWay (.read 4 [] [.received [2, 0, 0, 0, 104, 105]])
  let system := doubling.serverStep system (.write 4 [.sent 100])
  doubling.clientStep system 0 (.recv (.received [4, 0, 0, 0, 104, 105, 104, 105]))

theorem halfWay_reached :
    doubling.SystemReached ((Process.fresh 0 []).initializeServer plainSetup).2 halfWay :=
  (((Relation.ReflTransGen.refl.tail (.client 0 (.getline (some (text "hi"))) (by decide))).tail
    (.client 1 (.getline (some (text "yo"))) (by decide))).tail
    (.server (.read 3 [.accepted 4 true] []) (fun _ => List.nil_prefix))).tail
    (.client 0 (.send (.sent 100)) (by decide))

theorem roundTrip_delivered : ∀ id, (doubling.serverStep halfWay
    (.read 4 [] [.received [2, 0, 0, 0, 104, 105]])).process.received id <+:
    (halfWay.clients id).transmitted := by
  intro id
  cases id with
  | zero => decide
  | succ n => exact List.nil_prefix

theorem roundTrip_reached :
    doubling.SystemReached ((Process.fresh 0 []).initializeServer plainSetup).2 roundTrip :=
  ((halfWay_reached.tail (.server _ roundTrip_delivered)).tail
    (.server (.write 4 [.sent 100]) roundTrip_delivered)).tail
    (.client 0 (.recv (.received [4, 0, 0, 0, 104, 105, 104, 105])) (by decide))

/-- Whatever clients and server do, in whatever order, and however the network cuts and
delays what they send, as long as every response fits in a frame: the commands and responses
of all clients are those of the handler used by one client at a time, in an order that
respects who was answered before whom. -/
theorem system_linearizable {σ : Type} (S : Service σ) (hmax : S.maxMessageSize < 2 ^ 32)
    (setup : Setup) (s : σ) (registrations : List Bool)
    (hstart : ((Process.fresh s registrations).initializeServer setup).1 = none)
    (system : System σ)
    (hreached : S.SystemReached ((Process.fresh s registrations).initializeServer setup).2 system)
    (hfits : ∀ e ∈ system.process.served, e.response.length ≤ S.maxMessageSize) :
    Linearizable (S.specification s) (seen system.trace) ∧
      ∀ id, invocations (seen system.trace) id = (system.clients id).asked ∧
        responses (seen system.trace) id = (system.clients id).printed := by
  have h : Coherent S s system := Coherent.reached hmax (Service.coherent_start hstart) hreached
  have hfault : system.process.fault = none := h.healthy.accounted.fault_eq_none_iff.mpr hfits
  refine ⟨(h.paced hfault).linearizable ?_, fun id => ⟨h.invocations_eq id, h.responses_eq id⟩⟩
  rw [h.acts_eq, List.map_map, List.map_map]
  exact h.healthy.working.serial.responses.trans (Service.outputs_specification s s _).symm

theorem system_linearizable_roundTrip :
    Linearizable (doubling.specification 0) (seen roundTrip.trace) ∧
      ∀ id, invocations (seen roundTrip.trace) id = (roundTrip.clients id).asked ∧
        responses (seen roundTrip.trace) id = (roundTrip.clients id).printed :=
  system_linearizable doubling (by decide) plainSetup 0 [] rfl roundTrip roundTrip_reached
    (by decide)

/-- As long as every response fits in a frame, a client that is back at its prompt has read
exactly the frames of what it printed, and each of its commands has been handed on once and
answered by what it printed for it. -/
theorem client_served_exactly_once {σ : Type} (S : Service σ) (hmax : S.maxMessageSize < 2 ^ 32)
    (setup : Setup) (s : σ) (registrations : List Bool)
    (hstart : ((Process.fresh s registrations).initializeServer setup).1 = none)
    (system : System σ)
    (hreached : S.SystemReached ((Process.fresh s registrations).initializeServer setup).2 system)
    (hfits : ∀ e ∈ system.process.served, e.response.length ≤ S.maxMessageSize) (id : ℕ)
    (hprompting : (system.clients id).state = .prompting) :
    (system.clients id).asked = system.process.requestsOf id ∧
      (system.clients id).printed = system.process.responsesOf id ∧
      (system.clients id).obtained = framed S.maxMessageSize (system.clients id).printed := by
  have h : Coherent S s system := Coherent.reached hmax (Service.coherent_start hstart) hreached
  have hfault : system.process.fault = none := h.healthy.accounted.fault_eq_none_iff.mpr hfits
  have hpaired := h.paired hfault id
  have hrequests := hpaired.requests_initial hmax (h.healthy.working.exchanging id)
  have hphase := hpaired.phase
  rw [Client.Phase, hprompting] at hphase
  obtain ⟨-, hobtained, hcount⟩ := hphase
  have hlen : (system.process.responsesOf id).length = (system.process.requestsOf id).length := by
    rw [Process.responsesOf, Process.requestsOf, List.length_map, List.length_map]
  have hle := hrequests.length_le
  have hle' := hpaired.printed.length_le
  refine ⟨(hrequests.eq_of_length ?_).symm, hpaired.printed.eq_of_length ?_, hobtained⟩
  · omega
  · omega

theorem client_served_exactly_once_roundTrip :
    (roundTrip.clients 0).asked = roundTrip.process.requestsOf 0 ∧
      (roundTrip.clients 0).printed = roundTrip.process.responsesOf 0 ∧
      (roundTrip.clients 0).obtained = framed 8 (roundTrip.clients 0).printed :=
  client_served_exactly_once doubling (by decide) plainSetup 0 [] rfl roundTrip roundTrip_reached
    (by decide) 0 rfl

end ForgeDB
