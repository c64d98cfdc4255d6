import ForgeDB.Protocol

/-!
# One connection of the server

A connection collects received bytes, hands every complete request to the message
handler and queues the framed response; the write callback is registered while output
waits. The socket is given by the results of the calls to `recv` and `send`, the event
loop by the callbacks it holds for this socket and by the results of its registrations.
What was handed to the handler and what was sent is recorded beside the state.

The descriptor and the handler that tells the server about a close are left out.
-/

namespace ForgeDB
open StreamFraming Protocol

inductive Errno where
  | again
  | interrupted
  | other
  deriving DecidableEq

/-- One call of `recv`; no bytes are the end of the stream. -/
inductive RecvResult where
  | received (bytes : Bytes)
  | failed (errno : Errno)
  deriving DecidableEq

/-- One call of `send`; it takes as many of the bytes offered as the count allows. -/
inductive SendResult where
  | sent (count : ℕ)
  | failed (errno : Errno)
  deriving DecidableEq

/-- The event loop as far as one descriptor is concerned. Registrations succeed once the
listed results are used up. -/
structure EventLoop where
  readCallback : Bool
  writeCallback : Bool
  registrations : List Bool
  deriving DecidableEq

namespace EventLoop

def registerEvent (loop : EventLoop) : Bool × EventLoop :=
  match loop.registrations with
  | [] => (true, loop)
  | result :: results => (result, { loop with registrations := results })

def addRead (loop : EventLoop) : EventLoop :=
  let result := { loop with readCallback := true }.registerEvent
  if result.1 then result.2 else { result.2 with readCallback := false }

def addWrite (loop : EventLoop) : EventLoop :=
  let result := { loop with writeCallback := true }.registerEvent
  if result.1 then result.2 else { result.2 with writeCallback := false }

def removeRead (loop : EventLoop) : EventLoop := ({ loop with readCallback := false }.registerEvent).2

def removeWrite (loop : EventLoop) : EventLoop :=
  ({ loop with writeCallback := false }.registerEvent).2

def remove (loop : EventLoop) : EventLoop := loop.removeRead.removeWrite

/-- Every registration succeeds. -/
def Reliable (loop : EventLoop) : Prop := ∀ result ∈ loop.registrations, result = true

variable {loop : EventLoop}

@[simp] theorem registerEvent_readCallback : loop.registerEvent.2.readCallback = loop.readCallback := by
  rw [registerEvent]
  split <;> rfl

@[simp] theorem registerEvent_writeCallback :
    loop.registerEvent.2.writeCallback = loop.writeCallback := by
  rw [registerEvent]
  split <;> rfl

@[simp] theorem addWrite_readCallback : loop.addWrite.readCallback = loop.readCallback := by
  simp only [addWrite]
  split <;> simp

@[simp] theorem removeWrite_readCallback : loop.removeWrite.readCallback = loop.readCallback := by
  simp [removeWrite]

@[simp] theorem remove_readCallback : loop.remove.readCallback = false := by
  simp [remove, removeRead]

@[simp] theorem remove_writeCallback : loop.remove.writeCallback = false := by
  simp [remove, removeWrite]

theorem registerEvent_eq (loop : EventLoop) : loop.registerEvent =
    (loop.registrations.headD true, { loop with registrations := loop.registrations.tail }) := by
  obtain ⟨readCallback, writeCallback, _ | ⟨result, results⟩⟩ := loop <;> rfl

theorem addRead_eq (loop : EventLoop) : loop.addRead =
    ⟨loop.registrations.headD true, loop.writeCallback, loop.registrations.tail⟩ := by
  simp only [addRead, registerEvent_eq]
  cases loop.registrations.headD true <;> rfl

theorem addWrite_eq (loop : EventLoop) : loop.addWrite =
    ⟨loop.readCallback, loop.registrations.headD true, loop.registrations.tail⟩ := by
  simp only [addWrite, registerEvent_eq]
  cases loop.registrations.headD true <;> rfl

theorem removeWrite_eq (loop : EventLoop) :
    loop.removeWrite = ⟨loop.readCallback, false, loop.registrations.tail⟩ := by
  rw [removeWrite, registerEvent_eq]

theorem remove_eq (loop : EventLoop) :
    loop.remove = ⟨false, false, loop.registrations.tail.tail⟩ := by
  rw [remove, removeWrite_eq, removeRead, registerEvent_eq]

theorem Reliable.registerEvent (h : loop.Reliable) :
    loop.registerEvent.1 = true ∧ loop.registerEvent.2.Reliable := by
  rw [EventLoop.registerEvent]
  cases hr : loop.registrations with
  | nil => exact ⟨rfl, h⟩
  | cons result results =>
    rw [Reliable, hr] at h
    exact ⟨h result List.mem_cons_self, fun r hmem => h r (List.mem_cons_of_mem _ hmem)⟩

theorem Reliable.addWrite (h : loop.Reliable) :
    loop.addWrite.writeCallback = true ∧ loop.addWrite.Reliable := by
  have hset : Reliable { loop with writeCallback := true } := h
  obtain ⟨hregistered, hreliable⟩ := hset.registerEvent
  simp only [EventLoop.addWrite, hregistered, if_true]
  exact ⟨registerEvent_writeCallback, hreliable⟩

theorem Reliable.removeWrite (h : loop.Reliable) : loop.removeWrite.Reliable := by
  have hset : Reliable { loop with writeCallback := false } := h
  exact hset.registerEvent.2

end EventLoop

inductive ConnectionState where
  | reading
  | writing
  | closed
  deriving DecidableEq

/-- How the message handler comes back. -/
inductive HandlerResult where
  | returned (response : Bytes)
  | threw (what : Bytes)
  | threwOther
  deriving DecidableEq

def HandlerResult.response : HandlerResult → Bytes
  | .returned response => response
  | .threw what => text "ERROR " ++ what
  | .threwOther => text "ERROR internal server error"

structure Connection (σ : Type) where
  state : ConnectionState
  inputBuffer : Bytes
  outputBuffer : Bytes
  outputOffset : ℕ
  eventLoop : EventLoop
  handlerState : σ
  handed : List Bytes
  sent : Bytes
  deriving DecidableEq

/-- What all connections of a server share: the limit and the handler, which may keep a
state of its own. -/
structure Service (σ : Type) where
  maxMessageSize : ℕ
  messageHandler : σ → Bytes → σ × HandlerResult

/-- What the event loop reports, with what the socket then does. -/
inductive Event where
  | readable (results : List RecvResult)
  | writable (results : List SendResult)
  | error
  deriving DecidableEq

namespace Connection

variable {σ : Type}

/-- A new connection after `start`. -/
def start (handlerState : σ) (eventLoop : EventLoop) : Connection σ where
  state := .reading
  inputBuffer := []
  outputBuffer := []
  outputOffset := 0
  eventLoop := eventLoop.addRead
  handlerState := handlerState
  handed := []
  sent := []

def close (c : Connection σ) : Connection σ :=
  if c.state = .closed then c
  else { c with state := .closed, eventLoop := c.eventLoop.remove }

def enableWriting (c : Connection σ) : Connection σ := { c with eventLoop := c.eventLoop.addWrite }

def disableWriting (c : Connection σ) : Connection σ :=
  { c with eventLoop := c.eventLoop.removeWrite }

def pending (c : Connection σ) : Bytes := c.outputBuffer.drop c.outputOffset

end Connection

namespace Service

variable {σ : Type} (S : Service σ)

def queueResponse (c : Connection σ) (response : Bytes) : Connection σ :=
  if c.state = .closed then c
  else
    let framedResponse := createFrame S.maxMessageSize response
    if framedResponse = [] ∧ response ≠ [] then c.close
    else
      let c := { c with outputBuffer := c.outputBuffer ++ framedResponse }.enableWriting
      { c with state := .writing }

/-- One request, from the handler to the output buffer. -/
def serve (c : Connection σ) (payload : Bytes) : Connection σ :=
  let (handlerState, result) := S.messageHandler c.handlerState payload
  S.queueResponse { c with handlerState := handlerState, handed := c.handed ++ [payload] }
    result.response

/-- The loop of `process_messages`; every turn consumes bytes of the input buffer. -/
def processTurns : ℕ → Connection σ → Connection σ
  | 0, c => c
  | turns + 1, c =>
    if c.state = .closed then c
    else
      match tryExtractFrame S.maxMessageSize c.inputBuffer with
      | (none, inputBuffer) => { c with inputBuffer := inputBuffer }
      | (some payload, inputBuffer) =>
        processTurns turns (S.serve { c with inputBuffer := inputBuffer } payload)

def processMessages (c : Connection σ) : Connection σ :=
  S.processTurns (c.inputBuffer.length + 1) c

/-- The loop of `handle_readable` over the results of `recv`; after the listed ones the
socket has nothing more. -/
def receive : List RecvResult → Connection σ → Connection σ
  | [], c => S.processMessages c
  | .received bytes :: results, c =>
    if bytes = [] then c.close
    else receive results { c with inputBuffer := c.inputBuffer ++ bytes }
  | .failed .again :: _, c => S.processMessages c
  | .failed .interrupted :: results, c => receive results c
  | .failed .other :: _, c => c.close

def handleReadable (c : Connection σ) (results : List RecvResult) : Connection σ :=
  if c.state = .closed then c else S.receive results c

/-- The end of `handle_writable`: everything has been written. -/
def finishWriting (c : Connection σ) : Connection σ :=
  let c := { c with outputBuffer := [], outputOffset := 0 }.disableWriting
  S.processMessages { c with state := .reading }

/-- The loop of `handle_writable` over the results of `send`; after the listed ones the
socket takes nothing more. -/
def transmit : List SendResult → Connection σ → Connection σ
  | [], c => if c.outputOffset < c.outputBuffer.length then c else S.finishWriting c
  | result :: results, c =>
    if c.outputOffset < c.outputBuffer.length then
      match result with
      | .sent count =>
        let taken := c.pending.take count
        if taken = [] then c.close
        else transmit results
          { c with outputOffset := c.outputOffset + taken.length, sent := c.sent ++ taken }
      | .failed .again => c
      | .failed .interrupted => transmit results c
      | .failed .other => c.close
    else S.finishWriting c

def handleWritable (c : Connection σ) (results : List SendResult) : Connection σ :=
  if c.state = .closed then c else S.transmit results c

/-- The event loop calls back only what is registered; an error event deregisters both. -/
def step (c : Connection σ) : Event → Connection σ
  | .readable results => if c.eventLoop.readCallback then S.handleReadable c results else c
  | .writable results => if c.eventLoop.writeCallback then S.handleWritable c results else c
  | .error => { c with eventLoop := c.eventLoop.remove }

def run (c : Connection σ) (events : List Event) : Connection σ := events.foldl S.step c

/-- The responses to a list of payloads, the handler's state passed along. -/
def answers : σ → List Bytes → List Bytes
  | _, [] => []
  | s, payload :: payloads =>
    (S.messageHandler s payload).2.response :: answers (S.messageHandler s payload).1 payloads

def stateAfter (s : σ) (payloads : List Bytes) : σ :=
  payloads.foldl (fun s payload => (S.messageHandler s payload).1) s

def Fits (s : σ) (payloads : List Bytes) : Prop :=
  ∀ response ∈ S.answers s payloads, response.length ≤ S.maxMessageSize

/-- The payloads handed on: the one whose response is too large is the last. -/
def served : σ → List Bytes → List Bytes
  | _, [] => []
  | s, payload :: payloads =>
    payload :: if (S.messageHandler s payload).2.response.length ≤ S.maxMessageSize then
      served (S.messageHandler s payload).1 payloads
    else []

variable {S} {s : σ} {payload : Bytes} {payloads more : List Bytes}

theorem answers_append : S.answers s (payloads ++ more) =
    S.answers s payloads ++ S.answers (S.stateAfter s payloads) more := by
  induction payloads generalizing s with
  | nil => rfl
  | cons payload payloads ih =>
    rw [List.cons_append, answers, ih]
    rfl

theorem stateAfter_append :
    S.stateAfter s (payloads ++ more) = S.stateAfter (S.stateAfter s payloads) more :=
  List.foldl_append

theorem fits_nil : S.Fits s [] := by
  intro response hmem
  cases hmem

theorem fits_cons_iff : S.Fits s (payload :: payloads) ↔
    (S.messageHandler s payload).2.response.length ≤ S.maxMessageSize ∧
      S.Fits (S.messageHandler s payload).1 payloads := by
  rw [Fits, answers, List.forall_mem_cons]
  rfl

theorem fits_append_iff :
    S.Fits s (payloads ++ more) ↔ S.Fits s payloads ∧ S.Fits (S.stateAfter s payloads) more := by
  rw [Fits, answers_append, List.forall_mem_append]
  rfl

theorem served_initial : S.served s payloads <+: payloads := by
  induction payloads generalizing s with
  | nil => exact List.prefix_refl _
  | cons payload payloads ih =>
    rw [served, List.prefix_cons_inj]
    split
    · exact ih
    · exact List.nil_prefix

theorem served_append_of_fits (h : S.Fits s payloads) :
    S.served s (payloads ++ more) = payloads ++ S.served (S.stateAfter s payloads) more := by
  induction payloads generalizing s with
  | nil => rfl
  | cons payload payloads ih =>
    obtain ⟨hfirst, hrest⟩ := fits_cons_iff.mp h
    rw [List.cons_append, served, if_pos hfirst, ih hrest]
    rfl

theorem served_of_fits (h : S.Fits s payloads) : S.served s payloads = payloads := by
  have happend : S.served s (payloads ++ []) = payloads ++ S.served (S.stateAfter s payloads) [] :=
    served_append_of_fits h
  rwa [List.append_nil, served, List.append_nil] at happend

theorem served_append_of_not_fits (h : ¬ S.Fits s payloads) :
    S.served s (payloads ++ more) = S.served s payloads := by
  induction payloads generalizing s with
  | nil => exact absurd fits_nil h
  | cons payload payloads ih =>
    rw [List.cons_append, served, served]
    by_cases hfirst : (S.messageHandler s payload).2.response.length ≤ S.maxMessageSize
    · rw [if_pos hfirst, if_pos hfirst, ih (fun hrest => h (fits_cons_iff.mpr ⟨hfirst, hrest⟩))]
    · rw [if_neg hfirst, if_neg hfirst]

variable (S)

/-- The connection with every complete request of its input buffer answered. -/
def caughtUp (c : Connection σ) : Connection σ :=
  let found := (framer S.maxMessageSize).pull c.inputBuffer
  { c with
    state := if found.1 = [] then c.state else .writing
    inputBuffer := (framer S.maxMessageSize).settled found.2
    outputBuffer := c.outputBuffer ++ framed S.maxMessageSize (S.answers c.handlerState found.1)
    eventLoop := EventLoop.addWrite^[found.1.length] c.eventLoop
    handlerState := S.stateAfter c.handlerState found.1
    handed := c.handed ++ found.1 }

variable {S} {c : Connection σ}

theorem close_state (c : Connection σ) : c.close.state = .closed := by
  rw [Connection.close]
  split
  · assumption
  · rfl

theorem serve_of_fits (hopen : c.state ≠ .closed)
    (hfits : (S.messageHandler c.handlerState payload).2.response.length ≤ S.maxMessageSize) :
    S.serve c payload =
      { c with
        state := .writing
        outputBuffer := c.outputBuffer ++
          createFrame S.maxMessageSize (S.messageHandler c.handlerState payload).2.response
        eventLoop := c.eventLoop.addWrite
        handlerState := (S.messageHandler c.handlerState payload).1
        handed := c.handed ++ [payload] } := by
  have hframe := createFrame_ne_nil_iff.mpr hfits
  simp only [serve, queueResponse, if_neg hopen, hframe, false_and, if_false]
  rfl

theorem serve_of_large (hopen : c.state ≠ .closed)
    (hlarge : ¬ (S.messageHandler c.handlerState payload).2.response.length ≤ S.maxMessageSize) :
    S.serve c payload =
      { c with
        handlerState := (S.messageHandler c.handlerState payload).1
        handed := c.handed ++ [payload] }.close := by
  have hframe : createFrame S.maxMessageSize (S.messageHandler c.handlerState payload).2.response = [] :=
    not_not.mp (fun h => hlarge (createFrame_ne_nil_iff.mp h))
  have hresponse : (S.messageHandler c.handlerState payload).2.response ≠ [] := by
    intro hnil
    rw [hnil] at hlarge
    exact hlarge (Nat.zero_le _)
  simp only [serve, queueResponse, if_neg hopen, hframe, hresponse, true_and, ne_eq,
    not_false_eq_true, if_true]

theorem serve_of_not_fits (hopen : c.state ≠ .closed)
    (hlarge : ¬ (S.messageHandler c.handlerState payload).2.response.length ≤ S.maxMessageSize) :
    (S.serve c payload).state = .closed ∧ (S.serve c payload).handed = c.handed ++ [payload] := by
  rw [serve_of_large hopen hlarge, Connection.close, if_neg hopen]
  exact ⟨rfl, rfl⟩

theorem processTurns_of_not_ready {turns : ℕ}
    (hready : ¬ (framer S.maxMessageSize).Ready c.inputBuffer) (hopen : c.state ≠ .closed) :
    S.processTurns (turns + 1) c = S.caughtUp c := by
  rw [processTurns, if_neg hopen, tryExtractFrame_eq, caughtUp]
  simp only [Framer.pull_of_not_ready hready, answers, framed, Framer.settled]
  cases hlook : (framer S.maxMessageSize).look c.inputBuffer with
  | framed payload rest => exact absurd ⟨payload, rest, hlook⟩ hready
  | incomplete => simp [stateAfter]
  | refused => simp [stateAfter]

theorem processTurns_of_framed {turns : ℕ} {rest : Bytes}
    (hlook : (framer S.maxMessageSize).look c.inputBuffer = .framed payload rest)
    (hopen : c.state ≠ .closed) :
    S.processTurns (turns + 1) c =
      S.processTurns turns (S.serve { c with inputBuffer := rest } payload) := by
  rw [processTurns, if_neg hopen, tryExtractFrame_eq, hlook]

theorem processTurns_of_closed (turns : ℕ) (hclosed : c.state = .closed) :
    S.processTurns turns c = c := by
  cases turns with
  | zero => rfl
  | succ turns => rw [processTurns, if_pos hclosed]

theorem caughtUp_of_framed {rest : Bytes}
    (hlook : (framer S.maxMessageSize).look c.inputBuffer = .framed payload rest) :
    S.caughtUp c = S.caughtUp
      { c with
        state := .writing
        inputBuffer := rest
        outputBuffer := c.outputBuffer ++
          createFrame S.maxMessageSize (S.messageHandler c.handlerState payload).2.response
        eventLoop := c.eventLoop.addWrite
        handlerState := (S.messageHandler c.handlerState payload).1
        handed := c.handed ++ [payload] } := by
  simp only [caughtUp, Framer.pull_of_framed hlook, answers, framed, stateAfter, List.map_cons,
    List.flatten_cons, List.foldl_cons, List.length_cons, Function.iterate_succ_apply,
    List.append_assoc, List.cons_append, List.nil_append, reduceCtorEq, if_false, ite_self]

theorem processTurns_of_fits (turns : ℕ) (c : Connection σ) (hturns : c.inputBuffer.length < turns)
    (hopen : c.state ≠ .closed)
    (hfits : S.Fits c.handlerState ((framer S.maxMessageSize).pull c.inputBuffer).1) :
    S.processTurns turns c = S.caughtUp c := by
  induction turns generalizing c with
  | zero => omega
  | succ turns ih =>
    by_cases hready : (framer S.maxMessageSize).Ready c.inputBuffer
    · obtain ⟨payload, rest, hlook⟩ := hready
      have hshort := (framer S.maxMessageSize).shorter hlook
      rw [Framer.pull_of_framed hlook, fits_cons_iff] at hfits
      have hserve := serve_of_fits (c := { c with inputBuffer := rest }) hopen hfits.1
      rw [processTurns_of_framed hlook hopen, hserve, caughtUp_of_framed hlook]
      exact ih _ (by simp only; omega) (by simp) hfits.2
    · exact processTurns_of_not_ready hready hopen

/-- The handler gets the complete requests up to the first response that is too large, and
that one closes the connection. -/
theorem processTurns_of_not_fits (turns : ℕ) (c : Connection σ)
    (hturns : c.inputBuffer.length < turns) (hopen : c.state ≠ .closed)
    (hlarge : ¬ S.Fits c.handlerState ((framer S.maxMessageSize).pull c.inputBuffer).1) :
    (S.processTurns turns c).state = .closed ∧ (S.processTurns turns c).handed =
      c.handed ++ S.served c.handlerState ((framer S.maxMessageSize).pull c.inputBuffer).1 := by
  induction turns generalizing c with
  | zero => omega
  | succ turns ih =>
    by_cases hready : (framer S.maxMessageSize).Ready c.inputBuffer
    · obtain ⟨payload, rest, hlook⟩ := hready
      have hshort := (framer S.maxMessageSize).shorter hlook
      rw [Framer.pull_of_framed hlook, fits_cons_iff] at hlarge
      rw [processTurns_of_framed hlook hopen, Framer.pull_of_framed hlook, served]
      by_cases hfirst : (S.messageHandler c.handlerState payload).2.response.length ≤ S.maxMessageSize
      · have hserve := serve_of_fits (c := { c with inputBuffer := rest }) hopen hfirst
        have hnext := ih (S.serve { c with inputBuffer := rest } payload)
        rw [hserve] at hnext ⊢
        obtain ⟨hclosed, hhanded⟩ :=
          hnext (by simp only; omega) (by simp) (fun hrest => hlarge ⟨hfirst, hrest⟩)
        rw [if_pos hfirst]
        refine ⟨hclosed, ?_⟩
        rw [hhanded]
        simp only [List.append_assoc, List.cons_append, List.nil_append]
      · have hserve := serve_of_not_fits (c := { c with inputBuffer := rest }) hopen hfirst
        rw [processTurns_of_closed turns hserve.1, if_neg hfirst]
        exact hserve
    · rw [Framer.pull_of_not_ready hready] at hlarge
      exact absurd fits_nil hlarge

theorem processMessages_of_fits (hopen : c.state ≠ .closed)
    (hfits : S.Fits c.handlerState ((framer S.maxMessageSize).pull c.inputBuffer).1) :
    S.processMessages c = S.caughtUp c :=
  processTurns_of_fits _ c (Nat.lt_succ_self _) hopen hfits

theorem processMessages_of_not_fits (hopen : c.state ≠ .closed)
    (hlarge : ¬ S.Fits c.handlerState ((framer S.maxMessageSize).pull c.inputBuffer).1) :
    (S.processMessages c).state = .closed ∧ (S.processMessages c).handed =
      c.handed ++ S.served c.handlerState ((framer S.maxMessageSize).pull c.inputBuffer).1 :=
  processTurns_of_not_fits _ c (Nat.lt_succ_self _) hopen hlarge

end Service

namespace RecvResult

/-- The bytes of the results, as long as the socket neither ends nor fails. -/
def bytes : List RecvResult → Bytes
  | [] => []
  | .received bs :: results => if bs = [] then [] else bs ++ bytes results
  | .failed .again :: _ => []
  | .failed .interrupted :: results => bytes results
  | .failed .other :: _ => []

/-- The socket neither ends nor fails before it has nothing more. -/
def Calm : List RecvResult → Prop
  | [] => True
  | .received bs :: results => bs ≠ [] ∧ Calm results
  | .failed .again :: _ => True
  | .failed .interrupted :: results => Calm results
  | .failed .other :: _ => False

end RecvResult

namespace SendResult

/-- The socket takes something at every call until it takes nothing more. -/
def Calm : List SendResult → Prop
  | [] => True
  | .sent count :: results => 0 < count ∧ Calm results
  | .failed .again :: _ => True
  | .failed .interrupted :: results => Calm results
  | .failed .other :: _ => False

end SendResult

namespace Service

variable {σ : Type} {S : Service σ}

theorem receive_of_calm (results : List RecvResult) (h : RecvResult.Calm results) (c : Connection σ) :
    S.receive results c =
      S.processMessages { c with inputBuffer := c.inputBuffer ++ RecvResult.bytes results } := by
  induction results generalizing c with
  | nil => rw [receive, RecvResult.bytes, List.append_nil]
  | cons result results ih =>
    cases result with
    | received bs =>
      rw [receive, if_neg h.1, ih h.2, RecvResult.bytes, if_neg h.1, List.append_assoc]
    | failed errno =>
      cases errno with
      | again => rw [receive, RecvResult.bytes, List.append_nil]
      | interrupted =>
        rw [receive, ih h]
        rfl
      | other => exact h.elim

end Service
end ForgeDB
