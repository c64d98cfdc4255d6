import ForgeDB.Connections

/-!
# Requests are answered in order

As long as the socket neither ends nor fails, a connection has answered exactly the
complete requests received so far: what it has sent and what it still holds back are
together their framed responses, and the write callback is registered while anything is
held back.
-/

namespace ForgeDB
open StreamFraming Protocol

namespace Event

def Calm : Event → Prop
  | .readable results => RecvResult.Calm results
  | .writable results => SendResult.Calm results
  | .error => False

def bytes : Event → Bytes
  | .readable results => RecvResult.bytes results
  | .writable _ => []
  | .error => []

end Event

def receivedBytes (events : List Event) : Bytes := events.flatMap Event.bytes

/-- The connection has answered the complete requests among the received bytes. -/
structure Answering {σ : Type} (S : Service σ) (start : σ) (received : Bytes) (c : Connection σ) :
    Prop where
  opened : c.state ≠ .closed
  reliable : c.eventLoop.Reliable
  reads : c.eventLoop.readCallback = true
  input : c.inputBuffer = ((framer S.maxMessageSize).pull received).2
  handler : c.handlerState = S.stateAfter start ((framer S.maxMessageSize).pull received).1
  handed : c.handed = ((framer S.maxMessageSize).pull received).1
  output : c.sent ++ c.pending =
    framed S.maxMessageSize (S.answers start ((framer S.maxMessageSize).pull received).1)
  offset_le : c.outputOffset ≤ c.outputBuffer.length
  writes : c.pending ≠ [] → c.eventLoop.writeCallback = true

namespace EventLoop

theorem Reliable.addWrites {loop : EventLoop} (h : loop.Reliable) (n : ℕ) :
    (EventLoop.addWrite^[n] loop).Reliable ∧
      (EventLoop.addWrite^[n] loop).readCallback = loop.readCallback ∧
      (loop.writeCallback = true ∨ n ≠ 0 → (EventLoop.addWrite^[n] loop).writeCallback = true) := by
  induction n with
  | zero => exact ⟨h, rfl, by simp⟩
  | succ n ih =>
    obtain ⟨hreliable, hread, -⟩ := ih
    rw [Function.iterate_succ_apply']
    obtain ⟨hwrite, hreliable'⟩ := hreliable.addWrite
    exact ⟨hreliable', by rw [addWrite_readCallback, hread], fun _ => hwrite⟩

end EventLoop

namespace Answering

variable {σ : Type} {S : Service σ} {start : σ} {received : Bytes} {c : Connection σ}

theorem of_start (S : Service σ) (start : σ) {loop : EventLoop} (h : loop.Reliable) :
    Answering S start [] (Connection.start start loop) := by
  have hset : EventLoop.Reliable { loop with readCallback := true } := h
  obtain ⟨hregistered, hreliable⟩ := hset.registerEvent
  have hloop : (Connection.start start loop).eventLoop =
      ({ loop with readCallback := true } : EventLoop).registerEvent.2 := by
    simp only [Connection.start, EventLoop.addRead, hregistered, if_true]
  refine ⟨by simp [Connection.start], ?_, ?_, ?_, ?_, ?_, ?_, Nat.le_refl _, ?_⟩
  · rw [hloop]
    exact hreliable
  · rw [hloop, EventLoop.registerEvent_readCallback]
  · rw [Framer.pull_nil]
    rfl
  · rw [Framer.pull_nil]
    rfl
  · rw [Framer.pull_nil]
    rfl
  · rw [Framer.pull_nil]
    rfl
  · exact fun hpending => absurd rfl hpending

theorem processMessages (h : Answering S start received c) (bs : Bytes)
    (hlook : (framer S.maxMessageSize).look ((framer S.maxMessageSize).pull (received ++ bs)).2 ≠
      .refused)
    (hfits : S.Fits start ((framer S.maxMessageSize).pull (received ++ bs)).1) :
    Answering S start (received ++ bs)
      (S.processMessages { c with inputBuffer := c.inputBuffer ++ bs }) := by
  rw [Framer.pull_append, ← h.input] at hlook hfits
  have hsplit := Framer.pull_append (F := framer S.maxMessageSize) received bs
  rw [← h.input] at hsplit
  have hanswer : S.processMessages { c with inputBuffer := c.inputBuffer ++ bs } =
      S.caughtUp { c with inputBuffer := c.inputBuffer ++ bs } := by
    refine Service.processMessages_of_fits (c := { c with inputBuffer := c.inputBuffer ++ bs })
      h.opened ?_
    rw [h.handler]
    exact (Service.fits_append_iff.mp hfits).2
  rw [hanswer]
  obtain ⟨hreliable, hread, hwrite⟩ := h.reliable.addWrites
    ((framer S.maxMessageSize).pull (c.inputBuffer ++ bs)).1.length
  generalize hfound : (framer S.maxMessageSize).pull (c.inputBuffer ++ bs) = found at *
  have hpending : (S.caughtUp { c with inputBuffer := c.inputBuffer ++ bs }).pending =
      c.pending ++ framed S.maxMessageSize (S.answers c.handlerState found.1) := by
    simp only [Service.caughtUp, Connection.pending, hfound]
    exact List.drop_append_of_le_length h.offset_le
  refine ⟨?_, ?_, ?_, ?_, ?_, ?_, ?_, ?_, ?_⟩
  · simp only [Service.caughtUp]
    split
    · exact h.opened
    · simp
  · simpa only [Service.caughtUp, hfound] using hreliable
  · simp only [Service.caughtUp, hfound]
    exact hread.trans h.reads
  · simp only [Service.caughtUp, hfound, hsplit]
    exact Framer.settled_of_not_refused hlook
  · simp only [Service.caughtUp, hfound, hsplit]
    rw [Service.stateAfter_append, h.handler]
  · simp only [Service.caughtUp, hfound, hsplit, h.handed]
  · rw [hpending, ← List.append_assoc, hsplit, Service.answers_append, framed_append, ← h.output,
      ← h.handler]
    rfl
  · simp only [Service.caughtUp, hfound, List.length_append]
    exact h.offset_le.trans (Nat.le_add_right _ _)
  · rw [hpending]
    intro hne
    simp only [Service.caughtUp, hfound]
    apply hwrite
    by_cases hempty : found.1 = []
    · rw [hempty, Service.answers, framed_nil, List.append_nil] at hne
      exact Or.inl (h.writes hne)
    · exact Or.inr (by simpa using hempty)

/-- A partial send moves bytes from what is held back to what was sent. -/
theorem sendSome (h : Answering S start received c) (count : ℕ) :
    Answering S start received
      { c with outputOffset := c.outputOffset + (c.pending.take count).length
               sent := c.sent ++ c.pending.take count } := by
  have hlen : (c.pending.take count).length ≤ c.outputBuffer.length - c.outputOffset := by
    rw [List.length_take, Connection.pending, List.length_drop]
    exact Nat.min_le_right _ _
  have hpending : c.outputBuffer.drop (c.outputOffset + (c.pending.take count).length) =
      c.pending.drop count := by
    rw [← List.drop_drop, List.length_take]
    change c.pending.drop _ = _
    rw [← List.drop_eq_drop_min]
  refine ⟨h.opened, h.reliable, h.reads, h.input, h.handler, h.handed, ?_, ?_, ?_⟩
  · change c.sent ++ c.pending.take count ++
      c.outputBuffer.drop (c.outputOffset + (c.pending.take count).length) = _
    rw [hpending, List.append_assoc, List.take_append_drop]
    exact h.output
  · have hle := h.offset_le
    simp only
    omega
  · change c.outputBuffer.drop (c.outputOffset + (c.pending.take count).length) ≠ [] → _
    rw [hpending]
    intro hne
    apply h.writes
    intro hnil
    rw [hnil, List.drop_nil] at hne
    exact hne rfl

theorem finishWriting (h : Answering S start received c)
    (hlook : (framer S.maxMessageSize).look ((framer S.maxMessageSize).pull received).2 ≠ .refused)
    (hfits : S.Fits start ((framer S.maxMessageSize).pull received).1)
    (hdone : ¬ c.outputOffset < c.outputBuffer.length) :
    Answering S start received (S.finishWriting c) := by
  have hempty : c.pending = [] := List.drop_eq_nil_of_le (by omega)
  have hout := h.output
  rw [hempty, List.append_nil] at hout
  have hidle : Answering S start received
      { c with state := .reading, outputBuffer := [], outputOffset := 0
               eventLoop := c.eventLoop.removeWrite } := by
    refine ⟨by simp, h.reliable.removeWrite, ?_, h.input, h.handler, h.handed, ?_, Nat.le_refl _, ?_⟩
    · simp only [EventLoop.removeWrite_readCallback, h.reads]
    · simpa [Connection.pending] using hout
    · exact fun hpending => absurd rfl hpending
  have hnext := hidle.processMessages [] (by rwa [List.append_nil])
    (by rwa [List.append_nil])
  simp only [List.append_nil] at hnext
  exact hnext

/-- Writing goes on until the socket takes nothing more or everything is sent. -/
theorem transmit (results : List SendResult) (hcalm : SendResult.Calm results)
    (hlook : (framer S.maxMessageSize).look ((framer S.maxMessageSize).pull received).2 ≠ .refused)
    (hfits : S.Fits start ((framer S.maxMessageSize).pull received).1)
    (h : Answering S start received c) : Answering S start received (S.transmit results c) := by
  induction results generalizing c with
  | nil =>
    rw [Service.transmit]
    split
    · exact h
    · next hdone => exact h.finishWriting hlook hfits hdone
  | cons result results ih =>
    unfold Service.transmit
    split
    · next hmore =>
      cases result with
      | sent count =>
        have htaken : c.pending.take count ≠ [] := by
          intro hnil
          have hlen := congrArg List.length hnil
          have hcount : 0 < count := hcalm.1
          rw [List.length_take, Connection.pending, List.length_drop, List.length_nil] at hlen
          omega
        simp only [htaken, if_false]
        exact ih hcalm.2 (h.sendSome count)
      | failed errno =>
        cases errno with
        | again => exact h
        | interrupted => exact ih hcalm h
        | other => exact hcalm.elim
    · next hdone => exact h.finishWriting hlook hfits hdone

theorem step (h : Answering S start received c) {event : Event} (hcalm : event.Calm)
    (hlook : (framer S.maxMessageSize).look
      ((framer S.maxMessageSize).pull (received ++ event.bytes)).2 ≠ .refused)
    (hfits : S.Fits start ((framer S.maxMessageSize).pull (received ++ event.bytes)).1) :
    Answering S start (received ++ event.bytes) (S.step c event) := by
  cases event with
  | readable results =>
    rw [Service.step, if_pos h.reads, Service.handleReadable, if_neg h.opened,
      Service.receive_of_calm results hcalm]
    exact h.processMessages _ hlook hfits
  | writable results =>
    rw [Event.bytes, List.append_nil] at hlook hfits ⊢
    rw [Service.step]
    split
    · rw [Service.handleWritable, if_neg h.opened]
      exact h.transmit results hcalm hlook hfits
    · exact h
  | error => exact hcalm.elim

/-- A run of events of a calm socket over a stream that is never refused. -/
theorem run (events : List Event) (hcalm : ∀ event ∈ events, event.Calm)
    (hresponses : ∀ payloads, S.Fits start payloads)
    (hlook : ∀ s, s <+: received ++ receivedBytes events →
      (framer S.maxMessageSize).look ((framer S.maxMessageSize).pull s).2 ≠ .refused)
    (h : Answering S start received c) :
    Answering S start (received ++ receivedBytes events) (S.run c events) := by
  induction events generalizing received c with
  | nil =>
    rw [receivedBytes, List.flatMap_nil, List.append_nil]
    exact h
  | cons event events ih =>
    rw [receivedBytes, List.flatMap_cons, ← List.append_assoc] at hlook ⊢
    have hstep := h.step (hcalm event List.mem_cons_self)
      (hlook _ (List.prefix_append _ _)) (hresponses _)
    exact ih (fun e he => hcalm e (List.mem_cons_of_mem _ he)) hlook hstep

end Answering

/-- The connection has handed on exactly these requests, has sent or holds back exactly
their framed responses, has no complete request waiting, and is called back to write
while it holds anything back. -/
structure Answered {σ : Type} (S : Service σ) (start : σ) (requests : List Bytes) (c : Connection σ) :
    Prop where
  handed : c.handed = requests
  output : c.sent ++ c.outputBuffer.drop c.outputOffset =
    framed S.maxMessageSize (S.answers start requests)
  input : (tryExtractFrame S.maxMessageSize c.inputBuffer).1 = none
  writes : c.outputOffset < c.outputBuffer.length → c.eventLoop.writeCallback = true

/-- After any events of a socket that neither ends nor fails, exactly the complete requests
received so far are answered, in their order. -/
theorem requests_answered_in_order {σ : Type} (S : Service σ) (hmax : S.maxMessageSize < 2 ^ 32)
    (hresponses : ∀ s payload,
      (S.messageHandler s payload).2.response.length ≤ S.maxMessageSize)
    (start : σ) (loop : EventLoop) (hloop : loop.Reliable) (payloads : List Bytes)
    (hpayloads : ∀ payload ∈ payloads, payload.length ≤ S.maxMessageSize) (events : List Event)
    (hcalm : ∀ event ∈ events, event.Calm)
    (hreceived : receivedBytes events <+: framed S.maxMessageSize payloads) :
    Answered S start (completeWithin S.maxMessageSize (receivedBytes events).length payloads)
      (S.run (Connection.start start loop) events) := by
  have hfits : ∀ (ps : List Bytes) (s : σ), S.Fits s ps := by
    intro ps
    induction ps with
    | nil => exact fun s => Service.fits_nil
    | cons p ps ih => exact fun s => Service.fits_cons_iff.mpr ⟨hresponses s p, ih _⟩
  have hlook : ∀ s, s <+: [] ++ receivedBytes events →
      (framer S.maxMessageSize).look ((framer S.maxMessageSize).pull s).2 ≠ .refused := by
    intro s hs
    rw [(pull_arrived hmax hpayloads (hs.trans hreceived)).2]
    simp
  have h := (Answering.of_start S start hloop).run events hcalm (fun ps => hfits ps start) hlook
  rw [List.nil_append] at h
  obtain ⟨hfound, hstand⟩ := pull_arrived hmax hpayloads hreceived
  generalize S.run (Connection.start start loop) events = c at h ⊢
  refine ⟨h.handed.trans hfound, ?_, ?_, ?_⟩
  · rw [← hfound]
    exact h.output
  · rw [tryExtractFrame_eq, h.input, hstand]
  · intro hpending
    apply h.writes
    intro hnil
    have hlen := congrArg List.length hnil
    rw [Connection.pending, List.length_drop, List.length_nil] at hlen
    omega

def constantService (response : Bytes) : Service ℕ where
  maxMessageSize := 8
  messageHandler := fun count _ => (count + 1, .returned response)

/-- Two pipelined requests in three pieces, the first response sent in two. -/
def pipelined : List Event :=
  [.readable [.received [2, 0, 0], .failed .interrupted, .received [0, 104]],
    .writable [.sent 1],
    .readable [.received [105, 1, 0, 0, 0], .failed .again],
    .writable [.sent 3, .failed .interrupted, .failed .again],
    .readable [.received [7]],
    .writable [.sent 100]]

theorem requests_answered_in_order_pipelined :
    Answered (constantService (text "OK")) 0
      (completeWithin 8 (receivedBytes pipelined).length [text "hi", [7]])
      ((constantService (text "OK")).run (Connection.start 0 ⟨false, false, []⟩) pipelined) := by
  have hcalm : ∀ event ∈ pipelined, event.Calm := by
    simp [pipelined, Event.Calm, RecvResult.Calm, SendResult.Calm]
  exact requests_answered_in_order (constantService (text "OK")) (by decide)
    (fun _ _ => (by decide : (text "OK").length ≤ 8)) 0 ⟨false, false, []⟩
    (by simp [EventLoop.Reliable]) [text "hi", [7]] (by decide) pipelined hcalm (by decide)

end ForgeDB
