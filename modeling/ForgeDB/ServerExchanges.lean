import ForgeDB.ServerLifetimes

/-!
# What the connections of a server exchange

The message handler serves one request after the other, whichever connection it came from.
What a connection has sent is the beginning of the framed responses to its own requests,
and while it lives it holds back the rest. Its requests are the frames of the bytes it
received, as long as no length among them is refused. Nothing of this depends on what the
other clients send.
-/

namespace ForgeDB
open StreamFraming Protocol

namespace Process

variable {σ : Type}

/-- The requests of one connection that were handed on, in their order. -/
def requestsOf (p : Process σ) (id : ℕ) : List Bytes :=
  (p.served.filter (fun e => e.connection = id)).map Exchange.request

def responsesOf (p : Process σ) (id : ℕ) : List Bytes :=
  (p.served.filter (fun e => e.connection = id)).map Exchange.response

end Process

/-- No length field among the frames of the stream is above the limit. -/
def NeverRefused (limit : ℕ) (s : Bytes) : Prop :=
  ∀ t, t <+: s → (framer limit).look ((framer limit).pull t).2 ≠ .refused

theorem NeverRefused.of_append {limit : ℕ} {s t : Bytes} (h : NeverRefused limit (s ++ t)) :
    NeverRefused limit s :=
  fun u hu => h u (hu.trans (List.prefix_append _ _))

theorem neverRefused_of_framed {limit : ℕ} (hlimit : limit < 2 ^ 32) {payloads : List Bytes}
    (hp : ∀ p ∈ payloads, p.length ≤ limit) {s : Bytes} (hs : s <+: framed limit payloads) :
    NeverRefused limit s := by
  intro t ht
  rw [(pull_arrived hlimit hp (ht.trans hs)).2]
  simp

namespace Service

variable {σ : Type} {S : Service σ} {start : σ} {p q : Process σ} {id : ℕ} {o : ConnectionObject}

/-- The handler has served the requests one after the other, from its first state on, and
none was longer than a message may be. -/
structure Serial (S : Service σ) (start : σ) (p : Process σ) : Prop where
  responses : p.served.map Exchange.response = S.answers start (p.served.map Exchange.request)
  handlerState : p.handlerState = S.stateAfter start (p.served.map Exchange.request)
  sized : ∀ e ∈ p.served, e.request.length ≤ S.maxMessageSize

/-- One connection, given what was received, handed on, answered and sent for it. -/
structure Exchanging (S : Service σ) (p : Process σ) (id : ℕ) : Prop where
  offset_le : ∀ {o}, p.objects id = some o → o.outputOffset ≤ o.outputBuffer.length
  output : ∀ {o}, p.objects id = some o →
    p.sent id ++ o.outputBuffer.drop o.outputOffset = framed S.maxMessageSize (p.responsesOf id)
  sent : p.sent id <+: framed S.maxMessageSize (p.responsesOf id)
  input : ∀ {o}, p.objects id = some o → NeverRefused S.maxMessageSize (p.received id) →
    (framer S.maxMessageSize).pull (p.received id) =
      (p.requestsOf id ++ ((framer S.maxMessageSize).pull o.inputBuffer).1,
        ((framer S.maxMessageSize).pull o.inputBuffer).2)
  requests : NeverRefused S.maxMessageSize (p.received id) →
    p.requestsOf id <+: ((framer S.maxMessageSize).pull (p.received id)).1
  unborn : p.created ≤ id → p.received id = [] ∧ p.sent id = [] ∧ p.requestsOf id = [] ∧
    p.responsesOf id = []

theorem Serial.congr (h : S.Serial start p) (hserved : q.served = p.served)
    (hstate : q.handlerState = p.handlerState) : S.Serial start q := by
  obtain ⟨hresponses, hhandler, hsized⟩ := h
  rw [← hserved] at hresponses hhandler hsized
  rw [← hstate] at hhandler
  exact ⟨hresponses, hhandler, hsized⟩

theorem length_of_look {limit : ℕ} {s payload rest : Bytes}
    (h : (framer limit).look s = .framed payload rest) : payload.length ≤ limit := by
  obtain ⟨-, hle, rfl, -⟩ := verdict_eq_framed_iff.mp h
  exact (List.length_take_le _ _).trans hle

theorem Serial.asked (h : S.Serial start p) (id : ℕ) {payload : Bytes}
    (hpayload : payload.length ≤ S.maxMessageSize) : S.Serial start (S.asked p id payload) := by
  refine ⟨?_, ?_, ?_⟩
  · simp only [Service.asked, List.map_append, List.map_singleton, answers_append, ← h.handlerState,
      h.responses]
    rfl
  · simp only [Service.asked, List.map_append, List.map_singleton, stateAfter_append,
      ← h.handlerState]
    rfl
  · exact List.forall_mem_append.mpr ⟨h.sized, List.forall_mem_singleton.mpr hpayload⟩

theorem Serial.move (hmove : S.Move id p q) (h : S.Serial start p) : S.Serial start q := by
  cases hmove with
  | gain bytes ho => exact h.congr rfl rfl
  | answer ho hlook hfits => exact (h.asked id (length_of_look hlook)).congr rfl rfl
  | overflow ho hlook hlarge => exact (h.asked id (length_of_look hlook)).congr rfl rfl
  | settle ho hready => exact h.congr rfl rfl
  | advance count ho => exact h.congr rfl rfl
  | drain ho hdone => exact h.congr rfl rfl
  | discard ho => exact h.congr rfl rfl
  | accept hfresh hfd => exact h.congr rfl rfl

/-- Nothing has changed for this connection. -/
structure Unmoved (p q : Process σ) (id : ℕ) : Prop where
  objects : q.objects id = p.objects id
  received : q.received id = p.received id
  sent : q.sent id = p.sent id
  requests : q.requestsOf id = p.requestsOf id
  responses : q.responsesOf id = p.responsesOf id
  created_le : p.created ≤ q.created

theorem requestsOf_asked_self {payload : Bytes} :
    (S.asked p id payload).requestsOf id = p.requestsOf id ++ [payload] := by
  simp [Service.asked, Process.requestsOf]

theorem responsesOf_asked_self {payload : Bytes} :
    (S.asked p id payload).responsesOf id = p.responsesOf id ++ [S.responseTo p payload] := by
  simp [Service.asked, Process.responsesOf]

theorem unmoved_asked {payload : Bytes} {id' : ℕ} (hne : id' ≠ id) :
    Unmoved p (S.asked p id payload) id' := by
  refine ⟨rfl, rfl, rfl, ?_, ?_, Nat.le_refl _⟩
  · simp [Service.asked, Process.requestsOf, hne.symm]
  · simp [Service.asked, Process.responsesOf, hne.symm]

theorem Move.unmoved (hmove : S.Move id p q) {id' : ℕ} (hne : id' ≠ id) : Unmoved p q id' := by
  have hobjects := hmove.objects_of_ne hne
  cases hmove with
  | gain bytes ho => exact ⟨hobjects, Function.update_of_ne hne .., rfl, rfl, rfl, Nat.le_refl _⟩
  | @answer _ _ o payload rest ho hlook hfits =>
    have hasked : Unmoved p (S.asked p id payload) id' := unmoved_asked hne
    exact ⟨hobjects, rfl, rfl, hasked.requests, hasked.responses, Nat.le_refl _⟩
  | @overflow _ _ o payload rest ho hlook hlarge =>
    have hasked : Unmoved p (S.asked p id payload) id' := unmoved_asked hne
    exact ⟨hobjects, rfl, rfl, hasked.requests, hasked.responses, Nat.le_refl _⟩
  | settle ho hready => exact ⟨hobjects, rfl, rfl, rfl, rfl, Nat.le_refl _⟩
  | advance count ho => exact ⟨hobjects, rfl, Function.update_of_ne hne .., rfl, rfl, Nat.le_refl _⟩
  | drain ho hdone => exact ⟨hobjects, rfl, rfl, rfl, rfl, Nat.le_refl _⟩
  | discard ho => exact ⟨hobjects, rfl, rfl, rfl, rfl, Nat.le_refl _⟩
  | accept hfresh hfd => exact ⟨hobjects, rfl, rfl, rfl, rfl, Nat.le_succ _⟩

namespace Exchanging

theorem of_unmoved (h : S.Exchanging p id) (hsame : Unmoved p q id) : S.Exchanging q id := by
  obtain ⟨hobjects, hreceived, hsent, hrequests, hresponses, hcreated⟩ := hsame
  obtain ⟨h₁, h₂, h₃, h₄, h₅, h₆⟩ := h
  rw [← hobjects, ← hreceived, ← hsent, ← hrequests, ← hresponses] at *
  exact ⟨h₁, h₂, h₃, h₄, h₅, fun hid => h₆ (hcreated.trans hid)⟩

/-- For a connection that exists, the rest follows from what it holds. -/
theorem of_object (ho : p.objects id = some o) (hid : id < p.created)
    (hoffset : o.outputOffset ≤ o.outputBuffer.length)
    (hout : p.sent id ++ o.outputBuffer.drop o.outputOffset =
      framed S.maxMessageSize (p.responsesOf id))
    (hin : NeverRefused S.maxMessageSize (p.received id) →
      (framer S.maxMessageSize).pull (p.received id) =
        (p.requestsOf id ++ ((framer S.maxMessageSize).pull o.inputBuffer).1,
          ((framer S.maxMessageSize).pull o.inputBuffer).2)) : S.Exchanging p id := by
  refine ⟨?_, ?_, ?_, ?_, ?_, fun hle => absurd hid (Nat.not_lt.mpr hle)⟩
  · intro o' ho'
    cases ho.symm.trans ho'
    exact hoffset
  · intro o' ho'
    cases ho.symm.trans ho'
    exact hout
  · rw [← hout]
    exact List.prefix_append _ _
  · intro o' ho'
    cases ho.symm.trans ho'
    exact hin
  · intro hnever
    rw [hin hnever]
    exact List.prefix_append _ _

theorem gain (h : S.Exchanging p id) (ho : p.objects id = some o) (hid : id < p.created)
    (bytes : Bytes) : S.Exchanging (p.gained id o bytes) id := by
  have hreceived : (p.gained id o bytes).received id = p.received id ++ bytes :=
    Function.update_self ..
  have hoffset := h.offset_le ho
  have hout := h.output ho
  refine of_object Process.put_objects_self hid hoffset hout ?_
  rw [hreceived]
  intro hnever
  rw [Framer.pull_append, h.input ho hnever.of_append, Framer.pull_append o.inputBuffer bytes]
  simp only [List.append_assoc]
  rfl

theorem answer (h : S.Exchanging p id) (ho : p.objects id = some o) (hid : id < p.created)
    {payload rest : Bytes}
    (hlook : (framer S.maxMessageSize).look o.inputBuffer = .framed payload rest) :
    S.Exchanging (S.answered p id o payload rest) id := by
  have hoffset := h.offset_le ho
  have hrequests : (S.answered p id o payload rest).requestsOf id = p.requestsOf id ++ [payload] :=
    requestsOf_asked_self
  have hresponses : (S.answered p id o payload rest).responsesOf id =
      p.responsesOf id ++ [S.responseTo p payload] := responsesOf_asked_self
  refine of_object Process.put_objects_self hid ?_ ?_ ?_
  · simp only [List.length_append]
    omega
  · rw [hresponses, framed_append, ← h.output ho, List.drop_append_of_le_length hoffset,
      ← List.append_assoc]
    simp only [framed, List.map_singleton, List.flatten_singleton]
    rfl
  · intro hnever
    have hinput := h.input ho hnever
    rw [Framer.pull_of_framed hlook] at hinput
    rw [hrequests, List.append_assoc]
    exact hinput

theorem settle (h : S.Exchanging p id) (ho : p.objects id = some o) (hid : id < p.created)
    (hready : ¬ (framer S.maxMessageSize).Ready o.inputBuffer) :
    S.Exchanging (p.put id
      { o with inputBuffer := (framer S.maxMessageSize).settled o.inputBuffer }) id := by
  have hoffset := h.offset_le ho
  have hout := h.output ho
  refine of_object Process.put_objects_self hid hoffset hout ?_
  intro hnever
  have hinput := h.input ho hnever
  have hrefused : (framer S.maxMessageSize).look
      ((framer S.maxMessageSize).pull (p.received id)).2 ≠ .refused := hnever _ (List.prefix_refl _)
  rw [hinput, Framer.pull_of_not_ready hready] at hrefused
  simp only [Framer.settled_of_not_refused hrefused]
  exact hinput

theorem advance (h : S.Exchanging p id) (ho : p.objects id = some o) (hid : id < p.created)
    (count : ℕ) :
    S.Exchanging (p.advanced id o ((o.outputBuffer.drop o.outputOffset).take count)) id := by
  have hoffset := h.offset_le ho
  have hlen : ((o.outputBuffer.drop o.outputOffset).take count).length ≤
      o.outputBuffer.length - o.outputOffset := by
    rw [List.length_take, List.length_drop]
    exact Nat.min_le_right _ _
  have hsent : (p.advanced id o ((o.outputBuffer.drop o.outputOffset).take count)).sent id =
      p.sent id ++ (o.outputBuffer.drop o.outputOffset).take count := Function.update_self ..
  have hrest : o.outputBuffer.drop
      (o.outputOffset + ((o.outputBuffer.drop o.outputOffset).take count).length) =
      (o.outputBuffer.drop o.outputOffset).drop count := by
    rw [← List.drop_drop, List.length_take, ← List.drop_eq_drop_min]
  have hin := h.input ho
  refine of_object Process.put_objects_self hid ?_ ?_ hin
  · simp only
    omega
  · rw [hsent, hrest, List.append_assoc, List.take_append_drop]
    exact h.output ho

theorem drain (h : S.Exchanging p id) (ho : p.objects id = some o) (hid : id < p.created)
    (hdone : o.outputBuffer.length ≤ o.outputOffset) : S.Exchanging (p.drained id o) id := by
  have hout := h.output ho
  rw [List.drop_eq_nil_of_le hdone] at hout
  have hin := h.input ho
  exact of_object Process.put_objects_self hid (Nat.le_refl _) hout hin

/-- What was true of a connection stays true of its records when it is gone. -/
theorem of_gone (hnone : p.objects id = none) (hid : id < p.created)
    (hsent : p.sent id <+: framed S.maxMessageSize (p.responsesOf id))
    (hrequests : NeverRefused S.maxMessageSize (p.received id) →
      p.requestsOf id <+: ((framer S.maxMessageSize).pull (p.received id)).1) :
    S.Exchanging p id := by
  refine ⟨?_, ?_, hsent, ?_, hrequests, fun hle => absurd hid (Nat.not_lt.mpr hle)⟩
  · intro o ho
    cases hnone.symm.trans ho
  · intro o ho
    cases hnone.symm.trans ho
  · intro o ho
    cases hnone.symm.trans ho

theorem discard (h : S.Exchanging p id) (hid : id < p.created) (fd : ℤ) :
    S.Exchanging (p.discarded id fd) id :=
  of_gone (Function.update_self ..) hid h.sent h.requests

theorem overflow (h : S.Exchanging p id) (ho : p.objects id = some o) (hid : id < p.created)
    {payload rest : Bytes}
    (hlook : (framer S.maxMessageSize).look o.inputBuffer = .framed payload rest) :
    S.Exchanging (S.overflowed p id o payload) id := by
  have hrequests : (S.overflowed p id o payload).requestsOf id = p.requestsOf id ++ [payload] :=
    requestsOf_asked_self
  have hresponses : (S.overflowed p id o payload).responsesOf id =
      p.responsesOf id ++ [S.responseTo p payload] := responsesOf_asked_self
  refine of_gone (Function.update_self ..) hid ?_ ?_
  · rw [hresponses, framed_append]
    exact h.sent.trans (List.prefix_append _ _)
  · intro hnever
    have hinput : (framer S.maxMessageSize).pull (p.received id) = _ := h.input ho hnever
    rw [Framer.pull_of_framed hlook] at hinput
    have hreceived : (S.overflowed p id o payload).received id = p.received id := rfl
    rw [hrequests, hreceived, hinput]
    exact (List.prefix_append_right_inj _).mpr ⟨_, rfl⟩

theorem accept (h : S.Exchanging p p.created) (fd : ℤ) :
    S.Exchanging (p.accepted fd) p.created := by
  obtain ⟨hreceived, hsent, hrequests, hresponses⟩ := h.unborn (Nat.le_refl _)
  have hrequests' : (p.accepted fd).requestsOf p.created = [] := hrequests
  have hresponses' : (p.accepted fd).responsesOf p.created = [] := hresponses
  have hreceived' : (p.accepted fd).received p.created = [] := hreceived
  have hsent' : (p.accepted fd).sent p.created = [] := hsent
  refine of_object Process.put_objects_self (Nat.lt_succ_self _) (Nat.le_refl _) ?_ ?_
  · rw [hsent', hresponses']
    rfl
  · intro _
    rw [hreceived', hrequests', Framer.pull_nil]
    rfl

theorem move (hmove : S.Move id p q) (howned : p.Owned) (h : ∀ id, S.Exchanging p id) (id' : ℕ) :
    S.Exchanging q id' := by
  by_cases hid : id' = id
  · subst hid
    cases hmove with
    | gain bytes ho => exact (h id').gain ho (howned.lt_created ho) bytes
    | answer ho hlook hfits => exact (h id').answer ho (howned.lt_created ho) hlook
    | overflow ho hlook hlarge => exact (h id').overflow ho (howned.lt_created ho) hlook
    | settle ho hready => exact (h id').settle ho (howned.lt_created ho) hready
    | advance count ho => exact (h id').advance ho (howned.lt_created ho) count
    | drain ho hdone => exact (h id').drain ho (howned.lt_created ho) hdone
    | discard ho => exact (h id').discard (howned.lt_created ho) _
    | accept hfresh hfd => exact (h p.created).accept _
  · exact (h id').of_unmoved (hmove.unmoved hid)

end Exchanging
/-- The requests and responses of a server at work: one handler for all, and each
connection with its own. -/
structure Working (S : Service σ) (start : σ) (p : Process σ) : Prop where
  serial : S.Serial start p
  exchanging : ∀ id, S.Exchanging p id

theorem Working.move (hmove : S.Move id p q) (howned : p.Owned) (h : S.Working start p) :
    S.Working start q :=
  ⟨h.serial.move hmove, Exchanging.move hmove howned h.exchanging⟩

theorem Working.detached (h : S.Working start p) (fd : ℤ) : S.Working start (p.detached fd) :=
  ⟨h.serial.congr rfl rfl,
    fun id => (h.exchanging id).of_unmoved ⟨rfl, rfl, rfl, rfl, rfl, Nat.le_refl _⟩⟩

theorem working_listening (s : σ) (registrations : List Bool) (fd : ℤ) :
    S.Working s (Process.listening s registrations fd) := by
  refine ⟨⟨rfl, rfl, fun e he => absurd he List.not_mem_nil⟩, fun id => ⟨?_, ?_, ?_, ?_, ?_, ?_⟩⟩
  · intro o ho
    cases ho
  · intro o ho
    cases ho
  · exact List.nil_prefix
  · intro o ho
    cases ho
  · exact fun _ => List.nil_prefix
  · exact fun _ => ⟨rfl, rfl, rfl, rfl⟩

end Service

/-- In every state a server reaches, all requests have been served by one run of the
handler, and every connection has sent, or still holds back, the framed responses to the
frames of what it received, in their order. -/
theorem requests_served_in_one_order {σ : Type} (S : Service σ) (setup : Setup) (s : σ)
    (registrations : List Bool) (polls : List Poll)
    (hstart : ((Process.fresh s registrations).initializeServer setup).1 = none) :
    S.Working s (S.runLoop polls ((Process.fresh s registrations).initializeServer setup).2) :=
  (Service.resting_reached Service.Working.move setup s registrations polls
    (fun _ _ h => h.detached _) (Service.working_listening s registrations.tail) hstart).2

theorem requests_served_in_one_order_twoClients :
    doubling.Working 0
      (doubling.runLoop twoClients ((Process.fresh 0 []).initializeServer plainSetup).2) :=
  requests_served_in_one_order doubling plainSetup 0 [] twoClients rfl

/-- A client that sends frames is served whatever the other clients do: the handler has
been given exactly its complete requests, and the responses are sent or held back. -/
theorem client_isolated {σ : Type} (S : Service σ) (hmax : S.maxMessageSize < 2 ^ 32)
    (setup : Setup) (s : σ) (registrations : List Bool) (polls : List Poll)
    (hstart : ((Process.fresh s registrations).initializeServer setup).1 = none)
    (q : Process σ)
    (hq : q = S.runLoop polls ((Process.fresh s registrations).initializeServer setup).2)
    (id : ℕ) (payloads : List Bytes)
    (hpayloads : ∀ payload ∈ payloads, payload.length ≤ S.maxMessageSize)
    (hreceived : q.received id <+: framed S.maxMessageSize payloads) :
    q.requestsOf id <+: completeWithin S.maxMessageSize (q.received id).length payloads ∧
      q.sent id <+: framed S.maxMessageSize (q.responsesOf id) ∧
      ∀ o, q.objects id = some o →
        q.requestsOf id = completeWithin S.maxMessageSize (q.received id).length payloads ∧
        q.sent id ++ o.outputBuffer.drop o.outputOffset =
          framed S.maxMessageSize (q.responsesOf id) := by
  obtain ⟨hrest, hworking⟩ := Service.resting_reached (S := S) Service.Working.move setup s
    registrations polls (fun _ _ h => h.detached _)
    (Service.working_listening s registrations.tail) hstart
  rw [← hq] at hrest hworking
  have hexchanging := hworking.exchanging id
  have hnever := neverRefused_of_framed hmax hpayloads hreceived
  have hfound := (pull_arrived hmax hpayloads hreceived).1
  refine ⟨?_, hexchanging.sent, ?_⟩
  · rw [← hfound]
    exact hexchanging.requests hnever
  · intro o ho
    have hinput := hexchanging.input ho hnever
    rw [Framer.pull_of_not_ready (hrest.settled id o ho), List.append_nil] at hinput
    rw [hinput] at hfound
    exact ⟨hfound, hexchanging.output ho⟩

theorem client_isolated_twoClients :
    let q := doubling.runLoop twoClients ((Process.fresh 0 []).initializeServer plainSetup).2
    q.requestsOf 0 <+: completeWithin 8 (q.received 0).length [text "hi", [7]] ∧
      q.sent 0 <+: framed 8 (q.responsesOf 0) ∧
      ∀ o, q.objects 0 = some o →
        q.requestsOf 0 = completeWithin 8 (q.received 0).length [text "hi", [7]] ∧
        q.sent 0 ++ o.outputBuffer.drop o.outputOffset = framed 8 (q.responsesOf 0) :=
  client_isolated doubling (by decide) plainSetup 0 [] twoClients rfl _ rfl 0 [text "hi", [7]]
    (by decide) (by decide)

end ForgeDB
