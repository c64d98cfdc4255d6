import ForgeDB.CommandParser
import ForgeDB.MapRefinement
import ForgeDB.RestartAnswers
import ForgeDB.Systems

/-!
# The whole store is one map

The message handler of the server parses a command and executes it on the database. Put
together with the clients, the network and the files: whatever the clients type and however
their requests interleave, they see a single map of keys to values, as long as every step
on files succeeds and no compaction starts.
-/

namespace ForgeDB
open CommandParser CrashPrograms CrashPrograms.Io Database Linearizability MapRefinement Protocol
  StreamFraming

/-- The message handler that `handle_accept` passes to every connection. A process that dies
in a command answers nothing; the plan says whether that happens. -/
def databaseService (hc : HeaderConstants) (maxMessageSize : ℕ) : Service (Database × World) where
  maxMessageSize := maxMessageSize
  messageHandler := fun (db, w) message =>
    match db.execute hc (parseCommand message) w with
    | .returned (response, db) w => ((db, w), .returned response)
    | .died d => ((db, ⟨d, []⟩), .threwOther)

/-- What the clients are to see: a map from keys to values. -/
def mapSpecification : Specification (Bytes → Option Bytes) Bytes Bytes where
  start := fun _ => none
  step := fun m message =>
    let command := parseCommand message
    match command.type with
    | .put => (Function.update m command.key (some command.value), text "OK")
    | .get => (m, (m command.key).getD (text "NOT_FOUND"))
    | .deleteKey => (Function.update m command.key none, text "OK")
    | .exit => (m, text "BYE")
    | .invalid => (m, text "ERROR invalid command")

namespace Service

variable {hc : HeaderConstants} {limit : ℕ}

/-- As long as every step succeeds and nothing is compacted, the handler answers as a plain
map does. -/
theorem answers_database (messages : List Bytes) {l : Layout} {d : Disk} {db : Database}
    {earlier : List Command} {ms : List Entries} {log : Bytes}
    (h : Refines hc l d db earlier ms log)
    (hsmall : ∀ message ∈ messages, SmallCommand (parseCommand message))
    (hquiet : staysQuiet hc db d (messages.map parseCommand) = true) :
    (databaseService hc limit).answers (db, ⟨d, []⟩) messages =
      plainResponses earlier (messages.map parseCommand) := by
  induction messages generalizing db d earlier ms log with
  | nil => rfl
  | cons message messages ih =>
    rw [List.map_cons, staysQuiet, Bool.and_eq_true, decide_eq_true_eq] at hquiet
    obtain ⟨hfirst, hrest⟩ := hquiet
    obtain ⟨db₁, d₁, ms₁, log₁, hrun, h₁⟩ :=
      refines_step h (hsmall message List.mem_cons_self) hfirst
    rw [Succeeds] at hrun
    rw [hrun] at hrest
    have hhandler : (databaseService hc limit).messageHandler (db, ⟨d, []⟩) message =
        ((db₁, ⟨d₁, []⟩), .returned (plainResponse earlier (parseCommand message))) := by
      simp only [databaseService, hrun]
    have hnext := ih h₁ (fun m hm => hsmall m (List.mem_cons_of_mem _ hm)) hrest
    rw [answers, hhandler, List.map_cons, plainResponses, hnext]
    rfl

end Service

theorem mapSpecification_step {m : Bytes → Option Bytes} {earlier : List Command}
    (h : ∀ key, m key = lastWrite earlier key) (message : Bytes) :
    (mapSpecification.step m message).2 = plainResponse earlier (parseCommand message) ∧
      ∀ key, (mapSpecification.step m message).1 key =
        lastWrite (earlier ++ [parseCommand message]) key := by
  cases hop : operation (parseCommand message) with
  | some op =>
    simp only [lastWrite_append_write hop, ← h]
    rcases operation_eq_some hop with ⟨ht, rfl⟩ | ⟨ht, rfl⟩
    · simp only [mapSpecification, plainResponse, ht, true_and]
      exact fun key => Function.update_apply ..
    · simp only [mapSpecification, plainResponse, ht, true_and]
      exact fun key => Function.update_apply ..
  | none =>
    simp only [lastWrite_append_other hop, ← h]
    rcases operation_eq_none hop with ht | ht | ht
    · simp only [mapSpecification, plainResponse, ht, h, implies_true, and_self]
    · simp only [mapSpecification, plainResponse, ht, implies_true, and_self]
    · simp only [mapSpecification, plainResponse, ht, implies_true, and_self]

theorem outputs_mapSpecification (messages : List Bytes) {m : Bytes → Option Bytes}
    {earlier : List Command} (h : ∀ key, m key = lastWrite earlier key) :
    mapSpecification.outputs m messages = plainResponses earlier (messages.map parseCommand) := by
  induction messages generalizing m earlier with
  | nil => rfl
  | cons message messages ih =>
    obtain ⟨hresponse, hmap⟩ := mapSpecification_step h message
    rw [Specification.outputs, List.map_cons, plainResponses, hresponse, ih hmap]

theorem length_mapSpecification_step {limit : ℕ} (hlimit : 21 ≤ limit) {m : Bytes → Option Bytes}
    (hm : ∀ key value, m key = some value → value.length ≤ limit) {message : Bytes}
    (hmessage : message.length ≤ limit) :
    (mapSpecification.step m message).2.length ≤ limit ∧
      ∀ key value, (mapSpecification.step m message).1 key = some value → value.length ≤ limit := by
  have hparsed := length_parseCommand message
  have htexts : (text "OK").length ≤ limit ∧ (text "NOT_FOUND").length ≤ limit ∧
      (text "BYE").length ≤ limit ∧ (text "ERROR invalid command").length ≤ limit :=
    ⟨le_trans (by decide) hlimit, le_trans (by decide) hlimit, le_trans (by decide) hlimit,
      le_trans (by decide) hlimit⟩
  cases ht : (parseCommand message).type with
  | put =>
    simp only [mapSpecification, ht]
    refine ⟨htexts.1, fun key value hvalue => ?_⟩
    rw [Function.update_apply] at hvalue
    split at hvalue
    · cases hvalue
      omega
    · exact hm key value hvalue
  | get =>
    simp only [mapSpecification, ht]
    refine ⟨?_, hm⟩
    cases hvalue : m (parseCommand message).key with
    | none => exact htexts.2.1
    | some value => exact hm _ value hvalue
  | deleteKey =>
    simp only [mapSpecification, ht]
    refine ⟨htexts.1, fun key value hvalue => ?_⟩
    rw [Function.update_apply] at hvalue
    split at hvalue
    · cases hvalue
    · exact hm key value hvalue
  | exit =>
    simp only [mapSpecification, ht]
    exact ⟨htexts.2.2.1, hm⟩
  | invalid =>
    simp only [mapSpecification, ht]
    exact ⟨htexts.2.2.2, hm⟩

/-- So no response is longer than the longest message or the longest text. -/
theorem length_outputs_le {limit : ℕ} (hlimit : 21 ≤ limit) (messages : List Bytes)
    {m : Bytes → Option Bytes} (hm : ∀ key value, m key = some value → value.length ≤ limit)
    (hmessages : ∀ message ∈ messages, message.length ≤ limit) :
    ∀ response ∈ mapSpecification.outputs m messages, response.length ≤ limit := by
  induction messages generalizing m with
  | nil =>
    intro response hmem
    cases hmem
  | cons message messages ih =>
    obtain ⟨hresponse, hnext⟩ :=
      length_mapSpecification_step hlimit hm (hmessages message List.mem_cons_self)
    rw [Specification.outputs, List.forall_mem_cons]
    exact ⟨hresponse, ih hnext (fun x hx => hmessages x (List.mem_cons_of_mem _ hx))⟩

/-- Clients, network, server, parser, log, table in memory and table files together: what
all clients see is one map, in an order that respects who was answered before whom, and the
server never fails. -/
theorem store_linearizable (hc : HeaderConstants) (l : Layout) (mode : DurabilityMode) (d : Disk)
    (hd : Fresh l d) (limit : ℕ) (hlimit : 21 ≤ limit ∧ limit < 2 ^ 32) (setup : Setup)
    (registrations : List Bool) (db : Database) (d₁ : Disk)
    (hopened : Succeeds (initializeDatabase hc l.walFilename mode) d (.ok db) d₁)
    (hstart : ((Process.fresh (db, (⟨d₁, []⟩ : World)) registrations).initializeServer setup).1 = none)
    (system : System (Database × World))
    (hreached : (databaseService hc limit).SystemReached
      ((Process.fresh (db, (⟨d₁, []⟩ : World)) registrations).initializeServer setup).2 system)
    (hquiet : staysQuiet hc db d₁
      (system.process.served.map fun e => parseCommand e.request) = true) :
    system.process.fault = none ∧ Linearizable mapSpecification (seen system.trace) ∧
      ∀ id, invocations (seen system.trace) id = (system.clients id).asked ∧
        responses (seen system.trace) id = (system.clients id).printed := by
  have h : Coherent (databaseService hc limit) (db, (⟨d₁, []⟩ : World)) system :=
    Coherent.reached hlimit.2 (Service.coherent_start hstart) hreached
  have hserial := h.healthy.working.serial
  have hmessages : ∀ message ∈ system.process.served.map Exchange.request, message.length ≤ limit :=
    List.forall_mem_map.mpr hserial.sized
  -- the handler answers like the map
  obtain ⟨db', d', ms, log, hinit, hrefines⟩ := refines_initial hc mode hd
  obtain ⟨hdb, rfl⟩ := hopened.unique hinit
  obtain rfl : db = db' := Except.ok.inj hdb
  have hmap : ∀ key, mapSpecification.start key = lastWrite [] key := fun _ => rfl
  have hanswers : system.process.served.map Exchange.response =
      mapSpecification.outputs mapSpecification.start
        (system.process.served.map Exchange.request) := by
    rw [hserial.responses, outputs_mapSpecification _ hmap]
    refine Service.answers_database _ hrefines ?_ ?_
    · intro message hmessage
      have hlen := length_parseCommand message
      have hle := hmessages message hmessage
      exact ⟨by omega, by omega⟩
    · rw [List.map_map]
      exact hquiet
  -- so every response fits into a frame
  have hfault : system.process.fault = none := by
    refine h.healthy.accounted.fault_eq_none_iff.mpr ?_
    have hall := length_outputs_le hlimit.1 (system.process.served.map Exchange.request)
      (m := mapSpecification.start) (fun key value hvalue => by cases hvalue) hmessages
    rw [← hanswers, List.forall_mem_map] at hall
    exact hall
  refine ⟨hfault, (h.paced hfault).linearizable ?_,
    fun id => ⟨h.invocations_eq id, h.responses_eq id⟩⟩
  rw [h.acts_eq, List.map_map, List.map_map]
  exact hanswers

namespace Storing
open RestartAnswers

def listeningStore : Process (Database × World) :=
  ((Process.fresh (opened, (⟨openedDisk, []⟩ : World)) []).initializeServer plainSetup).2

def asking : System (Database × World) :=
  let system := Service.initialSystem listeningStore
  let system := (databaseService fewBytes 64).clientStep system 0 (.getline (some (text "put b yyy")))
  let system := (databaseService fewBytes 64).serverStep system (.read 3 [.accepted 4 true] [])
  (databaseService fewBytes 64).clientStep system 0 (.send (.sent 100))

def requestFrame : KernelEvent := .read 4 [] [.received (createFrame 64 (text "put b yyy"))]

def stored : System (Database × World) :=
  let system := (databaseService fewBytes 64).serverStep asking requestFrame
  let system := (databaseService fewBytes 64).serverStep system (.write 4 [.sent 100])
  (databaseService fewBytes 64).clientStep system 0 (.recv (.received (createFrame 64 (text "OK"))))

theorem asking_reached : (databaseService fewBytes 64).SystemReached listeningStore asking :=
  ((Relation.ReflTransGen.refl.tail
    (.client 0 (.getline (some (text "put b yyy"))) (by decide +kernel))).tail
    (.server (.read 3 [.accepted 4 true] []) (fun _ => List.nil_prefix))).tail
    (.client 0 (.send (.sent 100)) (by decide +kernel))

theorem stored_reached : (databaseService fewBytes 64).SystemReached listeningStore stored := by
  have hread : ∀ id, ((databaseService fewBytes 64).serverStep asking requestFrame).process.received
      id <+: (asking.clients id).transmitted := by
    intro id
    cases id with
    | zero => decide +kernel
    | succ n => exact List.nil_prefix
  exact ((asking_reached.tail (.server _ hread)).tail (.server (.write 4 [.sent 100]) hread)).tail
    (.client 0 (.recv (.received (createFrame 64 (text "OK")))) (by decide +kernel))

end Storing

theorem store_linearizable_stored :
    Storing.stored.process.fault = none ∧
      Linearizable mapSpecification (seen Storing.stored.trace) ∧
      ∀ id, invocations (seen Storing.stored.trace) id = (Storing.stored.clients id).asked ∧
        responses (seen Storing.stored.trace) id = (Storing.stored.clients id).printed :=
  store_linearizable RestartAnswers.fewBytes RestartAnswers.directory .sync ∅ ⟨rfl, rfl⟩ 64
    (by decide) plainSetup [] RestartAnswers.opened RestartAnswers.openedDisk (by decide +kernel) rfl
    Storing.stored Storing.stored_reached (by decide +kernel)

end ForgeDB
