import ForgeDB.CompactionRuns
import ForgeDB.StoreSystems

/-!
# The whole store with compactions

Clients, network, server and database again, with no limit on the number of compactions. What
the clients see is still one sequence of commands. In it every answer is that of a plain map,
except for errors over tables that are listed and have no file; a write with such an answer
has taken place.
-/

namespace ForgeDB
open CommandParser CompactionRuns CrashPrograms CrashPrograms.Io Database Linearizability
open MapRefinement Reopening TableIds TextStreams

/-- Every message is a command within the limits, one after the other. -/
def staysRoomy (hc : HeaderConstants) : Database → Disk → List Bytes → Bool
  | _, _, [] => true
  | db, d, message :: messages =>
    decide (Roomy hc db d (parseCommand message)) &&
      match db.execute hc (parseCommand message) ⟨d, []⟩ with
      | .returned (_, db) w => staysRoomy hc db w.disk messages
      | .died _ => true

/-- Each answer is that of a plain map on the commands before it, or names a table that is
listed and has no file when the command has been executed. -/
def HonestAnswers (hc : HeaderConstants) :
    Database → Disk → List Command → List Bytes → List Bytes → Prop
  | _, _, _, [], responses => responses = []
  | db, d, earlier, message :: messages, responses => ∃ response rest db' d',
      responses = response :: rest ∧
      Succeeds (db.execute hc (parseCommand message)) d (response, db') d' ∧
      Honest earlier (parseCommand message) d' db' response ∧
      HonestAnswers hc db' d' (earlier ++ [parseCommand message]) messages rest

section Answers

variable {hc : HeaderConstants} {l : Layout} {d : Disk} {db : Database}
  {ops : List LogOperation} {ts : List SSTableMetadata} {ms : List Entries}
  {earlier : List Command}

theorem honestAnswers_database (limit : ℕ) (hplain : l.Plain) (hapart : ¬ text ".sst" <:+ l.walFilename)
    (messages : List Bytes) (h : DirectoryComplete hc l d db ops ts ms)
    (hstored : Stored earlier ops ms) (hroomy : staysRoomy hc db d messages = true) :
    HonestAnswers hc db d earlier messages
      ((databaseService hc limit).answers (db, ⟨d, []⟩) messages) := by
  induction messages generalizing db d ops ts ms earlier with
  | nil => rfl
  | cons message messages ih =>
    rw [staysRoomy, Bool.and_eq_true, decide_eq_true_eq] at hroomy
    obtain ⟨hfirst, hrest⟩ := hroomy
    obtain ⟨response, db₁, d₁, ops₁, ts₁, ms₁, hrun, h₁, hstored₁, hhonest⟩ :=
      h.command hplain hapart hstored hfirst
    have hreturned := hrun
    rw [Succeeds] at hreturned
    rw [hreturned] at hrest
    have hhandler : (databaseService hc limit).messageHandler (db, ⟨d, []⟩) message =
        ((db₁, ⟨d₁, []⟩), .returned response) := by
      simp only [databaseService, hreturned]
    refine ⟨response, _, db₁, d₁, ?_, hrun, hhonest, ih h₁ hstored₁ hrest⟩
    rw [Service.answers, hhandler]
    rfl

end Answers

/-- What all clients see is one sequence of commands with honest answers, in an order that
respects who was answered before whom. -/
theorem store_honest (hc : HeaderConstants) (directory : Bytes)
    (hplain : ∀ b ∈ directory, isSpace b = false) (mode : DurabilityMode) (d : Disk)
    (hvacant : Vacant (Layout.ofDirectory directory) d) (limit : ℕ) (hlimit : limit < 2 ^ 32)
    (setup : Setup) (registrations : List Bool) (db : Database) (d₁ : Disk)
    (hopened : Succeeds (initializeDatabase hc (Layout.ofDirectory directory).walFilename mode) d
      (.ok db) d₁)
    (hstart : ((Process.fresh (db, (⟨d₁, []⟩ : World)) registrations).initializeServer setup).1 = none)
    (system : System (Database × World))
    (hreached : (databaseService hc limit).SystemReached
      ((Process.fresh (db, (⟨d₁, []⟩ : World)) registrations).initializeServer setup).2 system)
    (hfits : ∀ e ∈ system.process.served, e.response.length ≤ limit)
    (hroomy : staysRoomy hc db d₁ (system.process.served.map Exchange.request) = true) :
    (∃ order, Linearization ((databaseService hc limit).specification (db, ⟨d₁, []⟩))
        (seen system.trace) order ∧
      HonestAnswers hc db d₁ [] (order.map Operation.input) (order.map Operation.output)) ∧
      ∀ id, invocations (seen system.trace) id = (system.clients id).asked ∧
        responses (seen system.trace) id = (system.clients id).printed := by
  have h : Coherent (databaseService hc limit) (db, (⟨d₁, []⟩ : World)) system :=
    Coherent.reached hlimit (Service.coherent_start hstart) hreached
  have hapart := ofDirectory_apart directory
  obtain ⟨hcomplete, hview⟩ := directoryComplete_vacant hapart hvacant mode hopened
  have hstored : Stored [] [] [] := ⟨[], [], rfl, rfl, fun _ => rfl⟩
  have hhonest := honestAnswers_database limit (plain_ofDirectory hplain) hapart _
    hcomplete hstored hroomy
  have hanswers := h.healthy.working.serial.responses
  have hfault : system.process.fault = none := h.healthy.accounted.fault_eq_none_iff.mpr hfits
  have hlegal : (acts system.trace).map Act.output =
      ((databaseService hc limit).specification (db, ⟨d₁, []⟩)).outputs
        ((databaseService hc limit).specification (db, ⟨d₁, []⟩)).start
        ((acts system.trace).map Act.input) := by
    rw [h.acts_eq, List.map_map, List.map_map]
    exact hanswers.trans (Service.outputs_specification _ _ _).symm
  refine ⟨⟨_, (h.paced hfault).linearization hlegal, ?_⟩,
    fun id => ⟨h.invocations_eq id, h.responses_eq id⟩⟩
  rw [map_input_number, map_output_number, h.acts_eq, List.map_map, List.map_map]
  rw [← hanswers] at hhonest
  exact hhonest

/-- The client that stores a value. -/
theorem store_honest_stored :
    (∃ order, Linearization ((databaseService RestartAnswers.fewBytes 64).specification
          (RestartAnswers.opened, ⟨RestartAnswers.openedDisk, []⟩))
        (seen Storing.stored.trace) order ∧
      HonestAnswers RestartAnswers.fewBytes RestartAnswers.opened RestartAnswers.openedDisk []
        (order.map Operation.input) (order.map Operation.output)) ∧
      ∀ id, invocations (seen Storing.stored.trace) id = (Storing.stored.clients id).asked ∧
        responses (seen Storing.stored.trace) id = (Storing.stored.clients id).printed :=
  store_honest RestartAnswers.fewBytes (text "d") (by decide +kernel) .sync ∅
    ⟨⟨rfl, rfl⟩, fun _ _ => rfl⟩ 64 (by decide) plainSetup [] RestartAnswers.opened
    RestartAnswers.openedDisk (by decide +kernel) rfl Storing.stored Storing.stored_reached
    (by decide +kernel) (by decide +kernel)

end ForgeDB
