import ForgeDB.Deaths
import ForgeDB.StoreSystems

/-!
# The lives of a store

The server process opens the database, serves its clients and may die at any moment: between
two events, between two requests of one event, or in any step that a command takes on the
files. Then it is started again on what is left, and new clients come. Whatever all clients
of all lives have seen is one history of one map: a death loses no answered command and
repeats none, and a command that was being executed took place or did not.
-/

namespace ForgeDB
open CommandParser CrashPrograms CrashPrograms.Io Database LayeredMaps Linearizability MapRefinement
open Protocol ReachedStates RestartAnswers StreamFraming WalRecovery

/-- Every message is acceptable when its turn comes. -/
def staysAcceptable (hc : HeaderConstants) : Database → Disk → List Bytes → Bool
  | _, _, [] => true
  | db, d, message :: messages =>
    decide (Acceptable hc db (parseCommand message)) &&
      match db.execute hc (parseCommand message) ⟨d, []⟩ with
      | .returned (_, db) w => staysAcceptable hc db w.disk messages
      | .died _ => true

/-- The database has been opened on the files `d`, and clients and server have got as far as
`system`. -/
structure Life (hc : HeaderConstants) (l : Layout) (limit : ℕ) (d : Disk) (db : Database) (d₁ : Disk)
    (system : System (Database × World)) : Prop where
  opened : Succeeds (initializeDatabase hc l.walFilename .sync) d (.ok db) d₁
  serving : ∃ (setup : Setup) (registrations : List Bool),
    ((Process.fresh (db, (⟨d₁, []⟩ : World)) registrations).initializeServer setup).1 = none ∧
    (databaseService hc limit).SystemReached
      ((Process.fresh (db, (⟨d₁, []⟩ : World)) registrations).initializeServer setup).2 system

/-- What has been served at some moment of a run: now, or in the middle of one more event. -/
inductive Moment {σ : Type} (S : Service σ) (system : System σ) : List Exchange → Prop where
  | between : Moment S system system.process.served
  | during {served : List Exchange} (event : KernelEvent)
      (hdelivered : ∀ id, (S.serverStep system event).process.received id <+:
        (system.clients id).transmitted)
      (hbefore : system.process.served <+: served)
      (hafter : served <+: (S.serverStep system event).process.served) : Moment S system served

/-- The process dies and leaves the files `d'`, with the requests handed on until then. -/
inductive Death (hc : HeaderConstants) (limit : ℕ) (start : Database × World)
    (system : System (Database × World)) : List Exchange → Disk → Prop where
  | idle {served : List Exchange} : Moment (databaseService hc limit) system served →
      Death hc limit start system served
        ((databaseService hc limit).stateAfter start (served.map Exchange.request)).2.disk
  | serving {served : List Exchange} {e : Exchange} {db : Database} {d d' : Disk}
      (plan : List Outcome) : Moment (databaseService hc limit) system served →
      Moment (databaseService hc limit) system (served ++ [e]) →
      (databaseService hc limit).stateAfter start (served.map Exchange.request) = (db, ⟨d, []⟩) →
      db.execute hc (parseCommand e.request) ⟨d, plan⟩ = .died d' →
      Death hc limit start system (served ++ [e]) d'

/-- The files after any number of lives, and what the clients of all lives have seen; a client
is named by its life and its number. A log that ends in a torn record ends the lives. -/
inductive Lives (hc : HeaderConstants) (l : Layout) (limit : ℕ) :
    ℕ → Disk → List (Mark (ℕ × ℕ) Bytes Bytes) → Prop where
  | fresh {d : Disk} : Fresh l d → Lives hc l limit 0 d []
  | stillborn {n : ℕ} {d d' : Disk} {history : List (Mark (ℕ × ℕ) Bytes Bytes)} {plan : List Outcome} :
      Lives hc l limit n d history →
      initializeDatabase hc l.walFilename .sync ⟨d, plan⟩ = .died d' → Lives hc l limit n d' history
  | life {n : ℕ} {d d₁ d' : Disk} {history : List (Mark (ℕ × ℕ) Bytes Bytes)} {db : Database}
      {system : System (Database × World)} {served : List Exchange} :
      Lives hc l limit n d history → Whole hc l d → Life hc l limit d db d₁ system →
      Death hc limit (db, ⟨d₁, []⟩) system served d' →
      staysAcceptable hc db d₁ (served.map Exchange.request) = true →
      Lives hc l limit (n + 1) d' (history ++ (seen system.trace).map (Mark.rename (Prod.mk n)))

theorem plainResponses_append (earlier commands more : List Command) :
    plainResponses earlier (commands ++ more) =
      plainResponses earlier commands ++ plainResponses (earlier ++ commands) more := by
  induction commands generalizing earlier with
  | nil => rw [List.nil_append, plainResponses, List.nil_append, List.append_nil]
  | cons command commands ih =>
    rw [List.cons_append, plainResponses, plainResponses, ih, List.append_assoc]
    rfl

section Serving

variable {hc : HeaderConstants} {l : Layout} {limit : ℕ} {d : Disk} {db : Database}
  {earlier : List Command} {message : Bytes}

/-- Memory and files are in step, and reads find what was written last. -/
def Truthful (hc : HeaderConstants) (l : Layout) (d : Disk) (db : Database)
    (earlier : List Command) : Prop :=
  ∃ ms rs, Consistent hc l d 0 db ms rs ∧ ∀ key, live (db.view ms key) = lastWrite earlier key

theorem truthful_write (hplain : l.Plain) (h : Truthful hc l d db earlier)
    (hacc : Acceptable hc db (parseCommand message)) {op : LogOperation}
    (hop : operation (parseCommand message) = some op) :
    ∃ db' d', Succeeds (db.execute hc (parseCommand message)) d (text "OK", db') d' ∧
      Truthful hc l d' db' (earlier ++ [parseCommand message]) := by
  obtain ⟨ms, rs, hcons, hlive⟩ := h
  obtain ⟨wal, d₁, happend, -⟩ := Wal.appendRecord_succeeds hc hcons.standing.carries op.record
  rw [← LogOperation.append_eq] at happend
  have hmid : Midway hc db d message (db.written wal op) d₁ := ⟨hacc, op, wal, hop, happend, rfl⟩
  obtain ⟨⟨rs₁, h₁⟩, hne, hcount, hquiet⟩ := hmid.consistent hcons
  have hids := hc.compactionThreshold_lt
  have hroom : hc.memtableFlushThreshold ≤ (db.written wal op).memtable.sizeInBytes →
      (db.written wal op).storage.manifest.nextTableId + 1 < 2 ^ 64 := by
    intro hdue
    have hfew := hquiet hdue
    rw [h₁.length_tables] at hfew
    exact h₁.room (by omega)
  obtain ⟨db', d', hflush, -⟩ := flushIfDue_succeeds hc h₁.standing.wired h₁.standing.shows
    h₁.standing.carries hne (fun hdue => ⟨h₁.storable hcount, hroom hdue, hquiet hdue⟩)
  obtain ⟨spent', ms', rs', -, h', hview, hok⟩ :=
    (hmid.flushIfDue_ensures hplain hcons hids).of_succeeds hflush
  rw [hok rfl] at h'
  refine ⟨db', d', ?_, ms', rs', h', fun key => ?_⟩
  · rw [execute_write hc db hop]
    exact happend.bind hflush
  · rw [hview, view_written, lastWrite_append_write hop, ← hlive]
    split <;> rfl

theorem truthful_step (hplain : l.Plain) (h : Truthful hc l d db earlier)
    (hacc : Acceptable hc db (parseCommand message)) :
    ∃ db' d', Succeeds (db.execute hc (parseCommand message)) d
        (plainResponse earlier (parseCommand message), db') d' ∧
      Truthful hc l d' db' (earlier ++ [parseCommand message]) := by
  cases hop : operation (parseCommand message) with
  | some op =>
    have hok : plainResponse earlier (parseCommand message) = text "OK" := by
      rw [plainResponse]
      obtain ⟨ht, -⟩ | ⟨ht, -⟩ := operation_eq_some hop <;> rw [ht]
    rw [hok]
    exact truthful_write hplain h hacc hop
  | none =>
    obtain ⟨ms, rs, hcons, hlive⟩ := h
    refine ⟨db, d, ?_, ms, rs, hcons,
      fun key => (hlive key).trans (lastWrite_append_other hop key).symm⟩
    rw [execute, plainResponse]
    obtain ht | ht | ht := operation_eq_none hop <;> simp only [ht]
    · rw [← hlive, ← answer_eq_live]
      exact (executeGet_succeeds hcons.standing.shows _).bind .pure
    · exact .pure
    · exact .pure

theorem truthful_run (limit : ℕ) (hplain : l.Plain) (messages more : List Bytes)
    (h : Truthful hc l d db earlier)
    (hacc : staysAcceptable hc db d (messages ++ more) = true) :
    ∃ db' d', (databaseService hc limit).stateAfter (db, ⟨d, []⟩) messages = (db', ⟨d', []⟩) ∧
      (databaseService hc limit).answers (db, ⟨d, []⟩) messages =
        plainResponses earlier (messages.map parseCommand) ∧
      Truthful hc l d' db' (earlier ++ messages.map parseCommand) ∧
      staysAcceptable hc db' d' more = true := by
  induction messages generalizing db d earlier with
  | nil =>
    rw [List.map_nil, List.append_nil]
    exact ⟨db, d, rfl, rfl, h, hacc⟩
  | cons message messages ih =>
    rw [List.cons_append, staysAcceptable, Bool.and_eq_true, decide_eq_true_eq] at hacc
    obtain ⟨hfirst, hrest⟩ := hacc
    obtain ⟨db₁, d₁, hrun, h₁⟩ := truthful_step hplain h hfirst
    rw [Succeeds] at hrun
    rw [hrun] at hrest
    have hhandler : (databaseService hc limit).messageHandler (db, ⟨d, []⟩) message =
        ((db₁, ⟨d₁, []⟩), .returned (plainResponse earlier (parseCommand message))) := by
      simp only [databaseService, hrun]
    obtain ⟨db', d', hstate, hanswers, h', hmore⟩ := ih h₁ hrest
    rw [List.append_assoc] at h'
    refine ⟨db', d', ?_, ?_, h', hmore⟩
    · rw [Service.stateAfter, List.foldl_cons, hhandler]
      exact hstate
    · rw [Service.answers, hhandler, List.map_cons, plainResponses, hanswers]
      rfl

end Serving

section Moments

variable {σ : Type} {S : Service σ} {start : σ} {system : System σ} {served : List Exchange}

theorem length_answers (s : σ) (payloads : List Bytes) :
    (S.answers s payloads).length = payloads.length := by
  induction payloads generalizing s with
  | nil => rfl
  | cons payload payloads ih => rw [Service.answers, List.length_cons, List.length_cons, ih]

/-- What holds of all that has been served holds of what was served at some moment. -/
theorem responses_initial {all : List Exchange} (h : served <+: all)
    (hall : all.map Exchange.response = S.answers start (all.map Exchange.request)) :
    served.map Exchange.response = S.answers start (served.map Exchange.request) := by
  obtain ⟨rest, rfl⟩ := h
  rw [List.map_append, List.map_append, Service.answers_append] at hall
  exact (List.append_inj hall (by rw [length_answers, List.length_map, List.length_map])).1

/-- A moment lies behind the start of its event and before the end of it. -/
theorem Moment.bounds (hm : Moment S system served) (h : Coherent S start system) :
    system.process.served <+: served ∧ ∃ q, S.Healthy start q ∧ Service.Grown system.process q ∧
      served <+: q.served ∧ ∀ id, q.received id <+: (system.clients id).transmitted ∨
        q = system.process := by
  cases hm with
  | between =>
    exact ⟨List.prefix_refl _, system.process, h.healthy, Service.grown_refl _, List.prefix_refl _,
      fun _ => Or.inr rfl⟩
  | during event hdelivered hbefore hafter =>
    obtain ⟨hhealthy, hgrown⟩ := h.healthy.stepOf event
    exact ⟨hbefore, _, hhealthy, hgrown, hafter, fun id => Or.inl (hdelivered id)⟩

theorem Moment.responses (hm : Moment S system served) (h : Coherent S start system) :
    served.map Exchange.response = S.answers start (served.map Exchange.request) ∧
      ∀ e ∈ served, e.request.length ≤ S.maxMessageSize := by
  obtain ⟨-, q, hhealthy, -, hafter, -⟩ := hm.bounds h
  exact ⟨responses_initial hafter hhealthy.working.serial.responses,
    fun e he => hhealthy.working.serial.sized e (hafter.subset he)⟩

def traceAt (system : System σ) (served : List Exchange) : List (Point ℕ Bytes Bytes) :=
  system.trace ++ ((served.drop system.process.served.length).map Exchange.act).map Point.act

theorem seen_traceAt (system : System σ) (served : List Exchange) :
    seen (traceAt system served) = seen system.trace := by
  rw [traceAt, seen_append, seen_map_act, List.append_nil]

theorem Moment.acts_traceAt (hm : Moment S system served) (h : Coherent S start system) :
    acts (traceAt system served) = served.map Exchange.act := by
  obtain ⟨⟨rest, rfl⟩, -⟩ := hm.bounds h
  rw [traceAt, acts_append, acts_map_act, h.acts_eq, List.drop_left, List.map_append]

theorem Moment.paced (hm : Moment S system served) (h : Coherent S start system)
    (hmax : S.maxMessageSize < 2 ^ 32) (hfault : system.process.fault = none) :
    Paced (traceAt system served) := by
  obtain ⟨⟨rest, hrest⟩, q, hhealthy, hgrown, hafter, hdelivered⟩ := hm.bounds h
  refine (h.paced hfault).append_acts _ (fun id => ?_)
  rw [h.acts_eq, ← hrest, List.drop_left, ← List.map_append, hrest, h.invocations_eq]
  have hpaired : Paired S.maxMessageSize q id (system.clients id) := by
    obtain hdelivered | rfl := hdelivered id
    · exact (h.paired hfault id).server hdelivered (hgrown.sent id) (hgrown.responses id)
    · exact h.paired hfault id
  refine List.IsPrefix.trans ?_ (hpaired.requests_initial hmax (hhealthy.working.exchanging id))
  rw [← Coherent.map_input_actsOf]
  exact ((hafter.map _).filter _).map _

end Moments

def commandsOf (trace : List (Point (ℕ × ℕ) Bytes Bytes)) : List Command :=
  (acts trace).map (fun a => parseCommand a.input)

/-- A run of the map that the clients of the first `n` lives may have seen. -/
structure Explains (limit n : ℕ) (trace : List (Point (ℕ × ℕ) Bytes Bytes))
    (history : List (Mark (ℕ × ℕ) Bytes Bytes)) : Prop where
  seen_eq : seen trace = history
  paced : Paced trace
  legal : (acts trace).map Act.output = plainResponses [] (commandsOf trace)
  sized : ∀ a ∈ acts trace, a.input.length ≤ limit
  past : ∀ life id, n ≤ life → invocations history (life, id) = []

/-- What the files show is what the commands have left. -/
def Recorded (hc : HeaderConstants) (l : Layout) (limit n : ℕ) (d : Disk)
    (history : List (Mark (ℕ × ℕ) Bytes Bytes)) : Prop :=
  ∃ trace ms rs tail f, Explains limit n trace history ∧ Remains hc l d ms rs tail f ∧
    ∀ key, live (f key) = lastWrite (commandsOf trace) key

theorem start_mapSpecification (key : Bytes) : mapSpecification.start key = lastWrite [] key := rfl

theorem legal_outputs {trace : List (Point (ℕ × ℕ) Bytes Bytes)}
    (h : (acts trace).map Act.output = plainResponses [] (commandsOf trace)) :
    (acts trace).map Act.output =
      mapSpecification.outputs mapSpecification.start ((acts trace).map Act.input) := by
  rw [h, outputs_mapSpecification _ start_mapSpecification, List.map_map]
  rfl

theorem stateAfter_mapSpecification (messages : List Bytes) {m : Bytes → Option Bytes}
    {earlier : List Command} (h : ∀ key, m key = lastWrite earlier key) (key : Bytes) :
    mapSpecification.stateAfter m messages key =
      lastWrite (earlier ++ messages.map parseCommand) key := by
  induction messages generalizing m earlier with
  | nil =>
    rw [List.map_nil, List.append_nil]
    exact h key
  | cons message messages ih =>
    obtain ⟨-, hmap⟩ := mapSpecification_step h message
    have hrest := ih hmap
    rw [List.append_assoc] at hrest
    exact hrest

theorem length_plainResponses_le {limit n : ℕ} (hlimit : 21 ≤ limit)
    {trace : List (Point (ℕ × ℕ) Bytes Bytes)} {history : List (Mark (ℕ × ℕ) Bytes Bytes)}
    (h : Explains limit n trace history) {messages : List Bytes}
    (hmessages : ∀ message ∈ messages, message.length ≤ limit) :
    ∀ response ∈ plainResponses (commandsOf trace) (messages.map parseCommand),
      response.length ≤ limit := by
  intro response hmem
  have hall := length_outputs_le hlimit ((acts trace).map Act.input ++ messages)
    (m := mapSpecification.start) (fun key value hvalue => by cases hvalue)
    (List.forall_mem_append.mpr ⟨List.forall_mem_map.mpr h.sized, hmessages⟩)
  rw [outputs_mapSpecification _ start_mapSpecification, List.map_append,
    plainResponses_append, List.nil_append, List.map_map] at hall
  exact hall response (List.mem_append_right _ hmem)

section History

variable {limit n : ℕ} {trace : List (Point (ℕ × ℕ) Bytes Bytes)}
  {history : List (Mark (ℕ × ℕ) Bytes Bytes)} {t : List (Point ℕ Bytes Bytes)}

theorem invocations_named {n life id : ℕ} (hne : n ≠ life) (t : List (Point ℕ Bytes Bytes)) :
    invocations ((seen t).map (Mark.rename (Prod.mk n))) (life, id) = [] :=
  (renamed_silent (fun _ heq => hne (Prod.mk.inj heq).1) t).1

theorem Explains.life (h : Explains limit n trace history) (hpaced : Paced t)
    (hlegal : (acts t).map Act.output =
      plainResponses (commandsOf trace) (((acts t).map Act.input).map parseCommand))
    (hsized : ∀ a ∈ acts t, a.input.length ≤ limit) :
    Explains limit (n + 1) (trace ++ t.map (Point.rename (Prod.mk n)))
        (history ++ (seen t).map (Mark.rename (Prod.mk n))) ∧
      commandsOf (trace ++ t.map (Point.rename (Prod.mk n))) =
        commandsOf trace ++ ((acts t).map Act.input).map parseCommand := by
  have hinjective : (Prod.mk n : ℕ → ℕ × ℕ).Injective := fun _ _ heq => (Prod.mk.inj heq).2
  have hcommands : commandsOf (trace ++ t.map (Point.rename (Prod.mk n))) =
      commandsOf trace ++ ((acts t).map Act.input).map parseCommand := by
    rw [commandsOf, acts_append, acts_rename, List.map_append, List.map_map, List.map_map]
    rfl
  refine ⟨⟨?_, ?_, ?_, ?_, ?_⟩, hcommands⟩
  · rw [seen_append, seen_rename, h.seen_eq]
  · refine h.paced.append (hpaced.rename hinjective) (fun client => ?_)
    obtain ⟨life, id⟩ := client
    rw [h.seen_eq, seen_rename]
    by_cases hlife : n = life
    · exact Or.inl (h.past life id hlife.le)
    · exact Or.inr (invocations_named hlife t)
  · rw [hcommands, plainResponses_append, List.nil_append, ← h.legal, ← hlegal, acts_append,
      acts_rename, List.map_append, List.map_map]
    rfl
  · rw [acts_append, acts_rename, List.forall_mem_append, List.forall_mem_map]
    exact ⟨h.sized, hsized⟩
  · intro life id hlife
    rw [invocations_append, h.past life id (by omega), invocations_named (by omega), List.nil_append]

variable {hc : HeaderConstants} {l : Layout} {d' : Disk} {start : Database × World}
  {system : System (Database × World)} {served : List Exchange} {ms : List Entries}
  {rs : List WalRecord} {tail : Bytes} {f : Bytes → Option MemTableEntry}

/-- A life that ends at a moment at which the files show what has been served. -/
theorem Explains.recorded (h : Explains limit n trace history) (hmax : limit < 2 ^ 32)
    (hcoherent : Coherent (databaseService hc limit) start system)
    (hfault : system.process.fault = none) (hm : Moment (databaseService hc limit) system served)
    (hlegal : served.map Exchange.response =
      plainResponses (commandsOf trace) ((served.map Exchange.request).map parseCommand))
    (hremains : Remains hc l d' ms rs tail f)
    (hlive : ∀ key, live (f key) =
      lastWrite (commandsOf trace ++ (served.map Exchange.request).map parseCommand) key) :
    Recorded hc l limit (n + 1) d' (history ++ (seen system.trace).map (Mark.rename (Prod.mk n))) := by
  have hacts := hm.acts_traceAt hcoherent
  have hinputs : (acts (traceAt system served)).map Act.input = served.map Exchange.request := by
    rw [hacts, List.map_map]
    rfl
  have houtputs : (acts (traceAt system served)).map Act.output = served.map Exchange.response := by
    rw [hacts, List.map_map]
    rfl
  obtain ⟨hexplains, hcommands⟩ := h.life (hm.paced hcoherent hmax hfault)
    (by rw [houtputs, hinputs]; exact hlegal)
    (by rw [hacts, List.forall_mem_map]; exact (hm.responses hcoherent).2)
  rw [seen_traceAt] at hexplains
  rw [hinputs] at hcommands
  refine ⟨_, ms, rs, tail, f, hexplains, hremains, fun key => ?_⟩
  rw [hcommands]
  exact hlive key

end History

section Recorded

variable {hc : HeaderConstants} {l : Layout} {limit n : ℕ} {d d₁ d' : Disk} {db : Database}
  {history : List (Mark (ℕ × ℕ) Bytes Bytes)} {system : System (Database × World)}
  {served : List Exchange}

theorem recorded_fresh (hd : Fresh l d) : Recorded hc l limit 0 d [] := by
  refine ⟨[], [], [], [], fun _ => none, ⟨rfl, paced_nil, rfl, ?_, fun _ _ _ => rfl⟩,
    remains_of_recoverable (recoverable_fresh hc hd), fun _ => rfl⟩
  intro a ha
  cases ha

theorem Recorded.stillborn (h : Recorded hc l limit n d history) {plan : List Outcome}
    (hdied : initializeDatabase hc l.walFilename .sync ⟨d, plan⟩ = .died d') :
    Recorded hc l limit n d' history := by
  obtain ⟨trace, ms, rs, tail, f, hexplains, hremains, hlive⟩ := h
  have hsame := (initializeDatabase_dies hc .sync hremains.survives).of_died hdied
  exact ⟨trace, ms, rs, tail, f, hexplains, hremains.untouched hsame, hlive⟩

theorem Recorded.life (hplain : l.Plain) (hlimit : 21 ≤ limit ∧ limit < 2 ^ 32)
    (h : Recorded hc l limit n d history) (hwhole : Whole hc l d)
    (hlife : Life hc l limit d db d₁ system)
    (hdeath : Death hc limit (db, ⟨d₁, []⟩) system served d')
    (hacc : staysAcceptable hc db d₁ (served.map Exchange.request) = true) :
    Recorded hc l limit (n + 1) d' (history ++ (seen system.trace).map (Mark.rename (Prod.mk n))) := by
  obtain ⟨trace, ms, rs, tail, f, hexplains, hremains, hlive⟩ := h
  obtain ⟨db₀, d₀, hinit, hcons, hview⟩ := (hremains.recoverable hwhole).start
  obtain ⟨hdb, rfl⟩ := hlife.opened.unique hinit
  obtain rfl := Except.ok.inj hdb
  have htruthful : Truthful hc l d₁ db (commandsOf trace) :=
    ⟨ms, rs, hcons, fun key => by rw [hview, hlive]⟩
  obtain ⟨setup, registrations, hstart, hreached⟩ := hlife.serving
  have hcoherent : Coherent (databaseService hc limit) (db, ⟨d₁, []⟩) system :=
    Coherent.reached hlimit.2 (Service.coherent_start hstart) hreached
  have hserial := hcoherent.healthy.working.serial
  -- what has been served before the last event fits into frames
  have hfault : system.process.served <+: served → system.process.fault = none := by
    rintro ⟨rest, rfl⟩
    rw [List.map_append] at hacc
    obtain ⟨-, -, -, hanswers, -⟩ := truthful_run limit hplain _ _ htruthful hacc
    have hall := length_plainResponses_le hlimit.1 hexplains (List.forall_mem_map.mpr hserial.sized)
    rw [← hanswers, ← hserial.responses, List.forall_mem_map] at hall
    exact hcoherent.healthy.accounted.fault_eq_none_iff.mpr hall
  cases hdeath with
  | idle hm =>
    rw [← List.append_nil (served.map Exchange.request)] at hacc
    obtain ⟨db', d₂, hstate, hanswers, ⟨ms', rs', hcons', hlive'⟩, -⟩ :=
      truthful_run limit hplain _ _ htruthful hacc
    rw [hstate]
    exact hexplains.recorded hlimit.2 hcoherent (hfault (hm.bounds hcoherent).1) hm
      ((hm.responses hcoherent).1.trans hanswers) (remains_of_recoverable hcons'.recoverable) hlive'
  | @serving served e db' d₂ _ plan hm hnext hstate hdied =>
    have hfault := hfault (hnext.bounds hcoherent).1
    have hall := hacc
    rw [← List.append_nil (List.map _ (served ++ [e]))] at hall
    obtain ⟨-, -, -, hanswersAll, -⟩ := truthful_run limit hplain _ _ htruthful hall
    rw [List.map_append, List.map_singleton] at hacc
    obtain ⟨db'', d₃, hstate', hanswers, ⟨ms', rs', hcons', hlive'⟩, hlast⟩ :=
      truthful_run limit hplain _ _ htruthful hacc
    rw [hstate] at hstate'
    obtain ⟨rfl, hworld⟩ := Prod.mk.inj hstate'
    obtain rfl := (World.mk.inj hworld).1
    rw [staysAcceptable, Bool.and_eq_true, decide_eq_true_eq] at hlast
    obtain ⟨ms₂, rs₂, tail₂, f₂, hremains₂, hf⟩ := execute_died hplain hcons' hlast.1 hdied
    obtain rfl | ⟨op, hop, rfl⟩ := hf
    · -- the command did not take place
      exact hexplains.recorded hlimit.2 hcoherent hfault hm
        ((hm.responses hcoherent).1.trans hanswers) hremains₂ hlive'
    · refine hexplains.recorded hlimit.2 hcoherent hfault hnext
        ((hnext.responses hcoherent).1.trans hanswersAll) hremains₂ (fun key => ?_)
      rw [List.map_append, List.map_append, List.map_singleton, List.map_singleton,
        ← List.append_assoc, lastWrite_append_write hop, ← hlive', viewAfter]
      split <;> rfl

theorem Lives.recorded (hplain : l.Plain) (hlimit : 21 ≤ limit ∧ limit < 2 ^ 32)
    (h : Lives hc l limit n d history) : Recorded hc l limit n d history := by
  induction h with
  | fresh hd => exact recorded_fresh hd
  | stillborn _ hdied ih => exact ih.stillborn hdied
  | life _ hwhole hlife hdeath hacc ih => exact ih.life hplain hlimit hwhole hlife hdeath hacc

end Recorded

namespace Storing
open RestartAnswers

def interruption : List Outcome := [.succeeds, .succeeds, .succeeds, .dies 3]

def halfFlushed : Disk :=
  match opened.execute fewBytes (parseCommand (text "put b yyy")) ⟨openedDisk, interruption⟩ with
  | .returned _ w => w.disk
  | .died d => d

theorem lives_halfFlushed : Lives fewBytes directory 64 1 halfFlushed
    [.invoke (0, 0) (text "put b yyy")] := by
  have hlife : Life fewBytes directory 64 ∅ opened openedDisk asking :=
    ⟨by decide +kernel, plainSetup, [], rfl, asking_reached⟩
  have hread : ∀ id, ((databaseService fewBytes 64).serverStep asking requestFrame).process.received
      id <+: (asking.clients id).transmitted := by
    intro id
    cases id with
    | zero => decide +kernel
    | succ n => exact List.nil_prefix
  have hdeath : Death fewBytes 64 (opened, ⟨openedDisk, []⟩) asking
      ([] ++ [⟨0, text "put b yyy", text "OK"⟩]) halfFlushed :=
    .serving interruption .between
      (.during requestFrame hread List.nil_prefix ⟨[], by decide +kernel⟩) rfl (by decide +kernel)
  exact .life (.fresh (d := ∅) ⟨rfl, rfl⟩) ⟨[], by simp, Or.inr ⟨rfl, rfl⟩⟩ hlife hdeath
    (by decide +kernel)

end Storing

/-- All that the clients of all lives have seen is a history of one map, and a start on what
the last death has left works and reads exactly the map that this history leaves. -/
theorem lives_linearizable (hc : HeaderConstants) (l : Layout) (hplain : l.Plain) (limit : ℕ)
    (hlimit : 21 ≤ limit ∧ limit < 2 ^ 32) (n : ℕ) (d : Disk)
    (history : List (Mark (ℕ × ℕ) Bytes Bytes)) (h : Lives hc l limit n d history) :
    ∃ m, LinearizableTo mapSpecification history m ∧
      ∃ db d', Succeeds (initializeDatabase hc l.walFilename .sync) d (.ok db) d' ∧
        ∀ key, Succeeds (db.execute hc ⟨.get, key, []⟩) d'
          ((m key).getD (text "NOT_FOUND"), db) d' := by
  obtain ⟨trace, ms, rs, tail, f, hexplains, hremains, hlive⟩ := h.recorded hplain hlimit
  refine ⟨_, hexplains.seen_eq ▸ hexplains.paced.linearizableTo (legal_outputs hexplains.legal), ?_⟩
  obtain ⟨db, d', hinit, hreads⟩ := hremains.opens
  refine ⟨db, d', hinit, fun key => ?_⟩
  have hread := hreads key
  rw [answer_eq_live, hlive] at hread
  rw [stateAfter_mapSpecification _ start_mapSpecification, List.nil_append, List.map_map]
  exact hread

theorem lives_linearizable_halfFlushed :
    ∃ m, LinearizableTo mapSpecification [.invoke (0, 0) (text "put b yyy")] m ∧
      ∃ db d', Succeeds (initializeDatabase RestartAnswers.fewBytes
          RestartAnswers.directory.walFilename .sync) Storing.halfFlushed (.ok db) d' ∧
        ∀ key, Succeeds (db.execute RestartAnswers.fewBytes ⟨.get, key, []⟩) d'
          ((m key).getD (text "NOT_FOUND"), db) d' :=
  lives_linearizable RestartAnswers.fewBytes RestartAnswers.directory (by decide +kernel) 64
    (by decide) 1 Storing.halfFlushed _ Storing.lives_halfFlushed

end ForgeDB
