import ForgeDB.RequestOrder

/-!
# How the stream is split

What a connection hands to its handler can depend on the pieces in which the bytes
arrive in two ways. A length above the limit empties the buffer, whatever else it holds
by then, and the bytes that arrive later are read as new frames. And the end of the
stream closes the connection at once, with the requests of the same event unread.
-/

namespace ForgeDB
open StreamFraming Protocol LittleEndian

namespace RecvResult

/-- The stream ends before the socket fails or has nothing more. -/
def Ends : List RecvResult → Prop
  | [] => False
  | .received bs :: results => bs = [] ∨ Ends results
  | .failed .again :: _ => False
  | .failed .interrupted :: results => Ends results
  | .failed .other :: _ => False

end RecvResult

namespace Service

variable {σ : Type} {S : Service σ} {c : Connection σ}

theorem receive_of_ends (results : List RecvResult) (h : RecvResult.Ends results)
    (c : Connection σ) :
    S.receive results c =
      Connection.close { c with inputBuffer := c.inputBuffer ++ RecvResult.bytes results } := by
  induction results generalizing c with
  | nil => exact h.elim
  | cons result results ih =>
    cases result with
    | received bs =>
      rw [receive, RecvResult.bytes]
      by_cases hempty : bs = []
      · rw [if_pos hempty, if_pos hempty, List.append_nil]
      · rw [if_neg hempty, if_neg hempty, ih (h.resolve_left hempty), List.append_assoc]
    | failed errno =>
      cases errno with
      | again => exact h.elim
      | interrupted =>
        rw [receive, ih h]
        rfl
      | other => exact h.elim

theorem run_of_closed (events : List Event) (hclosed : c.state = .closed) :
    (S.run c events).state = .closed ∧ (S.run c events).handed = c.handed := by
  induction events generalizing c with
  | nil => exact ⟨hclosed, rfl⟩
  | cons event events ih =>
    have hstep : (S.step c event).state = .closed ∧ (S.step c event).handed = c.handed := by
      cases event with
      | readable results =>
        rw [step, handleReadable, if_pos hclosed, ite_self]
        exact ⟨hclosed, rfl⟩
      | writable results =>
        rw [step, handleWritable, if_pos hclosed, ite_self]
        exact ⟨hclosed, rfl⟩
      | error => exact ⟨hclosed, rfl⟩
    obtain ⟨hstate, hhanded⟩ := ih hstep.1
    exact ⟨hstate, hhanded.trans hstep.2⟩

/-- The event is readable, and the socket neither ends nor fails in it. -/
def CalmRead (event : Event) : Prop :=
  ∃ results, event = .readable results ∧ RecvResult.Calm results

theorem iterate_addWrite_readCallback (n : ℕ) (loop : EventLoop) :
    (EventLoop.addWrite^[n] loop).readCallback = loop.readCallback := by
  induction n with
  | zero => rfl
  | succ n ih => rw [Function.iterate_succ_apply', EventLoop.addWrite_readCallback, ih]

/-- What is handed on is what the framer finds in the pieces, up to the first response
that is too large. -/
theorem run_of_calmRead (events : List Event) (hevents : ∀ event ∈ events, CalmRead event)
    (hopen : c.state ≠ .closed) (hreads : c.eventLoop.readCallback = true) :
    (S.run c events).handed = c.handed ++ S.served c.handlerState
        ((framer S.maxMessageSize).absorb c.inputBuffer (events.map Event.bytes)).1 ∧
      ((S.run c events).state = .closed ∨ (S.run c events).eventLoop.readCallback = true) := by
  induction events generalizing c with
  | nil => exact ⟨(List.append_nil _).symm, Or.inr hreads⟩
  | cons event events ih =>
    obtain ⟨results, rfl, hcalm⟩ := hevents event List.mem_cons_self
    have hstep : S.step c (.readable results) =
        S.processMessages { c with inputBuffer := c.inputBuffer ++ RecvResult.bytes results } := by
      rw [step, if_pos hreads, handleReadable, if_neg hopen, receive_of_calm results hcalm]
    change (S.run (S.step c (.readable results)) events).handed = _ ∧
      ((S.run (S.step c (.readable results)) events).state = .closed ∨
        (S.run (S.step c (.readable results)) events).eventLoop.readCallback = true)
    rw [hstep, List.map_cons, Framer.absorb, Event.bytes]
    generalize RecvResult.bytes results = bs
    by_cases hfits : S.Fits c.handlerState ((framer S.maxMessageSize).pull (c.inputBuffer ++ bs)).1
    · rw [processMessages_of_fits (c := { c with inputBuffer := c.inputBuffer ++ bs }) hopen hfits,
        served_append_of_fits hfits]
      have hopen' : (S.caughtUp { c with inputBuffer := c.inputBuffer ++ bs }).state ≠ .closed := by
        simp only [caughtUp]
        split
        · exact hopen
        · simp
      have hreads' : (S.caughtUp { c with inputBuffer := c.inputBuffer ++ bs }).eventLoop.readCallback =
          true := by
        simp only [caughtUp, iterate_addWrite_readCallback, hreads]
      obtain ⟨hhanded, hstate⟩ :=
        ih (fun e he => hevents e (List.mem_cons_of_mem _ he)) hopen' hreads'
      refine ⟨?_, hstate⟩
      rw [hhanded]
      simp only [caughtUp, List.append_assoc]
    · obtain ⟨hclosed, hhanded⟩ :=
        processMessages_of_not_fits (c := { c with inputBuffer := c.inputBuffer ++ bs }) hopen hfits
      obtain ⟨hstate, hkeep⟩ := run_of_closed (S := S) events hclosed
      rw [hkeep, hhanded, served_append_of_not_fits hfits]
      exact ⟨rfl, Or.inl hstate⟩

/-- The bytes `s` in readable events of a socket that neither ends nor fails. -/
structure Delivers (s : Bytes) (events : List Event) : Prop where
  reads : ∀ event ∈ events, CalmRead event
  bytes_eq : receivedBytes events = s

variable (S)

/-- The frames in front of the stream are followed by a length above the limit, their
responses leave the connection open, and somewhere behind that length a complete frame of
admitted length stands. -/
def Ambiguous (start : σ) (s : Bytes) : Prop :=
  ∃ payloads rest, s = framed S.maxMessageSize payloads ++ rest ∧
    (∀ payload ∈ payloads, payload.length ≤ S.maxMessageSize) ∧ S.Fits start payloads ∧
    4 ≤ rest.length ∧ S.maxMessageSize < value (rest.take 4) ∧
    ∃ n ≥ 4, (tryExtractFrame S.maxMessageSize (rest.drop n)).1.isSome = true

variable {S} {start : σ} {loop : EventLoop} {s : Bytes}

theorem ready_iff_extract :
    (framer S.maxMessageSize).Ready s ↔ (tryExtractFrame S.maxMessageSize s).1.isSome = true := by
  rw [tryExtractFrame_eq]
  constructor
  · rintro ⟨payload, rest, hlook⟩
    rw [hlook]
    rfl
  · cases hlook : (framer S.maxMessageSize).look s with
    | framed payload rest => exact fun _ => ⟨payload, rest, hlook⟩
    | incomplete => simp
    | refused => simp

theorem run_start (hreads : loop.addRead.readCallback = true) {events : List Event}
    (h : Delivers s events) :
    (S.run (Connection.start start loop) events).handed =
      S.served start ((framer S.maxMessageSize).absorb [] (events.map Event.bytes)).1 := by
  have hopen : (Connection.start start loop).state ≠ .closed := by simp [Connection.start]
  exact (run_of_calmRead events h.reads hopen hreads).1

/-- On a stream that is not ambiguous nothing can be cut off behind the length that is refused. -/
theorem not_ready_of_not_ambiguous (hmax : S.maxMessageSize < 2 ^ 32)
    (hclear : ¬ S.Ambiguous start s) (hfits : S.Fits start ((framer S.maxMessageSize).pull s).1)
    {t u v : Bytes} (hsplit : s = t ++ u)
    (hstop : (framer S.maxMessageSize).look ((framer S.maxMessageSize).pull t).2 = .refused)
    (hv : v <:+ u) : ¬ (framer S.maxMessageSize).Ready v := by
  intro hready
  obtain ⟨hlen, hover⟩ := verdict_eq_refused_iff.mp hstop
  obtain ⟨hall, hcut⟩ := framed_append_pull hmax t
  obtain ⟨front, rfl⟩ := hv
  apply hclear
  refine ⟨((framer S.maxMessageSize).pull t).1,
    ((framer S.maxMessageSize).pull t).2 ++ (front ++ v), ?_, hall, ?_, ?_, ?_,
    (((framer S.maxMessageSize).pull t).2 ++ front).length, ?_, ?_⟩
  · rw [← List.append_assoc, hcut, hsplit]
  · rw [hsplit, Framer.pull_append_of_refused hstop] at hfits
    exact hfits
  · rw [List.length_append]
    omega
  · rw [List.take_append_of_le_length hlen]
    exact hover
  · rw [List.length_append]
    omega
  · rw [← List.append_assoc, List.drop_left, ← ready_iff_extract]
    exact hready

/-- Off the ambiguous streams the handler gets the frames in front of the stream. -/
theorem run_of_not_ambiguous (hmax : S.maxMessageSize < 2 ^ 32)
    (hreads : loop.addRead.readCallback = true) (hclear : ¬ S.Ambiguous start s)
    {events : List Event} (h : Delivers s events) :
    (S.run (Connection.start start loop) events).handed =
      S.served start ((framer S.maxMessageSize).pull s).1 := by
  rw [run_start hreads h]
  have hflat : [] ++ (events.map Event.bytes).flatten = s := by
    rw [List.nil_append, ← List.flatMap_def]
    exact h.bytes_eq
  generalize events.map Event.bytes = pieces at hflat ⊢
  have hnil : ¬ (framer S.maxMessageSize).Ready [] := Framer.not_ready_nil
  by_cases hrefused : (framer S.maxMessageSize).look ((framer S.maxMessageSize).pull s).2 = .refused
  · by_cases hfits : S.Fits start ((framer S.maxMessageSize).pull s).1
    · have hsilent : ∀ t u, [] ++ pieces.flatten = t ++ u →
          (framer S.maxMessageSize).look ((framer S.maxMessageSize).pull t).2 = .refused →
          ∀ v, v <:+ u → ¬ (framer S.maxMessageSize).Ready v :=
        fun t u hsplit hstop v hv =>
          not_ready_of_not_ambiguous hmax hclear hfits (hflat.symm.trans hsplit) hstop hv
      have hpull := Framer.pull_append_absorb pieces []
        (by rw [Framer.pull_nil, (framer S.maxMessageSize).look_nil]; simp) hsilent
      rw [Framer.pull_nil, hflat, List.nil_append] at hpull
      rw [hpull]
    · obtain ⟨more, hmore⟩ := Framer.pull_prefix_absorb (F := framer S.maxMessageSize) pieces hnil
      rw [hflat] at hmore
      rw [← hmore, served_append_of_not_fits hfits]
  · rw [Framer.absorb_eq_pull pieces hnil (by rwa [hflat]), hflat]

def inPieces (pieces : List Bytes) : List Event := pieces.map (fun piece => .readable [.received piece])

theorem bytes_inPieces (pieces : List Bytes) (h : ∀ piece ∈ pieces, piece ≠ []) :
    (inPieces pieces).map Event.bytes = pieces := by
  induction pieces with
  | nil => rfl
  | cons piece pieces ih =>
    have hfirst := h piece List.mem_cons_self
    rw [inPieces, List.map_cons, List.map_cons, Event.bytes, RecvResult.bytes, if_neg hfirst,
      RecvResult.bytes, List.append_nil]
    exact congrArg _ (ih (fun p hp => h p (List.mem_cons_of_mem _ hp)))

theorem delivers_inPieces (pieces : List Bytes) (h : ∀ piece ∈ pieces, piece ≠ []) :
    Delivers pieces.flatten (inPieces pieces) := by
  constructor
  · intro event hevent
    obtain ⟨piece, hpiece, rfl⟩ := List.mem_map.mp hevent
    exact ⟨_, rfl, h piece hpiece, trivial⟩
  · rw [receivedBytes, List.flatMap_def, bytes_inPieces pieces h]

/-- On an ambiguous stream the pieces matter: all at once, or cut where the later frame
begins. -/
theorem exists_deliveries_of_ambiguous (hmax : S.maxMessageSize < 2 ^ 32)
    (h : S.Ambiguous start s) :
    ∃ events events', Delivers s events ∧ Delivers s events' ∧
      ∀ loop loop' : EventLoop, loop.addRead.readCallback = true →
        loop'.addRead.readCallback = true →
        (S.run (Connection.start start loop) events).handed ≠
          (S.run (Connection.start start loop') events').handed := by
  obtain ⟨payloads, rest, rfl, hpayloads, hfits, hlen, hover, n, hn, hextract⟩ := h
  obtain ⟨payload, after, hlook⟩ := ready_iff_extract.mpr hextract
  have hrest : (framer S.maxMessageSize).look rest = .refused :=
    verdict_eq_refused_iff.mpr ⟨hlen, hover⟩
  have hcut : (framer S.maxMessageSize).look (rest.take n) = .refused := by
    refine verdict_eq_refused_iff.mpr ⟨?_, ?_⟩
    · rw [List.length_take]
      omega
    · rw [List.take_take, Nat.min_eq_left hn]
      exact hover
  have hnonempty : ∀ {t}, (framer S.maxMessageSize).look t = .refused →
      framed S.maxMessageSize payloads ++ t ≠ [] := by
    intro t ht hnil
    rw [(List.append_eq_nil_iff.mp hnil).2, (framer S.maxMessageSize).look_nil] at ht
    cases ht
  have hpull : ∀ {t}, (framer S.maxMessageSize).look t = .refused →
      (framer S.maxMessageSize).pull (framed S.maxMessageSize payloads ++ t) = (payloads, t) := by
    intro t ht
    rw [pull_framed_append hmax hpayloads, Framer.pull_of_not_ready (Framer.not_ready_of_refused ht),
      List.append_nil]
  have hwhole : ∀ piece ∈ [framed S.maxMessageSize payloads ++ rest], piece ≠ [] := by
    rw [List.forall_mem_singleton]
    exact hnonempty hrest
  have htwo : ∀ piece ∈ [framed S.maxMessageSize payloads ++ rest.take n, rest.drop n],
      piece ≠ [] := by
    rw [List.forall_mem_cons, List.forall_mem_singleton]
    refine ⟨hnonempty hcut, ?_⟩
    intro hnil
    rw [hnil, (framer S.maxMessageSize).look_nil] at hlook
    cases hlook
  have hjoin : [framed S.maxMessageSize payloads ++ rest.take n, rest.drop n].flatten =
      framed S.maxMessageSize payloads ++ rest := by
    simp
  refine ⟨inPieces [framed S.maxMessageSize payloads ++ rest],
    inPieces [framed S.maxMessageSize payloads ++ rest.take n, rest.drop n], ?_,
    hjoin ▸ delivers_inPieces _ htwo, ?_⟩
  · simpa using delivers_inPieces _ hwhole
  · intro loop loop' hreads hreads'
    rw [run_start hreads (delivers_inPieces _ hwhole), run_start hreads' (delivers_inPieces _ htwo),
      bytes_inPieces _ hwhole, bytes_inPieces _ htwo]
    simp only [Framer.absorb, List.nil_append, hpull hrest, hpull hcut,
      Framer.settled_of_refused hcut, Framer.pull_of_framed hlook, List.append_nil]
    rw [served_append_of_fits hfits, served_of_fits hfits]
    intro hsame
    have hlength := congrArg List.length hsame
    rw [List.length_append, served] at hlength
    simp at hlength

/-- What is handed on is the same for all ways of splitting a stream exactly when the stream
is not ambiguous. -/
theorem split_independent_iff (S : Service σ) (hmax : S.maxMessageSize < 2 ^ 32) (start : σ)
    (loop loop' : EventLoop) (hreads : loop.addRead.readCallback = true)
    (hreads' : loop'.addRead.readCallback = true) (s : Bytes) :
    (∀ events events', Delivers s events → Delivers s events' →
      (S.run (Connection.start start loop) events).handed =
        (S.run (Connection.start start loop') events').handed) ↔ ¬ S.Ambiguous start s := by
  constructor
  · intro hsame hambiguous
    obtain ⟨events, events', hevents, hevents', hdiffer⟩ :=
      exists_deliveries_of_ambiguous hmax hambiguous
    exact hdiffer loop loop' hreads hreads' (hsame events events' hevents hevents')
  · intro hclear events events' hevents hevents'
    rw [run_of_not_ambiguous hmax hreads hclear hevents,
      run_of_not_ambiguous hmax hreads' hclear hevents']

theorem split_independent_iff_hi :
    (∀ events events', Delivers (framed 8 [text "hi"]) events → Delivers (framed 8 [text "hi"]) events' →
      ((constantService (text "OK")).run (Connection.start 0 ⟨false, false, []⟩) events).handed =
        ((constantService (text "OK")).run (Connection.start 0 ⟨false, false, []⟩) events').handed) ↔
      ¬ (constantService (text "OK")).Ambiguous 0 (framed 8 [text "hi"]) :=
  split_independent_iff (constantService (text "OK")) (by decide) 0 ⟨false, false, []⟩
    ⟨false, false, []⟩ rfl rfl (framed 8 [text "hi"])

/-- A length of nine with a limit of eight, and one small frame behind it. -/
def hiddenFrame : Bytes := [9, 0, 0, 0, 1, 0, 0, 0, 7]

/-- In one piece nothing is handed on; in two the small frame is. -/
theorem split_dependent_hiddenFrame :
    ∃ events events', Delivers hiddenFrame events ∧ Delivers hiddenFrame events' ∧
      ((constantService (text "OK")).run (Connection.start 0 ⟨false, false, []⟩) events).handed = [] ∧
      ((constantService (text "OK")).run (Connection.start 0 ⟨false, false, []⟩) events').handed =
        [[7]] := by
  refine ⟨inPieces [hiddenFrame], inPieces [[9, 0, 0, 0], [1, 0, 0, 0, 7]],
    delivers_inPieces [hiddenFrame] (by decide),
    delivers_inPieces [[9, 0, 0, 0], [1, 0, 0, 0, 7]] (by decide), ?_, ?_⟩
  · decide +kernel
  · decide +kernel

variable {payloads : List Bytes}

/-- Everything is handed on when no response but the last is too large. -/
theorem served_eq_self_iff : S.served start payloads = payloads ↔ S.Fits start payloads.dropLast := by
  induction payloads generalizing start with
  | nil => exact iff_of_true rfl fits_nil
  | cons payload payloads ih =>
    rw [served]
    cases payloads with
    | nil =>
      refine iff_of_true ?_ fits_nil
      split <;> rfl
    | cons next payloads =>
      rw [List.dropLast_cons_cons, fits_cons_iff, ← ih, List.cons_inj_right]
      by_cases hfirst : (S.messageHandler start payload).2.response.length ≤ S.maxMessageSize
      · rw [if_pos hfirst]
        exact (and_iff_right hfirst).symm
      · rw [if_neg hfirst]
        exact iff_of_false (by simp) (fun h => hfirst h.1)

/-- The event in which the stream ends closes the connection and hands nothing on. -/
theorem step_of_ends {results : List RecvResult} (h : RecvResult.Ends results)
    (hstate : c.state = .closed ∨ c.eventLoop.readCallback = true) :
    (S.step c (.readable results)).state = .closed ∧
      (S.step c (.readable results)).handed = c.handed := by
  by_cases hclosed : c.state = .closed
  · exact run_of_closed (S := S) [.readable results] hclosed
  · rw [step, if_pos (hstate.resolve_left hclosed), handleReadable, if_neg hclosed,
      receive_of_ends results h]
    refine ⟨close_state _, ?_⟩
    rw [Connection.close]
    split <;> rfl

/-- The event in which the stream ends, and what comes after it, add nothing to what is handed on. -/
theorem handed_of_ends (hmax : S.maxMessageSize < 2 ^ 32) {loop : EventLoop}
    (hreads : loop.addRead.readCallback = true) {payloads : List Bytes}
    (hpayloads : ∀ payload ∈ payloads, payload.length ≤ S.maxMessageSize)
    {before : List Event} (hbefore : ∀ event ∈ before, CalmRead event)
    {last : List RecvResult} (hlast : RecvResult.Ends last) (later : List Event)
    (harrived : receivedBytes before <+: framed S.maxMessageSize payloads) :
    (S.run (Connection.start start loop) (before ++ .readable last :: later)).handed =
      S.served start (completeWithin S.maxMessageSize (receivedBytes before).length payloads) := by
  obtain ⟨hfound, hstand⟩ := pull_arrived hmax hpayloads harrived
  have hopen : (Connection.start start loop).state ≠ .closed := by simp [Connection.start]
  obtain ⟨hhanded, hstate⟩ := run_of_calmRead (S := S) before hbefore hopen hreads
  obtain ⟨hclosed, hkeep⟩ := step_of_ends (S := S) hlast hstate
  obtain ⟨-, hafter⟩ := run_of_closed (S := S) later hclosed
  have hflat : [] ++ (before.map Event.bytes).flatten = receivedBytes before := by
    rw [List.nil_append, ← List.flatMap_def]
    rfl
  have hfind := Framer.absorb_eq_pull (F := framer S.maxMessageSize) (before.map Event.bytes)
    Framer.not_ready_nil (by rw [hflat, hstand]; simp)
  rw [hflat] at hfind
  rw [run, List.foldl_append, List.foldl_cons]
  refine hafter.trans (hkeep.trans (hhanded.trans ?_))
  change [] ++ S.served start ((framer S.maxMessageSize).absorb [] _).1 = _
  rw [hfind, hfound, List.nil_append]

/-- The complete requests received up to the end of the stream are all handed on exactly
when the event in which it ends completes none of them and no response but the last is too
large to frame. -/
theorem requests_before_end_handed_iff (S : Service σ) (hmax : S.maxMessageSize < 2 ^ 32) (start : σ)
    (loop : EventLoop) (hreads : loop.addRead.readCallback = true) (payloads : List Bytes)
    (hpayloads : ∀ payload ∈ payloads, payload.length ≤ S.maxMessageSize)
    (before : List Event) (hbefore : ∀ event ∈ before, CalmRead event)
    (last : List RecvResult) (hlast : RecvResult.Ends last) (later : List Event)
    (hreceived : receivedBytes before ++ RecvResult.bytes last <+: framed S.maxMessageSize payloads) :
    (S.run (Connection.start start loop) (before ++ .readable last :: later)).handed =
        completeWithin S.maxMessageSize (receivedBytes before ++ RecvResult.bytes last).length payloads ↔
      completeWithin S.maxMessageSize (receivedBytes before).length payloads =
        completeWithin S.maxMessageSize (receivedBytes before ++ RecvResult.bytes last).length
          payloads ∧
      ∀ response ∈ S.answers start (completeWithin S.maxMessageSize
        (receivedBytes before ++ RecvResult.bytes last).length payloads).dropLast,
        response.length ≤ S.maxMessageSize := by
  have harrived := (List.prefix_append _ _).trans hreceived
  obtain ⟨hfound, -⟩ := pull_arrived hmax hpayloads harrived
  obtain ⟨hall, -⟩ := pull_arrived hmax hpayloads hreceived
  have hgrow := Framer.pull_append (F := framer S.maxMessageSize) (receivedBytes before)
    (RecvResult.bytes last)
  have hprefix : completeWithin S.maxMessageSize (receivedBytes before).length payloads <+:
      completeWithin S.maxMessageSize (receivedBytes before ++ RecvResult.bytes last).length
        payloads := by
    rw [← hfound, ← hall, hgrow]
    exact List.prefix_append _ _
  rw [handed_of_ends hmax hreads hpayloads hbefore hlast later harrived]
  generalize completeWithin S.maxMessageSize (receivedBytes before).length payloads = found at *
  generalize completeWithin S.maxMessageSize (receivedBytes before ++ RecvResult.bytes last).length
    payloads = all at *
  constructor
  · intro hserved
    have hsame : found = all := by
      apply hprefix.eq_of_length_le
      rw [← hserved]
      exact served_initial.length_le
    rw [← hsame] at hserved ⊢
    exact ⟨rfl, served_eq_self_iff.mp hserved⟩
  · rintro ⟨rfl, hfits⟩
    exact served_eq_self_iff.mpr hfits

theorem requests_before_end_handed_iff_hi :
    ((constantService (text "OK")).run (Connection.start 0 ⟨false, false, []⟩)
        ([.readable [.received (framed 8 [text "hi"])]] ++ .readable [.received []] :: [])).handed =
        completeWithin 8 (receivedBytes [.readable [.received (framed 8 [text "hi"])]] ++
          RecvResult.bytes [.received []]).length [text "hi"] ↔
      completeWithin 8 (receivedBytes [.readable [.received (framed 8 [text "hi"])]]).length
          [text "hi"] =
        completeWithin 8 (receivedBytes [.readable [.received (framed 8 [text "hi"])]] ++
          RecvResult.bytes [.received []]).length [text "hi"] ∧
      ∀ response ∈ (constantService (text "OK")).answers 0 (completeWithin 8
        (receivedBytes [.readable [.received (framed 8 [text "hi"])]] ++
          RecvResult.bytes [.received []]).length [text "hi"]).dropLast, response.length ≤ 8 :=
  requests_before_end_handed_iff (constantService (text "OK")) (by decide) 0 ⟨false, false, []⟩ rfl
    [text "hi"] (by decide) [.readable [.received (framed 8 [text "hi"])]]
    (fun event hevent => ⟨_, List.mem_singleton.mp hevent, by decide, trivial⟩)
    [.received []] (Or.inl rfl) [] (by decide)

/-- A request and the end of the stream in one readable event: the request is never handed
on. -/
theorem request_lost_at_end :
    ((constantService (text "OK")).run (Connection.start 0 ⟨false, false, []⟩)
      [.readable [.received (framed 8 [text "hi"]), .received []]]).handed = [] ∧
    completeWithin 8 (RecvResult.bytes [.received (framed 8 [text "hi"]), .received []]).length
      [text "hi"] = [text "hi"] := by
  decide +kernel

end Service
end ForgeDB
