import ForgeDB.Connections

/-!
# The command line client

The client reads a line, sends it as one frame and waits for one frame, again and again.
It is given by the results of its calls, one at a time: a turn of `run_cli`, of `send_all`
or of `receive_response`. What it was asked, what it printed and what went over its socket
is recorded beside the state.

The prompt and the other texts it prints are left out, and so is `connect_to_server`: the
client starts when it is connected.
-/

namespace ForgeDB
open StreamFraming Protocol

/-- Where the client stands: at the prompt, in `send_all` with the bytes not sent yet, in
`receive_response` with its buffer, or behind the loop. -/
inductive ClientState where
  | prompting
  | sending (rest : Bytes)
  | waiting (inputBuffer : Bytes)
  | finished
  deriving DecidableEq

structure Client where
  state : ClientState
  asked : List Bytes
  printed : List Bytes
  transmitted : Bytes
  obtained : Bytes
  deriving DecidableEq

/-- The next call of the client and its result. -/
inductive ClientCall where
  | getline (line : Option Bytes)
  | send (result : SendResult)
  | recv (result : RecvResult)
  deriving DecidableEq

namespace Client

def connected : Client := ⟨.prompting, [], [], [], []⟩

variable (maxMessageSize : ℕ)

/-- A turn of the loop of `run_cli`, up to `send_all`. -/
def runCliTurn (c : Client) : Option Bytes → Client
  | none => { c with state := .finished }
  | some command =>
    if command = [] then c
    else if command = text "EXIT" ∨ command = text "exit" then { c with state := .finished }
    else
      let frame := createFrame maxMessageSize command
      if frame = [] ∧ command ≠ [] then c
      else { c with state := .sending frame, asked := c.asked ++ [command] }

/-- A turn of the loop of `send_all`; behind it the client waits with an empty buffer. -/
def sendAllTurn (c : Client) (rest : Bytes) : SendResult → Client
  | .sent count =>
    let taken := rest.take count
    if taken = [] then { c with state := .finished }
    else
      { c with
        state := if rest.drop count = [] then .waiting [] else .sending (rest.drop count)
        transmitted := c.transmitted ++ taken }
  | .failed .interrupted => c
  | .failed _ => { c with state := .finished }

/-- A turn of the loop of `receive_response`. Bytes behind the frame go with the buffer. -/
def receiveResponseTurn (c : Client) (inputBuffer : Bytes) : RecvResult → Client
  | .received bytes =>
    if bytes = [] then { c with state := .finished }
    else
      let c := { c with obtained := c.obtained ++ bytes }
      match tryExtractFrame maxMessageSize (inputBuffer ++ bytes) with
      | (some response, _) => { c with state := .prompting, printed := c.printed ++ [response] }
      | (none, inputBuffer) => { c with state := .waiting inputBuffer }
  | .failed .interrupted => c
  | .failed _ => { c with state := .finished }

def step (c : Client) (call : ClientCall) : Client :=
  match c.state, call with
  | .prompting, .getline line => c.runCliTurn maxMessageSize line
  | .sending rest, .send result => c.sendAllTurn rest result
  | .waiting inputBuffer, .recv result => c.receiveResponseTurn maxMessageSize inputBuffer result
  | _, _ => c

/-- Every turn that does not leave the client as it is, or end it. -/
theorem step_cases (maxMessageSize : ℕ) (c : Client) (call : ClientCall) :
    c.step maxMessageSize call = c ∨
    c.step maxMessageSize call = { c with state := .finished } ∨
    (∃ command, c.state = .prompting ∧ command.length ≤ maxMessageSize ∧
      c.step maxMessageSize call =
        { c with state := .sending (createFrame maxMessageSize command)
                 asked := c.asked ++ [command] }) ∨
    (∃ rest count, c.state = .sending rest ∧ rest.take count ≠ [] ∧
      c.step maxMessageSize call =
        { c with state := if rest.drop count = [] then .waiting [] else .sending (rest.drop count)
                 transmitted := c.transmitted ++ rest.take count }) ∨
    ∃ inputBuffer bytes, c.state = .waiting inputBuffer ∧ bytes ≠ [] ∧
      call = .recv (.received bytes) := by
  obtain ⟨state, asked, printed, transmitted, obtained⟩ := c
  cases state with
  | prompting =>
    cases call with
    | getline line =>
      cases line with
      | none => exact Or.inr (Or.inl rfl)
      | some command =>
        simp only [step, runCliTurn]
        split
        · exact Or.inl rfl
        · split
          · exact Or.inr (Or.inl rfl)
          · split
            · exact Or.inl rfl
            · next hnonempty _ hframe =>
              have hsize : command.length ≤ maxMessageSize :=
                createFrame_ne_nil_iff.mp (fun hnil => hframe ⟨hnil, hnonempty⟩)
              exact Or.inr (Or.inr (Or.inl ⟨command, trivial, hsize, rfl⟩))
    | send result => exact Or.inl rfl
    | recv result => exact Or.inl rfl
  | sending rest =>
    cases call with
    | getline line => exact Or.inl rfl
    | send result =>
      cases result with
      | sent count =>
        simp only [step, sendAllTurn]
        split
        · exact Or.inr (Or.inl rfl)
        · next htaken => exact Or.inr (Or.inr (Or.inr (Or.inl ⟨rest, count, rfl, htaken, rfl⟩)))
      | failed errno =>
        cases errno with
        | again => exact Or.inr (Or.inl rfl)
        | interrupted => exact Or.inl rfl
        | other => exact Or.inr (Or.inl rfl)
    | recv result => exact Or.inl rfl
  | waiting inputBuffer =>
    cases call with
    | getline line => exact Or.inl rfl
    | send result => exact Or.inl rfl
    | recv result =>
      cases result with
      | received bytes =>
        by_cases hbytes : bytes = []
        · simp only [step, receiveResponseTurn, if_pos hbytes]
          exact Or.inr (Or.inl trivial)
        · exact Or.inr (Or.inr (Or.inr (Or.inr ⟨inputBuffer, bytes, rfl, hbytes, rfl⟩)))
      | failed errno =>
        cases errno with
        | again => exact Or.inr (Or.inl rfl)
        | interrupted => exact Or.inl rfl
        | other => exact Or.inr (Or.inl rfl)
  | finished =>
    cases call with
    | getline line => exact Or.inl rfl
    | send result => exact Or.inl rfl
    | recv result => exact Or.inl rfl

end Client
end ForgeDB
