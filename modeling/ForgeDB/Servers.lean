import Mathlib.Data.Finset.Lattice.Fold
import Mathlib.Data.List.AList
import Mathlib.Order.Lattice.Nat
import ForgeDB.Connections

/-!
# The server process

All connections live in one process: the server owns them in a table by descriptor, the
event loop holds callbacks that point back to them, and one message handler, with one
state, serves them all. A connection that closes takes itself out of the event loop and
out of the table, which destroys it. Reading a destroyed connection or closing a
descriptor that is not open is recorded as a fault, and nothing is said about what the
process does after one.

The system is given by the results of its calls. A new descriptor is any that is not open.
The flag `running_` is left out: it is cleared in the destructor of the server only, after
the loop has ended.
-/

namespace ForgeDB
open StreamFraming Protocol

/-- Whose method a read callback calls. -/
inductive Target where
  | server
  | connection (id : ℕ)
  deriving DecidableEq

/-- A `Connection` in memory. Its descriptor is `-1` once it is closed. -/
structure ConnectionObject where
  fd : ℤ
  state : ConnectionState
  inputBuffer : Bytes
  outputBuffer : Bytes
  outputOffset : ℕ
  deriving DecidableEq

inductive Misuse where
  | destroyed (id : ℕ)
  | notOpen (fd : ℤ)
  deriving DecidableEq

/-- One request the message handler was given, and its response. -/
structure Exchange where
  connection : ℕ
  request : Bytes
  response : Bytes
  deriving DecidableEq

/-- Objects are numbered as they are created. What was served, received and sent is
recorded beside the state. -/
structure Process (σ : Type) where
  serverFd : ℤ
  connections : AList (fun _ : ℤ => ℕ)
  objects : ℕ → Option ConnectionObject
  created : ℕ
  readCallbacks : ℤ → Option Target
  writeCallbacks : ℤ → Option ℕ
  registrations : List Bool
  descriptors : Finset ℤ
  handlerState : σ
  fault : Option Misuse
  served : List Exchange
  received : ℕ → Bytes
  sent : ℕ → Bytes

/-- One call of `accept`, with whether the descriptor could be made non-blocking. -/
inductive AcceptResult where
  | accepted (descriptor : ℕ) (nonBlocking : Bool)
  | failed (errno : Errno)
  deriving DecidableEq

/-- What `kevent` reports of one descriptor, with what the calls made then return. -/
inductive KernelEvent where
  | read (fd : ℤ) (accepts : List AcceptResult) (results : List RecvResult)
  | write (fd : ℤ) (results : List SendResult)
  | error (fd : ℤ)
  deriving DecidableEq

/-- One call of `kevent` in the loop. -/
inductive Poll where
  | events (events : List KernelEvent)
  | failed (errno : Errno)
  deriving DecidableEq

/-- The events that some calls of `kevent` report. -/
def Poll.reported : List Poll → List KernelEvent
  | [] => []
  | .events batch :: polls => batch ++ reported polls
  | .failed _ :: polls => reported polls

/-- The calls that set up the listening socket: the descriptor, or what `strerror` says of
a call that failed. -/
structure Setup where
  socket : Except Bytes ℕ
  setsockopt : Option Bytes
  bind : Option Bytes
  listen : Option Bytes
  getFlags : Option Bytes
  setFlags : Option Bytes

namespace Process

variable {σ : Type}

/-- The process before the server is initialized. -/
def fresh (handlerState : σ) (registrations : List Bool) : Process σ where
  serverFd := -1
  connections := ∅
  objects := fun _ => none
  created := 0
  readCallbacks := fun _ => none
  writeCallbacks := fun _ => none
  registrations := registrations
  descriptors := ∅
  handlerState := handlerState
  fault := none
  served := []
  received := fun _ => []
  sent := fun _ => []

def fail (p : Process σ) (fault : Misuse) : Process σ := { p with fault := some fault }

def allocate (p : Process σ) (descriptor : ℕ) : ℤ :=
  if (descriptor : ℤ) ∈ p.descriptors then (p.descriptors.sup Int.toNat + 1 : ℕ) else descriptor

def closeDescriptor (p : Process σ) (fd : ℤ) : Process σ :=
  if fd ∈ p.descriptors then { p with descriptors := p.descriptors.erase fd }
  else p.fail (.notOpen fd)

def put (p : Process σ) (id : ℕ) (o : ConnectionObject) : Process σ :=
  { p with objects := Function.update p.objects id (some o) }

def registerEvent (p : Process σ) : Bool × Process σ :=
  (p.registrations.headD true, { p with registrations := p.registrations.tail })

def addRead (p : Process σ) (fd : ℤ) (callback : Target) : Bool × Process σ :=
  let result := { p with
    readCallbacks := Function.update p.readCallbacks fd (some callback) }.registerEvent
  if result.1 then result
  else (false, { result.2 with readCallbacks := Function.update result.2.readCallbacks fd none })

def addWrite (p : Process σ) (fd : ℤ) (id : ℕ) : Bool × Process σ :=
  let result := { p with
    writeCallbacks := Function.update p.writeCallbacks fd (some id) }.registerEvent
  if result.1 then result
  else (false, { result.2 with writeCallbacks := Function.update result.2.writeCallbacks fd none })

def removeRead (p : Process σ) (fd : ℤ) : Process σ :=
  ({ p with readCallbacks := Function.update p.readCallbacks fd none }.registerEvent).2

def removeWrite (p : Process σ) (fd : ℤ) : Process σ :=
  ({ p with writeCallbacks := Function.update p.writeCallbacks fd none }.registerEvent).2

def remove (p : Process σ) (fd : ℤ) : Process σ := (p.removeRead fd).removeWrite fd

/-- The destructor of a connection. -/
def destroy (p : Process σ) (id : ℕ) : Process σ :=
  match p.objects id with
  | none => p.fail (.destroyed id)
  | some o =>
    let p := if 0 ≤ o.fd then p.closeDescriptor o.fd else p
    { p with objects := Function.update p.objects id none }

def removeConnection (p : Process σ) (fd : ℤ) : Process σ :=
  match p.connections.lookup fd with
  | none => p
  | some id => { p with connections := p.connections.erase fd }.destroy id

/-- `Connection::close`, with the close handler the server passes. -/
def closeConnection (p : Process σ) (id : ℕ) : Process σ :=
  match p.objects id with
  | none => p.fail (.destroyed id)
  | some o =>
    if o.state = .closed then p
    else
      let p := (p.put id { o with state := .closed }).remove o.fd
      let p := if 0 ≤ o.fd then
          (p.closeDescriptor o.fd).put id { o with state := .closed, fd := -1 }
        else p
      p.removeConnection o.fd

def start (p : Process σ) (id : ℕ) : Process σ :=
  match p.objects id with
  | none => p.fail (.destroyed id)
  | some o => if o.state = .closed then p else (p.addRead o.fd (.connection id)).2

/-- A non-blocking client gets a connection; `emplace` drops it where the table has the
descriptor already. -/
def addConnection (p : Process σ) (fd : ℤ) : Process σ :=
  let id := p.created
  let p := { p.put id ⟨fd, .reading, [], [], 0⟩ with created := p.created + 1 }
  let p := if (p.connections.lookup fd).isSome then p.destroy id
    else { p with connections := p.connections.insert fd id }
  match p.connections.lookup fd with
  | none => p
  | some id => p.start id

/-- The loop of `handle_accept`; after the listed results nothing is pending. -/
def handleAccept : List AcceptResult → Process σ → Process σ
  | [], p => p
  | .accepted descriptor nonBlocking :: results, p =>
    let fd := p.allocate descriptor
    let p := { p with descriptors := insert fd p.descriptors }
    if nonBlocking then handleAccept results (p.addConnection fd)
    else handleAccept results (p.closeDescriptor fd)
  | .failed .again :: _, p => p
  | .failed .interrupted :: results, p => handleAccept results p
  | .failed .other :: _, p => p

/-- Gives up the listening socket after an error. -/
def abandon (p : Process σ) : Process σ := { p.closeDescriptor p.serverFd with serverFd := -1 }

def createListeningSocket (setup : Setup) (p : Process σ) : Option Bytes × Process σ :=
  match setup.socket with
  | .error what => (some (text "socket() failed: " ++ what), { p with serverFd := -1 })
  | .ok descriptor =>
    let fd := p.allocate descriptor
    let p := { p with serverFd := fd, descriptors := insert fd p.descriptors }
    match setup.setsockopt with
    | some what => (some (text "setsockopt() failed: " ++ what), p.abandon)
    | none =>
      match setup.bind with
      | some what => (some (text "bind() failed: " ++ what), p.abandon)
      | none =>
        match setup.listen with
        | some what => (some (text "listen() failed: " ++ what), p.abandon)
        | none => (none, p)

def setNonBlocking (setup : Setup) : Option Bytes :=
  match setup.getFlags with
  | some what => some (text "fcntl(F_GETFL) failed: " ++ what)
  | none =>
    match setup.setFlags with
    | some what => some (text "fcntl(F_SETFL) failed: " ++ what)
    | none => none

/-- The error, if there is one, and the process afterwards. -/
def initializeServer (setup : Setup) (p : Process σ) : Option Bytes × Process σ :=
  match createListeningSocket setup p with
  | (some error, p) => (some error, p)
  | (none, p) =>
    match setNonBlocking setup with
    | some error => (some error, p.abandon)
    | none =>
      match p.addRead p.serverFd .server with
      | (false, p) => (some (text "Failed to register listening socket with event loop"), p.abandon)
      | (true, p) => (none, p)

/-- `connections_.clear()`. -/
def clearConnections (p : Process σ) : Process σ :=
  { (p.connections.entries.map Sigma.snd).foldl destroy p with connections := ∅ }

def stop (p : Process σ) : Process σ :=
  let p := p.clearConnections
  if 0 ≤ p.serverFd then
    { (p.remove p.serverFd).closeDescriptor p.serverFd with serverFd := -1 }
  else p

end Process

namespace Service

variable {σ : Type} (S : Service σ)

def queueResponseOf (p : Process σ) (id : ℕ) (response : Bytes) : Process σ :=
  match p.objects id with
  | none => p.fail (.destroyed id)
  | some o =>
    if o.state = .closed then p
    else
      let framedResponse := createFrame S.maxMessageSize response
      if framedResponse = [] ∧ response ≠ [] then p.closeConnection id
      else
        let o := { o with outputBuffer := o.outputBuffer ++ framedResponse }
        ((p.put id o).addWrite o.fd id).2.put id { o with state := .writing }

/-- One request, from the handler to the output buffer. -/
def serveOf (p : Process σ) (id : ℕ) (payload : Bytes) : Process σ :=
  let (handlerState, result) := S.messageHandler p.handlerState payload
  S.queueResponseOf
    { p with handlerState := handlerState, served := p.served ++ [⟨id, payload, result.response⟩] }
    id result.response

/-- The loop of `process_messages`. Its test reads the connection again after every turn. -/
def processTurnsOf : ℕ → Process σ → ℕ → Process σ
  | 0, p, _ => p
  | turns + 1, p, id =>
    match p.objects id with
    | none => p.fail (.destroyed id)
    | some o =>
      if o.state = .closed then p
      else
        match tryExtractFrame S.maxMessageSize o.inputBuffer with
        | (none, inputBuffer) => p.put id { o with inputBuffer := inputBuffer }
        | (some payload, inputBuffer) =>
          processTurnsOf turns (S.serveOf (p.put id { o with inputBuffer := inputBuffer }) id payload)
            id

/-- Every turn but the last consumes bytes of the input buffer. -/
def processMessagesOf (p : Process σ) (id : ℕ) : Process σ :=
  match p.objects id with
  | none => p.fail (.destroyed id)
  | some o => S.processTurnsOf (o.inputBuffer.length + 1) p id

/-- The loop of `handle_readable`. -/
def receiveOf : List RecvResult → Process σ → ℕ → Process σ
  | [], p, id => S.processMessagesOf p id
  | .received bytes :: results, p, id =>
    match p.objects id with
    | none => p.fail (.destroyed id)
    | some o =>
      if bytes = [] then p.closeConnection id
      else receiveOf results
        { p.put id { o with inputBuffer := o.inputBuffer ++ bytes } with
          received := Function.update p.received id (p.received id ++ bytes) } id
  | .failed .again :: _, p, id => S.processMessagesOf p id
  | .failed .interrupted :: results, p, id => receiveOf results p id
  | .failed .other :: _, p, id => p.closeConnection id

def handleReadableOf (p : Process σ) (id : ℕ) (results : List RecvResult) : Process σ :=
  match p.objects id with
  | none => p.fail (.destroyed id)
  | some o => if o.state = .closed then p else S.receiveOf results p id

/-- The end of `handle_writable`. -/
def finishWritingOf (p : Process σ) (id : ℕ) (o : ConnectionObject) : Process σ :=
  let o := { o with outputBuffer := [], outputOffset := 0 }
  S.processMessagesOf (((p.put id o).removeWrite o.fd).put id { o with state := .reading }) id

/-- The loop of `handle_writable`. -/
def transmitOf : List SendResult → Process σ → ℕ → Process σ
  | [], p, id =>
    match p.objects id with
    | none => p.fail (.destroyed id)
    | some o =>
      if o.outputOffset < o.outputBuffer.length then p else S.finishWritingOf p id o
  | result :: results, p, id =>
    match p.objects id with
    | none => p.fail (.destroyed id)
    | some o =>
      if o.outputOffset < o.outputBuffer.length then
        match result with
        | .sent count =>
          let taken := (o.outputBuffer.drop o.outputOffset).take count
          if taken = [] then p.closeConnection id
          else transmitOf results
            { p.put id { o with outputOffset := o.outputOffset + taken.length } with
              sent := Function.update p.sent id (p.sent id ++ taken) } id
        | .failed .again => p
        | .failed .interrupted => transmitOf results p id
        | .failed .other => p.closeConnection id
      else S.finishWritingOf p id o

def handleWritableOf (p : Process σ) (id : ℕ) (results : List SendResult) : Process σ :=
  match p.objects id with
  | none => p.fail (.destroyed id)
  | some o => if o.state = .closed then p else S.transmitOf results p id

/-- The event loop calls back what it holds for the descriptor. -/
def dispatch (p : Process σ) : KernelEvent → Process σ
  | .read fd accepts results =>
    match p.readCallbacks fd with
    | none => p
    | some .server => p.handleAccept accepts
    | some (.connection id) => S.handleReadableOf p id results
  | .write fd results =>
    match p.writeCallbacks fd with
    | none => p
    | some id => S.handleWritableOf p id results
  | .error fd => p.remove fd

/-- Nothing is modelled after a fault. -/
def stepOf (p : Process σ) (event : KernelEvent) : Process σ :=
  if p.fault = none then S.dispatch p event else p

def runEvents (p : Process σ) (events : List KernelEvent) : Process σ := events.foldl S.stepOf p

/-- `EventLoop::run`; after the listed calls the process waits. -/
def runLoop : List Poll → Process σ → Process σ
  | [], p => p
  | .events events :: polls, p => runLoop polls (S.runEvents p events)
  | .failed .interrupted :: polls, p => runLoop polls p
  | .failed _ :: _, p => p

/-- The server from its construction to its destructor. -/
def lifetime (setup : Setup) (polls : List Poll) (p : Process σ) : Process σ :=
  match p.initializeServer setup with
  | (some _, p) => p.stop
  | (none, p) => (S.runLoop polls p).stop

end Service
end ForgeDB
