import NonceSearch.Session.Basic
import NonceSearch.Text.Quoted

/-!
# Sessions on a device

An open device with a session on it, on a clock of whole milliseconds that moves only while the
session waits or sleeps. Beside the calls that the session keeps in order there are reads, which any
state allows, and the same things as they are done past the session, on the open device itself.
-/

namespace NonceSearch

open Decimal (Binary64)

/-- A device that has been opened, and the session on it. -/
structure Session (δ : Type) where
  device : Device δ
  /-- The state of the device. -/
  port : δ
  now : Nat := 0
  state : SessionState := .unknown

namespace Session

variable {δ : Type}

def acquire (device : Device δ) (s : δ) : Except DeviceError (Session δ) × δ :=
  let (result, s) := device.acquire 0 s
  (result.map fun _ => { device := device, port := s }, s)

/-! ### Calls -/

/-- Make a call. One that is out of turn does not reach the device. -/
def call (call : SessionCall) (session : Session δ) : Except DeviceError Reply × Session δ :=
  if call.allowed session.state then
    let (answer, port) := session.device.request session.now call.request session.port
    let (result, state) := call.settle session.state answer
    (result, { session with port := port, state := state })
  else (.error (call.refusal session.state), session)

/-- Load a work item: midstate, tail and the layout's difficulty, each tried whatever became of the
    ones before it. -/
def load (work : WorkItem) (session : Session δ) : List (Except DeviceError Reply) × Session δ :=
  let difficulty := session.device.layout.difficulty work.mask
  let (first, session) := session.call (.setStateIn work.midstate)
  let (second, session) := session.call (.setTail work.tail)
  let (third, session) := session.call (.setDifficulty difficulty)
  ([first, second, third], session)

/-! ### Past the session -/

/-- Issue a request, whatever the session would say. -/
def request (request : Request) (session : Session δ) : Except DeviceError Reply × Session δ :=
  let (reply, port) := session.device.request session.now request session.port
  (reply, { session with port := port })

def tryRead (room : Nat) (session : Session δ) : Except DeviceError (List UInt8) × Session δ :=
  let (result, port) := session.device.tryRead session.now room session.port
  (result, { session with port := port })

def poll (session : Session δ) : Bool := session.device.poll session.now session.port

def await {α : Type} (attempt : Nat → δ → Option α × δ) (timeout : Nat) (session : Session δ) :
    Option α × Session δ :=
  let (now, result, port) :=
    session.device.await attempt (session.now + timeout) session.now session.port
  (result, { session with port := port, now := now })

def awaitReadable (timeout : Nat) (session : Session δ) :
    Option (Except DeviceError Unit) × Session δ :=
  session.await session.device.readable? timeout

/-- Read, waiting until a token fires after some time: what is there at that very moment still
    counts. -/
def readUntil (fires room : Nat) (session : Session δ) :
    Except DeviceError (List UInt8) × Session δ :=
  let (result, session) := session.await (fun now => session.device.read? now room) fires
  (result.getD (.error .interrupted), session)

def statusLine (temperature : Option Binary64) (session : Session δ) : String × Session δ :=
  let (line, port) := session.device.statusLine session.now temperature session.port
  (line, { session with port := port })

/-! ### Completion messages -/

def tryCompletion (session : Session δ) :
    Except DeviceError (Option CompletionMessage) × Session δ :=
  let (result, session) := session.tryRead CompletionMessage.size
  (completionOf result, session)

def waitCompletion (timeout : Nat) (session : Session δ) :
    Except DeviceError (Option CompletionMessage) × Session δ :=
  match session.awaitReadable timeout with
  | (none, session) => (.ok none, session)
  | (some (.error cause), session) => (.error cause, session)
  | (some (.ok ()), session) => session.tryCompletion

def nextCompletion (fires : Nat) (session : Session δ) :
    Except DeviceError CompletionMessage × Session δ :=
  let (result, session) := session.readUntil fires CompletionMessage.size
  (result.bind CompletionMessage.decode, session)

/-! ### Everything else -/

def sleep (duration : Nat) (session : Session δ) : Session δ :=
  let later := session.now + duration
  { session with
    port := session.device.pass later session.now session.port
    now := later }

def describe (session : Session δ) : String :=
  "AcceleratorSession \x7b device: " ++ Text.quoted session.device.name ++ ", layout: " ++
    session.device.layout.describe ++ ", state: " ++ session.state.name ++ " \x7d"

/-- Open the device once more, beside the session. -/
def reopen (session : Session δ) : Except DeviceError Unit × Session δ :=
  let (opened, port) := session.device.acquire session.now session.port
  (opened, { session with port := port })

def close (session : Session δ) : Session δ :=
  { session with port := session.device.release session.now session.port }

end Session

end NonceSearch
