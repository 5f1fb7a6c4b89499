import NonceSearch.Device.Basic

/-!
# A scripted device

A device that answers from a script: every opening has its own, and the last one serves all openings
after it. A script gives the replies to each kind of reading request in order, the last one over and
over, the requests that always fail, and a stream of records that become readable at set times after
the opening. What reaches the device is noted.
-/

namespace NonceSearch

/-- A reply or a failure that a script holds ready. -/
abbrev ScriptedReply := Except DeviceError Reply

inductive ScriptedRecord where
  | bytes (bytes : List UInt8)
  | failsRead (cause : DeviceError)
  | failsWait (cause : DeviceError)
  deriving DecidableEq, Repr

/-- One opening of a scripted device. -/
structure Script where
  openFailure : Option DeviceError := none
  /-- The requests that always fail, and how. -/
  failing : List (RequestCode × DeviceError) := []
  /-- Status replies before a start. -/
  idle : List ScriptedReply := [.ok (.word 1)]
  /-- Status replies after a start. -/
  running : List ScriptedReply := [.ok (.word 2)]
  /-- Search counter replies. -/
  nonce : List ScriptedReply := [.ok (.word 0)]
  registers : List ScriptedReply := [.ok (.registers [])]
  /-- Records and the times after the opening at which they are due. -/
  records : List (Nat × ScriptedRecord) := []

inductive Sighting where
  | opened
  | closed
  | request (request : Request)
  deriving DecidableEq

/-- What is seen of a request: its name, and what it carries. -/
def Sighting.text : Sighting → String
  | .opened => "open"
  | .closed => "close"
  | .request asked =>
    match asked with
    | .setStateIn midstate => asked.name ++ " " ++ hexText midstate.toList
    | .setTail tail => asked.name ++ " " ++ hexText tail.toList
    | .setDifficultyMask mask => asked.name ++ " " ++ hexText mask.toList
    | .setLeadingZeros count => asked.name ++ " " ++ toString count.toNat
    | .setClockSpeed mhz => asked.name ++ " " ++ toString mhz.toNat
    | _ => asked.name

structure ScriptedDevice where
  /-- The scripts of the openings to come. -/
  scripts : List Script
  /-- What is left of the present opening's script. -/
  current : Script := {}
  openedAt : Nat := 0
  /-- Whether a start has been done since the last reset. -/
  started : Bool := false
  /-- What has been seen, latest first. -/
  seen : List Sighting := []

namespace ScriptedDevice

/-- The next reply of a list, and the list after it: the last reply stays. -/
def nextReply : List ScriptedReply → ScriptedReply × List ScriptedReply
  | [] => (.ok .done, [])
  | [last] => (last, [last])
  | first :: rest => (first, rest)

def note (sighting : Sighting) (s : ScriptedDevice) : ScriptedDevice :=
  { s with seen := sighting :: s.seen }

/-- What has been seen since the last time anyone asked, oldest first. -/
def takeSeen (s : ScriptedDevice) : List Sighting × ScriptedDevice :=
  (s.seen.reverse, { s with seen := [] })

/-- The script of the next opening, and the scripts after it: the last script stays. -/
def nextScript : List Script → Script × List Script
  | [] => ({}, [])
  | [last] => (last, [last])
  | first :: rest => (first, rest)

def acquire (now : Nat) (s : ScriptedDevice) : Except DeviceError Unit × ScriptedDevice :=
  let (script, scripts) := nextScript s.scripts
  let s := { s with scripts := scripts }.note .opened
  match script.openFailure with
  | some cause => (.error cause, s)
  | none => (.ok (), { s with current := script, openedAt := now, started := false })

/-- Answer a request. One that always fails has no other effect. -/
def request (request : Request) (s : ScriptedDevice) : ScriptedReply × ScriptedDevice :=
  let s := s.note (.request request)
  match s.current.failing.lookup request.code with
  | some cause => (.error cause, s)
  | none =>
    match request with
    | .reset => (.ok .done, { s with started := false })
    | .start => (.ok .done, { s with started := true })
    | .getStatus =>
      if s.started then
        let (reply, rest) := nextReply s.current.running
        (reply, { s with current := { s.current with running := rest } })
      else
        let (reply, rest) := nextReply s.current.idle
        (reply, { s with current := { s.current with idle := rest } })
    | .getNonceCurrent =>
      let (reply, rest) := nextReply s.current.nonce
      (reply, { s with current := { s.current with nonce := rest } })
    | .getDebugRegisters =>
      let (reply, rest) := nextReply s.current.registers
      (reply, { s with current := { s.current with registers := rest } })
    | _ => (.ok .done, s)

def dueRecord? (now : Nat) (s : ScriptedDevice) :
    Option (ScriptedRecord × List (Nat × ScriptedRecord)) :=
  match s.current.records with
  | [] => none
  | (due, record) :: rest => if s.openedAt + due ≤ now then some (record, rest) else none

def dropRecord (rest : List (Nat × ScriptedRecord)) (s : ScriptedDevice) : ScriptedDevice :=
  { s with current := { s.current with records := rest } }

def tryRead (now room : Nat) (s : ScriptedDevice) :
    Except DeviceError (List UInt8) × ScriptedDevice :=
  match s.dueRecord? now with
  | none => (.error .wouldBlock, s)
  | some (.bytes bytes, rest) => (.ok (bytes.take room), s.dropRecord rest)
  | some (.failsRead cause, rest) => (.error cause, s.dropRecord rest)
  | some (.failsWait _, rest) => (.ok [], s.dropRecord rest)

/-- Whether a wait is over: a due record ends it, and one that fails waits is used up by that. -/
def readable? (now : Nat) (s : ScriptedDevice) :
    Option (Except DeviceError Unit) × ScriptedDevice :=
  match s.dueRecord? now with
  | none => (none, s)
  | some (.failsWait cause, rest) => (some (.error cause), s.dropRecord rest)
  | some _ => (some (.ok ()), s)

/-- A read that may wait: the wait for something to read, and what is read then. -/
def read? (now room : Nat) (s : ScriptedDevice) :
    Option (Except DeviceError (List UInt8)) × ScriptedDevice :=
  match s.readable? now with
  | (none, s) => (none, s)
  | (some (.error cause), s) => (some (.error cause), s)
  | (some (.ok ()), s) =>
    let (result, s) := s.tryRead now room
    (some result, s)

def nextDue? (s : ScriptedDevice) : Option Nat :=
  s.current.records.head?.map fun record => s.openedAt + record.1

def device (name : String) (layout : RegisterLayout) : Device ScriptedDevice where
  name := name
  layout := layout
  acquire := acquire
  request := fun _ => request
  tryRead := tryRead
  poll := fun now s => (s.dueRecord? now).isSome
  readable? := readable?
  read? := read?
  nextChange? := fun _ => nextDue?
  elapse := fun _ _ s => s
  release := fun _ s => s.note .closed

end ScriptedDevice

end NonceSearch
