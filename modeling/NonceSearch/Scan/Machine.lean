import NonceSearch.Scan.Basic
import NonceSearch.Session.Basic

/-!
# The course of a scan

A scan is a machine that makes one demand at a time on its surroundings and goes on with the answer:
open the device, issue a request, wait until there is something to read, read it, pause, read the
temperature, close the device. It does not know what is on the other side, so whatever holds for every
sequence of answers holds for every device, every restart and every timing.

Together with an answer the machine is told the moment at which it was given: the time, and whether
the restart token had fired. A status that is exactly READY counts before the token, the token before
the deadline; a completion counts before the token.

Along the way the machine emits notes: the states it enters and the events it logs.
-/

namespace NonceSearch

structure Moment where
  now : Nat
  /-- Whether the restart token had fired. -/
  cancelled : Bool
  deriving DecidableEq, Repr

inductive Demand where
  /-- Open the device. -/
  | acquire
  | request (request : Request)
  /-- Wait until there is something to read, at most so long. -/
  | readable (timeout : Nat)
  /-- Read a completion message without waiting. -/
  | tryRead
  /-- Do nothing for a while. -/
  | pause (duration : Nat)
  /-- Read the temperature. -/
  | sense
  /-- Close the device. -/
  | release
  /-- Nothing any more. -/
  | nothing
  deriving DecidableEq

/-- The answers that a demand allows. A wait without an answer has run into its timeout. -/
def Demand.Answer : Demand → Type
  | .acquire => Except DeviceError Unit
  | .request _ => Except DeviceError Reply
  | .readable _ => Option (Except DeviceError Unit)
  | .tryRead => Except DeviceError (List UInt8)
  | .pause _ | .sense | .release | .nothing => Unit

/-- Something that a scan lets the outside know. -/
inductive Note where
  | entered (state : ScanState)
  | logged (event : LogEvent)
  deriving DecidableEq, Repr

inductive ScanCall where
  | clock (mhz : UInt32)
  | reset
  /-- See whether the device is ready, which it has to be by the deadline. -/
  | poll (deadline : Nat)
  /-- Load the midstate. -/
  | stateIn
  | tail
  | difficulty
  /-- Begin the search. -/
  | start
  /-- See whether the search goes on. -/
  | tick
  /-- Read the search counter, now that the outcome is known. -/
  | counter (outcome : ScanOutcome)
  deriving DecidableEq

/-- Where a scan is between two answers. -/
inductive ScanPhase where
  | opening
  | calling (call : ScanCall)
  /-- Between two looks at a device that is not ready. -/
  | pausing (deadline : Nat)
  /-- Waiting for a completion: for a tick, or for the last time. -/
  | waiting (last : Bool)
  /-- Reading what the wait has announced. -/
  | reading (last : Bool)
  /-- Reading the temperature between two ticks. -/
  | sensing
  | closing (report : ScanReport)
  | ended (result : Except DeviceError ScanReport)

structure Scan where
  device : String
  layout : RegisterLayout
  config : ScanConfig
  work : WorkItem
  session : SessionState := .unknown
  phase : ScanPhase := .opening

namespace Scan

/-! ### Demands -/

def sessionCall (scan : Scan) : ScanCall → SessionCall
  | .clock mhz => .setClockSpeed mhz
  | .reset => .reset
  | .poll _ | .tick => .status
  | .stateIn => .setStateIn scan.work.midstate
  | .tail => .setTail scan.work.tail
  | .difficulty => .setDifficulty (scan.layout.difficulty scan.work.mask)
  | .start => .start
  | .counter _ => .currentNonce

def demandIn (scan : Scan) : ScanPhase → Demand
  | .opening => .acquire
  | .calling call => .request (scan.sessionCall call).request
  | .pausing _ => .pause scan.config.readyPoll
  | .waiting last => .readable (if last then scan.config.stopGrace else scan.config.waitTick)
  | .reading _ => .tryRead
  | .sensing => .sense
  | .closing _ => .release
  | .ended _ => .nothing

def demand (scan : Scan) : Demand := scan.demandIn scan.phase

/-- Whether the scan's session can be seen from outside: from the opening until the counter has been
    read. -/
def isOpen (scan : Scan) : Bool :=
  match scan.phase with
  | .opening | .closing _ | .ended _ => false
  | _ => true

def result? (scan : Scan) : Option (Except DeviceError ScanReport) :=
  match scan.phase with
  | .ended result => some result
  | _ => none

/-! ### Steps -/

/-- A scan after a step, and what it let the outside know. -/
abbrev Step := Scan × List Note

def report (scan : Scan) (level : LogLevel) (message : String) (fields : List (String × String)) :
    Note :=
  .logged ⟨level, message, ("device", scan.device) :: fields⟩

/-- Settle on an outcome; the counter is still to be read. -/
def conclude (scan : Scan) (outcome : ScanOutcome) : Step :=
  ({ scan with phase := .calling (.counter outcome) },
    [.entered outcome.state, .logged (outcome.event scan.device)])

/-- Settle on the fault that a failed call makes. -/
def fail (scan : Scan) (cause : DeviceError) : Step :=
  scan.conclude (.faulted (.ofError cause))

/-- Go on to a call. One that is out of turn fails without reaching the device. -/
def enter (scan : Scan) (call : ScanCall) : Step :=
  let sessionCall := scan.sessionCall call
  if sessionCall.allowed scan.session then ({ scan with phase := .calling call }, [])
  else scan.fail (sessionCall.refusal scan.session)

/-- Say something before a step. -/
def noting (notes : List Note) (step : Step) : Step := (step.1, notes ++ step.2)

/-- A completion record that ended before its length. -/
def shortRecord (scan : Scan) (got expected : Nat) : Step :=
  noting [scan.report .warn "Short completion record"
      [("got", toString got), ("expected", toString expected)]]
    (scan.conclude .noResult)

def complete (scan : Scan) (message : CompletionMessage) : Step :=
  let outcome := scan.work.classify message
  let notes := if outcome = .noResult then
      [scan.report .debug "Completion without a result" [("status", hexWord message.status)]]
    else []
  noting notes (scan.conclude outcome)

def unreadable (scan : Scan) (cause : DeviceError) : Step :=
  match cause with
  | .shortRead got expected => scan.shortRecord got expected
  | cause => scan.fail cause

/-- A wait has brought nothing. At the end of a tick the token is looked at and then the status; the
    last wait was the last chance. -/
def lapse (scan : Scan) (last : Bool) (moment : Moment) : Step :=
  if last then scan.conclude (.faulted .hardwareStopped)
  else if moment.cancelled then scan.conclude .restarted
  else scan.enter .tick

/-- The outcome is known and the counter has been read, or could not be. -/
def finish (scan : Scan) (outcome : ScanOutcome) (counter : Except DeviceError Reply) : Step :=
  match counter with
  | .ok (.word nonce) => ({ scan with phase := .closing ⟨outcome, nonce.toNat⟩ }, [])
  | .ok _ => ({ scan with phase := .closing ⟨outcome, 0⟩ }, [])
  | .error cause =>
    ({ scan with phase := .closing ⟨outcome, 0⟩ },
      [scan.report .debug "Could not read search counter" [("error", cause.message)]])

def proceed (scan : Scan) (call : ScanCall) (answer : Reply) (moment : Moment) : Step :=
  match call with
  | .clock _ => scan.enter .reset
  | .reset => scan.enter (.poll (moment.now + scan.config.readyTimeout))
  | .poll deadline =>
    match answer with
    | .word bits =>
      if (Status.mk bits).isReady then noting [.entered .ready] (scan.enter .stateIn)
      else if moment.cancelled then scan.conclude .restarted
      else if deadline ≤ moment.now then scan.conclude (.faulted .readyTimeout)
      else ({ scan with phase := .pausing deadline }, [])
    | _ => (scan, [])
  | .stateIn => scan.enter .tail
  | .tail => scan.enter .difficulty
  | .difficulty => scan.enter .start
  | .start => ({ scan with phase := .waiting false }, [.entered .running])
  | .tick =>
    match answer with
    | .word bits =>
      if (Status.mk bits).isRunning then ({ scan with phase := .sensing }, [])
      else ({ scan with phase := .waiting true }, [])
    | _ => (scan, [])
  | .counter outcome => scan.finish outcome (.ok answer)

def called (scan : Scan) (call : ScanCall) (reply : Except DeviceError Reply) (moment : Moment) :
    Step :=
  let (result, session) := (scan.sessionCall call).settle scan.session reply
  let scan := { scan with session := session }
  match result with
  | .ok answer => scan.proceed call answer moment
  | .error cause =>
    match call with
    | .counter outcome => scan.finish outcome (.error cause)
    | _ => scan.fail cause

def opened (scan : Scan) (result : Except DeviceError Unit) : Step :=
  match result with
  | .error cause => ({ scan with phase := .ended (.error cause) }, [.entered .closed])
  | .ok () =>
    match scan.config.clockSpeed with
    | some mhz => scan.enter (.clock mhz)
    | none => scan.enter .reset

def waited (scan : Scan) (last : Bool) (result : Option (Except DeviceError Unit))
    (moment : Moment) : Step :=
  match result with
  | none => scan.lapse last moment
  | some (.error cause) => scan.unreadable cause
  | some (.ok ()) => ({ scan with phase := .reading last }, [])

def read (scan : Scan) (last : Bool) (result : Except DeviceError (List UInt8))
    (moment : Moment) : Step :=
  match completionOf result with
  | .ok (some message) => scan.complete message
  | .ok none => scan.lapse last moment
  | .error cause => scan.unreadable cause

def resumeFrom (scan : Scan) (moment : Moment) :
    (phase : ScanPhase) → (scan.demandIn phase).Answer → Step
  | .opening, result => scan.opened result
  | .calling call, reply => scan.called call reply moment
  | .pausing deadline, _ => scan.enter (.poll deadline)
  | .waiting last, result => scan.waited last result moment
  | .reading last, result => scan.read last result moment
  | .sensing, _ => ({ scan with phase := .waiting false }, [])
  | .closing report, _ => ({ scan with phase := .ended (.ok report) }, [.entered .closed])
  | .ended _, _ => (scan, [])

def resume (scan : Scan) (moment : Moment) (answer : scan.demand.Answer) : Step :=
  scan.resumeFrom moment scan.phase answer

def launch (device : String) (layout : RegisterLayout) (config : ScanConfig) (work : WorkItem) :
    Step :=
  let scan : Scan := { device := device, layout := layout, config := config, work := work }
  (scan, [.entered .configuring,
    scan.report .debug "Scanning work" [("leading_bits", toString work.mask.leadingOnes)]])

end Scan

end NonceSearch
