import NonceSearch.Scan.Machine
import NonceSearch.Thermal

/-!
# Scanning on a device

A bench is a device in some state with a temperature file beside it, on a clock of whole milliseconds
that moves only when everything waits. A scan on a bench has its demands answered at once where that
is possible; a wait ends at the first moment at which its event is there, or at its timeout, and an
event at the very moment of the timeout is still in time. The restart token fires at a set moment, if
at all.
-/

namespace NonceSearch

open Decimal (Binary64)

/-- A device and what is around it. -/
structure Bench (δ : Type) where
  device : Device δ
  state : δ
  now : Nat := 0
  /-- The sensor, if one is attached. -/
  sensor : Option ThermalSensor := none
  /-- The contents of the temperature file, if there is one. -/
  file : Option (List UInt8) := none

namespace Bench

variable {δ : Type}

def temperature (bench : Bench δ) : Option Binary64 := bench.sensor.bind ThermalSensor.last

def withState {α : Type} (f : δ → α × δ) (bench : Bench δ) : α × Bench δ :=
  let (result, state) := f bench.state
  (result, { bench with state := state })

def sense (bench : Bench δ) : Bench δ :=
  { bench with sensor := bench.sensor.map fun sensor => sensor.refresh bench.file }

def passTo (bench : Bench δ) (later : Nat) : Bench δ :=
  if bench.now < later then
    { bench with
      now := later
      state := bench.device.elapse bench.now later bench.state }
  else bench

/-- The answer to a demand that was made at the moment `since`, if it can be given now. -/
def answer? (bench : Bench δ) (since : Nat) : (demand : Demand) → Option (demand.Answer × Bench δ)
  | .acquire =>
    let (result, state) := bench.device.acquire bench.now bench.state
    some (result, { bench with state := state })
  | .request request =>
    let (result, state) := bench.device.request bench.now request bench.state
    some (result, { bench with state := state })
  | .readable timeout =>
    match bench.device.readable? bench.now bench.state with
    | (some result, state) => some (some result, { bench with state := state })
    | (none, state) =>
      if since + timeout ≤ bench.now then some (none, { bench with state := state }) else none
  | .tryRead =>
    let (result, state) :=
      bench.device.tryRead bench.now CompletionMessage.size bench.state
    some (result, { bench with state := state })
  | .pause duration => if since + duration ≤ bench.now then some ((), bench) else none
  | .sense => some ((), bench.sense)
  | .release =>
    some ((), { bench with state := bench.device.release bench.now bench.state })
  | .nothing => none

/-- The next moment at which a demand that was made at the moment `since`, and that has to wait, is
    looked at again: its timeout, or before that whenever the device may change. -/
def nextMoment? (bench : Bench δ) (since : Nat) : Demand → Option Nat
  | .readable timeout =>
    some (bench.device.nextLook (since + timeout) bench.now bench.state)
  | .pause duration => some (since + duration)
  | _ => none

end Bench

structure ScanRun (δ : Type) where
  bench : Bench δ
  scan : Scan
  /-- When the present demand was made. -/
  since : Nat
  /-- When the restart token fires, if it does. -/
  fires : Option Nat := none
  /-- The notes so far, latest first. -/
  notes : List Note := []

namespace ScanRun

variable {δ : Type}

def cancelled (run : ScanRun δ) : Bool :=
  match run.fires with
  | some moment => moment ≤ run.bench.now
  | none => false

def launch (bench : Bench δ) (config : ScanConfig) (work : WorkItem) (fires : Option Nat) :
    ScanRun δ :=
  let (scan, notes) := Scan.launch bench.device.name bench.device.layout config work
  { bench := bench, scan := scan, since := bench.now, fires := fires, notes := notes.reverse }

def withState {α : Type} (f : δ → α × δ) (run : ScanRun δ) : α × ScanRun δ :=
  let (result, bench) := run.bench.withState f
  (result, { run with bench := bench })

def restart (run : ScanRun δ) : ScanRun δ :=
  { run with fires := some (min (run.fires.getD run.bench.now) run.bench.now) }

/-- Answer the scan's demand, if that can be done now. -/
def step? (run : ScanRun δ) : Option (ScanRun δ) :=
  match run.bench.answer? run.since run.scan.demand with
  | none => none
  | some (answer, bench) =>
    let (scan, notes) := run.scan.resume ⟨bench.now, run.cancelled⟩ answer
    some { run with
      bench := bench, scan := scan, since := bench.now, notes := notes.reverse ++ run.notes }

def nextMoment? (run : ScanRun δ) : Option Nat :=
  run.bench.nextMoment? run.since run.scan.demand

def passTo (run : ScanRun δ) (later : Nat) : ScanRun δ :=
  { run with bench := run.bench.passTo later }

/-- Answer or wait, once; nothing if the scan is over or would wait forever. -/
def advance? (run : ScanRun δ) : Option (ScanRun δ) :=
  match run.step? with
  | some run => some run
  | none => run.nextMoment?.map run.passTo

/-- Go on until the scan has ended or a condition holds, for at most a number of answers and waits. -/
def goUntil (stop : ScanRun δ → Bool) : (fuel : Nat) → ScanRun δ → ScanRun δ
  | 0, run => run
  | fuel + 1, run =>
    if stop run then run
    else match run.advance? with
      | some run => goUntil stop fuel run
      | none => run

/-- How many answers and waits a run is given before it is held to go on forever. -/
def patience : Nat := 100000000

def finish (run : ScanRun δ) : ScanRun δ :=
  run.goUntil (fun run => run.scan.result?.isSome) patience

def isRunning (run : ScanRun δ) : Bool :=
  match run.scan.phase with
  | .waiting false => true
  | _ => false

/-- Go on until the search has been started, or the scan has ended. -/
def untilRunning (run : ScanRun δ) : ScanRun δ :=
  run.goUntil (fun run => run.isRunning || run.scan.result?.isSome) patience

def states (run : ScanRun δ) : List ScanState :=
  run.notes.reverse.filterMap fun
    | .entered state => some state
    | .logged _ => none

def events (run : ScanRun δ) : List LogEvent :=
  run.notes.reverse.filterMap fun
    | .logged event => some event
    | .entered _ => none

def state (run : ScanRun δ) : ScanState := run.states.getLast?.getD .idle

/-- The status line of whoever looks at the scan from outside. -/
def statusLine (run : ScanRun δ) : String × ScanRun δ :=
  if run.scan.isOpen then
    let (line, state) :=
      run.bench.device.statusLine run.bench.now run.bench.temperature run.bench.state
    (line, { run with bench := { run.bench with state := state } })
  else ("closed", run)

/-- Go on until the search has been started: the status line then, if it comes to that. -/
def lineWhileRunning (run : ScanRun δ) : Option String × ScanRun δ :=
  let run := run.untilRunning
  if run.isRunning then
    let (line, run) := run.statusLine
    (some line, run)
  else (none, run)

end ScanRun

end NonceSearch
