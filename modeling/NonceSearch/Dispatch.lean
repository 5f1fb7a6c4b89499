import NonceSearch.Worker.Run

/-!
# Keeping a worker busy

A dispatcher hands demonstration work to one worker. It gives the first item at the start and the next
one whenever an item is complete, so the worker never has more than one item and never has one taken
away. It logs shares and faults; after a fault it rests for a second before it looks at the next event,
so that a missing device is not tried over and over without a pause.
-/

namespace NonceSearch

inductive DispatchPhase where
  /-- About to give out the first item. -/
  | starting
  | listening
  /-- Paying no attention until a moment. -/
  | resting (wakes : Nat)
  | gone
  deriving DecidableEq, Repr

structure Dispatcher where
  worker : String
  source : DemoSource
  phase : DispatchPhase := .starting
  /-- What has been logged, latest first. -/
  log : List LogEvent := []
  deriving DecidableEq

namespace Dispatcher

/-- How long a dispatcher rests after a fault, in milliseconds. -/
def restAfterFault : Nat := 1000

def note (level : LogLevel) (message : String) (fields : List (String × String))
    (dispatcher : Dispatcher) : Dispatcher :=
  { dispatcher with
    log := ⟨level, message, ("thread", dispatcher.worker) :: fields⟩ :: dispatcher.log }

/-- Hear what became of an item that was given out: one that is refused ends the dispatcher. -/
def assigned (result : Except WorkerError (Option Assignment)) (dispatcher : Dispatcher) :
    Dispatcher :=
  match result, dispatcher.phase with
  | .ok _, _ => { dispatcher with phase := .listening }
  | .error cause, .starting =>
    { dispatcher.note .error "Failed to assign initial work" [("error", cause.message)] with
      phase := .gone }
  | .error cause, _ =>
    { dispatcher.note .debug "Thread stopped accepting work" [("error", cause.message)] with
      phase := .gone }

def heard (now : Nat) (event : WorkerEvent) (dispatcher : Dispatcher) : Dispatcher :=
  match event with
  | .share _ nonce hash =>
    dispatcher.note .info "Share found" [("nonce", nonceText nonce), ("hash", displayHash hash)]
  | .falsePositive _ nonce =>
    dispatcher.note .debug "Candidate rejected by target check" [("nonce", nonceText nonce)]
  | .fault reason =>
    { dispatcher.note .warn "Accelerator fault" [("reason", reason)] with
      phase := .resting (now + restAfterFault) }
  | .complete _ hashes =>
    dispatcher.note .trace "Work complete" [("hashes", toString hashes)]
  | .status status =>
    dispatcher.note .trace "Status update"
      [("hashrate", status.rate.text), ("shares", toString status.shares)]

def asksForWork : WorkerEvent → Bool
  | .complete .. => true
  | _ => false

end Dispatcher

/-! ### A dispatcher with its worker -/

/-- A worker and the dispatcher that feeds it. -/
structure Shift (δ : Type) where
  place : Workplace δ
  dispatcher : Dispatcher

namespace Shift

variable {δ : Type}

def assign (shift : Shift δ) : Shift δ :=
  let (work, source) := shift.dispatcher.source.next
  let (result, place) := shift.place.command (.replace work)
  ⟨place, { shift.dispatcher with source := source }.assigned result⟩

/-- The dispatcher takes the event that waits longest. -/
def hear? (shift : Shift δ) : Option (Shift δ) :=
  match shift.dispatcher.phase, shift.place.events with
  | .listening, event :: events =>
    let shift : Shift δ :=
      ⟨{ shift.place with events := events }, shift.dispatcher.heard shift.place.now event⟩
    some (if Dispatcher.asksForWork event then shift.assign else shift)
  | _, _ => none

def dispatch? (shift : Shift δ) : Option (Shift δ) :=
  match shift.dispatcher.phase with
  | .starting => some shift.assign
  | .resting wakes =>
    if wakes ≤ shift.place.now then
      some { shift with dispatcher := { shift.dispatcher with phase := .listening } }
    else none
  | .listening => shift.hear?
  | .gone => none

def nextMoment? (shift : Shift δ) : Option Nat :=
  match shift.dispatcher.phase, shift.place.nextMoment? with
  | .resting wakes, some moment => some (min wakes moment)
  | .resting wakes, none => some wakes
  | _, moment => moment

def goUntil (stop : Shift δ → Bool) : (fuel : Nat) → Shift δ → Shift δ
  | 0, shift => shift
  | fuel + 1, shift =>
    if stop shift then shift
    else
      let shift := { shift with place := shift.place.run }
      match shift.dispatch? with
      | some shift => goUntil stop fuel shift
      | none =>
        match shift.nextMoment? with
        | some moment => goUntil stop fuel { shift with place := shift.place.passTo moment }
        | none => shift

/-- What the dispatcher has logged that matters to a user, in order. -/
def headlines (shift : Shift δ) : List LogEvent :=
  shift.dispatcher.log.reverse.filter fun event => event.level == .info || event.level == .warn

/-- Go on until there is something that matters to a user, and take it out of the log. -/
def nextHeadlines (shift : Shift δ) : List LogEvent × Shift δ :=
  let shift := shift.goUntil (fun shift => !shift.headlines.isEmpty) ScanRun.patience
  (shift.headlines, { shift with dispatcher := { shift.dispatcher with log := [] } })

def firstHeadlines (count : Nat) (shift : Shift δ) : List LogEvent :=
  let shift := shift.goUntil (fun shift => count ≤ shift.headlines.length) ScanRun.patience
  shift.headlines.take count

end Shift

end NonceSearch
