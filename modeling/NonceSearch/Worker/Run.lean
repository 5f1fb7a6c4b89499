import NonceSearch.Scan.Run
import NonceSearch.Worker.Machine

/-!
# A worker at work

A workplace is a worker with its accelerator, the orders that wait for it, the events that wait for its
owner, and the answers it has given. Its steps are the moments at which something happens: the worker
decides, takes an order, learns that its owner is gone, has a demand of its scan answered, hears that
the scan is over, or does the next deed. Each is a function that is undefined where the step is not
possible, so that any schedule of them can be followed; `step?` takes the first that is possible, and
`run` goes on until everything waits.
-/

namespace NonceSearch

/-- Whether anybody reads a worker's events. -/
inductive EventReader where
  | listening
  /-- Events are thrown away. -/
  | gone
  deriving DecidableEq, Repr

/-- A worker and everything around it. -/
structure Workplace (δ : Type) where
  /-- The accelerator while no scan is going on. -/
  bench : Bench δ
  config : ScanConfig
  worker : Worker := {}
  scan : Option (ScanRun δ) := none
  /-- Orders that wait, oldest first, each with the number of its sender. -/
  orders : List (Nat × WorkerOrder) := []
  /-- What was displaced by the orders that have been carried out. -/
  answers : List (Nat × Option Assignment) := []
  sent : Nat := 0
  /-- Whether the owner is still there to send orders. -/
  owned : Bool := true
  /-- Events that wait, oldest first. -/
  events : List WorkerEvent := []
  reader : EventReader := .listening
  /-- Whether the end has been called. -/
  shutdown : Bool := false

namespace Workplace

variable {δ : Type}

def now (place : Workplace δ) : Nat :=
  match place.scan with
  | some run => run.bench.now
  | none => place.bench.now

def withState {α : Type} (f : δ → α × δ) (place : Workplace δ) : α × Workplace δ :=
  match place.scan with
  | some run =>
    let (result, run) := run.withState f
    (result, { place with scan := some run })
  | none =>
    let (result, bench) := place.bench.withState f
    (result, { place with bench := bench })

/-- Whether the worker has stopped. Its event channel is closed from then on. -/
def isStopped (place : Workplace δ) : Bool := place.worker.phase == .stopped

def hasRoom (place : Workplace δ) : Bool :=
  place.reader == .gone || place.events.length < eventCapacity

/-- Put an event where its reader finds it. -/
def deliver (event : WorkerEvent) (place : Workplace δ) : Workplace δ :=
  match place.reader with
  | .gone => place
  | .listening => { place with events := place.events ++ [event] }

/-! ### Steps -/

def decide? (place : Workplace δ) : Option (Workplace δ) :=
  if place.worker.phase = .deciding then
    let worker := place.worker.decide place.shutdown place.now
    match worker.phase with
    | .scanning item _ _ =>
      some { place with
        worker := worker
        scan := some (.launch place.bench place.config item.work none) }
    | _ => some { place with worker := worker }
  else none

def stopWaiting? (place : Workplace δ) : Option (Workplace δ) :=
  if place.worker.phase = .waiting ∧ place.shutdown then
    some { place with worker := place.worker.decide true place.now }
  else none

/-- The worker's scan hears that it should break off: by order, or because the end has been called. -/
def breakOff (place : Workplace δ) : Workplace δ :=
  match place.worker.phase with
  | .scanning _ _ restarted =>
    if restarted || place.shutdown then { place with scan := place.scan.map ScanRun.restart }
    else place
  | _ => place

def takeOrder? (place : Workplace δ) : Option (Workplace δ) :=
  if place.worker.takesOrders then
    match place.orders with
    | [] => none
    | (sender, order) :: orders =>
      let (displaced, worker) := place.worker.obey order
      some { place with
        worker := worker
        orders := orders
        answers := (sender, displaced) :: place.answers }.breakOff
  else none

/-- The worker learns that its owner is gone, once no orders are left. -/
def orphan? (place : Workplace δ) : Option (Workplace δ) :=
  if place.worker.takesOrders ∧ place.orders.isEmpty ∧ ¬ place.owned then
    some { place with worker := place.worker.orphan }.breakOff
  else none

/-- A demand of the scan is answered. -/
def advanceScan? (place : Workplace δ) : Option (Workplace δ) :=
  match place.scan.bind ScanRun.step? with
  | some run => some { place with scan := some run }
  | none => none

def finishScan? (place : Workplace δ) : Option (Workplace δ) :=
  match place.worker.phase, place.scan with
  | .scanning item began _, some run =>
    match run.scan.result? with
    | some result =>
      let elapsed := Duration.ofMillis (run.bench.now - began)
      some { place with
        worker := place.worker.scanned item result elapsed
        bench := run.bench
        scan := none }
    | none => none
  | _, _ => none

/-- The worker does its next deed, if it need not wait for room. -/
def act? (place : Workplace δ) : Option (Workplace δ) :=
  match place.worker.phase with
  | .acting _ =>
    if place.worker.wantsToEmit && !place.hasRoom then none
    else
      let (event, worker) := place.worker.act place.bench.temperature
      let place := { place with worker := worker }
      some (match event with
        | some event => place.deliver event
        | none => place)
  | _ => none

/-- The first step that is possible, if any is. -/
def step? (place : Workplace δ) : Option (Workplace δ) :=
  place.decide? <|> place.stopWaiting? <|> place.takeOrder? <|> place.orphan? <|>
    place.finishScan? <|> place.advanceScan? <|> place.act?

/-! ### Running -/

/-- Go on until everything waits, for at most a number of steps. -/
def runFor : (fuel : Nat) → Workplace δ → Workplace δ
  | 0, place => place
  | fuel + 1, place =>
    match place.step? with
    | some place => runFor fuel place
    | none => place

def run (place : Workplace δ) : Workplace δ := place.runFor ScanRun.patience

def nextMoment? (place : Workplace δ) : Option Nat := place.scan.bind ScanRun.nextMoment?

/-- Let time pass up to a moment, with nothing to do before it. -/
def passTo (place : Workplace δ) (later : Nat) : Workplace δ :=
  match place.scan with
  | some run => { place with scan := some (run.passTo later) }
  | none => { place with bench := place.bench.passTo later }

/-- Let time pass up to a moment, doing what there is to do on the way. -/
def runTo (later : Nat) : (fuel : Nat) → Workplace δ → Workplace δ
  | 0, place => place
  | fuel + 1, place =>
    let place := place.run
    match place.nextMoment? with
    | some moment =>
      if moment ≤ later then runTo later fuel (place.passTo moment)
      else (place.passTo later).run
    | none => (place.passTo later).run

/-- Let time pass, doing what there is to do, until something holds. -/
def runUntil (stop : Workplace δ → Bool) : (fuel : Nat) → Workplace δ → Workplace δ
  | 0, place => place
  | fuel + 1, place =>
    let place := place.run
    if stop place then place
    else match place.nextMoment? with
      | some moment => runUntil stop fuel (place.passTo moment)
      | none => place

def hasStatus (place : Workplace δ) : Bool :=
  place.events.any fun
    | .status _ => true
    | _ => false

def sleep (duration : Nat) (place : Workplace δ) : Workplace δ :=
  place.runTo (place.now + duration) ScanRun.patience

/-! ### The owner's side -/

/-- Send an order and wait for its answer: what was displaced. -/
def command (order : WorkerOrder) (place : Workplace δ) :
    Except WorkerError (Option Assignment) × Workplace δ :=
  if place.isStopped then (.error .offline, place)
  else
    let sender := place.sent
    let place := { place with
      orders := place.orders ++ [(sender, order)], sent := sender + 1 }.run
    match place.answers.lookup sender with
    | some displaced => (.ok displaced, place)
    | none => (.error .noResponse, place)

/-- Call the end. A scan that is going on hears of it. -/
def callEnd (place : Workplace δ) : Workplace δ := { place with shutdown := true }.breakOff.run

def abandon (place : Workplace δ) : Workplace δ := { place with owned := false }.run

def deafen (place : Workplace δ) : Workplace δ :=
  { place with reader := .gone, events := [] }.run

def takeEvents (place : Workplace δ) : List WorkerEvent × Workplace δ :=
  (place.events, { place with events := [] })

def statusLine (place : Workplace δ) : String × Workplace δ :=
  match place.scan with
  | some run =>
    let (line, run) := run.statusLine
    (line, { place with scan := some run })
  | none => ("closed", place)

end Workplace

end NonceSearch
