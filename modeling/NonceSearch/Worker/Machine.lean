import NonceSearch.Worker.Basic

/-!
# The course of a worker

A worker decides what to do, waits for orders when it has no work, scans, and reports. Orders are taken
while it waits and while it scans, and at no other time: between the end of a scan and the next decision
the present item cannot change.

Reporting is a list of deeds. An event can only be emitted when its channel has room, or when nobody
will ever read it, so a worker may be held up between two deeds. The counters move before the events
that they count are emitted; the present item is given up before its completion is announced.
-/

namespace NonceSearch

open Decimal (Binary64)

/-- One thing to do after a scan. -/
inductive Deed where
  /-- Tell the owner. -/
  | emit (event : WorkerEvent)
  /-- Give the item up, if it is still the present one. -/
  | forget (item : Assignment)
  /-- Count the scan's hashes and tell the owner the status. -/
  | sumUp (hashes : Nat) (elapsed : Duration)
  deriving DecidableEq

inductive WorkerPhase where
  /-- About to see whether there is work. -/
  | deciding
  /-- Waiting for an order or for the end. -/
  | waiting
  /-- Scanning an item, which began at a moment; perhaps the scan has been told to break off. -/
  | scanning (item : Assignment) (began : Nat) (restarted : Bool)
  | acting (deeds : List Deed)
  | stopped
  deriving DecidableEq

structure Worker where
  /-- The item to scan, or that is being scanned. -/
  current : Option Assignment := none
  /-- How many items have been accepted. -/
  accepted : Nat := 0
  /-- Whether orders can still come. -/
  ordersOpen : Bool := true
  status : WorkerStatus := {}
  phase : WorkerPhase := .deciding
  deriving DecidableEq

namespace Worker

/-- Look for work: stop when the end has been called, scan what there is, wait for orders if they can
    still come. -/
def decide (shutdown : Bool) (now : Nat) (worker : Worker) : Worker :=
  if shutdown then { worker with phase := .stopped, status := { worker.status with active := false } }
  else match worker.current with
    | some item =>
      { worker with
        phase := .scanning item now false
        status := { worker.status with active := true } }
    | none =>
      if worker.ordersOpen then { worker with phase := .waiting }
      else { worker with phase := .stopped, status := { worker.status with active := false } }

def takesOrders (worker : Worker) : Bool :=
  match worker.phase with
  | .waiting => true
  | .scanning .. => worker.ordersOpen
  | _ => false

def accept (work : WorkItem) (worker : Worker) : Worker :=
  { worker with current := some ⟨worker.accepted, work⟩, accepted := worker.accepted + 1 }

/-- Have the present scan broken off, or decide again if there is none. -/
def interrupt (worker : Worker) : Worker :=
  match worker.phase with
  | .scanning item began _ => { worker with phase := .scanning item began true }
  | .waiting => { worker with phase := .deciding }
  | _ => worker

/-- Carry out an order: the item that was displaced, and the worker after it. -/
def obey (order : WorkerOrder) (worker : Worker) : Option Assignment × Worker :=
  match order with
  | .replace work => (worker.current, (worker.accept work).interrupt)
  | .goIdle => (worker.current, { worker with current := none }.interrupt)

def orphan (worker : Worker) : Worker :=
  { worker with ordersOpen := false, current := none }.interrupt

def count (change : WorkerStatus → WorkerStatus) (worker : Worker) : Worker :=
  { worker with status := change worker.status }

/-- The deeds that close every report: the completion, unless the scan was broken off, and the
    status. -/
def closingDeeds (item : Assignment) (report : ScanReport) (elapsed : Duration) : List Deed :=
  (match report.outcome with
    | .restarted => []
    | _ => [.forget item, .emit (.complete item report.hashes)]) ++
  [.sumUp report.hashes elapsed]

/-- What is counted and told first about an outcome. -/
def account (item : Assignment) (outcome : ScanOutcome) (worker : Worker) : Worker × List Deed :=
  match outcome with
  | .found candidate =>
    if candidate.meetsTarget then
      (worker.count fun status => { status with shares := status.shares + 1 },
        [.emit (.share item candidate.nonce candidate.hash)])
    else
      (worker.count fun status => { status with falsePositives := status.falsePositives + 1 },
        [.emit (.falsePositive item candidate.nonce)])
  | .faulted fault =>
    (worker.count fun status => { status with errors := status.errors + 1 },
      [.emit (.fault fault.message)])
  | _ => (worker, [])

def reported (item : Assignment) (report : ScanReport) (elapsed : Duration) (worker : Worker) :
    Worker :=
  let (worker, deeds) := worker.account item report.outcome
  { worker with phase := .acting (deeds ++ closingDeeds item report elapsed) }

/-- Give an item up, if it is still the present one. -/
def forget (item : Assignment) (worker : Worker) : Worker :=
  if worker.current = some item then { worker with current := none } else worker

/-- The device could not be opened. The item is used up, and the status is told as it is now. -/
def unopened (item : Assignment) (cause : DeviceError) (worker : Worker) : Worker :=
  let worker := (worker.forget item).count fun status =>
    { status with errors := status.errors + 1, active := false }
  { worker with phase := .acting [.emit (.fault cause.message), .emit (.complete item 0),
    .emit (.status worker.status)] }

def scanned (item : Assignment) (result : Except DeviceError ScanReport) (elapsed : Duration)
    (worker : Worker) : Worker :=
  match result with
  | .ok report => worker.reported item report elapsed
  | .error cause => worker.unopened item cause

/-- The status after a scan has been counted. The temperature stays if there is no new one. -/
def sumUp (hashes : Nat) (elapsed : Duration) (temperature : Option Binary64)
    (status : WorkerStatus) : WorkerStatus :=
  { status with
    totalHashes := status.totalHashes + hashes
    rate := HashRate.of hashes elapsed
    temperature := temperature <|> status.temperature
    active := false }

/-- Do the next deed: what it emits, if anything, and the worker after it. -/
def act (temperature : Option Binary64) (worker : Worker) : Option WorkerEvent × Worker :=
  match worker.phase with
  | .acting [] => (none, { worker with phase := .deciding })
  | .acting (.emit event :: deeds) => (some event, { worker with phase := .acting deeds })
  | .acting (.forget item :: deeds) =>
    (none, { worker.forget item with phase := .acting deeds })
  | .acting (.sumUp hashes elapsed :: deeds) =>
    let status := sumUp hashes elapsed temperature worker.status
    (none, { worker with status := status, phase := .acting (.emit (.status status) :: deeds) })
  | _ => (none, worker)

def wantsToEmit (worker : Worker) : Bool :=
  match worker.phase with
  | .acting (.emit _ :: _) => true
  | _ => false

end Worker

end NonceSearch
