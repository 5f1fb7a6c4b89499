import NonceSearch.Worker.Run

/-!
# What happens to a worker

A worker and its owner run side by side, and the accelerator is out of the control of both. Every
single thing that can happen next is a `Workplace.Move`, and `perform?` is undefined where it is not
possible, so the histories of a workplace are exactly the sequences of moves: commands may arrive
between any two steps of a scan, a scan may end before or after it has been told to break off, and
between two moves anything at all may happen around the worker.

A history also keeps what a bystander sees: which items were accepted, which scans began and how they
ended, and which events were emitted, also those that nobody reads. The latest comes first.
-/

namespace NonceSearch

/-- Something that a bystander sees of a worker. -/
inductive Happening where
  /-- The worker has accepted an item. -/
  | accepted (item : Assignment)
  /-- The scan of an item has begun. -/
  | began (item : Assignment)
  /-- The scan of an item has ended, or the device could not be opened for it. -/
  | ended (item : Assignment) (result : Except DeviceError ScanReport)
  /-- The worker has told something, whether or not anybody reads it. -/
  | emitted (event : WorkerEvent)

namespace Workplace

variable {δ : Type}

/-- One thing that can happen to a worker, its owner or the accelerator. -/
inductive Move (δ : Type) where
  /-- The owner sends an order. -/
  | send (order : WorkerOrder)
  | decide
  | stopWaiting
  | takeOrder
  | orphan
  | advanceScan
  | finishScan
  | act
  /-- The owner takes the event that waits longest. -/
  | takeEvent
  /-- The end is called. -/
  | callEnd
  /-- The owner goes. -/
  | abandon
  /-- Nobody reads events any more. -/
  | deafen
  /-- Anything at all happens around the worker: time passes, the device changes by itself, somebody
      looks at it, the temperature file is written. -/
  | around (change : Bench δ → Bench δ)

/-! ### What is seen of a step -/

def acceptance (place : Workplace δ) : List Happening :=
  match place.orders with
  | (_, .replace work) :: _ => [.accepted ⟨place.worker.accepted, work⟩]
  | _ => []

def beginning (place : Workplace δ) : List Happening :=
  match place.worker.phase with
  | .scanning item _ _ => [.began item]
  | _ => []

def ending (place : Workplace δ) : List Happening :=
  match place.worker.phase, place.scan.bind fun run => run.scan.result? with
  | .scanning item _ _, some result => [.ended item result]
  | _, _ => []

def emission (place : Workplace δ) : List Happening :=
  match (place.worker.act place.bench.temperature).1 with
  | some event => [.emitted event]
  | none => []

/-! ### Moves -/

def around (change : Bench δ → Bench δ) (place : Workplace δ) : Workplace δ :=
  match place.scan with
  | some run => { place with scan := some { run with bench := change run.bench } }
  | none => { place with bench := change place.bench }

/-- Make a move: what is seen of it, and the workplace after it. Orders that wait include those whose
    senders wait for room. -/
def perform? (move : Move δ) (place : Workplace δ) : Option (List Happening × Workplace δ) :=
  match move with
  | .send order =>
    if place.isStopped || !place.owned then none
    else some ([], { place with
      orders := place.orders ++ [(place.sent, order)], sent := place.sent + 1 })
  | .decide => place.decide?.map fun next => (next.beginning, next)
  | .stopWaiting => place.stopWaiting?.map fun next => ([], next)
  | .takeOrder => place.takeOrder?.map fun next => (place.acceptance, next)
  | .orphan => place.orphan?.map fun next => ([], next)
  | .advanceScan => place.advanceScan?.map fun next => ([], next)
  | .finishScan => place.finishScan?.map fun next => (place.ending, next)
  | .act => place.act?.map fun next => (place.emission, next)
  | .takeEvent => some ([], { place with events := place.events.tail })
  | .callEnd => some ([], { place with shutdown := true }.breakOff)
  | .abandon => some ([], { place with owned := false })
  | .deafen => some ([], { place with reader := .gone, events := [] })
  | .around change => some ([], place.around change)

/-- A worker that has just been set up, on any accelerator. -/
def fresh (bench : Bench δ) (config : ScanConfig) : Workplace δ := { bench := bench, config := config }

/-- A workplace can be reached from another one, with what was seen on the way, latest first. -/
inductive Reaches (start : Workplace δ) : Workplace δ → List Happening → Prop where
  | start : Reaches start start []
  | move {place next : Workplace δ} {past news : List Happening} (move : Move δ) :
    Reaches start place past → place.perform? move = some (news, next) →
    Reaches start next (news ++ past)

def follow : List (Move δ) → Workplace δ → List Happening → Option (Workplace δ × List Happening)
  | [], place, past => some (place, past)
  | move :: moves, place, past =>
    match place.perform? move with
    | some (news, next) => follow moves next (news ++ past)
    | none => none

theorem Reaches.follow {start place last : Workplace δ} {past whole : List Happening}
    {moves : List (Move δ)} (h : Reaches start place past)
    (hfollow : place.follow moves past = some (last, whole)) : Reaches start last whole := by
  induction moves generalizing place past with
  | nil =>
    simp only [Workplace.follow, Option.some.injEq, Prod.mk.injEq] at hfollow
    obtain ⟨rfl, rfl⟩ := hfollow
    exact h
  | cons move moves ih =>
    rcases hmove : place.perform? move with _ | ⟨news, next⟩
    · simp [Workplace.follow, hmove] at hfollow
    · simp only [Workplace.follow, hmove] at hfollow
      exact ih (.move move h hmove) hfollow

end Workplace

end NonceSearch
