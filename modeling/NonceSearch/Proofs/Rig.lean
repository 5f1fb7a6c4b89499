import Mathlib.Logic.Function.Basic
import NonceSearch.Core.Search
import NonceSearch.Core.Window
import NonceSearch.Driver.Basic

/-!
# A core and its driver, with everything that goes on at once

Around one core there are several threads. Whoever has the handle issues requests and reads
completions; the service thread takes interrupts off the line and serves them; and every run of the
core has a searcher. They meet at two locks. The core's own lock makes each register access, each look
of a searcher and each commit one moment. The driver's lock is held for a whole register program, from
its first access to its last effect on the queue, and anything that needs only the core's lock may
happen between two accesses: a searcher commits, a hook stalls or halts the core, and time passes.

A `Rig` is one state of all this, and a `Rig.Move` is the next moment of one thread; a thread that
cannot go on does nothing. So the interleavings are exactly the lists of moves. `Rig.Reached` keeps
beside a state what has happened on the way to it, latest first.
-/

namespace NonceSearch

/-- Who holds the driver's lock, and what is left of its register program. -/
inductive LockHolder where
  | request (asked : Request) (rest : Bus Reply)
  | service (rest : Bus (Option CompletionMessage))

/-- A core and its driver in the middle of everything. -/
structure Rig where
  core : Core := .powered
  driver : DriverState := {}
  now : Nat := 0
  lock : Option LockHolder := none
  /-- How many interrupts the service thread has taken off the line. -/
  taken : Nat := 0
  /-- Whether the service thread has taken an interrupt and waits for the lock. -/
  called : Bool := false
  /-- The job whose next batch the searcher of each run is hashing, if it is. -/
  hashing : Nat → Option Job := fun _ => none

namespace Rig

inductive Move where
  | pass (duration : Nat)
  /-- Somebody opens the handle. -/
  | acquire
  /-- The handle is given back. -/
  | release
  /-- Whoever has the handle gets the lock for a request. -/
  | request (asked : Request)
  /-- The request that holds the lock makes its next access, or its last effect. -/
  | proceed
  /-- The service thread goes on. -/
  | serve
  /-- The searcher of a run looks for a batch, or commits the one it has hashed. -/
  | search (run : Nat)
  /-- Whoever has the handle reads into a buffer with room for so many bytes, without waiting. -/
  | read (room : Nat)
  | raiseSpurious
  | stall
  | setHalted (halted : Bool)
  deriving DecidableEq

variable (config : CoreConfig)

def window (rig : Rig) : RegisterFile Core := Core.registerFile config rig.now

def pending (rig : Rig) : Nat := rig.core.raised - rig.taken

/-- Whether the service of an interrupt has begun and not ended. -/
def inService (rig : Rig) : Bool :=
  rig.called || match rig.lock with
    | some (.service _) => true
    | _ => false

/-- Whether a reset request has begun and not returned. -/
def isResetting (rig : Rig) : Bool :=
  match rig.lock with
  | some (.request .reset _) => true
  | _ => false

/-! ### Threads -/

/-- Begin a request, if the handle is open and the lock is free. One that the layout lacks takes no
    lock. -/
def beginRequest (asked : Request) (rig : Rig) : Rig :=
  match rig.driver.held, rig.lock, Driver.program config.layout asked with
  | true, none, .ok program => { rig with lock := some (.request asked program) }
  | _, _, _ => rig

def proceed (rig : Rig) : Rig :=
  match rig.lock with
  | some (.request asked (.done _)) =>
    { rig with lock := none, driver := rig.driver.finishRequest asked }
  | some (.request asked rest) =>
    let (rest, core) := rest.advance (rig.window config) rig.core
    { rig with core := core, lock := some (.request asked rest) }
  | _ => rig

/-- Let the service thread wait for an interrupt, or for the lock. -/
def answerCall (rig : Rig) : Rig :=
  if rig.called then
    match rig.lock with
    | none => { rig with called := false, lock := some (.service (Driver.service config.layout)) }
    | some _ => rig
  else if rig.taken < rig.core.raised then { rig with taken := rig.taken + 1, called := true }
  else rig

/-- Let the service thread go on. -/
def serve (rig : Rig) : Rig :=
  match rig.lock with
  | some (.service (.done message)) =>
    { rig with lock := none, driver := rig.driver.finishService message }
  | some (.service rest) =>
    let (rest, core) := rest.advance (rig.window config) rig.core
    { rig with core := core, lock := some (.service rest) }
  | _ => rig.answerCall config

/-- Let the searcher of a run go on. One that has retired finds nothing to do. -/
def search (run : Nat) (rig : Rig) : Rig :=
  match rig.hashing run with
  | none =>
    match rig.core.take run with
    | .batch job => { rig with hashing := Function.update rig.hashing run (some job) }
    | _ => rig
  | some job =>
    { rig with
      core := rig.core.commit config run job.next (Core.hashBatch config job)
      hashing := Function.update rig.hashing run none }

def act (move : Move) (rig : Rig) : Rig :=
  match move with
  | .pass duration => { rig with now := rig.now + duration }
  | .acquire => { rig with driver := rig.driver.openHandle.2 }
  | .release =>
    match rig.lock with
    | some (.request _ _) => rig
    | _ => { rig with driver := rig.driver.closeHandle }
  | .request asked => rig.beginRequest config asked
  | .proceed => rig.proceed config
  | .serve => rig.serve config
  | .search run => rig.search config run
  | .read room => if rig.driver.held then { rig with driver := (rig.driver.tryRead room).2 } else rig
  | .raiseSpurious => { rig with core := rig.core.raiseSpurious }
  | .stall => { rig with core := rig.core.stall }
  | .setHalted halted => { rig with core := rig.core.setHalted halted }

/-! ### What happens -/

inductive Event where
  /-- A search has started. -/
  | started (job : Job)
  /-- A search has ended, and this is its result. -/
  | latched (message : CompletionMessage)
  | pushed (message : CompletionMessage)
  /-- A reader has taken the message. -/
  | taken (message : CompletionMessage)
  /-- A reset request has returned. -/
  | reset
  deriving DecidableEq

/-- What a core reports: its status and its candidate. -/
def result (core : Core) : CompletionMessage := ⟨core.status.bits, core.nonceCandidate⟩

def searchEvents (core next : Core) : List Event :=
  match core.job, next.job with
  | none, some job => [.started job]
  | some _, none => if next.status.isCompletion then [.latched (result next)] else []
  | _, _ => []

/-- What a move does beside the search. -/
def driverEvents (move : Move) (rig : Rig) : List Event :=
  match move, rig.lock with
  | .proceed, some (.request .reset (.done _)) => [.reset]
  | .serve, some (.service (.done (some message))) => [.pushed message]
  | .read room, _ =>
    if rig.driver.held && room != 0 then
      match rig.driver.queue.messages with
      | message :: _ => [.taken message]
      | [] => []
    else []
  | _, _ => []

def events (move : Move) (rig : Rig) : List Event :=
  rig.driverEvents move ++ searchEvents rig.core (rig.act config move).core

/-- A rig can be reached from a core and a driver that have just been set up, and what has happened on
    the way, latest first. -/
inductive Reached : Rig → List Event → Prop where
  | bound : Reached {} []
  | move {rig : Rig} {past : List Event} (move : Move) :
    Reached rig past → Reached (rig.act config move) (rig.events config move ++ past)

def follow : List Move → Rig → List Event → Rig × List Event
  | [], rig, past => (rig, past)
  | move :: moves, rig, past => follow moves (rig.act config move) (rig.events config move ++ past)

variable {config} in
theorem Reached.follow {rig : Rig} {past : List Event}
    (h : Reached config rig past) (moves : List Move) :
    Reached config (follow config moves rig past).1 (follow config moves rig past).2 := by
  induction moves generalizing rig past with
  | nil => exact h
  | cons move moves ih => exact ih (.move move h)

end Rig

end NonceSearch
