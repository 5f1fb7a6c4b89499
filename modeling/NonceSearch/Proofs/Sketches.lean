import NonceSearch.Proofs.Parameters
import NonceSearch.Proofs.SessionOrder

/-!
# What the layouts have in common

A sketch is a session on a rig of which only that is kept which has nothing to do with the layout. The
registers of the parameters, the bank and its cursor are left out of the core (`Core.bare`), and of the
accesses to it those that load a parameter or select a bank: a load has its answer as soon as it has
the lock, and a start searches for what has been loaded by the requests before it. What is left goes by
a schedule of deals, one after another.
-/

namespace NonceSearch

/-! ### Calls and schedules -/

/-- What is loaded of a work item, by a call each. -/
inductive WorkItem.Part where
  | midstate
  | tail
  | difficulty
  deriving DecidableEq

/-- A call of a session, whatever the layout. -/
inductive Ask where
  | reset
  | status
  | load (part : WorkItem.Part) (work : WorkItem)
  | start
  | step
  | currentNonce
  deriving DecidableEq

namespace Ask

/-- The call on a layout, which has an encoding of its own for the difficulty. -/
def call (layout : RegisterLayout) : Ask → SessionCall
  | .reset => .reset
  | .status => .status
  | .load .midstate work => .setStateIn work.midstate
  | .load .tail work => .setTail work.tail
  | .load .difficulty work => .setDifficulty (layout.difficulty work.mask)
  | .start => .start
  | .step => .step
  | .currentNonce => .currentNonce

def request (layout : RegisterLayout) (ask : Ask) : Request := (ask.call layout).request

def loads : Ask → Bool
  | .load _ _ => true
  | _ => false

variable (ask : Ask) (layout : RegisterLayout) (state : SessionState)

/-- Whether a call is in turn has nothing to do with the layout, -/
theorem call_allowed : (ask.call layout).allowed state = (ask.call .count).allowed state := by
  cases ask with
  | load part work => cases part <;> rfl
  | _ => rfl

/-- nor has what is made of a reply, -/
theorem call_settle (result : Except DeviceError Reply) :
    (ask.call layout).settle state result = (ask.call .count).settle state result := by
  unfold SessionCall.settle
  cases ask with
  | load part work => cases part <;> rfl
  | _ => rfl

/-- nor what the request does to the queue. -/
theorem finishRequest_request (driver : DriverState) :
    driver.finishRequest (ask.request layout) = driver.finishRequest (ask.request .count) := by
  cases ask with
  | load part work =>
    cases part with
    | difficulty => cases layout <;> rfl
    | _ => rfl
  | _ => rfl

end Ask

/-- The next moment of a session on a rig, as far as it is the same for every layout. -/
inductive Deal where
  /-- Somebody makes a call. -/
  | ask (ask : Ask)
  /-- The call that is under way asks for the lock. -/
  | lock
  | proceed
  | serve
  | search (run : Nat)
  | pass (duration : Nat)
  | tryCompletion
  | raiseSpurious
  | setHalted (halted : Bool)
  deriving DecidableEq

/-! ### Cores without parameters -/

namespace Core

variable {config : CoreConfig} {core : Core} {now : Nat}

/-- A core with nothing in the registers that hold its parameters, and no bank selected. -/
def bare (core : Core) : Core :=
  { core with
    stateIn := .zero 32, tail := .zero 12, mask := .zero 32, zeroCount := 0, clock := 0
    bank := none, cursor := 0 }

/-- The search that ends between two states of a core with a nonce found, and the nonce. -/
def found? (core next : Core) : Option (Job × UInt32) :=
  match core.job, next.job with
  | some job, none => if next.status = .found then some (job, next.nonceCandidate) else none
  | _, _ => none

theorem found?_bare (core next : Core) : core.bare.found? next.bare = core.found? next := rfl

theorem found?_self (core : Core) : core.found? core = none := by
  unfold found?
  cases core.job <;> rfl

def begin (job : Job) (now : Nat) (core : Core) : Core :=
  let core := core.refresh now
  if core.status.isReady then
    { core with job := some job, status := .running, nonceCurrent := 0 }
  else core

theorem bare_refresh : (core.refresh now).bare = core.bare.refresh now := by
  unfold refresh bare
  dsimp only
  split
  · split <;> rfl
  · rfl

theorem bare_reset : (core.reset config now).bare = core.bare.reset config now := by
  unfold reset bare
  dsimp only
  split <;> rfl

theorem start_eq : core.start config now = core.begin (core.newJob config) now := by
  have hsame : (core.refresh now).newJob config = core.newJob config := by
    rw [newJob_eq, newJob_eq, refresh_parameters]
  unfold start begin
  rw [← hsame]
  rfl

theorem bare_begin (job : Job) : (core.begin job now).bare = core.bare.begin job now := by
  unfold begin
  rw [← bare_refresh]
  dsimp only
  rw [apply_ite bare]
  rfl

theorem bare_conclude (nonce : UInt32) (accepted : Bool) :
    (core.conclude config nonce accepted).bare = core.bare.conclude config nonce accepted := by
  obtain ⟨_, _, _, _, _, _, _, _, _, _, _, job, _, _, _⟩ := core
  cases job with
  | none => rfl
  | some job =>
    simp only [conclude, bare]
    split
    · rfl
    · split <;> rfl

theorem bare_step : (core.step config).bare = core.bare.step config := by
  unfold step
  have hjob : core.bare.job = core.job := rfl
  rw [hjob]
  split
  · rfl
  · have hhalted : core.bare.halted = core.halted := rfl
    have hstatus : core.bare.status = core.status := rfl
    rw [hhalted, hstatus, apply_ite bare, bare_conclude]

theorem bare_commit (run start : Nat) (hit : Option UInt32) :
    (core.commit config run start hit).bare = core.bare.commit config run start hit := by
  unfold commit
  have hrun : core.bare.run = core.run := rfl
  have hjob : core.bare.job = core.job := rfl
  rw [hrun, hjob, apply_ite bare]
  cases hit <;> simp only [bare_conclude]

/-- A read notices that a reset is over, and does nothing else that the layouts have in common. -/
theorem bare_read (word : Nat) : (core.read config now word).2.bare = core.bare.refresh now := by
  rw [← bare_refresh]
  rcases @read_snd config core now word with h | h
  · rw [h]
  · rw [h]
    rfl

end Core

namespace Rig

/-- A rig without what depends on the layout. -/
def bare (rig : Rig) : Rig := { rig with core := rig.core.bare, lock := none }

/-- The moves that go by no register. -/
def Move.offBus : Move → Bool
  | .pass _ | .search _ | .read _ | .raiseSpurious | .setHalted _ => true
  | _ => false

theorem bare_act {config : CoreConfig} {move : Move} (h : move.offBus = true) (rig : Rig) :
    (rig.act config move).bare = rig.bare.act config move := by
  cases move with
  | pass duration => rfl
  | raiseSpurious => rfl
  | setHalted halted => rfl
  | read room =>
    simp only [act]
    have hdriver : rig.bare.driver = rig.driver := rfl
    rw [hdriver, apply_ite bare]
    rfl
  | search run =>
    have hhashing : rig.bare.hashing = rig.hashing := rfl
    have htake : rig.bare.core.take run = rig.core.take run := rfl
    simp only [act, search, hhashing, htake]
    split
    · split <;> rfl
    · simp only [bare, Core.bare_commit]
  | _ => cases h

end Rig

/-! ### Sketches -/

/-- Who has the driver's lock, and what comes next. -/
inductive Holder where
  | asking (ask : Ask)
  | answered (ask : Ask) (reply : Reply)
  /-- A service is about to read the status, -/
  | looking
  /-- or the nonce that goes with it, -/
  | latching (status : UInt32)
  /-- or to let the core run, -/
  | releasing (message : CompletionMessage)
  /-- or is over. -/
  | reporting (report : Option CompletionMessage)
  deriving DecidableEq

/-- A session on a rig, as far as it has nothing to do with the layout. -/
structure Sketch where
  rig : Rig
  holder : Option Holder := none
  state : SessionState := .unknown
  errand : Option Ask := none
  /-- The calls whose requests have been carried out, latest first. -/
  carriedOut : List Ask := []
  /-- What has come of calls and reads, latest first. -/
  results : List Session.Outcome := []
  /-- The nonces that have been found, each with its search, latest first. -/
  finds : List (Job × UInt32) := []

namespace Sketch

variable (config : CoreConfig)

def fresh : Sketch := { rig := { driver := { held := true } } }

/-- Take on a call, or refuse it if it is out of turn. -/
def take (ask : Ask) (sketch : Sketch) : Sketch :=
  let call := ask.call config.layout
  if sketch.errand.isSome then sketch
  else if call.allowed sketch.state then { sketch with errand := some ask }
  else { sketch with results := .answer (.error (call.refusal sketch.state)) :: sketch.results }

def lock (sketch : Sketch) : Sketch :=
  match sketch.errand, sketch.rig.driver.held, sketch.holder with
  | some ask, true, none =>
    { sketch with holder := some (if ask.loads then .answered ask .done else .asking ask) }
  | _, _, _ => sketch

def newJob (sketch : Sketch) : Job :=
  (Parameters.after (sketch.carriedOut.map (Ask.request config.layout))).newJob config.layout

def access (ask : Ask) (sketch : Sketch) : Reply × Core :=
  let core := sketch.rig.core
  let seen := core.refresh sketch.rig.now
  match ask with
  | .reset => (.done, core.reset config sketch.rig.now)
  | .start => (.done, core.begin (sketch.newJob config) sketch.rig.now)
  | .step => (.done, core.step config)
  | .status => (.word seen.status.bits, seen)
  | .currentNonce => (.word seen.nonceCurrent, seen)
  | .load _ _ => (.done, core)

def proceed (sketch : Sketch) : Sketch :=
  match sketch.holder with
  | some (.asking ask) =>
    let (reply, core) := sketch.access config ask
    { sketch with
      rig := { sketch.rig with core := core }
      holder := some (.answered ask reply) }
  | some (.answered ask reply) =>
    let call := ask.call config.layout
    let (result, state) := call.settle sketch.state (.ok reply)
    { sketch with
      rig := { sketch.rig with driver := sketch.rig.driver.finishRequest (ask.request config.layout) }
      holder := none
      state := state
      errand := none
      carriedOut := ask :: sketch.carriedOut
      results := .answer result :: sketch.results }
  | _ => sketch

def answerCall (sketch : Sketch) : Sketch :=
  if sketch.rig.called then
    match sketch.holder with
    | none => { sketch with rig := { sketch.rig with called := false }, holder := some .looking }
    | some _ => sketch
  else if sketch.rig.taken < sketch.rig.core.raised then
    { sketch with rig := { sketch.rig with taken := sketch.rig.taken + 1, called := true } }
  else sketch

def serve (sketch : Sketch) : Sketch :=
  let core := sketch.rig.core
  let seen := core.refresh sketch.rig.now
  match sketch.holder with
  | some .looking =>
    { sketch with
      rig := { sketch.rig with core := seen }
      holder := some (if seen.status.isCompletion then .latching seen.status.bits
        else .reporting none) }
  | some (.latching status) =>
    { sketch with
      rig := { sketch.rig with core := seen }
      holder := some (.releasing ⟨status, seen.nonceCandidate⟩) }
  | some (.releasing message) =>
    { sketch with
      rig := { sketch.rig with core := core.setHalted false }
      holder := some (.reporting (some message)) }
  | some (.reporting report) =>
    { sketch with
      rig := { sketch.rig with driver := sketch.rig.driver.finishService report }
      holder := none }
  | _ => sketch.answerCall

/-- Have the rig do something that goes by no register. -/
def moveRig (move : Rig.Move) (sketch : Sketch) : Sketch :=
  { sketch with rig := sketch.rig.act config move }

def tryCompletion (sketch : Sketch) : Sketch :=
  let (result, _) := sketch.rig.driver.tryRead CompletionMessage.size
  { sketch.moveRig config (.read CompletionMessage.size) with
    results := .message (completionOf result) :: sketch.results }

def advance (deal : Deal) (sketch : Sketch) : Sketch :=
  match deal with
  | .ask ask => sketch.take config ask
  | .lock => sketch.lock
  | .proceed => sketch.proceed config
  | .serve => sketch.serve
  | .search run => sketch.moveRig config (.search run)
  | .pass duration => sketch.moveRig config (.pass duration)
  | .tryCompletion => sketch.tryCompletion config
  | .raiseSpurious => sketch.moveRig config .raiseSpurious
  | .setHalted halted => sketch.moveRig config (.setHalted halted)

def act (deal : Deal) (sketch : Sketch) : Sketch :=
  let next := sketch.advance config deal
  { next with finds := (sketch.rig.core.found? next.rig.core).toList ++ sketch.finds }

theorem lock_results (sketch : Sketch) : sketch.lock.results = sketch.results := by
  unfold lock
  split <;> rfl

theorem serve_results (sketch : Sketch) : sketch.serve.results = sketch.results := by
  unfold serve answerCall
  dsimp only
  split
  · rfl
  · rfl
  · rfl
  · rfl
  · split
    · split <;> rfl
    · split <;> rfl

def run : List Deal → Sketch
  | [] => fresh
  | deal :: earlier => (run earlier).act config deal

end Sketch

end NonceSearch
