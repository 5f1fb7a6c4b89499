import NonceSearch.Proofs.Rig
import NonceSearch.Scan.Machine

/-!
# A scan with everything that goes on around it

A trial is a scan that has a rig to itself: its requests go to the driver access by access, and
between any two accesses the service thread may run, and so may the searchers of all runs there have
been. Nobody touches the hooks.

The clock may go on between any two moves as well, in the middle of a call as much as while the scan
waits. How far it goes, and who does what in which order, is left to a schedule. `Fair` and `Prompt` say
what is asked of one: that nobody is kept waiting forever, that the service of an interrupt does not take
longer than the grace that the scan allows for it, and that the scan gets its answer in time when it asks
whether the core is ready.
-/

namespace NonceSearch

/-- What a rig does to meet a demand that was made at the moment `since`, and the answer when there is
    one. -/
def Rig.answer? (config : CoreConfig) (rig : Rig) (since : Nat) :
    (demand : Demand) → Rig × Option demand.Answer
  | .acquire => (rig.act config .acquire, some rig.driver.openHandle.1)
  | .request asked =>
    match Driver.program config.layout asked, rig.lock with
    | .error cause, _ => (rig, some (.error cause))
    | .ok _, none => (rig.act config (.request asked), none)
    | .ok _, some (.request _ (.done reply)) => (rig.act config .proceed, some (.ok reply))
    | .ok _, some (.request _ _) => (rig.act config .proceed, none)
    | .ok _, some (.service _) => (rig, none)
  | .readable timeout =>
    (rig, if rig.driver.queue.isReady then some (some (.ok ()))
      else if since + timeout ≤ rig.now then some none else none)
  | .tryRead =>
    (rig.act config (.read CompletionMessage.size),
      some (rig.driver.tryRead CompletionMessage.size).1)
  | .pause duration => (rig, if since + duration ≤ rig.now then some () else none)
  | .sense => (rig, some ())
  | .release => (rig.act config .release, some ())
  | .nothing => (rig, none)

/-- A scan, the rig that it uses, and when its present demand was made. -/
structure Trial where
  rig : Rig
  scan : Scan
  since : Nat

namespace Trial

inductive Move where
  | scan
  | serve
  | search (run : Nat)
  | pass (duration : Nat)
  deriving DecidableEq

def launch (rig : Rig) (device : String) (layout : RegisterLayout) (settings : ScanConfig)
    (work : WorkItem) : Trial where
  rig := rig
  scan := (Scan.launch device layout settings work).1
  since := rig.now

variable (config : CoreConfig)

/-- Let the scan go on. Its restart token does not fire. -/
def goOn (trial : Trial) : Trial :=
  match trial.rig.answer? config trial.since trial.scan.demand with
  | (rig, some answer) =>
    { rig := rig, scan := (trial.scan.resume ⟨rig.now, false⟩ answer).1, since := rig.now }
  | (rig, none) => { trial with rig := rig }

def act (move : Move) (trial : Trial) : Trial :=
  match move with
  | .scan => trial.goOn config
  | .serve => { trial with rig := trial.rig.act config .serve }
  | .search run => { trial with rig := trial.rig.act config (.search run) }
  | .pass duration => { trial with rig := trial.rig.act config (.pass duration) }

/-- The trial after the first moves of a schedule. -/
def run (schedule : Nat → Move) (start : Trial) : Nat → Trial
  | 0 => start
  | n + 1 => (run schedule start n).act config (schedule n)

/-- Nobody is kept waiting forever: every thread gets its turn again and again, and the clock goes on
    again and again. -/
structure Fair (schedule : Nat → Move) : Prop where
  scan : ∀ n, ∃ m, n ≤ m ∧ schedule m = .scan
  serve : ∀ n, ∃ m, n ≤ m ∧ schedule m = .serve
  search : ∀ run n, ∃ m, n ≤ m ∧ schedule m = .search run
  clock : ∀ n, ∃ m, n ≤ m ∧ ∃ duration, 0 < duration ∧ schedule m = .pass duration

/-- A trial in which the grace that the scan allows for the interrupts is over while one of them is
    still waiting or in service. -/
def overdue (trial : Trial) : Bool :=
  (trial.scan.phase matches .waiting true) && !trial.rig.driver.queue.isReady &&
    decide (trial.since + trial.scan.config.stopGrace ≤ trial.rig.now) &&
    (trial.rig.pending != 0 || trial.rig.inService)

/-- A trial in which a look whether the core is ready has taken longer than `lag`. -/
def tardy (lag : Nat) (trial : Trial) : Bool :=
  (trial.scan.phase matches .calling (.poll _)) && decide (trial.since + lag < trial.rig.now)

/-- No turn of the scan comes too late: the service of the interrupts keeps within the grace, and no
    look whether the core is ready takes longer than `lag`. -/
structure Prompt (lag : Nat) (schedule : Nat → Move) (start : Trial) : Prop where
  service : ∀ n, schedule n = .scan → (run config schedule start n).overdue = false
  look : ∀ n, schedule n = .scan → (run config schedule start n).tardy lag = false

end Trial

end NonceSearch
