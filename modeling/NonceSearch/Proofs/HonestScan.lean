import Mathlib
import NonceSearch.Scan.Run
import NonceSearch.Uint256.Lemmas

/-!
# What a scan finds is checked

Nothing that an accelerator says is taken on trust. A scan knows one work item only, and whatever nonce
it comes back with has been hashed again for that item, whatever the device answers and whenever
(`Scan.resume_honest`).
-/

namespace NonceSearch

/-! ### Outcomes -/

theorem WorkItem.meetsTarget_iff (work : WorkItem) (digest : Bytes 32) :
    work.meetsTarget digest = true ↔ digest.toNatLE < work.target.toNat := by
  rw [meetsTarget, decide_eq_true_iff, BitVec.lt_def, Uint256.toNat_ofBytesLE]

/-- A candidate is sound for a work item if its hash is that item's hash of the nonce, and if it is
    said to be a share exactly when that hash is below the item's target. -/
def Candidate.Sound (work : WorkItem) (candidate : Candidate) : Prop :=
  candidate.hash = work.hash candidate.nonce ∧ candidate.meetsTarget = work.meetsTarget candidate.hash

/-- An outcome is sound if its candidate is, should it have one. -/
def ScanOutcome.Sound (work : WorkItem) : ScanOutcome → Prop
  | .found candidate => candidate.Sound work
  | _ => True

theorem WorkItem.classify_sound (work : WorkItem) (message : CompletionMessage) :
    (work.classify message).Sound work := by
  unfold classify
  split
  · exact ⟨rfl, rfl⟩
  · split <;> trivial

def ScanPhase.outcome? : ScanPhase → Option ScanOutcome
  | .calling (.counter outcome) => some outcome
  | .closing report => some report.outcome
  | .ended (.ok report) => some report.outcome
  | _ => none

namespace Scan

/-- A scan is honest if the outcome that it has settled on, if any, is sound for its work item. -/
def Honest (scan : Scan) : Prop := ∀ outcome ∈ scan.phase.outcome?, outcome.Sound scan.work

def Step.HonestFor (work : WorkItem) (step : Step) : Prop := step.1.work = work ∧ step.1.Honest

variable {scan : Scan} {work : WorkItem}

theorem honest_of_unsettled (h : scan.phase.outcome? = none) : scan.Honest := by
  intro outcome houtcome
  simp [h] at houtcome

theorem conclude_honest {outcome : ScanOutcome} (h : outcome.Sound scan.work) :
    (scan.conclude outcome).HonestFor scan.work := by
  refine ⟨rfl, ?_⟩
  intro settled hsettled
  simp only [conclude, ScanPhase.outcome?, Option.mem_some_iff] at hsettled
  exact hsettled ▸ h

theorem enter_honest {call : ScanCall} (h : (ScanPhase.calling call).outcome? = none) :
    (scan.enter call).HonestFor scan.work := by
  simp only [enter]
  split
  · exact ⟨rfl, honest_of_unsettled h⟩
  · exact conclude_honest trivial

theorem noting_honest {notes : List Note} {step : Step} (h : step.HonestFor work) :
    (noting notes step).HonestFor work := h

theorem complete_honest (message : CompletionMessage) :
    (scan.complete message).HonestFor scan.work :=
  noting_honest (conclude_honest (scan.work.classify_sound message))

theorem unreadable_honest (cause : DeviceError) : (scan.unreadable cause).HonestFor scan.work := by
  unfold unreadable
  split
  · exact noting_honest (conclude_honest trivial)
  · exact conclude_honest trivial

theorem lapse_honest (last : Bool) (moment : Moment) :
    (scan.lapse last moment).HonestFor scan.work := by
  unfold lapse
  split
  · exact conclude_honest trivial
  · split
    · exact conclude_honest trivial
    · exact enter_honest rfl

theorem finish_honest {outcome : ScanOutcome} (counter : Except DeviceError Reply)
    (h : outcome.Sound scan.work) : (scan.finish outcome counter).HonestFor scan.work := by
  unfold finish
  split <;>
    · refine ⟨rfl, ?_⟩
      intro settled hsettled
      simp only [ScanPhase.outcome?, Option.mem_some_iff] at hsettled
      exact hsettled ▸ h

theorem proceed_honest {call : ScanCall} (answer : Reply) (moment : Moment)
    (hphase : scan.phase = .calling call) (h : scan.Honest) :
    (scan.proceed call answer moment).HonestFor scan.work := by
  cases call with
  | poll deadline =>
    simp only [proceed]
    split
    · split
      · exact noting_honest (enter_honest rfl)
      · split
        · exact conclude_honest trivial
        · split
          · exact conclude_honest trivial
          · exact ⟨rfl, honest_of_unsettled rfl⟩
    · exact ⟨rfl, h⟩
  | tick =>
    simp only [proceed]
    split
    · split <;> exact ⟨rfl, honest_of_unsettled rfl⟩
    · exact ⟨rfl, h⟩
  | counter outcome => exact finish_honest _ (h outcome (by simp [hphase, ScanPhase.outcome?]))
  | start => exact ⟨rfl, honest_of_unsettled rfl⟩
  | clock _ => exact enter_honest rfl
  | reset => exact enter_honest rfl
  | stateIn => exact enter_honest rfl
  | tail => exact enter_honest rfl
  | difficulty => exact enter_honest rfl

theorem called_honest {call : ScanCall} (reply : Except DeviceError Reply) (moment : Moment)
    (hphase : scan.phase = .calling call) (h : scan.Honest) :
    (scan.called call reply moment).HonestFor scan.work := by
  unfold called
  generalize (scan.sessionCall call).settle scan.session reply = settled
  obtain ⟨result, session⟩ := settled
  cases result with
  | ok answer => exact @proceed_honest { scan with session := session } call answer moment hphase h
  | error cause =>
    cases call with
    | counter outcome => exact finish_honest _ (h outcome (by simp [hphase, ScanPhase.outcome?]))
    | _ => exact conclude_honest trivial

theorem opened_honest (result : Except DeviceError Unit) :
    (scan.opened result).HonestFor scan.work := by
  unfold opened
  split
  · exact ⟨rfl, honest_of_unsettled rfl⟩
  · split <;> exact enter_honest rfl

theorem waited_honest (last : Bool) (result : Option (Except DeviceError Unit)) (moment : Moment) :
    (scan.waited last result moment).HonestFor scan.work := by
  unfold waited
  split
  · exact lapse_honest last moment
  · exact unreadable_honest _
  · exact ⟨rfl, honest_of_unsettled rfl⟩

theorem read_honest (last : Bool) (result : Except DeviceError (List UInt8)) (moment : Moment) :
    (scan.read last result moment).HonestFor scan.work := by
  unfold read
  split
  · exact complete_honest _
  · exact lapse_honest last moment
  · exact unreadable_honest _

/-- Whatever a scan is answered, it stays with its work item and stays honest. -/
theorem resume_honest (moment : Moment) (answer : scan.demand.Answer) (h : scan.Honest) :
    (scan.resume moment answer).HonestFor scan.work := by
  obtain ⟨device, layout, config, work, session, phase⟩ := scan
  cases phase with
  | opening => exact opened_honest _
  | calling call => exact called_honest _ moment rfl h
  | pausing deadline => exact enter_honest rfl
  | waiting last => exact waited_honest last _ moment
  | reading last => exact read_honest last _ moment
  | sensing => exact ⟨rfl, honest_of_unsettled rfl⟩
  | closing report => exact ⟨rfl, h⟩
  | ended result => exact ⟨rfl, h⟩

end Scan

/-- A step of a scan on a bench keeps its work item, and keeps it honest. -/
theorem ScanRun.step?_honest {δ : Type} {run next : ScanRun δ} (h : run.scan.Honest)
    (hstep : run.step? = some next) : next.scan.work = run.scan.work ∧ next.scan.Honest := by
  unfold step? at hstep
  split at hstep
  · exact absurd hstep nofun
  · simp only [Option.some.injEq] at hstep
    subst hstep
    exact Scan.resume_honest _ _ h

end NonceSearch
