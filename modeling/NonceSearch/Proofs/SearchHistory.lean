import NonceSearch.Proofs.CoreSteps
import NonceSearch.Proofs.Rig

/-!
# What the history of a rig says about its core

Between two resets there is at most one search, so all that has happened to searches since the last
reset that returned is: nothing, a start, or a start and an end. `Rig.Epoch` says which of these goes
with which state of the core; every change of the core keeps it.
-/

namespace NonceSearch

namespace Rig

/-! ### Histories -/

def Event.isSearch : Event → Bool
  | .started _ | .latched _ => true
  | _ => false

/-- The starts and ends of searches since the last reset that has returned, latest first. -/
def searches (past : List Event) : List Event :=
  (past.takeWhile (· != .reset)).filter Event.isSearch

@[simp] theorem searches_nil : searches [] = [] := rfl

@[simp] theorem searches_reset (past : List Event) : searches (.reset :: past) = [] := rfl

@[simp] theorem searches_started (job : Job) (past : List Event) :
    searches (.started job :: past) = .started job :: searches past := rfl

@[simp] theorem searches_latched (message : CompletionMessage) (past : List Event) :
    searches (.latched message :: past) = .latched message :: searches past := rfl

@[simp] theorem searches_pushed (message : CompletionMessage) (past : List Event) :
    searches (.pushed message :: past) = searches past := rfl

@[simp] theorem searches_taken (message : CompletionMessage) (past : List Event) :
    searches (.taken message :: past) = searches past := rfl

@[simp] theorem searches_searchEvents (core next : Core) (past : List Event) :
    searches (searchEvents core next ++ past) = searchEvents core next ++ searches past := by
  unfold searchEvents
  split
  · rfl
  · split <;> rfl
  · rfl

theorem searchEvents_cases (core next : Core) : searchEvents core next = [] ∨
    (∃ job, core.job = none ∧ next.job = some job ∧ searchEvents core next = [.started job]) ∨
    searchEvents core next = [.latched (result next)] := by
  unfold searchEvents
  split
  · next job hcore hnext => exact .inr (.inl ⟨job, hcore, hnext, rfl⟩)
  · split
    · exact .inr (.inr rfl)
    · exact .inl rfl
  · exact .inl rfl

/-- Nothing happens to the search of a core that stays without a job, or keeps one. -/
theorem searchEvents_of_job {core next : Core} (h : next.job.isSome = core.job.isSome) :
    searchEvents core next = [] := by
  unfold searchEvents
  split
  · next hcore hnext => simp [hcore, hnext] at h
  · next hcore hnext => simp [hcore, hnext] at h
  · rfl

@[simp] theorem searchEvents_self (core : Core) : searchEvents core core = [] := searchEvents_of_job rfl

/-! ### Epochs -/

/-- What has happened to searches since the last reset, latest first, and the core that goes with it. -/
inductive Epoch (core : Core) : List Event → Prop where
  | idle (job : core.job = none) (status : core.status.isCompletion = false) : Epoch core []
  | searching (started : Job) (job : core.job.isSome) : Epoch core [.started started]
  /-- A stall has ended the search. -/
  | broken (started : Job) (job : core.job = none) (readyAt : core.readyAt = none)
    (status : core.status = .empty) : Epoch core [.started started]
  /-- The result stands until a stall takes the status. -/
  | concluded (started : Job) (message : CompletionMessage) (job : core.job = none)
    (readyAt : core.readyAt = none) (completion : message.flags.isCompletion)
    (result : result core = message ∨ core.status = .empty ∧ core.nonceCandidate = message.nonce) :
    Epoch core [.latched message, .started started]

/-- What a core has reported stays until it is reset. -/
theorem Epoch.candidate {core : Core} {message : CompletionMessage} {started : Job}
    (h : Epoch core [.latched message, .started started]) :
    core.nonceCandidate = message.nonce := by
  cases h with
  | concluded started message job readyAt completion hresult =>
    rcases hresult with hsame | ⟨-, hnonce⟩
    · rw [← hsame]
      rfl
    · exact hnonce

/-- A search that has ended leaves no job behind, and the core is not ready. -/
theorem Epoch.shown {core : Core} {message : CompletionMessage} {started : Job}
    (h : Epoch core [.latched message, .started started]) :
    core.job = none ∧ core.readyAt = none ∧ (core.status.isCompletion ∨ core.status = .empty) := by
  cases h with
  | concluded started message job readyAt completion hresult =>
    refine ⟨job, readyAt, ?_⟩
    rcases hresult with hsame | ⟨hempty, -⟩
    · rw [← hsame] at completion
      exact .inl completion
    · exact .inr hempty

/-- A core that shows the end of a search shows its result. -/
theorem Epoch.of_completion {core : Core} {history : List Event} (h : Epoch core history)
    (hcore : core.Consistent) (hstatus : core.status.isCompletion) : core.job = none ∧
      core.readyAt = none ∧ ∃ started, history = [.latched (result core), .started started] := by
  have hempty : core.status ≠ .empty := by
    intro hempty
    rw [hempty] at hstatus
    exact absurd hstatus (by decide)
  cases h with
  | idle job status => exact absurd hstatus (by simp [status])
  | searching started job =>
    rw [hcore.running.mp job] at hstatus
    exact absurd hstatus (by decide)
  | broken started job readyAt status => exact absurd status hempty
  | concluded started message job readyAt completion hresult =>
    rcases hresult with hsame | ⟨hnone, -⟩
    · exact ⟨job, readyAt, started, by rw [hsame]⟩
    · exact absurd hnone hempty

section Changes

variable {core next : Core} {history : List Event}

/-- An epoch is about no more than the job, the readiness and the result of a core. -/
theorem Epoch.same (h : Epoch core history) (hjob : next.job = core.job)
    (hready : next.readyAt = core.readyAt) (hstatus : next.status = core.status)
    (hcandidate : next.nonceCandidate = core.nonceCandidate) : Epoch next history := by
  cases h with
  | idle job status => exact .idle (hjob.trans job) (by rw [hstatus]; exact status)
  | searching started job => exact .searching started (by rw [hjob]; exact job)
  | broken started job readyAt status =>
    exact .broken started (hjob.trans job) (hready.trans readyAt) (hstatus.trans status)
  | concluded started message job readyAt completion hresult =>
    refine .concluded started message (hjob.trans job) (hready.trans readyAt) completion ?_
    rw [result, hstatus, hcandidate]
    exact hresult

/-- Once a search has been started, the core does not become ready before it is reset. -/
theorem Epoch.not_ready (h : Epoch core history) (hcore : core.Consistent) (hstarted : history ≠ []) :
    core.readyAt = none ∧ core.status ≠ .ready := by
  cases h with
  | idle => exact absurd rfl hstarted
  | searching started job =>
    refine ⟨hcore.readyAt_of_job job, ?_⟩
    rw [hcore.running.mp job]
    decide
  | broken started job readyAt status => exact ⟨readyAt, by rw [status]; decide⟩
  | concluded started message job readyAt completion hresult =>
    refine ⟨readyAt, fun hready => ?_⟩
    rcases hresult with hsame | ⟨hnone, -⟩
    · have hbits : message.flags = core.status := by rw [← hsame]; rfl
      rw [hbits, hready] at completion
      exact absurd completion (by decide)
    · rw [hready] at hnone
      exact absurd hnone (by decide)

/-- A change of the core and what has happened with it begin the next entry of the history. -/
theorem Epoch.change (h : Epoch core history) (hcore : core.Consistent) (hchange : core.Change next) :
    Epoch next (searchEvents core next ++ history) := by
  cases hchange with
  | kept hsame =>
    rw [searchEvents_of_job (by rw [hsame.job])]
    exact h.same hsame.job hsame.readyAt hsame.status hsame.nonceCandidate
  | called hsame =>
    rw [searchEvents_of_job (by rw [hsame.job]; rfl)]
    exact h.same hsame.job hsame.readyAt hsame.status hsame.nonceCandidate
  | readied hpending hsame =>
    have hjob := hcore.job_of_resetting hpending
    rw [searchEvents_of_job (by rw [hsame.job])]
    have hnone : history = [] := by
      by_contra hstarted
      rw [(h.not_ready hcore hstarted).1] at hpending
      exact absurd hpending (by decide)
    rw [hnone]
    exact .idle (hsame.job.trans hjob) (by simp [hsame.status])
  | started job hready hsame =>
    have hnone : history = [] := by
      by_contra hstarted
      obtain ⟨hreadyAt, hstatus⟩ := h.not_ready hcore hstarted
      rcases hready with hready | hready
      · exact hstatus hready
      · rw [hreadyAt] at hready
        exact absurd hready (by decide)
    subst hnone
    cases h with
    | idle hjob status =>
      have hevents : searchEvents core next = [.started job] := by
        simp [searchEvents, hjob, hsame.job]
      rw [hevents]
      exact .searching job (by rw [hsame.job]; rfl)
  | advanced job reached current hsearching hsame =>
    rw [searchEvents_of_job (by rw [hsame.job, hsearching]; rfl)]
    cases h with
    | idle hjob => rw [hjob] at hsearching; exact absurd hsearching nofun
    | searching started => exact .searching started (by rw [hsame.job]; rfl)
    | broken started hjob => rw [hjob] at hsearching; exact absurd hsearching nofun
    | concluded started message hjob => rw [hjob] at hsearching; exact absurd hsearching nofun
  | ended job outcome current candidate hsearching houtcome hsame =>
    have hcompletion : next.status.isCompletion := by
      rcases houtcome with rfl | rfl <;> simp [hsame.status]
    have hevents : searchEvents core next = [.latched (result next)] := by
      simp [searchEvents, hsearching, hsame.job, hcompletion]
    rw [hevents]
    cases h with
    | idle hjob => rw [hjob] at hsearching; exact absurd hsearching nofun
    | searching started =>
      have hreadyAt := (Epoch.searching started (by rw [hsearching]; rfl)).not_ready hcore (by simp)
      exact .concluded started _ hsame.job (hsame.readyAt.trans hreadyAt.1) hcompletion (.inl rfl)
    | broken started hjob => rw [hjob] at hsearching; exact absurd hsearching nofun
    | concluded started message hjob => rw [hjob] at hsearching; exact absurd hsearching nofun

/-- A stall ends a search without a result, and takes away a result that was there. -/
theorem Epoch.stall (h : Epoch core history) (hcore : core.Consistent) :
    Epoch core.stall (searchEvents core core.stall ++ history) := by
  have hevents : searchEvents core core.stall = [] := by
    unfold searchEvents
    split
    · next hnext => exact absurd hnext nofun
    · simp [Core.stall]
    · rfl
  rw [hevents]
  cases h with
  | idle job status => exact .idle rfl Status.isCompletion_empty
  | searching started job =>
    have hreadyAt := (Epoch.searching started job).not_ready hcore (by simp)
    exact .broken started rfl hreadyAt.1 rfl
  | broken started job readyAt status => exact .broken started rfl readyAt rfl
  | concluded started message job readyAt completion hresult =>
    have hcandidate := (Epoch.concluded started message job readyAt completion hresult).candidate
    exact .concluded started message rfl readyAt completion (.inr ⟨rfl, hcandidate⟩)

/-- A change that leaves a core at the end of a search has raised the interrupt for it, or has found the
    core there. -/
theorem raised_or_stands (hcore : core.Consistent)
    (hchange : core.Change next) (hnext : next.status.isCompletion) :
    core.raised < next.raised ∨ core.status.isCompletion ∧ result next = result core ∧
      next.raised = core.raised := by
  cases hchange with
  | kept hsame =>
    rw [hsame.status] at hnext
    exact .inr ⟨hnext, by rw [result, hsame.status, hsame.nonceCandidate]; rfl, hsame.raised⟩
  | called hsame =>
    left
    rw [hsame.raised]
    exact Nat.lt_succ_self _
  | readied hpending hsame =>
    simp [hsame.status] at hnext
  | started job hready hsame =>
    simp [hsame.status] at hnext
  | advanced job reached current hsearching hsame =>
    have hrunning : core.status = .running := hcore.running.mp (by rw [hsearching]; rfl)
    simp [hsame.status, hrunning] at hnext
  | ended job outcome current candidate hsearching houtcome hsame =>
    left
    rw [hsame.raised]
    exact Nat.lt_succ_self _

/-- A search has ended where the core comes to show a completion. -/
theorem searchEvents_of_completion (hchange : core.Change next)
    (hbefore : core.status.isCompletion = false) (hnext : next.status.isCompletion) :
    searchEvents core next = [.latched (result next)] := by
  have hstatus : next.status ≠ core.status := by
    intro hsame
    rw [hsame, hbefore] at hnext
    exact absurd hnext (by decide)
  cases hchange with
  | kept hsame => exact absurd hsame.status hstatus
  | called hsame => exact absurd hsame.status hstatus
  | readied hpending hsame => simp [hsame.status] at hnext
  | started job hready hsame => simp [hsame.status] at hnext
  | advanced job reached current hsearching hsame => exact absurd hsame.status hstatus
  | ended job outcome current candidate hsearching houtcome hsame =>
    simp [searchEvents, hsearching, hsame.job, hnext]

/-- The result of a search stands until the core is stalled or reset. -/
theorem result_stands (hcore : core.Consistent) (hchange : core.Change next)
    (hstatus : core.status.isCompletion) (hready : core.readyAt = none) :
    result next = result core := by
  have hjob := hcore.job_of_completion hstatus
  cases hchange with
  | kept hsame => rw [result, hsame.status, hsame.nonceCandidate]; rfl
  | called hsame => rw [result, hsame.status, hsame.nonceCandidate]; rfl
  | readied hpending hsame => simp [hready] at hpending
  | started job hstart hsame =>
    rcases hstart with hstart | hstart
    · simp [hstart] at hstatus
    · simp [hready] at hstart
  | advanced job reached current hsearching hsame => simp [hjob] at hsearching
  | ended job outcome current candidate hsearching houtcome hsame => simp [hjob] at hsearching

end Changes

end Rig

end NonceSearch
