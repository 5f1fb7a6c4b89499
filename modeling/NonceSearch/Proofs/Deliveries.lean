import NonceSearch.Proofs.Completions

/-!
# No completion is lost

A completion goes through four places: the core latches it, the interrupt waits on the line, a service
reads it, and the queue holds it until a reader comes. A service that was called too early finds
nothing and uses an interrupt up, but only one that was raised before the completion, so the one
raised with it is still there. `Rig.Awaited` says where a completion that the core still shows can be.
-/

namespace NonceSearch

namespace Rig

variable {config : CoreConfig}

/-! ### Where a completion can be -/

def Event.isLatched : Event → Bool
  | .latched _ => true
  | _ => false

def sinceLatched (past : List Event) : List Event := past.takeWhile fun event => !event.isLatched

/-- The result of the core has been pushed, and it is in the queue or a reader has taken it. -/
def Delivered (rig : Rig) (past : List Event) : Prop :=
  ∃ later earlier, sinceLatched past = later ++ .pushed (result rig.core) :: earlier ∧
    (result rig.core ∈ rig.driver.queue.messages ∨ .taken (result rig.core) ∈ later)

/-- Somebody is on the way to the result of the core, or has delivered it. -/
inductive Awaited (rig : Rig) (past : List Event) : Prop where
  | pending (h : 0 < rig.pending)
  | called (h : rig.called = true)
  | serving (rest : Bus (Option CompletionMessage)) (lock : rig.lock = some (.service rest))
    (unfinished : rest ≠ .done none)
  | delivered (h : Delivered rig past)

/-- What keeps completions from being lost, whatever has happened in a rig. -/
structure Attended (rig : Rig) (past : List Event) : Prop where
  counted : rig.taken ≤ rig.core.raised
  awaited : rig.core.status.isCompletion → Awaited rig past

/-! ### Moves while a completion stands -/

section Standing

variable {rig next : Rig} {past : List Event}

/-- What has been delivered stays delivered as long as the result stands and its message is not
    dropped. -/
theorem Delivered.later (h : Delivered rig past) (hresult : result next.core = result rig.core)
    {events : List Event} (hevents : ∀ event ∈ events, event.isLatched = false)
    (hqueue : result rig.core ∈ rig.driver.queue.messages →
      result rig.core ∈ next.driver.queue.messages ∨ .taken (result rig.core) ∈ events) :
    Delivered next (events ++ past) := by
  obtain ⟨later, earlier, hsplit, hwhere⟩ := h
  have hsince : sinceLatched (events ++ past) = events ++ sinceLatched past :=
    List.takeWhile_append_of_pos fun event hevent => by simp [hevents event hevent]
  refine ⟨events ++ later, earlier, by rw [hsince, hsplit, hresult, List.append_assoc], ?_⟩
  rw [hresult]
  rcases hwhere with hqueued | htaken
  · rcases hqueue hqueued with hstill | htaken
    · exact .inl hstill
    · exact .inr (List.mem_append_left _ htaken)
  · exact .inr (List.mem_append_right _ htaken)

/-- Nobody who is on the way to the result turns back. -/
theorem Awaited.later (h : Awaited rig past) (hresult : result next.core = result rig.core)
    {events : List Event} (hevents : ∀ event ∈ events, event.isLatched = false)
    (hqueue : result rig.core ∈ rig.driver.queue.messages →
      result rig.core ∈ next.driver.queue.messages ∨ .taken (result rig.core) ∈ events)
    (hraised : next.core.raised = rig.core.raised) (htaken : next.taken = rig.taken)
    (hcalled : next.called = rig.called)
    (hlock : ∀ rest, rig.lock = some (.service rest) → rest ≠ .done none → next.lock = rig.lock) :
    Awaited next (events ++ past) := by
  cases h with
  | pending h =>
    rw [Rig.pending, ← hraised, ← htaken] at h
    exact .pending h
  | called h => exact .called (hcalled.trans h)
  | serving rest lock unfinished =>
    exact .serving rest ((hlock rest lock unfinished).trans lock) unfinished
  | delivered h => exact .delivered (h.later hresult hevents hqueue)

end Standing

/-! ### The invariant -/

section Steps

variable {rig next : Rig} {past events : List Event} {move : Move}

/-- While the result stands, nobody turns back: the interrupt is taken, the service reads the result,
    and its message goes to the queue and from there to a reader. -/
theorem Awaited.step (h : Awaited rig past) (hsound : Sound config rig past)
    (hstep : Step config rig move next events) (hstatus : rig.core.status.isCompletion)
    (hresult : result next.core = result rig.core) (hraised : next.core.raised = rig.core.raised) :
    Awaited next (events ++ past) := by
  have hholding := hsound.holding
  have hcompletion : next.core.status.isCompletion := by
    have hbits : next.core.status = rig.core.status := congrArg CompletionMessage.flags hresult
    rwa [hbits]
  cases hstep with
  | elsewhere core lock queue taken called =>
    exact h.later hresult nofun (fun hqueued => .inl (by rwa [queue])) hraised taken called
      fun _ _ _ => lock
  | begins held free granted =>
    exact h.later hresult nofun .inl rfl rfl rfl fun rest hlock => by simp [free] at hlock
  | accesses lock unfinished access =>
    exact h.later hresult nofun .inl hraised rfl rfl fun rest hlock => by simp [lock] at hlock
  | @returns asked reply lock =>
    by_cases hasked : asked = .reset
    · subst hasked
      rw [lock] at hholding
      have hidle := hholding.idle_of_reset.of_completion hsound.consistent hstatus
      simp at hidle
    · have hdriver : rig.driver.finishRequest asked = rig.driver := by
        cases asked <;> first | rfl | exact absurd rfl hasked
      rw [if_neg hasked]
      exact h.later hresult nofun (fun hqueued => .inl (by rwa [hdriver])) rfl rfl rfl
        fun rest hlock => by simp [lock] at hlock
  | takes raised => exact .called rfl
  | answers called free =>
    refine .serving _ rfl fun hdone => ?_
    rw [Driver.service_eq] at hdone
    exact absurd hdone nofun
  | inspects lock unfinished access =>
    rw [lock] at hholding
    have hunfinished := (hholding.access_service hsound.consistent unfinished rig.now access).2.2.2
    exact .serving _ rfl (hunfinished hcompletion)
  | @reports report lock =>
    rw [lock] at hholding
    cases report with
    | none =>
      exact h.later hresult nofun .inl rfl rfl rfl
        fun rest hlock hrest => by simp [lock, hrest.symm] at hlock
    | some message =>
      obtain ⟨started, hreported⟩ := hholding.report
      obtain ⟨-, -, started', hstands⟩ :=
        hholding.epoch_of_report.of_completion hsound.consistent hstatus
      rw [hreported] at hstands
      obtain rfl : message = result rig.core := by simpa using And.left (List.cons.inj hstands)
      refine .delivered ⟨[], sinceLatched past, rfl, .inl ?_⟩
      exact List.mem_append_right _ (List.mem_singleton_self _)
  | @reads room message rest queue =>
    refine h.later hresult (by simp [Event.isLatched]) ?_ rfl rfl rfl fun _ _ _ => rfl
    intro hqueued
    rw [queue] at hqueued
    rcases List.mem_cons.mp hqueued with hfirst | hrest
    · exact .inr (by rw [hfirst]; exact List.mem_singleton_self _)
    · exact .inl hrest
  | unlocked drifts change hashing =>
    exact h.later hresult nofun .inl hraised rfl rfl fun _ _ _ => rfl
  | stalls => simp [Core.stall] at hcompletion

/-- An interrupt is taken off the line only if it has been raised, and while the core stands still. -/
theorem Step.taken_cases (hstep : Step config rig move next events) : next.taken = rig.taken ∨
    next.core = rig.core ∧ next.taken ≤ rig.core.raised := by
  cases hstep with
  | elsewhere core lock queue taken called => exact .inl taken
  | takes raised => exact .inr ⟨rfl, raised⟩
  | _ => exact .inl rfl

/-- Every step keeps the invariant: where a search ends, its interrupt is raised, and until then there
    is nothing to wait for. -/
theorem Attended.step (h : Attended rig past) (hsound : Sound config rig past)
    (hstep : Step config rig move next events) :
    Attended next (events ++ searchEvents rig.core next.core ++ past) := by
  have hraised : rig.core.raised ≤ next.core.raised := by
    rcases hsound.core_step hstep with hchange | ⟨-, hstall⟩ | ⟨-, -, hreset⟩
    · exact hchange.raised_le
    · rw [hstall]
      exact Nat.le_refl _
    · exact Nat.le_of_eq (by rw [hreset, Core.reset_raised])
  have hcounted := h.counted
  constructor
  · rcases hstep.taken_cases with hsame | ⟨hcore, htaken⟩
    · omega
    · rw [hcore]
      exact htaken
  · intro hcompletion
    rcases hsound.core_step hstep with hchange | ⟨-, hstall⟩ | ⟨-, -, hreset⟩
    · rcases raised_or_stands hsound.consistent hchange hcompletion with hnew
        | ⟨hstatus, hresult, hsame⟩
      · refine .pending ?_
        rcases hstep.taken_cases with htaken | ⟨hcore, -⟩
        · simp only [pending]
          omega
        · rw [hcore] at hnew
          exact absurd hnew (Nat.lt_irrefl _)
      · have hjob := hsound.consistent.job_of_completion hstatus
        have hjob' := (hchange.consistent hsound.consistent).job_of_completion hcompletion
        rw [searchEvents_of_job (by rw [hjob, hjob']), List.append_nil]
        exact (h.awaited hstatus).step hsound hstep hstatus hresult hsame
    · rw [hstall] at hcompletion
      simp [Core.stall] at hcompletion
    · rw [hreset, Core.reset_incomplete] at hcompletion
      exact absurd hcompletion (by decide)

end Steps

theorem Reached.attended {rig : Rig} {past : List Event} (h : Reached config rig past) :
    Attended rig past := by
  induction h with
  | bound => exact ⟨Nat.le_refl 0, fun hcompletion => absurd hcompletion (by decide)⟩
  | move move hreached ih => exact ih.step hreached.sound (act_step _ move)

/-- A history in which a search has ended last, since the last reset, with a message: what has happened
    since then, and before. -/
theorem split_of_searches {past : List Event} {message : CompletionMessage} {rest : List Event}
    (h : searches past = .latched message :: rest) :
    ∃ older, past = sinceLatched past ++ .latched message :: older := by
  induction past with
  | nil => simp at h
  | cons event past ih =>
    cases event with
    | started job => simp at h
    | latched latched =>
      obtain ⟨rfl⟩ : latched = message := by simpa using And.left (List.cons.inj h)
      exact ⟨past, rfl⟩
    | pushed pushed =>
      obtain ⟨older, hsplit⟩ := ih h
      exact ⟨older, congrArg (Event.pushed pushed :: ·) hsplit⟩
    | taken taken =>
      obtain ⟨older, hsplit⟩ := ih h
      exact ⟨older, congrArg (Event.taken taken :: ·) hsplit⟩
    | reset => simp at h

/-- **No completion is lost.** -/
theorem no_completion_is_lost {rig : Rig} {past : List Event} (h : Reached config rig past)
    (hover : rig.core.status = .found ∨ rig.core.status = .exhausted) :
    (∃ newer older, past = newer ++ .latched (result rig.core) :: older ∧
      (∀ message, .latched message ∉ newer) ∧
      (0 < rig.pending ∨ rig.inService ∨ ∃ later earlier,
        newer = later ++ .pushed (result rig.core) :: earlier ∧
          (result rig.core ∈ rig.driver.queue.messages ∨ .taken (result rig.core) ∈ later))) ∧
    (∀ move, result (rig.act config move).core = result rig.core ∨ move = .stall ∨
      move = .proceed ∧ rig.isResetting) := by
  have hstatus : rig.core.status.isCompletion := by rcases hover with h | h <;> simp [h]
  obtain ⟨-, hready, started, hsearches⟩ :=
    (h.sound.holding.epoch_of_completion hstatus).of_completion h.sound.consistent hstatus
  constructor
  · obtain ⟨older, hsplit⟩ := split_of_searches hsearches
    refine ⟨sinceLatched past, older, hsplit, ?_, ?_⟩
    · intro message hmember
      have hnot := List.all_eq_true.mp List.all_takeWhile _ hmember
      simp [Event.isLatched] at hnot
    · cases h.attended.awaited hstatus with
      | pending h => exact .inl h
      | called h => exact .inr (.inl (by simp [inService, h]))
      | serving rest lock unfinished => exact .inr (.inl (by simp [inService, lock]))
      | delivered h => exact .inr (.inr h)
  · intro move
    rcases h.sound.core_step (act_step rig move) with hchange | ⟨hmove, -⟩ | ⟨hmove, hresetting, -⟩
    · exact .inl (result_stands h.sound.consistent hchange hstatus hready)
    · exact .inr (.inl hmove)
    · exact .inr (.inr ⟨hmove, hresetting⟩)

/-! A service that was called for nothing reads the status just before the search ends. -/

def earlyService : Rig × List Event :=
  follow singleNonce
    [.acquire, .request .reset, .proceed, .proceed, .request .start, .proceed, .proceed,
      .search 1, .raiseSpurious, .serve, .serve, .serve, .search 1, .serve] {} []

theorem early_service_uses_up_another_interrupt :
    Reached singleNonce earlyService.1 earlyService.2 ∧ earlyService.1.driver.spurious = 1 ∧
      ∃ newer older, earlyService.2 = newer ++ .latched ⟨0x10, 0⟩ :: older ∧
        (0 < earlyService.1.pending ∨ earlyService.1.inService ∨ ∃ later earlier,
          newer = later ++ .pushed ⟨0x10, 0⟩ :: earlier) := by
  have hreached : Reached singleNonce earlyService.1 earlyService.2 := Reached.bound.follow _
  have hrun : earlyService.1.core.status = .found ∧ result earlyService.1.core = ⟨0x10, 0⟩ ∧
      earlyService.1.driver.spurious = 1 := by decide +kernel
  obtain ⟨⟨newer, older, hsplit, -, hwhere⟩, -⟩ := no_completion_is_lost hreached (.inl hrun.1)
  rw [hrun.2.1] at hsplit hwhere
  refine ⟨hreached, hrun.2.2, newer, older, hsplit, ?_⟩
  rcases hwhere with hpending | hservice | ⟨later, earlier, hpushed, -⟩
  · exact .inl hpending
  · exact .inr (.inl hservice)
  · exact .inr (.inr ⟨later, earlier, hpushed⟩)

end Rig

end NonceSearch
