import NonceSearch.Proofs.RegisterPrograms
import NonceSearch.Proofs.RigSteps
import NonceSearch.Proofs.SearchHistory

/-!
# No completion crosses a reset

An interrupt is only a call to look: its service reads the status and then the candidate, and meanwhile
the core may be stalled and its searchers may commit. What keeps old results out of the queue is the
driver's lock. Whoever holds it is in one of the situations of `Rig.Holding`, and only a reset, between
clearing the core and flushing the queue, has the one out of step with the other.
-/

namespace NonceSearch

namespace Rig

variable {config : CoreConfig}

/-! ### Who holds the lock -/

variable (config) in
/-- What the holder of the driver's lock may have left to do, with the core and the searches since the
    last reset that has returned. -/
inductive Holding (core : Core) : List Event → Option LockHolder → Prop where
  | free {history : List Event} (epoch : Epoch core history) : Holding core history none
  | request {history : List Event} {asked : Request} {rest : Bus Reply} (other : asked ≠ .reset)
    (writes : rest.Writes fun word value => ¬ Core.isReset config.layout word value)
    (epoch : Epoch core history) : Holding core history (some (.request asked rest))
  /-- The reset command is yet to be given. -/
  | resetting {history : List Event} (epoch : Epoch core history) :
    Holding core history
      (some (.request .reset (.write (Driver.commandWord config.layout) Control.reset (.done .done))))
  /-- The core has been reset, and the queue is yet to be flushed. -/
  | reset {history : List Event} {reply : Reply} (job : core.job = none)
    (status : core.status.isCompletion = false) (short : history.length ≤ 2) :
    Holding core history (some (.request .reset (.done reply)))
  /-- The status is yet to be read. -/
  | looking {history : List Event} (epoch : Epoch core history) :
    Holding core history (some (.service (Driver.service config.layout)))
  | spurious {history : List Event} (epoch : Epoch core history) :
    Holding core history (some (.service (.done none)))
  /-- The service is bound to report what the search has brought out. -/
  | reporting {message : CompletionMessage} {started : Job} {rest : Bus (Option CompletionMessage)}
    (writes : rest.Writes fun word value => ¬ Core.isReset config.layout word value)
    (secures : rest.Secures config (fun _ => True) Core.Drifts
      (fun report _ => report = some message) core)
    (epoch : Epoch core [.latched message, .started started]) :
    Holding core [.latched message, .started started] (some (.service rest))

theorem Epoch.length_le {core : Core} {history : List Event} (h : Epoch core history) :
    history.length ≤ 2 := by
  cases h <;> simp

theorem Holding.length_le {core : Core} {history : List Event} {lock : Option LockHolder}
    (h : Holding config core history lock) : history.length ≤ 2 := by
  cases h with
  | free epoch => exact epoch.length_le
  | request other writes epoch => exact epoch.length_le
  | resetting epoch => exact epoch.length_le
  | reset job status short => exact short
  | looking epoch => exact epoch.length_le
  | spurious epoch => exact epoch.length_le
  | reporting writes secures epoch => exact epoch.length_le

section Holders

variable {core : Core} {history : List Event}

theorem Holding.epoch_of_free (h : Holding config core history none) : Epoch core history := by
  cases h
  assumption

theorem Holding.epoch_of_done {asked : Request} {reply : Reply}
    (h : Holding config core history (some (.request asked (.done reply)))) (hasked : asked ≠ .reset) :
    Epoch core history := by
  cases h with
  | request other writes epoch => exact epoch
  | reset job status short => exact absurd rfl hasked

theorem Holding.idle_of_reset {reply : Reply}
    (h : Holding config core history (some (.request .reset (.done reply)))) : Epoch core [] := by
  cases h with
  | request other writes epoch => exact absurd rfl other
  | reset job status short => exact .idle job status

theorem Holding.epoch_of_report {report : Option CompletionMessage}
    (h : Holding config core history (some (.service (.done report)))) : Epoch core history := by
  cases h with
  | spurious epoch => exact epoch
  | reporting writes secures epoch => exact epoch

theorem Holding.epoch_of_completion {lock : Option LockHolder}
    (h : Holding config core history lock) (hstatus : core.status.isCompletion) :
    Epoch core history := by
  cases h with
  | reset job status short => simp [status] at hstatus
  | _ => assumption

/-- What a service reports is what the search since the last reset has brought out. -/
theorem Holding.report {message : CompletionMessage}
    (h : Holding config core history (some (.service (.done (some message))))) :
    ∃ started, history = [.latched message, .started started] := by
  cases h with
  | reporting writes secures epoch =>
    obtain rfl := Option.some.inj (secures core (.refl core))
    exact ⟨_, rfl⟩

end Holders

/-! ### What keeps the situation -/

/-- Nothing begins on a core that has no job, unless the driver's lock is held. -/
theorem searchEvents_of_drifts {core next : Core} (h : core.Drifts next) (hjob : core.job = none) :
    searchEvents core next = [] :=
  searchEvents_of_job (by rw [hjob, (h.idle hjob).1])

/-- Whatever the searchers and the hooks do, the holder of the lock stays in the same situation. -/
theorem Holding.drift {core next : Core} {history : List Event} {lock : Option LockHolder}
    (h : Holding config core history lock) (hdrifts : core.Drifts next)
    (hepoch : Epoch core history → Epoch next (searchEvents core next ++ history)) :
    Holding config next (searchEvents core next ++ history) lock := by
  cases h with
  | free epoch => exact .free (hepoch epoch)
  | request other writes epoch => exact .request other writes (hepoch epoch)
  | resetting epoch => exact .resetting (hepoch epoch)
  | reset job status short =>
    rw [searchEvents_of_drifts hdrifts job]
    obtain ⟨hjob, -, hstatus⟩ := hdrifts.idle job
    refine .reset hjob ?_ short
    rcases hstatus with hsame | hempty
    · rw [hsame]
      exact status
    · rw [hempty]
      exact Status.isCompletion_empty
  | looking epoch => exact .looking (hepoch epoch)
  | spurious epoch => exact .spurious (hepoch epoch)
  | reporting writes secures epoch =>
    have hjob : core.job = none := by cases epoch; assumption
    have hnext := hepoch epoch
    rw [searchEvents_of_drifts hdrifts hjob] at hnext ⊢
    exact .reporting writes (secures.drift (fun _ _ _ => .trans) hdrifts) hnext

/-- A reset ends a search without a result. -/
theorem searchEvents_reset (core : Core) (now : Nat) :
    searchEvents core (core.reset config now) = [] := by
  unfold searchEvents
  rw [Core.reset_search.1, Core.reset_incomplete]
  split <;> simp_all

/-- A history that is as long as it gets is not made longer. -/
theorem Holding.closed {core : Core} {events history : List Event} {lock : Option LockHolder}
    (h : Holding config core (events ++ history) lock) (hhistory : history.length = 2) :
    events = [] := by
  have hlength := h.length_le
  rw [List.length_append] at hlength
  exact List.length_eq_zero_iff.mp (by omega)

section Accesses

variable {core : Core} {history : List Event}

/-- An access of a program that does not reset the core. -/
theorem access_spec {α : Type} {rest left : Bus α} {next : Core} {now : Nat}
    (hwrites : rest.Writes fun word value => ¬ Core.isReset config.layout word value)
    (hcore : core.Consistent)
    (hnext : rest.advance (Core.registerFile config now) core = (left, next)) :
    (left.Writes fun word value => ¬ Core.isReset config.layout word value) ∧ core.Change next := by
  have hleft : (rest.advance (Core.registerFile config now) core).1.Writes
      fun word value => ¬ Core.isReset config.layout word value := hwrites.advance
  have hchange : core.Change (rest.advance (Core.registerFile config now) core).2 :=
    hwrites.advance_change hcore
  rw [hnext] at hleft hchange
  exact ⟨hleft, hchange⟩

/-- An access of a request that holds the lock changes the search in one of the ways listed, unless it
    is the reset. -/
theorem Holding.access_request {asked : Request} {rest : Bus Reply}
    (h : Holding config core history (some (.request asked rest))) (hcore : core.Consistent)
    (hrest : ∀ reply, rest ≠ .done reply) (now : Nat) {next : Core} {left : Bus Reply}
    (hnext : rest.advance (Core.registerFile config now) core = (left, next)) :
    next.Consistent ∧ Holding config next (searchEvents core next ++ history)
      (some (.request asked left)) ∧
      (core.Change next ∨ asked = .reset ∧ next = core.reset config now) := by
  have hshort := h.length_le
  cases h with
  | request other writes epoch =>
    obtain ⟨hwrites, hchange⟩ := access_spec writes hcore hnext
    exact ⟨hchange.consistent hcore, .request other hwrites (epoch.change hcore hchange), .inl hchange⟩
  | resetting epoch =>
    have hreset : core.write config now (Driver.commandWord config.layout) Control.reset =
        core.reset config now := Core.write_reset
    simp only [Bus.advance, Core.registerFile, hreset, Prod.mk.injEq] at hnext
    obtain ⟨rfl, rfl⟩ := hnext
    rw [searchEvents_reset]
    exact ⟨Core.reset_consistent, .reset Core.reset_search.1 Core.reset_incomplete hshort,
      .inr ⟨rfl, rfl⟩⟩
  | reset job status short => exact absurd rfl (hrest _)

/-- An access of a service. The first one decides what it is going to report, and where it finds the end
    of a search it reports something. -/
theorem Holding.access_service {rest : Bus (Option CompletionMessage)}
    (h : Holding config core history (some (.service rest))) (hcore : core.Consistent)
    (hrest : ∀ report, rest ≠ .done report) (now : Nat) {next : Core}
    {left : Bus (Option CompletionMessage)}
    (hnext : rest.advance (Core.registerFile config now) core = (left, next)) :
    next.Consistent ∧ Holding config next (searchEvents core next ++ history) (some (.service left)) ∧
      core.Change next ∧ (next.status.isCompletion → left ≠ .done none) := by
  cases h with
  | looking epoch =>
    rw [Driver.service_eq] at hnext
    simp only [Bus.advance, Core.registerFile, Driver.read_statusWord, Prod.mk.injEq] at hnext
    obtain ⟨rfl, rfl⟩ := hnext
    have hchange : core.Change (core.refresh now) := Core.refresh_change
    have hconsistent := hchange.consistent hcore
    have hepoch := epoch.change hcore hchange
    by_cases hcompletion : (core.refresh now).status.isCompletion
    · obtain ⟨hjob, hready, started, hhistory⟩ := hepoch.of_completion hconsistent hcompletion
      have hsecures := @Driver.afterStatus_secures config (fun _ => True) _
        (result (core.refresh now)) hcompletion hjob
        hready rfl
      refine ⟨hconsistent, ?_, hchange, fun _ hnothing => ?_⟩
      · rw [hhistory] at hepoch ⊢
        exact .reporting (Driver.afterStatus_not_reset _ _) hsecures hepoch
      · simp only [result] at hsecures
        rw [hnothing] at hsecures
        cases hsecures _ (.refl _)
    · have hnothing : Driver.afterStatus config.layout (core.refresh now).status.bits = .done none :=
        if_neg hcompletion
      rw [hnothing]
      exact ⟨hconsistent, .spurious hepoch, hchange, fun hover => absurd hover hcompletion⟩
  | spurious epoch => exact absurd rfl (hrest _)
  | @reporting message started rest writes secures epoch =>
    obtain ⟨hwrites, hchange⟩ := access_spec writes hcore hnext
    have hsecures : left.Secures config (fun _ => True) Core.Drifts
      (fun report _ => report = some message) next := by
      have hleft := secures.advance Core.Drifts.refl now trivial
      rwa [hnext] at hleft
    have hepoch := epoch.change hcore hchange
    have hnothing := (@Holding.free config _ _ hepoch).closed rfl
    rw [hnothing] at hepoch ⊢
    refine ⟨hchange.consistent hcore, .reporting hwrites hsecures hepoch, hchange, fun _ hdone => ?_⟩
    rw [hdone] at hsecures
    cases hsecures _ (.refl _)

end Accesses

/-! ### The invariant -/

variable (config) in
/-- What holds of a rig, whatever has happened in it. -/
structure Sound (rig : Rig) (past : List Event) : Prop where
  consistent : rig.core.Consistent
  holding : Holding config rig.core (searches past) rig.lock
  queued : ∀ message ∈ rig.driver.queue.messages,
    ∃ started, searches past = [.latched message, .started started]

namespace Sound

variable {rig : Rig} {past : List Event}

theorem bound : Sound config {} [] where
  consistent := Core.powered_consistent
  holding := .free (.idle rfl Status.isCompletion_empty)
  queued := nofun

/-- What is in the queue stays the result of the present search while the core moves. -/
theorem queued_after (h : Sound config rig past) {core : Core} {lock : Option LockHolder}
    (hholding : Holding config core (searchEvents rig.core core ++ searches past) lock)
    {message : CompletionMessage} (hmessage : message ∈ rig.driver.queue.messages) :
    ∃ started, searches (searchEvents rig.core core ++ past) =
      [.latched message, .started started] := by
  obtain ⟨started, hsearches⟩ := h.queued message hmessage
  have hnothing := hholding.closed (by rw [hsearches]; rfl)
  exact ⟨started, by rw [hnothing]; exact hsearches⟩

/-- Only the core moves, and whoever holds the lock with it. -/
theorem core_moves (h : Sound config rig past) {next : Rig} (hcore : next.core.Consistent)
    (hholding : Holding config next.core (searchEvents rig.core next.core ++ searches past) next.lock)
    (hqueue : next.driver.queue = rig.driver.queue) :
    Sound config next (searchEvents rig.core next.core ++ past) where
  consistent := hcore
  holding := by
    rw [searches_searchEvents]
    exact hholding
  queued message hmessage := h.queued_after hholding (by rwa [hqueue] at hmessage)

/-- Every step keeps the invariant. -/
theorem step (h : Sound config rig past) {move : Move} {next : Rig} {events : List Event}
    (hstep : Step config rig move next events) :
    Sound config next (events ++ searchEvents rig.core next.core ++ past) := by
  have hholding := h.holding
  cases hstep with
  | elsewhere core lock queue taken called =>
    apply h.core_moves (core ▸ h.consistent) _ queue
    rw [core, lock, searchEvents_self]
    exact hholding
  | @begins asked program held free granted =>
    simp only [searchEvents_self, List.nil_append]
    rw [free] at hholding
    refine ⟨h.consistent, ?_, h.queued⟩
    by_cases hasked : asked = .reset
    · subst hasked
      rw [Driver.program_reset] at granted
      obtain rfl := Except.ok.inj granted
      exact .resetting hholding.epoch_of_free
    · exact .request hasked (Driver.program_not_reset granted hasked) hholding.epoch_of_free
  | accesses lock unfinished access =>
    rw [lock] at hholding
    obtain ⟨hcore, hnext, -⟩ := hholding.access_request h.consistent unfinished rig.now access
    exact h.core_moves hcore hnext rfl
  | @returns asked reply lock =>
    simp only [searchEvents_self, List.append_nil]
    rw [lock] at hholding
    by_cases hasked : asked = .reset
    · subst hasked
      exact ⟨h.consistent, .free hholding.idle_of_reset, nofun⟩
    · have hdriver : rig.driver.finishRequest asked = rig.driver := by
        cases asked <;> first | rfl | exact absurd rfl hasked
      rw [if_neg hasked, hdriver]
      exact ⟨h.consistent, .free (hholding.epoch_of_done hasked), h.queued⟩
  | takes raised =>
    simp only [searchEvents_self, List.nil_append]
    exact ⟨h.consistent, hholding, h.queued⟩
  | answers called free =>
    simp only [searchEvents_self, List.nil_append]
    rw [free] at hholding
    exact ⟨h.consistent, .looking hholding.epoch_of_free, h.queued⟩
  | inspects lock unfinished access =>
    rw [lock] at hholding
    obtain ⟨hcore, hnext, -⟩ := hholding.access_service h.consistent unfinished rig.now access
    exact h.core_moves hcore hnext rfl
  | @reports report lock =>
    simp only [searchEvents_self, List.append_nil]
    rw [lock] at hholding
    cases report with
    | none => exact ⟨h.consistent, .free hholding.epoch_of_report, h.queued⟩
    | some message =>
      refine ⟨h.consistent, .free hholding.epoch_of_report, fun queued hqueued => ?_⟩
      rcases List.mem_append.mp hqueued with hold | hnew
      · exact h.queued queued hold
      · obtain rfl := List.mem_singleton.mp hnew
        exact hholding.report
  | reads queue =>
    simp only [searchEvents_self, List.append_nil]
    refine ⟨h.consistent, hholding, fun queued hqueued => ?_⟩
    exact h.queued queued (by rw [queue]; exact List.mem_cons_of_mem _ hqueued)
  | unlocked drifts change hashing =>
    exact h.core_moves (change.consistent h.consistent)
      (hholding.drift drifts fun epoch => epoch.change h.consistent change) rfl
  | stalls =>
    exact h.core_moves Core.stall_consistent
      (hholding.drift Core.stall_drifts fun epoch => epoch.stall h.consistent) rfl

/-- A step changes the search in one of the ways listed, unless it is a stall or resets the core. -/
theorem core_step (h : Sound config rig past) {move : Move} {next : Rig} {events : List Event}
    (hstep : Step config rig move next events) :
    rig.core.Change next.core ∨ move = .stall ∧ next.core = rig.core.stall ∨
      move = .proceed ∧ rig.isResetting ∧ next.core = rig.core.reset config rig.now := by
  have hholding := h.holding
  have hsame : ∀ core, core = rig.core → rig.core.Change core := fun _ hcore => .kept (hcore ▸ .refl _)
  cases hstep with
  | elsewhere core lock queue taken called => exact .inl (hsame _ core)
  | accesses lock unfinished access =>
    rw [lock] at hholding
    obtain ⟨-, -, hchange | ⟨rfl, hreset⟩⟩ :=
      hholding.access_request h.consistent unfinished rig.now access
    · exact .inl hchange
    · exact .inr (.inr ⟨rfl, by simp [isResetting, lock], hreset⟩)
  | inspects lock unfinished access =>
    rw [lock] at hholding
    exact .inl (hholding.access_service h.consistent unfinished rig.now access).2.2.1
  | unlocked drifts change hashing => exact .inl change
  | stalls => exact .inr (.inl ⟨rfl, rfl⟩)
  | _ => exact .inl (hsame _ rfl)

end Sound

theorem Reached.sound {rig : Rig} {past : List Event} (h : Reached config rig past) :
    Sound config rig past := by
  induction h with
  | bound => exact .bound
  | move move _ ih => exact ih.step (act_step _ move)

/-! ### The queue and its readers -/

/-- A message is taken from the front of the queue, and nothing else happens with that. -/
theorem events_of_taken {rig : Rig} {move : Move} {message : CompletionMessage}
    (h : .taken message ∈ rig.events config move) :
    rig.events config move = [.taken message] ∧ message ∈ rig.driver.queue.messages := by
  have hsearch : ∀ core next, .taken message ∉ searchEvents core next := by
    intro core next
    unfold searchEvents
    split
    · simp
    · split <;> simp
    · simp
  have hdriver := (List.mem_append.mp h).resolve_right (hsearch _ _)
  have hstep := @act_step config rig move
  unfold events
  generalize rig.driverEvents move = happened at hdriver hstep ⊢
  generalize rig.act config move = next at hstep ⊢
  cases hstep with
  | @returns asked reply lock => split at hdriver <;> simp at hdriver
  | @reports report lock => simp at hdriver
  | @reads room first rest queue =>
    obtain rfl := Event.taken.inj (List.mem_singleton.mp hdriver)
    rw [searchEvents_self, queue]
    exact ⟨rfl, List.mem_cons_self⟩
  | _ => exact absurd hdriver List.not_mem_nil

/-- A message that has been taken was in the queue at that moment. -/
theorem Reached.taken {rig : Rig} {past : List Event} (h : Reached config rig past)
    {newer older : List Event} {message : CompletionMessage}
    (hsplit : past = newer ++ .taken message :: older) :
    ∃ before, Reached config before older ∧ message ∈ before.driver.queue.messages := by
  induction h generalizing newer with
  | bound => simp at hsplit
  | @move rig past move hreached ih =>
    rcases List.append_eq_append_iff.mp hsplit with ⟨between, hnewer, hpast⟩
      | ⟨between, hevents, htaken⟩
    · exact ih hpast
    · cases between with
      | nil => exact @ih [] htaken.symm
      | cons first between =>
        obtain ⟨rfl, rfl⟩ := List.cons.inj htaken
        have hmember : .taken message ∈ rig.events config move := by
          rw [hevents]
          simp
        obtain ⟨honly, hqueued⟩ := events_of_taken hmember
        rw [hevents] at honly
        have hlength := congrArg List.length honly
        have hnothing : between = [] := by
          apply List.length_eq_zero_iff.mp
          simp at hlength
          omega
        rw [hnothing]
        exact ⟨rig, hreached, hqueued⟩

/-- **No completion crosses a reset.** -/
theorem no_completion_crosses_a_reset {rig : Rig} {past : List Event} (h : Reached config rig past) :
    (∀ message ∈ rig.driver.queue.messages,
      ∃ started, searches past = [.latched message, .started started]) ∧
    ((∀ message, .latched message ∉ searches past) → rig.driver.queue.messages = []) ∧
    (∀ newer older message, past = newer ++ .taken message :: older →
      ∃ started, searches older = [.latched message, .started started]) := by
  refine ⟨h.sound.queued, fun hnone => ?_, fun newer older message hsplit => ?_⟩
  · refine List.eq_nil_iff_forall_not_mem.mpr fun message hmessage => hnone message ?_
    obtain ⟨started, hsearches⟩ := h.sound.queued message hmessage
    rw [hsearches]
    exact List.mem_cons_self
  · obtain ⟨before, hbefore, hmessage⟩ := h.taken hsplit
    exact hbefore.sound.queued message hmessage

/-! The first search finds a nonce, and its interrupt is taken off the line before the core is reset and
served after the second search has started. -/

def singleNonce : CoreConfig := { layout := .count, latency := 0, lastNonce := 0, batch := 1 }

def overtakenService : Rig × List Event :=
  follow singleNonce
    [.acquire, .request .reset, .proceed, .proceed, .request .start, .proceed, .proceed,
      .search 1, .search 1, .serve, .request .reset, .proceed, .proceed,
      .request (.setLeadingZeros 255), .proceed, .proceed, .request .start, .proceed, .proceed,
      .serve, .serve, .search 2, .search 2, .serve,
      .serve, .serve, .serve, .serve, .serve, .serve] {} []

theorem overtaken_result_is_dropped :
    Reached singleNonce overtakenService.1 overtakenService.2 ∧
      .latched ⟨0x10, 0⟩ ∈ overtakenService.2 ∧
      ∃ started, searches overtakenService.2 = [.latched ⟨0x20, 0⟩, .started started] := by
  have hreached : Reached singleNonce overtakenService.1 overtakenService.2 := Reached.bound.follow _
  have hrun : .latched ⟨0x10, 0⟩ ∈ overtakenService.2 ∧
      ⟨0x20, 0⟩ ∈ overtakenService.1.driver.queue.messages := by decide +kernel
  exact ⟨hreached, hrun.1, (no_completion_crosses_a_reset hreached).1 _ hrun.2⟩

end Rig

end NonceSearch
