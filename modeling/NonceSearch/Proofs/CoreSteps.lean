import NonceSearch.Core.Search
import NonceSearch.Core.Window
import NonceSearch.Driver.Program

/-!
# What can happen to a search

A core has many registers, but few of them are about a search, and a search changes in few ways: the
core becomes ready, a search starts, goes on, and ends. `Core.Change` lists these ways; whatever a
register access other than a reset does, and whatever a searcher does, is one of them (`read_change`,
`write_change`, `commit_change`). A reset and a stall have their own equations.

Searchers and fault hooks reach a core without the driver's lock. `Core.Drifts` is all that they can do
to it while a register program holds the lock.
-/

namespace NonceSearch

namespace Status

@[simp] theorem isCompletion_empty : empty.isCompletion = false := by decide

@[simp] theorem isCompletion_ready : ready.isCompletion = false := by decide

@[simp] theorem isCompletion_running : running.isCompletion = false := by decide

@[simp] theorem isCompletion_found : found.isCompletion = true := by decide

@[simp] theorem isCompletion_exhausted : exhausted.isCompletion = true := by decide

end Status

/-- What is decoded as a control command is that command. -/
theorem Command.eq_of_control {value word : UInt32} (h : decode value = .control word) :
    word = value := by
  unfold decode at h
  split at h
  · exact (Command.control.inj h).symm
  · split at h <;> exact absurd h nofun

namespace Core

/-! ### Consistency -/

/-- The status of a core goes with what else it knows: it is one of five, RUNNING as long as there is a
    job, and empty while a reset is in progress. -/
structure Consistent (core : Core) : Prop where
  status : core.status = .empty ∨ core.status = .ready ∨ core.status = .running ∨
    core.status = .found ∨ core.status = .exhausted
  running : core.job.isSome ↔ core.status = .running
  resetting : core.readyAt.isSome → core.status = .empty

theorem powered_consistent : powered.Consistent :=
  ⟨.inl rfl, by decide, nofun⟩

/-- No search goes on while a reset is in progress. -/
theorem Consistent.job_of_resetting {core : Core} (hcore : core.Consistent)
    (hreset : core.readyAt.isSome) : core.job = none := by
  have hempty := hcore.resetting hreset
  cases hjob : core.job with
  | none => rfl
  | some job =>
    have hrunning := hcore.running.mp (by rw [hjob]; rfl)
    rw [hempty] at hrunning
    exact absurd hrunning (by decide)

theorem Consistent.job_of_completion {core : Core} (hcore : core.Consistent)
    (hstatus : core.status.isCompletion) : core.job = none := by
  cases hjob : core.job with
  | none => rfl
  | some job =>
    have hrunning := hcore.running.mp (by rw [hjob]; rfl)
    simp [hrunning] at hstatus

theorem Consistent.readyAt_of_job {core : Core} (hcore : core.Consistent) (hjob : core.job.isSome) :
    core.readyAt = none := by
  cases hready : core.readyAt with
  | none => rfl
  | some due =>
    have hnone := hcore.job_of_resetting (by rw [hready]; rfl)
    rw [hnone] at hjob
    exact absurd hjob (by decide)

/-- Two cores that agree on all that concerns a search. -/
structure SameSearch (core next : Core) : Prop where
  status : next.status = core.status
  readyAt : next.readyAt = core.readyAt
  nonceCurrent : next.nonceCurrent = core.nonceCurrent
  nonceCandidate : next.nonceCandidate = core.nonceCandidate
  run : next.run = core.run
  job : next.job = core.job
  raised : next.raised = core.raised

theorem SameSearch.refl (core : Core) : core.SameSearch core := ⟨rfl, rfl, rfl, rfl, rfl, rfl, rfl⟩

theorem SameSearch.trans {core next last : Core} (h : core.SameSearch next)
    (h' : next.SameSearch last) :
    core.SameSearch last where
  status := h'.status.trans h.status
  readyAt := h'.readyAt.trans h.readyAt
  nonceCurrent := h'.nonceCurrent.trans h.nonceCurrent
  nonceCandidate := h'.nonceCandidate.trans h.nonceCandidate
  run := h'.run.trans h.run
  job := h'.job.trans h.job
  raised := h'.raised.trans h.raised

theorem SameSearch.consistent {core next : Core} (h : core.SameSearch next) (hcore : core.Consistent) :
    next.Consistent where
  status := by rw [h.status]; exact hcore.status
  running := by rw [h.job, h.status]; exact hcore.running
  resetting := by rw [h.readyAt, h.status]; exact hcore.resetting

/-! ### Changes -/

/-- The ways in which a search changes, apart from resets and stalls. -/
inductive Change (core next : Core) : Prop where
  | kept (same : core.SameSearch next)
  /-- The interrupt is raised with nothing to report. -/
  | called (same : core.raiseSpurious.SameSearch next)
  /-- A reset is over. -/
  | readied (pending : core.readyAt.isSome)
    (same : { core with readyAt := none, status := .ready }.SameSearch next)
  | started (job : Job) (ready : core.status = .ready ∨ core.readyAt.isSome)
    (same : { core with
      readyAt := none, status := .running, job := some job, nonceCurrent := 0 }.SameSearch next)
  | advanced (job : Job) (reached : Nat) (current : UInt32) (searching : core.job = some job)
    (same : { core with
      job := some { job with next := reached }, nonceCurrent := current }.SameSearch next)
  /-- The search has ended, and the interrupt is raised. -/
  | ended (job : Job) (outcome : Status) (current candidate : UInt32) (searching : core.job = some job)
    (outcomes : outcome = .found ∨ outcome = .exhausted)
    (same : { core with
      job := none, status := outcome, nonceCurrent := current, nonceCandidate := candidate,
      raised := core.raised + 1 }.SameSearch next)

theorem Change.trans_same {core next last : Core} (h : core.Change next) (h' : next.SameSearch last) :
    core.Change last := by
  cases h with
  | kept same => exact .kept (same.trans h')
  | called same => exact .called (same.trans h')
  | readied pending same => exact .readied pending (same.trans h')
  | started job ready same => exact .started job ready (same.trans h')
  | advanced job reached current searching same =>
    exact .advanced job reached current searching (same.trans h')
  | ended job outcome current candidate searching outcomes same =>
    exact .ended job outcome current candidate searching outcomes (same.trans h')

/-- A change keeps a core consistent. -/
theorem Change.consistent {core next : Core} (h : core.Change next) (hcore : core.Consistent) :
    next.Consistent := by
  cases h with
  | kept same => exact same.consistent hcore
  | called same => exact same.consistent ⟨hcore.status, hcore.running, hcore.resetting⟩
  | readied pending same =>
    apply same.consistent
    have hjob := hcore.job_of_resetting pending
    refine ⟨.inr (.inl rfl), ?_, nofun⟩
    simp [hjob, Status.ready, Status.running]
  | started job ready same => exact same.consistent ⟨by simp, by simp, nofun⟩
  | advanced job reached current searching same =>
    have hrunning : core.status = .running := hcore.running.mp (by simp [searching])
    exact same.consistent ⟨hcore.status, by simp [hrunning], hcore.resetting⟩
  | ended job outcome current candidate searching outcomes same =>
    have hrunning : core.status = .running := hcore.running.mp (by simp [searching])
    apply same.consistent
    refine ⟨?_, ?_, ?_⟩
    · rcases outcomes with rfl | rfl <;> simp
    · rcases outcomes with rfl | rfl <;> simp [Status.found, Status.exhausted, Status.running]
    · intro hreset
      have hempty := hcore.resetting hreset
      rw [hrunning] at hempty
      exact absurd hempty (by decide)

/-- Interrupts are never taken back. -/
theorem Change.raised_le {core next : Core} (h : core.Change next) : core.raised ≤ next.raised := by
  cases h with
  | kept same => exact Nat.le_of_eq same.raised.symm
  | called same => exact same.raised ▸ Nat.le_succ _
  | readied pending same => exact Nat.le_of_eq same.raised.symm
  | started job ready same => exact Nat.le_of_eq same.raised.symm
  | advanced job reached current searching same => exact Nat.le_of_eq same.raised.symm
  | ended job outcome current candidate searching outcomes same => exact same.raised ▸ Nat.le_succ _

theorem Change.run {core next : Core} (h : core.Change next) : next.run = core.run := by
  cases h with
  | _ => rename_i same; exact same.run

/-! ### Commands -/

variable {config : CoreConfig} {core : Core} {now : Nat}

theorem refresh_of_readyAt (h : core.readyAt = none) (now : Nat) : core.refresh now = core := by
  simp [refresh, h]

theorem refresh_change : core.Change (core.refresh now) := by
  unfold refresh
  split
  · next due hdue =>
    split
    · exact .readied (by simp [hdue]) (.refl _)
    · exact .kept (.refl _)
  · exact .kept (.refl _)

theorem start_change (hcore : core.Consistent) : core.Change (core.start config now) := by
  have hrefresh : core.Change (core.refresh now) := refresh_change
  simp only [start]
  split
  · next hready =>
    have hpending : core.readyAt = none ∨ (core.readyAt.isSome ∧
        core.refresh now = { core with readyAt := none, status := .ready }) := by
      unfold refresh at hready ⊢
      split at hready
      · next due hdue =>
        split at hready
        · next hpassed => exact .inr (by simp [hdue, hpassed])
        · exact absurd hready (by simp [hcore.resetting (by simp [hdue])]; decide)
      · next hnone => exact .inl hnone
    rcases hpending with hnone | ⟨hsome, hrefreshed⟩
    · have hsame := refresh_of_readyAt hnone now
      rw [hsame] at hready ⊢
      refine .started _ (.inl ?_) ⟨rfl, hnone, rfl, rfl, rfl, rfl, rfl⟩
      rcases hcore.status with h | h | h | h | h
      · exact absurd hready (by rw [h]; decide)
      · exact h
      · exact absurd hready (by rw [h]; decide)
      · exact absurd hready (by rw [h]; decide)
      · exact absurd hready (by rw [h]; decide)
    · rw [hrefreshed]
      exact .started _ (.inr hsome) ⟨rfl, rfl, rfl, rfl, rfl, rfl, rfl⟩
  · exact hrefresh

theorem conclude_change (nonce : UInt32) (accepted : Bool) :
    core.Change (core.conclude config nonce accepted) := by
  unfold conclude
  split
  · exact .kept (.refl _)
  · next job hjob =>
    dsimp only
    split
    · exact .ended job .found _ nonce hjob (.inl rfl) ⟨rfl, rfl, rfl, rfl, rfl, rfl, rfl⟩
    · split
      · exact .ended job .exhausted _ core.nonceCandidate hjob (.inr rfl)
          ⟨rfl, rfl, rfl, rfl, rfl, rfl, rfl⟩
      · exact .advanced job _ _ hjob ⟨rfl, rfl, rfl, rfl, rfl, rfl, rfl⟩

theorem step_change : core.Change (core.step config) := by
  unfold step
  split
  · exact .kept (.refl _)
  · split
    · exact conclude_change _ _
    · exact .kept (.refl _)

theorem control_change (hcore : core.Consistent) {word : UInt32} (hword : word ≠ Control.reset) :
    core.Change (core.control config now word) := by
  unfold control
  rw [if_neg hword]
  split
  · exact start_change hcore
  · split
    · exact step_change
    · exact .kept (.refl _)

/-- A searcher that comes back with a batch changes the search in one of the ways listed. -/
theorem commit_change (run start : Nat) (hit : Option UInt32) :
    core.Change (core.commit config run start hit) := by
  unfold commit
  split
  · exact .kept (.refl _)
  · split
    · exact conclude_change _ _
    · exact conclude_change _ _

/-! ### Register accesses -/

/-- A read notices that a reset is over, and on the mask layout it may move the cursor. -/
theorem read_snd (word : Nat) :
    (core.read config now word).2 = core.refresh now ∨
      (core.read config now word).2 =
        { core.refresh now with cursor := (core.refresh now).cursor + 1 } := by
  unfold read
  dsimp only
  split
  · exact .inl rfl
  · unfold readMask
    split
    · exact .inl rfl
    · split
      · unfold readData
        split
        · exact .inl rfl
        · exact .inr rfl
      · split
        · exact .inl rfl
        · split <;> exact .inl rfl

theorem read_change (word : Nat) : core.Change (core.read config now word).2 := by
  rcases @read_snd config core now word with h | h
  · rw [h]
    exact refresh_change
  · rw [h]
    exact refresh_change.trans_same ⟨rfl, rfl, rfl, rfl, rfl, rfl, rfl⟩

theorem putBankWord_same (bank : Bank) (index : Nat) (value : UInt32) :
    core.SameSearch (core.putBankWord bank index value) := by
  unfold putBankWord
  split
  · cases bank <;> exact ⟨rfl, rfl, rfl, rfl, rfl, rfl, rfl⟩
  · exact .refl _

theorem writeData_same (value : UInt32) : core.SameSearch (core.writeData value) := by
  unfold writeData
  split
  · exact .refl _
  · next bank hbank =>
    exact (putBankWord_same bank core.cursor value).trans ⟨rfl, rfl, rfl, rfl, rfl, rfl, rfl⟩

def isReset (layout : RegisterLayout) (word : Nat) (value : UInt32) : Prop :=
  word = Driver.commandWord layout ∧ value = Control.reset

/-- The reset command resets the core. -/
theorem write_reset : core.write config now (Driver.commandWord config.layout) Control.reset =
    core.reset config now := by
  unfold write
  cases config.layout with
  | count => rfl
  | mask => rfl

theorem write_start : core.write config now (Driver.commandWord config.layout) Control.start =
    core.start config now := by
  unfold write
  cases config.layout <;> rfl

theorem write_step : core.write config now (Driver.commandWord config.layout) Control.step =
    core.step config := by
  unfold write
  cases config.layout <;> rfl

/-- Every write but a reset changes the search in one of the ways listed. -/
theorem write_change (hcore : core.Consistent) {word : Nat} {value : UInt32}
    (hreset : ¬ isReset config.layout word value) : core.Change (core.write config now word value) := by
  unfold write
  cases hlayout : config.layout with
  | count =>
    dsimp only
    unfold writeCount
    split
    · exact .kept ⟨rfl, rfl, rfl, rfl, rfl, rfl, rfl⟩
    · split
      · exact .kept ⟨rfl, rfl, rfl, rfl, rfl, rfl, rfl⟩
      · split
        · exact .kept ⟨rfl, rfl, rfl, rfl, rfl, rfl, rfl⟩
        · split
          · next hword =>
            apply control_change hcore
            rintro rfl
            exact hreset (by rw [hlayout]; exact ⟨hword, rfl⟩)
          · split
            · exact .kept ⟨rfl, rfl, rfl, rfl, rfl, rfl, rfl⟩
            · exact .kept (.refl _)
  | mask =>
    dsimp only
    unfold writeMask
    split
    · next hword =>
      unfold command
      have hcontrol : ∀ word, Command.decode value = .control word → word ≠ Control.reset := by
        rintro word hdecode rfl
        exact hreset (by rw [hlayout]; exact ⟨hword, (Command.eq_of_control hdecode).symm⟩)
      split
      · exact .kept ⟨rfl, rfl, rfl, rfl, rfl, rfl, rfl⟩
      · next word hdecode => exact control_change hcore (hcontrol _ hdecode)
      · exact .kept (.refl _)
    · split
      · exact .kept (writeData_same value)
      · exact .kept (.refl _)

/-! ### Resets, stalls and spurious interrupts -/

theorem reset_consistent : (core.reset config now).Consistent := by
  unfold reset
  dsimp only
  split
  · exact ⟨.inr (.inl rfl), by simp [Status.ready, Status.running], nofun⟩
  · exact ⟨.inl rfl, by simp [Status.empty, Status.running], fun _ => rfl⟩

/-- What a reset leaves of a search: nothing. -/
theorem reset_search : (core.reset config now).job = none ∧ (core.reset config now).nonceCandidate = 0 ∧
    ((core.reset config now).status = .ready ∨ (core.reset config now).status = .empty) := by
  unfold reset
  dsimp only
  split
  · exact ⟨rfl, rfl, .inl rfl⟩
  · exact ⟨rfl, rfl, .inr rfl⟩

theorem reset_incomplete : (core.reset config now).status.isCompletion = false := by
  obtain ⟨-, -, hstatus⟩ := @reset_search config core now
  rcases hstatus with h | h <;> simp [h]

theorem reset_run : (core.reset config now).run = core.run + 1 := by
  unfold reset
  dsimp only
  split <;> rfl

theorem reset_raised : (core.reset config now).raised = core.raised := by
  unfold reset
  dsimp only
  split <;> rfl

theorem stall_consistent : core.stall.Consistent :=
  ⟨.inl rfl, by simp [stall, Status.empty, Status.running], fun _ => rfl⟩

/-! ### What goes on while the driver's lock is held -/

/-- All that searchers and fault hooks can do to a core: they leave the parameters, the clock and the
    bank alone, and a search that is over stays over with its result, unless a stall takes its
    status. -/
structure Drifts (core next : Core) : Prop where
  stateIn : next.stateIn = core.stateIn
  tail : next.tail = core.tail
  mask : next.mask = core.mask
  zeroCount : next.zeroCount = core.zeroCount
  clock : next.clock = core.clock
  bank : next.bank = core.bank
  cursor : next.cursor = core.cursor
  readyAt : next.readyAt = core.readyAt
  idle : core.job = none → next.job = none ∧ next.nonceCandidate = core.nonceCandidate ∧
    (next.status = core.status ∨ next.status = .empty)

theorem Drifts.refl (core : Core) : core.Drifts core :=
  ⟨rfl, rfl, rfl, rfl, rfl, rfl, rfl, rfl, fun h => ⟨h, rfl, .inl rfl⟩⟩

theorem Drifts.trans {core next last : Core} (h : core.Drifts next) (h' : next.Drifts last) :
    core.Drifts last where
  stateIn := h'.stateIn.trans h.stateIn
  tail := h'.tail.trans h.tail
  mask := h'.mask.trans h.mask
  zeroCount := h'.zeroCount.trans h.zeroCount
  clock := h'.clock.trans h.clock
  bank := h'.bank.trans h.bank
  cursor := h'.cursor.trans h.cursor
  readyAt := h'.readyAt.trans h.readyAt
  idle hjob := by
    obtain ⟨hnext, hcandidate, hstatus⟩ := h.idle hjob
    obtain ⟨hlast, hcandidate', hstatus'⟩ := h'.idle hnext
    refine ⟨hlast, hcandidate'.trans hcandidate, ?_⟩
    rcases hstatus' with hsame | hempty
    · rw [hsame]
      exact hstatus
    · exact .inr hempty

theorem conclude_drifts (nonce : UInt32) (accepted : Bool) :
    core.Drifts (core.conclude config nonce accepted) := by
  unfold conclude
  split
  · exact .refl _
  · next job hjob =>
    dsimp only
    split
    · exact ⟨rfl, rfl, rfl, rfl, rfl, rfl, rfl, rfl, by simp [hjob]⟩
    · split <;> exact ⟨rfl, rfl, rfl, rfl, rfl, rfl, rfl, rfl, by simp [hjob]⟩

theorem commit_drifts (run start : Nat) (hit : Option UInt32) :
    core.Drifts (core.commit config run start hit) := by
  unfold commit
  split
  · exact .refl _
  · split <;> exact conclude_drifts _ _

theorem stall_drifts : core.Drifts core.stall :=
  ⟨rfl, rfl, rfl, rfl, rfl, rfl, rfl, rfl, fun _ => ⟨rfl, rfl, .inr rfl⟩⟩

theorem setHalted_drifts (halted : Bool) : core.Drifts (core.setHalted halted) :=
  ⟨rfl, rfl, rfl, rfl, rfl, rfl, rfl, rfl, fun h => ⟨h, rfl, .inl rfl⟩⟩

theorem raiseSpurious_drifts : core.Drifts core.raiseSpurious :=
  ⟨rfl, rfl, rfl, rfl, rfl, rfl, rfl, rfl, fun h => ⟨h, rfl, .inl rfl⟩⟩

end Core

end NonceSearch
