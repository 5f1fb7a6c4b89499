import NonceSearch.Proofs.Retirement

/-!
# Stalled cores

A stall takes the job and the status of a core and moves it to a new run, without a result and without
an interrupt. Whatever comes next finds nothing to go on with: a step and a late batch find no job, and
a start finds no core that is ready. So a stalled core is dead until somebody resets it, with one
exception. A stall leaves a reset alone that is in progress, and when the latency of that reset has
passed, the core is ready again and can be started (`Engine.stall_lasts_until_a_reset_is_over`).
-/

namespace NonceSearch

namespace Core

variable {config : CoreConfig} {core : Core} {now : Nat}

/-- A reset that is still in progress is not over yet. -/
theorem refresh_of_early (h : ∀ due, core.readyAt = some due → now < due) :
    core.refresh now = core := by
  unfold refresh
  split
  · next due hdue => exact if_neg (Nat.not_le_of_lt (h due hdue))
  · rfl

theorem status_refresh_of_due {due : Nat} (h : core.readyAt = some due) (hdue : due ≤ now) :
    (core.refresh now).status = .ready := by
  simp [refresh, h, hdue]

/-- A core that does nothing and shows nothing, and will not have become ready by now. -/
structure Dead (now : Nat) (core : Core) : Prop where
  status : core.status = .empty
  job : core.job = none
  waits : core.refresh now = core

theorem Dead.read_status (h : core.Dead now) :
    (core.read config now (Driver.statusWord config.layout)).1 = 0 := by
  rw [Driver.read_statusWord, h.waits, h.status]
  rfl

theorem Dead.start (h : core.Dead now) : core.start config now = core := by
  have hready : core.status.isReady = false := by rw [h.status]; decide
  simp [Core.start, h.waits, hready]

theorem Dead.step (h : core.Dead now) : core.step config = core := by
  simp [Core.step, h.job]

theorem Dead.commit (h : core.Dead now) (run start : Nat) (hit : Option UInt32) :
    core.commit config run start hit = core :=
  commit_of_overtaken (by simp [h.job])

/-- The one control command that wakes a dead core is a reset. -/
theorem Dead.control (h : core.Dead now) {word : UInt32} (hword : word ≠ Control.reset) :
    core.control config now word = core := by
  unfold Core.control
  rw [if_neg hword]
  split
  · exact h.start
  · split
    · exact h.step
    · rfl

theorem Dead.read_same (h : core.Dead now) (word : Nat) :
    core.SameSearch (core.read config now word).2 := by
  rcases @read_snd config core now word with hread | hread
  · rw [hread, h.waits]
    exact .refl core
  · rw [hread, h.waits]
    exact ⟨rfl, rfl, rfl, rfl, rfl, rfl, rfl⟩

theorem Dead.write_same (h : core.Dead now) {word : Nat} {value : UInt32}
    (hreset : ¬ isReset config.layout word value) :
    core.SameSearch (core.write config now word value) := by
  unfold write
  cases hlayout : config.layout with
  | count =>
    rw [hlayout] at hreset
    dsimp only
    unfold writeCount
    split_ifs with hstate htail hzeros hword hdebug
    · exact ⟨rfl, rfl, rfl, rfl, rfl, rfl, rfl⟩
    · exact ⟨rfl, rfl, rfl, rfl, rfl, rfl, rfl⟩
    · exact ⟨rfl, rfl, rfl, rfl, rfl, rfl, rfl⟩
    · rw [h.control fun hvalue => hreset ⟨hword, hvalue⟩]
      exact .refl core
    · exact ⟨rfl, rfl, rfl, rfl, rfl, rfl, rfl⟩
    · exact .refl core
  | mask =>
    rw [hlayout] at hreset
    dsimp only
    unfold writeMask
    split_ifs with hword hdata
    · unfold command
      split
      · exact ⟨rfl, rfl, rfl, rfl, rfl, rfl, rfl⟩
      · next word hdecode =>
        obtain rfl := Command.eq_of_control hdecode
        rw [h.control fun hvalue => hreset ⟨hword, hvalue⟩]
        exact .refl core
      · exact .refl core
    · exact writeData_same value
    · exact .refl core

end Core

namespace Engine

variable {config : CoreConfig} {engine : Engine} {move : Move} {before : Core}

variable (config) in
def Move.Resets : Move → Prop
  | .write word value => Core.isReset config.layout word value
  | .writeByte word value => Core.isReset config.layout word value.toUInt32
  | _ => False

theorem now_le_act (engine : Engine) (move : Move) : engine.now ≤ (engine.act config move).now := by
  cases move with
  | pass duration => exact Nat.le_add_right _ _
  | search run =>
    unfold act search
    dsimp only
    split
    · split <;> exact Nat.le_refl _
    · exact Nat.le_refl _
  | _ => exact Nat.le_refl _

theorem now_le_follow (engine : Engine) (moves : List Move) :
    engine.now ≤ (follow config moves engine).now := by
  induction moves generalizing engine with
  | nil => exact Nat.le_refl _
  | cons move moves ih => exact Nat.le_trans (now_le_act engine move) (ih _)

/-! ### What a stalled core is -/

/-- What is left of a core after a stall: its counter, and the reset that was in progress. -/
structure Stalled (before : Core) (engine : Engine) : Prop where
  status : engine.core.status = .empty
  job : engine.core.job = none
  readyAt : engine.core.readyAt = before.readyAt
  nonceCurrent : engine.core.nonceCurrent = before.nonceCurrent

/-- The reset that was in progress at the stall, if there was one, is not over. -/
def Early (before : Core) (engine : Engine) : Prop :=
  ∀ due, before.readyAt = some due → engine.now < due

theorem Stalled.dead (h : Stalled before engine) (hearly : Early before engine) :
    engine.core.Dead engine.now := by
  refine ⟨h.status, h.job, Core.refresh_of_early fun due hdue => hearly due ?_⟩
  exact h.readyAt.symm.trans hdue

theorem Stalled.of_same {next : Engine} (h : Stalled before engine)
    (hsame : engine.core.SameSearch next.core) : Stalled before next where
  status := hsame.status.trans h.status
  job := hsame.job.trans h.job
  readyAt := hsame.readyAt.trans h.readyAt
  nonceCurrent := hsame.nonceCurrent.trans h.nonceCurrent

/-- No move but a reset wakes a stalled core, and it raises no interrupt by itself. -/
theorem Stalled.act (h : Stalled before engine) (hearly : Early before engine)
    (hmove : ¬ move.Resets config) :
    Stalled before (engine.act config move) ∧ (engine.act config move).core.raised =
      engine.core.raised + if move = .raiseSpurious then 1 else 0 := by
  have hdead := h.dead hearly
  have hquiet : ∀ {next : Engine}, engine.core.SameSearch next.core →
      Stalled before next ∧ next.core.raised = engine.core.raised + 0 :=
    fun hsame => ⟨h.of_same hsame, hsame.raised⟩
  cases move with
  | pass duration => exact hquiet (.refl _)
  | read word => exact hquiet (hdead.read_same word)
  | write word value => exact hquiet (hdead.write_same hmove)
  | writeByte word value => exact hquiet (hdead.write_same hmove)
  | search run =>
    have hsame : (engine.act config (.search run)).core = engine.core := by
      rcases @search_core_cases config engine run with hsame | ⟨start, hit, hcommit⟩
      · exact hsame
      · exact hcommit.trans (hdead.commit run start hit)
    exact hquiet (hsame ▸ .refl _)
  | raiseSpurious => exact ⟨⟨h.status, h.job, h.readyAt, h.nonceCurrent⟩, rfl⟩
  | stall => exact ⟨⟨rfl, rfl, h.readyAt, h.nonceCurrent⟩, rfl⟩
  | setHalted halted => exact hquiet ⟨rfl, rfl, rfl, rfl, rfl, rfl, rfl⟩

theorem Stalled.follow {moves : List Move} (h : Stalled before engine)
    (hmoves : ∀ move ∈ moves, ¬ move.Resets config)
    (hearly : Early before (Engine.follow config moves engine)) :
    Stalled before (Engine.follow config moves engine) ∧
      (Engine.follow config moves engine).core.raised =
        engine.core.raised + moves.count .raiseSpurious := by
  induction moves generalizing engine with
  | nil => exact ⟨h, rfl⟩
  | cons move moves ih =>
    have hnow : Early before engine := fun due hdue =>
      Nat.lt_of_le_of_lt (now_le_follow engine (move :: moves)) (hearly due hdue)
    obtain ⟨hnext, hraised⟩ := h.act hnow (hmoves move List.mem_cons_self)
    obtain ⟨hlast, hcount⟩ :=
      ih hnext (fun other hother => hmoves other (List.mem_cons_of_mem _ hother)) hearly
    refine ⟨hlast, hcount.trans ?_⟩
    rw [hraised, List.count_cons]
    simp only [beq_iff_eq]
    omega

/-! ### Stalls -/

/-- A core is stalled, in whatever state it is, and not reset. As long as no reset is in progress that
    was in progress at the stall, its status reads zero, a start does nothing at all, the current nonce
    stays as it was, and no interrupt is raised but those that somebody raises for nothing. But when a
    reset that was in progress at the stall is over, the status reads READY. -/
theorem stall_lasts_until_a_reset_is_over (config : CoreConfig) (engine : Engine) :
    (∀ moves : List Move, (∀ move ∈ moves, ¬ move.Resets config) →
      let last := follow config moves (engine.act config .stall)
      (∀ due, engine.core.readyAt = some due → last.now < due) →
      (last.core.read config last.now (Driver.statusWord config.layout)).1 = 0 ∧
      last.act config (.write (Driver.commandWord config.layout) Control.start) = last ∧
      last.core.nonceCurrent = engine.core.nonceCurrent ∧
      last.core.raised = engine.core.raised + moves.count .raiseSpurious) ∧
    ∀ due later, engine.core.readyAt = some due → due ≤ later →
      ((engine.act config .stall).core.read config later (Driver.statusWord config.layout)).1 =
        Status.ready.bits := by
  constructor
  · intro moves hmoves last hearly
    have hstalled : Stalled engine.core (engine.act config .stall) := ⟨rfl, rfl, rfl, rfl⟩
    obtain ⟨hlast, hraised⟩ := hstalled.follow hmoves hearly
    have hdead := hlast.dead hearly
    refine ⟨hdead.read_status, ?_, hlast.nonceCurrent, hraised⟩
    rw [act, Core.write_start, hdead.start]
  · intro due later hdue hlater
    have hsame : (engine.act config .stall).core.readyAt = some due := hdue
    rw [Driver.read_statusWord, Core.status_refresh_of_due hsame hlater]

/-! The searcher of the first run has both nonces in hand when the core is stalled. It comes back, and
then somebody starts the core, halts it and gives a step. -/

def afterStall : List Move :=
  [.search 1, .write CountWindow.control Control.start, .setHalted true,
    .write CountWindow.control Control.step, .raiseSpurious, .pass 10, .search 2]

theorem late_batch_finds_a_dead_core :
    Reached twoNonces inHand ∧ (inHand.hashing 1).isSome ∧ inHand.core.status = .running ∧
      let last := follow twoNonces afterStall (inHand.act twoNonces .stall)
      (last.core.read twoNonces last.now CountWindow.status).1 = 0 ∧
      last.act twoNonces (.write CountWindow.control Control.start) = last ∧
      last.core.nonceCurrent = inHand.core.nonceCurrent ∧ last.core.raised = 1 := by
  have hreached : Reached twoNonces inHand := (Reached.powered.follow _).follow _
  obtain ⟨hhand, hrunning, hready, hraised⟩ : (inHand.hashing 1).isSome ∧
      inHand.core.status = .running ∧ inHand.core.readyAt = none ∧ inHand.core.raised = 0 := by
    decide +kernel
  have hmoves : ∀ move ∈ afterStall, ¬ move.Resets twoNonces := by
    simp [afterStall, Move.Resets, Core.isReset, Control.start, Control.step, Control.reset]
  obtain ⟨hdead, -⟩ := stall_lasts_until_a_reset_is_over twoNonces inHand
  obtain ⟨hstatus, hstart, hcurrent, hcount⟩ := hdead afterStall hmoves (by simp [hready])
  exact ⟨hreached, hhand, hrunning, hstatus, hstart, hcurrent, hcount.trans (by rw [hraised]; rfl)⟩

def slowReset : CoreConfig := { layout := .count, latency := 5, lastNonce := 0, batch := 1 }

def resettingEngine : Engine :=
  follow slowReset [.write CountWindow.control Control.reset, .pass 1] {}

/-- The core is stalled in the middle of its reset. Four milliseconds later it shows READY, takes a
    start, searches and raises an interrupt. -/
theorem stall_does_not_outlast_a_reset :
    Reached slowReset resettingEngine ∧
      let last := follow slowReset [.pass 4] (resettingEngine.act slowReset .stall)
      let started := last.act slowReset (.write CountWindow.control Control.start)
      (last.core.read slowReset last.now CountWindow.status).1 ≠ 0 ∧
      started.core.status = .running ∧
      (follow slowReset [.search 2, .search 2] started).core.raised = last.core.raised + 1 := by
  refine ⟨Reached.powered.follow _, ?_⟩
  decide +kernel

end Engine

end NonceSearch
