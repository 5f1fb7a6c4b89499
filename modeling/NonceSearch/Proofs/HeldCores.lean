import Mathlib.Logic.Function.Basic
import NonceSearch.Proofs.RegisterPrograms
import NonceSearch.Proofs.SearchVerdict

/-!
# Cores that are held

A core on an open bus: anybody may access any register at any time, and its searchers take batches and
commit them. While such a core is halted, nothing but a step command moves its search on, with one
exception. A searcher that had taken a batch before the core was halted still commits it, because a
commit asks for the run and the place of the batch and not whether the core is halted. So a held core
shows what it showed at first, or what that one batch makes of it (`Standing`).
-/

namespace NonceSearch

namespace Core

variable {config : CoreConfig} {core next : Core} {now : Nat}

/-- Two cores whose searches are at the same point. Interrupts may have been raised for nothing. -/
structure Stands (core next : Core) : Prop where
  status : next.status = core.status
  readyAt : next.readyAt = core.readyAt
  nonceCurrent : next.nonceCurrent = core.nonceCurrent
  nonceCandidate : next.nonceCandidate = core.nonceCandidate
  run : next.run = core.run
  job : next.job = core.job

theorem Stands.refl (core : Core) : core.Stands core := ⟨rfl, rfl, rfl, rfl, rfl, rfl⟩

theorem Stands.trans {last : Core} (h : core.Stands next) (h' : next.Stands last) :
    core.Stands last where
  status := h'.status.trans h.status
  readyAt := h'.readyAt.trans h.readyAt
  nonceCurrent := h'.nonceCurrent.trans h.nonceCurrent
  nonceCandidate := h'.nonceCandidate.trans h.nonceCandidate
  run := h'.run.trans h.run
  job := h'.job.trans h.job

def readings (core : Core) : Status × UInt32 × UInt32 :=
  (core.status, core.nonceCurrent, core.nonceCandidate)

theorem Stands.readings (h : core.Stands next) : next.readings = core.readings := by
  unfold Core.readings
  rw [h.status, h.nonceCurrent, h.nonceCandidate]

theorem SameSearch.stands (h : core.SameSearch next) : core.Stands next :=
  ⟨h.status, h.readyAt, h.nonceCurrent, h.nonceCandidate, h.run, h.job⟩

/-- A core in which no reset is in progress and none has just ended, so that a start is ignored. -/
structure Unready (core : Core) : Prop where
  readyAt : core.readyAt = none
  status : core.status.isReady = false

theorem Stands.unready (h : core.Stands next) (hcore : core.Unready) : next.Unready :=
  ⟨h.readyAt.trans hcore.readyAt, h.status ▸ hcore.status⟩

theorem Consistent.unready (hcore : core.Consistent) (hjob : core.job.isSome) : core.Unready :=
  ⟨hcore.readyAt_of_job hjob, hcore.running.mp hjob ▸ (by decide)⟩

theorem read_stands (hcore : core.Unready) (word : Nat) :
    core.Stands (core.read config now word).2 := by
  have hsame := refresh_of_readyAt hcore.readyAt now
  rcases @read_snd config core now word with h | h
  · rw [h, hsame]
    exact .refl core
  · rw [h, hsame]
    exact ⟨rfl, rfl, rfl, rfl, rfl, rfl⟩

/-- Of the control commands, only a step moves a search on that is not reset. -/
theorem control_stands (hcore : core.Unready) {word : UInt32} (hstep : word ≠ Control.step)
    (hrun : (core.control config now word).run = core.run) :
    core.Stands (core.control config now word) := by
  unfold control at hrun ⊢
  by_cases hreset : word = Control.reset
  · rw [if_pos hreset, reset_run] at hrun
    exact absurd hrun (Nat.succ_ne_self _)
  · rw [if_neg hreset]
    by_cases hstart : word = Control.start
    · rw [if_pos hstart, start, refresh_of_readyAt hcore.readyAt, if_neg (by simp [hcore.status])]
      exact .refl core
    · rw [if_neg hstart, if_neg hstep]
      exact .refl core

theorem write_stands (hcore : core.Unready) {word : Nat} {value : UInt32}
    (hstep : ¬ Driver.Gives config.layout Control.step word value)
    (hrun : (core.write config now word value).run = core.run) :
    core.Stands (core.write config now word value) := by
  unfold write at hrun ⊢
  cases hlayout : config.layout with
  | count =>
    rw [hlayout] at hstep hrun
    dsimp only at hrun ⊢
    unfold writeCount at hrun ⊢
    split_ifs at hrun ⊢ with hstate htail hzeros hword hdebug
    · exact ⟨rfl, rfl, rfl, rfl, rfl, rfl⟩
    · exact ⟨rfl, rfl, rfl, rfl, rfl, rfl⟩
    · exact ⟨rfl, rfl, rfl, rfl, rfl, rfl⟩
    · exact control_stands hcore (fun hvalue => hstep ⟨hword, hvalue⟩) hrun
    · exact ⟨rfl, rfl, rfl, rfl, rfl, rfl⟩
    · exact .refl core
  | mask =>
    rw [hlayout] at hstep hrun
    dsimp only at hrun ⊢
    unfold writeMask at hrun ⊢
    split_ifs at hrun ⊢ with hword hdata
    · unfold command at hrun ⊢
      split at hrun
      · exact ⟨rfl, rfl, rfl, rfl, rfl, rfl⟩
      · next word hdecode =>
        obtain rfl := Command.eq_of_control hdecode
        exact control_stands hcore (fun hvalue => hstep ⟨hword, hvalue⟩) hrun
      · exact .refl core
    · exact (writeData_same value).stands
    · exact .refl core

/-- Where a search is decides what a commit makes of it. -/
theorem Stands.commit (h : core.Stands next) (run start : Nat) (hit : Option UInt32) :
    (core.commit config run start hit).Stands (next.commit config run start hit) := by
  have hconclude : ∀ nonce accepted, (core.conclude config nonce accepted).Stands
      (next.conclude config nonce accepted) := by
    intro nonce accepted
    unfold conclude
    rw [h.job]
    cases core.job with
    | none => exact h
    | some job =>
      dsimp only
      split
      · exact ⟨rfl, h.readyAt, rfl, rfl, h.run, rfl⟩
      · split
        · exact ⟨rfl, h.readyAt, rfl, h.nonceCandidate, h.run, rfl⟩
        · exact ⟨h.status, h.readyAt, rfl, h.nonceCandidate, h.run, rfl⟩
  unfold Core.commit
  rw [h.run, h.job]
  split
  · exact h
  · cases hit with
    | none => exact hconclude _ _
    | some nonce => exact hconclude _ _

theorem commit_unready (hcore : core.Unready) (run start : Nat) (hit : Option UInt32) :
    (core.commit config run start hit).Unready := by
  have hstatus : ∀ nonce accepted, (core.conclude config nonce accepted).status.isReady = false := by
    intro nonce accepted
    unfold conclude
    split
    · exact hcore.status
    · dsimp only
      split
      · exact (by decide : Status.found.isReady = false)
      · split
        · exact (by decide : Status.exhausted.isReady = false)
        · exact hcore.status
  refine ⟨(commit_drifts run start hit).readyAt.trans hcore.readyAt, ?_⟩
  unfold commit
  split
  · exact hcore.status
  · cases hit with
    | none => exact hstatus _ _
    | some nonce => exact hstatus _ _

theorem commit_halted (run start : Nat) (hit : Option UInt32) :
    (core.commit config run start hit).halted = core.halted := by
  have hconclude : ∀ nonce accepted, (core.conclude config nonce accepted).halted = core.halted := by
    intro nonce accepted
    unfold conclude
    split
    · rfl
    · dsimp only
      split
      · rfl
      · split <;> rfl
  unfold commit
  split
  · rfl
  · cases hit with
    | none => exact hconclude _ _
    | some nonce => exact hconclude _ _

theorem commit_of_other_run {run : Nat} (hrun : core.run ≠ run) (start : Nat) (hit : Option UInt32) :
    core.commit config run start hit = core := if_pos (.inl hrun)

end Core

/-! ### A core on an open bus -/

/-- A core, the time, and the job whose next batch the searcher of each run is hashing, if it is. -/
structure Engine where
  core : Core := .powered
  now : Nat := 0
  hashing : Nat → Option Job := fun _ => none

namespace Engine

inductive Move where
  | pass (duration : Nat)
  | read (word : Nat)
  | write (word : Nat) (value : UInt32)
  | writeByte (word : Nat) (value : UInt8)
  /-- The searcher of a run looks for a batch, or commits the one it has hashed. -/
  | search (run : Nat)
  | raiseSpurious
  | stall
  | setHalted (halted : Bool)
  deriving DecidableEq

variable (config : CoreConfig)

def search (run : Nat) (engine : Engine) : Engine :=
  match engine.hashing run with
  | none =>
    match engine.core.take run with
    | .batch job => { engine with hashing := Function.update engine.hashing run (some job) }
    | _ => engine
  | some job =>
    { engine with
      core := engine.core.commit config run job.next (Core.hashBatch config job)
      hashing := Function.update engine.hashing run none }

def act (move : Move) (engine : Engine) : Engine :=
  match move with
  | .pass duration => { engine with now := engine.now + duration }
  | .read word => { engine with core := (engine.core.read config engine.now word).2 }
  | .write word value => { engine with core := engine.core.write config engine.now word value }
  | .writeByte word value =>
    { engine with core := engine.core.write config engine.now word value.toUInt32 }
  | .search run => engine.search config run
  | .raiseSpurious => { engine with core := engine.core.raiseSpurious }
  | .stall => { engine with core := engine.core.stall }
  | .setHalted halted => { engine with core := engine.core.setHalted halted }

inductive Reached : Engine → Prop where
  | powered : Reached {}
  | move {engine : Engine} (move : Move) (h : Reached engine) : Reached (engine.act config move)

def follow : List Move → Engine → Engine
  | [], engine => engine
  | move :: moves, engine => follow moves (engine.act config move)

def Move.isStep : Move → Prop
  | .write word value => Driver.Gives config.layout Control.step word value
  | .writeByte word value => Driver.Gives config.layout Control.step word value.toUInt32
  | _ => False

/-- Whatever happens while the core is not released, reset, stalled or stepped. A reset and a stall
    move the core to a new run. -/
inductive Held (engine : Engine) : Engine → Prop where
  | here : Held engine engine
  | move {mid : Engine} (before : Held engine mid) (move : Move) (unstepped : ¬ move.isStep config)
    (halted : (mid.act config move).core.halted = true)
    (run : (mid.act config move).core.run = mid.core.run) : Held engine (mid.act config move)

/-- What a core that was held from one moment on is at another: as it was, or as the batch makes it
    that its searcher had in hand. -/
inductive Standing (engine next : Engine) : Prop where
  | untouched (stands : engine.core.Stands next.core)
    (hand : next.hashing engine.core.run = engine.hashing engine.core.run ∨
      next.hashing engine.core.run = none)
  | committed (job : Job) (inHand : engine.hashing engine.core.run = some job)
    (stands : (engine.core.commit config engine.core.run job.next (Core.hashBatch config job)).Stands
      next.core)
    (hand : next.hashing engine.core.run = none)

variable {config} {engine mid next : Engine}

theorem act_consistent (h : engine.core.Consistent) (move : Move) :
    (engine.act config move).core.Consistent := by
  have hwrite : ∀ word value, (engine.core.write config engine.now word value).Consistent := by
    intro word value
    by_cases hreset : Core.isReset config.layout word value
    · obtain ⟨rfl, rfl⟩ := hreset
      rw [Core.write_reset]
      exact Core.reset_consistent
    · exact (Core.write_change h hreset).consistent h
  cases move with
  | pass duration => exact h
  | read word => exact (Core.read_change word).consistent h
  | write word value => exact hwrite word value
  | writeByte word value => exact hwrite word value.toUInt32
  | search run =>
    unfold act search
    dsimp only
    split
    · split <;> exact h
    · exact (Core.commit_change _ _ _).consistent h
  | raiseSpurious => exact (Core.Change.called (.refl _)).consistent h
  | stall => exact Core.stall_consistent
  | setHalted halted => exact ⟨h.status, h.running, h.resetting⟩

theorem Reached.follow (h : Reached config engine) (moves : List Move) :
    Reached config (follow config moves engine) := by
  induction moves generalizing engine with
  | nil => exact h
  | cons move moves ih => exact ih (.move move h)

theorem Reached.consistent (h : Reached config engine) : engine.core.Consistent := by
  induction h with
  | powered => exact Core.powered_consistent
  | move move _ ih => exact act_consistent ih move

/-! ### While a core is held -/

theorem Standing.refl (engine : Engine) : Standing config engine engine :=
  .untouched (.refl _) (.inl rfl)

theorem Standing.run (h : Standing config engine mid) : mid.core.run = engine.core.run := by
  cases h with
  | untouched stands => exact stands.run
  | committed job inHand stands => exact stands.run.trans (Core.commit_change _ _ _).run

theorem Standing.unready (h : Standing config engine mid) (hengine : engine.core.Unready) :
    mid.core.Unready := by
  cases h with
  | untouched stands => exact stands.unready hengine
  | committed job inHand stands => exact stands.unready (Core.commit_unready hengine _ _ _)

theorem Standing.trans_stands (h : Standing config engine mid) (hcore : mid.core.Stands next.core)
    (hhashing : next.hashing = mid.hashing) : Standing config engine next := by
  cases h with
  | untouched stands hand => exact .untouched (stands.trans hcore) (hhashing ▸ hand)
  | committed job inHand stands hand =>
    exact .committed job inHand (stands.trans hcore) (hhashing ▸ hand)

/-- A searcher takes nothing from a halted core, and commits only what it had taken. -/
theorem Standing.search_cases (h : Standing config engine mid) (hhalted : mid.core.halted = true)
    (run : Nat) :
    (mid.search config run).core = mid.core ∧
      ((mid.search config run).hashing engine.core.run = mid.hashing engine.core.run) ∨
    ∃ job, engine.hashing engine.core.run = some job ∧ engine.core.Stands mid.core ∧
      (mid.search config run).core =
        mid.core.commit config engine.core.run job.next (Core.hashBatch config job) ∧
      (mid.search config run).hashing engine.core.run = none := by
  unfold Engine.search
  cases hhashing : mid.hashing run with
  | none =>
    left
    dsimp only
    split
    · next job htaken =>
      obtain ⟨-, -, hreleased⟩ := Core.take_batch htaken
      rw [hhalted] at hreleased
      cases hreleased
    · exact ⟨rfl, rfl⟩
  | some job =>
    -- A batch of an earlier run is dropped by the core, so only the searcher of this run matters, and it
    -- has nothing in hand but what it had at first.
    by_cases hrun : mid.core.run = run
    · right
      subst hrun
      rw [h.run] at hhashing ⊢
      cases h with
      | untouched stands hand =>
        rcases hand with hsame | hnone
        · rw [hsame] at hhashing
          exact ⟨job, hhashing, stands, rfl, Function.update_self ..⟩
        · rw [hnone] at hhashing
          cases hhashing
      | committed other inHand stands hand =>
        rw [hand] at hhashing
        cases hhashing
    · left
      have hother : engine.core.run ≠ run := h.run ▸ hrun
      exact ⟨Core.commit_of_other_run hrun _ _, Function.update_of_ne hother _ _⟩

theorem Standing.search (h : Standing config engine mid) (hhalted : mid.core.halted = true)
    (run : Nat) : Standing config engine (mid.search config run) := by
  rcases h.search_cases hhalted run with ⟨hcore, hhashing⟩ | ⟨job, hand, hstands, hcore, hhashing⟩
  · cases h with
    | untouched stands hand => exact .untouched (hcore ▸ stands) (hhashing ▸ hand)
    | committed job inHand stands hand => exact .committed job inHand (hcore ▸ stands) (hhashing ▸ hand)
  · exact .committed job hand (hcore ▸ hstands.commit _ _ _) hhashing

theorem Standing.step (h : Standing config engine mid) (hengine : engine.core.Unready)
    (hhalted : mid.core.halted = true) {move : Move} (hstep : ¬ move.isStep config)
    (hrun : (mid.act config move).core.run = mid.core.run) :
    Standing config engine (mid.act config move) := by
  have hmid := h.unready hengine
  cases move with
  | pass duration => exact h.trans_stands (.refl _) rfl
  | read word => exact h.trans_stands (Core.read_stands hmid word) rfl
  | write word value => exact h.trans_stands (Core.write_stands hmid hstep hrun) rfl
  | writeByte word value => exact h.trans_stands (Core.write_stands hmid hstep hrun) rfl
  | search run => exact h.search hhalted run
  | raiseSpurious => exact h.trans_stands ⟨rfl, rfl, rfl, rfl, rfl, rfl⟩ rfl
  | stall => exact absurd hrun (Nat.succ_ne_self _)
  | setHalted halted => exact h.trans_stands ⟨rfl, rfl, rfl, rfl, rfl, rfl⟩ rfl

theorem Held.halted (h : Held config engine next) (hhalted : engine.core.halted = true) :
    next.core.halted = true := by
  cases h with
  | here => exact hhalted
  | move before move unstepped halted run => exact halted

/-- Whatever a searcher does to a halted core, it is held. -/
theorem Held.search (h : Held config engine mid) (hhalted : mid.core.halted = true) (run : Nat) :
    Held config engine (mid.act config (.search run)) := by
  have hkeeps : (mid.search config run).core.halted = mid.core.halted ∧
      (mid.search config run).core.run = mid.core.run := by
    unfold Engine.search
    split
    · split <;> exact ⟨rfl, rfl⟩
    · exact ⟨Core.commit_halted _ _ _, (Core.commit_change _ _ _).run⟩
  exact .move h (.search run) nofun (hkeeps.1.trans hhalted) hkeeps.2

theorem Held.standing (h : Held config engine next) (hengine : engine.core.Unready)
    (hhalted : engine.core.halted = true) : Standing config engine next := by
  induction h with
  | here => exact .refl engine
  | move before move unstepped halted run ih =>
    exact ih.step hengine (before.halted hhalted) unstepped run

end Engine

end NonceSearch
