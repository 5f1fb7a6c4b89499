import NonceSearch.Proofs.SteppedSearch

/-!
# The phases of a core, and searchers that retire

Whoever accesses the registers of a core, in whatever order, and whatever its searchers and hooks do in
between, its status is one of five, and its job, its reset and its counters go with that status
(`Core.Consistent`, `Core.Counted`). A reset and a stall move the core to a new run, and runs are never
taken up again. So a searcher that was started before can look at the core as often as it likes, or come
back with the batch that it had in hand: it is told to retire, and its batch is dropped
(`Engine.phases_agree_and_old_searchers_retire`).
-/

namespace NonceSearch

def Status.phases : List Status := [.empty, .ready, .running, .found, .exhausted]

namespace Core

variable {config : CoreConfig} {core next : Core} {now : Nat}

theorem Consistent.count_phases (h : core.Consistent) : Status.phases.count core.status = 1 := by
  rcases h.status with hstatus | hstatus | hstatus | hstatus | hstatus
  · rw [hstatus]; decide
  · rw [hstatus]; decide
  · rw [hstatus]; decide
  · rw [hstatus]; decide
  · rw [hstatus]; decide

/-! ### Counters -/

variable (config) in
/-- The current nonce goes with the search: while it goes on, it is the next nonce, which is searched,
    and when one has been found, it is the nonce after that, or the greatest if there is none. -/
structure Counted (core : Core) : Prop where
  searching : ∀ job, core.job = some job →
    job.next ≤ config.lastNonce.toNat ∧ core.nonceCurrent.toNat = job.next
  found : core.status = .found →
    core.nonceCurrent.toNat = min (core.nonceCandidate.toNat + 1) (2 ^ 32 - 1)

theorem Counted.stands (h : core.Counted config) (hstands : core.Stands next) :
    next.Counted config where
  searching := by
    rw [hstands.job, hstands.nonceCurrent]
    exact h.searching
  found := by
    rw [hstands.status, hstands.nonceCurrent, hstands.nonceCandidate]
    exact h.found

/-- Where no search goes on and nothing has been found, there is nothing to count. -/
theorem counted_of_idle (hjob : core.job = none) (hstatus : core.status ≠ .found) :
    core.Counted config where
  searching := by
    rw [hjob]
    exact fun _ => nofun
  found := fun hfound => absurd hfound hstatus

theorem Searching.counted {task : Job} {tried : Nat} (h : Searching config task core tried) :
    core.Counted config where
  searching := by
    intro job hjob
    obtain rfl := Option.some.inj (h.job.symm.trans hjob)
    exact ⟨h.searched, h.current⟩
  found := by
    rw [h.status]
    exact fun hfound => absurd hfound (by decide)

/-- As long as a core has no job, its counters stay as they are, unless a reset that is over takes away
    what was found. -/
theorem Counted.change_of_idle (h : core.Counted config) (hchange : core.Change next)
    (hjob : core.job = none) (hnext : next.job = none) : next.Counted config := by
  cases hchange with
  | kept same => exact h.stands same.stands
  | called same =>
    have hraised : core.raiseSpurious.Counted config := ⟨h.searching, h.found⟩
    exact hraised.stands same.stands
  | readied pending same =>
    refine counted_of_idle hnext ?_
    rw [same.status]
    exact (by decide : Status.ready ≠ .found)
  | started job ready same => cases same.job.symm.trans hnext
  | advanced job reached current searching same => cases hjob.symm.trans searching
  | ended job outcome current candidate searching outcomes same => cases hjob.symm.trans searching

/-- A nonce that was tried is counted. -/
theorem Counted.conclude (h : core.Counted config) (hcore : core.Consistent) {nonce : UInt32}
    {accepted : Bool} (hnonce : accepted = false → nonce.toNat ≤ config.lastNonce.toNat) :
    (core.conclude config nonce accepted).Counted config := by
  have hcurrent : (UInt32.ofNat (min (nonce.toNat + 1) 0xffffffff)).toNat =
      min (nonce.toNat + 1) (2 ^ 32 - 1) := by
    rw [UInt32.toNat_ofNat']
    omega
  -- A rejected nonce that is not the last one leaves room for the next, so the current nonce is cut off
  -- at the greatest only where nothing is searched any more.
  unfold Core.conclude
  split
  · exact h
  · next job hjob =>
    have hrunning : core.status = .running := hcore.running.mp (by rw [hjob]; rfl)
    dsimp only
    cases accepted with
    | true =>
      rw [if_pos rfl]
      exact ⟨fun _ => nofun, fun _ => hcurrent⟩
    | false =>
      rw [if_neg Bool.false_ne_true]
      have hle := hnonce rfl
      split
      · exact counted_of_idle rfl (by decide : Status.exhausted ≠ .found)
      · next hearly =>
        have hless : nonce.toNat < config.lastNonce.toNat :=
          Nat.lt_of_le_of_ne hle fun heq => hearly (UInt32.toNat_inj.mp heq)
        have hlast := config.lastNonce.toNat_lt
        refine ⟨?_, fun hfound => ?_⟩
        · intro later hlater
          obtain rfl := Option.some.inj hlater
          refine ⟨hless, hcurrent.trans ?_⟩
          dsimp only
          omega
        · cases hrunning.symm.trans hfound

theorem Counted.step (h : core.Counted config) (hcore : core.Consistent) :
    (core.step config).Counted config := by
  unfold Core.step
  split
  · exact h
  · next job hjob =>
    split
    · refine h.conclude hcore fun _ => ?_
      have hsearched := (h.searching job hjob).1
      have hsame : (UInt32.ofNat job.next).toNat = job.next :=
        UInt32.toNat_ofNat_of_lt' (Nat.lt_of_le_of_lt hsearched config.lastNonce.toNat_lt)
      rw [hsame]
      exact hsearched
    · exact h

theorem Counted.commit (h : core.Counted config) (hcore : core.Consistent) (run start : Nat)
    (hit : Option UInt32) : (core.commit config run start hit).Counted config := by
  unfold Core.commit
  split
  · exact h
  · next hturn =>
    cases hit with
    | some nonce => exact h.conclude hcore nofun
    | none =>
      refine h.conclude hcore fun _ => ?_
      obtain ⟨job, hjob, rfl⟩ : ∃ job, core.job = some job ∧ job.next = start := by
        simpa using (not_or.mp hturn).2
      have hend := (CoreConfig.batchEnd_bounds (h.searching job hjob).1).2
      have hsame : (UInt32.ofNat (config.batchEnd job.next)).toNat = config.batchEnd job.next :=
        UInt32.toNat_ofNat_of_lt' (Nat.lt_of_le_of_lt hend config.lastNonce.toNat_lt)
      rw [hsame]
      exact hend

/-- A write that keeps to the run of a search is a step, or leaves the search where it is. -/
theorem Counted.write (h : core.Counted config) (hcore : core.Consistent) (hunready : core.Unready)
    (word : Nat) (value : UInt32) (hrun : (core.write config now word value).run = core.run) :
    (core.write config now word value).Counted config := by
  -- A step is the one write that moves a search on without ending its run.
  by_cases hstep : Driver.Gives config.layout Control.step word value
  · obtain ⟨rfl, rfl⟩ := hstep
    rw [write_step]
    exact h.step hcore
  · exact h.stands (write_stands hunready hstep hrun)

end Core

namespace Engine

variable {config : CoreConfig} {engine last : Engine} {move : Move} {run : Nat}

/-! ### Runs -/

variable (config) in
/-- The moves with which a core gives up whatever it is doing: a reset command and a stall. -/
def Move.Retires : Move → Prop
  | .write word value => Core.isReset config.layout word value
  | .writeByte word value => Core.isReset config.layout word value.toUInt32
  | .stall => True
  | _ => False

theorem Move.Retires.core_act (h : move.Retires config) :
    (engine.act config move).core = engine.core.reset config engine.now ∨
      (engine.act config move).core = engine.core.stall := by
  cases move with
  | write word value =>
    obtain ⟨rfl, rfl⟩ := h
    exact .inl Core.write_reset
  | writeByte word value =>
    obtain ⟨rfl, hvalue⟩ := h
    left
    rw [act, hvalue, Core.write_reset]
  | stall => exact .inr rfl
  | _ => cases h

theorem Move.Retires.run_act (h : move.Retires config) :
    (engine.act config move).core.run = engine.core.run + 1 := by
  rcases @core_act config engine move h with hreset | hstall
  · rw [hreset, Core.reset_run]
  · rw [hstall]
    rfl

theorem Move.Retires.counted_act (h : move.Retires config) :
    (engine.act config move).core.Counted config := by
  rcases @core_act config engine move h with hreset | hstall
  · obtain ⟨hjob, -, hstatus⟩ := @Core.reset_search config engine.core engine.now
    rw [hreset]
    refine Core.counted_of_idle hjob ?_
    rcases hstatus with hready | hempty
    · rw [hready]; decide
    · rw [hempty]; decide
  · rw [hstall]
    exact Core.counted_of_idle rfl (by decide : Status.empty ≠ .found)

/-- A searcher commits the batch that it has in hand, and does nothing else to the core. -/
theorem search_core_cases (engine : Engine) (run : Nat) :
    (engine.search config run).core = engine.core ∨
      ∃ start hit, (engine.search config run).core = engine.core.commit config run start hit := by
  unfold Engine.search
  split
  · split <;> exact .inl rfl
  · exact .inr ⟨_, _, rfl⟩

/-- Every other move changes the search in one of the ways listed. -/
theorem change_act (hcore : engine.core.Consistent) (hmove : ¬ move.Retires config) :
    engine.core.Change (engine.act config move).core := by
  cases move with
  | pass duration => exact .kept (.refl _)
  | read word => exact Core.read_change word
  | write word value => exact Core.write_change hcore hmove
  | writeByte word value => exact Core.write_change hcore hmove
  | search run =>
    rcases @search_core_cases config engine run with hsame | ⟨start, hit, hcommit⟩
    · exact hsame ▸ .kept (.refl _)
    · exact hcommit ▸ Core.commit_change _ _ _
  | raiseSpurious => exact .called (.refl _)
  | stall => exact absurd trivial hmove
  | setHalted halted => exact .kept ⟨rfl, rfl, rfl, rfl, rfl, rfl, rfl⟩

/-- Runs are numbered upwards. -/
theorem run_le_act (hcore : engine.core.Consistent) (move : Move) :
    engine.core.run ≤ (engine.act config move).core.run := by
  by_cases hretires : move.Retires config
  · exact hretires.run_act ▸ Nat.le_succ _
  · exact Nat.le_of_eq (change_act hcore hretires).run.symm

theorem Reached.run_le_follow (h : Reached config engine) (moves : List Move) :
    engine.core.run ≤ (Engine.follow config moves engine).core.run := by
  induction moves generalizing engine with
  | nil => exact Nat.le_refl _
  | cons move moves ih =>
    exact Nat.le_trans (run_le_act h.consistent move) (ih (.move move h))

/-! ### Counters after a move -/

/-- While a search goes on, the counters go with it. -/
theorem counted_act_of_job (h : engine.core.Counted config) (hcore : engine.core.Consistent)
    (hjob : engine.core.job.isSome) (hrun : (engine.act config move).core.run = engine.core.run) :
    (engine.act config move).core.Counted config := by
  have hunready := hcore.unready hjob
  cases move with
  | pass duration => exact h
  | read word => exact h.stands (Core.read_stands hunready word)
  | write word value => exact h.write hcore hunready word value hrun
  | writeByte word value => exact h.write hcore hunready word value.toUInt32 hrun
  | search run =>
    rcases @search_core_cases config engine run with hsame | ⟨start, hit, hcommit⟩
    · exact hsame ▸ h
    · exact hcommit ▸ h.commit hcore run start hit
  | raiseSpurious => exact ⟨h.searching, h.found⟩
  | stall => exact absurd hrun (Nat.succ_ne_self _)
  | setHalted halted => exact ⟨h.searching, h.found⟩

theorem counted_act (hreached : Reached config engine) (h : engine.core.Counted config)
    (move : Move) : (engine.act config move).core.Counted config := by
  have hcore := hreached.consistent
  by_cases hretires : move.Retires config
  · exact hretires.counted_act
  have hchange := change_act hcore hretires
  -- A change does not tell which nonce a search has come to, so searches are followed move by move.
  cases hjob : engine.core.job with
  | none =>
    cases hnext : (engine.act config move).core.job with
    | none => exact h.change_of_idle hchange hjob hnext
    | some task => exact (begins_at_zero hreached hjob move hnext).1.counted
  | some job => exact counted_act_of_job h hcore (by rw [hjob]; rfl) hchange.run

theorem Reached.counted (h : Reached config engine) : engine.core.Counted config := by
  induction h with
  | powered => exact Core.counted_of_idle rfl (by decide)
  | move move before ih => exact counted_act before ih move

/-! ### Searchers -/

variable (config) in
/-- The engines in which a searcher of a run has been started, now or before. -/
inductive Started : Engine → Nat → Prop where
  | begins {engine : Engine} (move : Move) (reached : Reached config engine)
    (idle : engine.core.job = none) (searching : (engine.act config move).core.job.isSome) :
    Started (engine.act config move) (engine.act config move).core.run
  | later {engine : Engine} {run : Nat} (move : Move) (before : Started engine run) :
    Started (engine.act config move) run

theorem Started.reached (h : Started config engine run) : Reached config engine := by
  induction h with
  | begins move reached => exact .move move reached
  | later move before ih => exact .move move ih

theorem Started.run_le (h : Started config engine run) : run ≤ engine.core.run := by
  induction h with
  | begins move reached => exact Nat.le_refl _
  | later move before ih => exact Nat.le_trans ih (run_le_act before.reached.consistent move)

theorem Started.follow (h : Started config engine run) (moves : List Move) :
    Started config (Engine.follow config moves engine) run := by
  induction moves generalizing engine with
  | nil => exact h
  | cons move moves ih => exact ih (.later move h)

/-- A searcher of a run that is over finds nothing to take and nothing to commit to. -/
theorem search_of_past_run (hpast : run < engine.core.run) :
    (engine.act config (.search run)).core = engine.core ∧ engine.core.take run = .retire := by
  have hother : engine.core.run ≠ run := Nat.ne_of_gt hpast
  exact ⟨(search_of_other_run hother).1, if_pos hother⟩

/-- Whatever is done to a core, its status is exactly one of five; it has a job if and only if it is
    RUNNING; while a reset is in progress its status is empty and it has no job; and once it has FOUND a
    nonce, the current nonce is the one after it, or the greatest. With a reset and with a stall, all
    searchers that were started before are done with the core: whatever comes next, they are told to
    retire, and when they come back with a batch, no register changes and no interrupt is raised. -/
theorem phases_agree_and_old_searchers_retire (h : Reached config engine) :
    Status.phases.count engine.core.status = 1 ∧
    (engine.core.job.isSome ↔ engine.core.status = .running) ∧
    (engine.core.readyAt.isSome → engine.core.status = .empty ∧ engine.core.job = none) ∧
    (engine.core.status = .found →
      engine.core.nonceCurrent.toNat = min (engine.core.nonceCandidate.toNat + 1) (2 ^ 32 - 1)) ∧
    ∀ run, Started config engine run → ∀ move : Move, move.Retires config → ∀ moves : List Move,
      let last := follow config moves (engine.act config move)
      (last.act config (.search run)).core = last.core ∧ last.core.take run = .retire := by
  have hcore := h.consistent
  refine ⟨hcore.count_phases, hcore.running, ?_, h.counted.found, ?_⟩
  · exact fun hpending => ⟨hcore.resetting hpending, hcore.job_of_resetting hpending⟩
  · intro run hstarted move hretires moves
    have hafter : (engine.act config move).core.run = engine.core.run + 1 := hretires.run_act
    have hlast := (h.move move).run_le_follow moves
    refine search_of_past_run ?_
    calc run ≤ engine.core.run := hstarted.run_le
      _ < (engine.act config move).core.run := hafter ▸ Nat.lt_succ_self _
      _ ≤ _ := hlast

/-! The searcher of the first run has taken both nonces when the core is reset and started again. The
second searcher finds a nonce, and then the first one comes back. -/

def readyEngine : Engine := follow twoNonces [.write CountWindow.control Control.reset] {}

def inHand : Engine :=
  follow twoNonces [.write CountWindow.control Control.start, .search 1] readyEngine

def foundAgain : Engine :=
  follow twoNonces
    [.write CountWindow.control Control.start, .search 2, .search 2]
    (inHand.act twoNonces (.write CountWindow.control Control.reset))

theorem late_searcher_retires :
    Reached twoNonces inHand ∧ Started twoNonces inHand 1 ∧ (inHand.hashing 1).isSome ∧
      (foundAgain.hashing 1).isSome ∧ foundAgain.core.status = .found ∧
      foundAgain.core.nonceCurrent = 1 ∧ foundAgain.core.raised = 1 ∧
      Status.phases.count foundAgain.core.status = 1 ∧
      foundAgain.core.nonceCurrent.toNat =
        min (foundAgain.core.nonceCandidate.toNat + 1) (2 ^ 32 - 1) ∧
      (foundAgain.act twoNonces (.search 1)).core = foundAgain.core ∧
      foundAgain.core.take 1 = .retire := by
  have hready : Reached twoNonces readyEngine := Reached.powered.follow _
  have hreached : Reached twoNonces inHand := hready.follow _
  have hfoundAgain : Reached twoNonces foundAgain := (hreached.move _).follow _
  have hbegun : (readyEngine.act twoNonces (.write CountWindow.control Control.start)).core.run = 1 ∧
      (readyEngine.act twoNonces (.write CountWindow.control Control.start)).core.job.isSome := by
    decide +kernel
  have hstarted : Started twoNonces inHand 1 :=
    hbegun.1 ▸ (Started.begins _ hready rfl hbegun.2).follow [.search 1]
  have hretires : Move.Retires twoNonces (.write CountWindow.control Control.reset) := ⟨rfl, rfl⟩
  obtain ⟨hhand, hlate, hfound, hcurrent, hraised⟩ :
      (inHand.hashing 1).isSome ∧ (foundAgain.hashing 1).isSome ∧ foundAgain.core.status = .found ∧
        foundAgain.core.nonceCurrent = 1 ∧ foundAgain.core.raised = 1 := by
    decide +kernel
  obtain ⟨-, -, -, -, hold⟩ := phases_agree_and_old_searchers_retire hreached
  obtain ⟨hsame, hretire⟩ := hold 1 hstarted _ hretires _
  obtain ⟨hcount, -, -, hnext, -⟩ := phases_agree_and_old_searchers_retire hfoundAgain
  exact ⟨hreached, hstarted, hhand, hlate, hfound, hcurrent, hraised, hcount, hnext hfound, hsame,
    hretire⟩

end Engine

end NonceSearch
