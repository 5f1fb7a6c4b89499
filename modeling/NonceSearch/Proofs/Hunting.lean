import NonceSearch.Proofs.Course

/-!
# While the search goes on

A scan that waits for its search looks at the status at the end of every tick and goes on waiting. As
long as the search is under way there is nothing in the queue and the status says so, and each turn of
the searcher brings the search further: it has only so many nonces left (`search_ends`).
-/

namespace NonceSearch

namespace Rig

variable {config : CoreConfig} {work : WorkItem} {rig : Rig} {past : List Event} {move : Move}

/-! ### Progress -/

/-- Nobody else does anything to a search that is under way. -/
theorem Reached.other_outstanding (h : Reached config rig past) {next : Nat}
    (hunderway : rig.core.Underway config work next) (hother : Other move)
    (hsearcher : move ≠ .search rig.core.run) :
    (rig.act config move).core = rig.core ∧
      (rig.act config move).hashing rig.core.run = rig.hashing rig.core.run := by
  cases hother with
  | pass duration => exact ⟨rfl, rfl⟩
  | serve =>
    refine ⟨?_, congrFun (@act_hashing config rig .serve nofun) _⟩
    rcases h.serve_core with hsame | hrefresh | ⟨-, message, started, hepoch⟩
    · exact hsame
    · exact hrefresh.trans (Core.refresh_of_readyAt hunderway.readyAt _)
    · have hjob := hepoch.shown.1
      simp [hunderway.job] at hjob
  | search run =>
    have hrun : rig.core.run ≠ run := by
      rintro rfl
      exact hsearcher rfl
    simp only [act, Rig.search]
    split
    · split
      · exact ⟨rfl, Function.update_of_ne hrun _ _⟩
      · exact ⟨rfl, rfl⟩
    · refine ⟨?_, Function.update_of_ne hrun _ _⟩
      unfold Core.commit
      rw [if_pos (.inl hrun)]

/-! ### The queue -/

theorem Holding.epoch_of_job {core : Core} {history : List Event} {lock : Option LockHolder}
    (h : Holding config core history lock) (hjob : core.job.isSome) : Epoch core history := by
  cases h with
  | reset job status short => simp [job] at hjob
  | _ => assumption

/-- While a search is going on, no result is in the queue. -/
theorem Reached.not_ready (h : Reached config rig past) (hjob : rig.core.job.isSome) :
    rig.driver.queue.isReady = false := by
  cases hmessages : rig.driver.queue.messages with
  | nil => simp [CompletionQueue.isReady, hmessages]
  | cons message rest =>
    obtain ⟨started, hsearches⟩ := h.sound.queued message (by rw [hmessages]; exact List.mem_cons_self)
    have hepoch := h.sound.holding.epoch_of_job hjob
    rw [hsearches] at hepoch
    simp [hepoch.shown.1] at hjob

end Rig

namespace Trial

variable {config : CoreConfig} {scan : Scan} {schedule : Nat → Move} {start trial : Trial} {move : Move}

/-! ### Looking at the status -/

variable (config scan) in
def Asking (holds : Core → Prop) : Trial → Prop :=
  In config Rig.Untaken holds { scan with session := .running, phase := .calling .tick }

variable (config scan) in
def Sensing (holds : Core → Prop) : Trial → Prop :=
  In config Rig.Untaken holds { scan with session := .running, phase := .sensing }

variable (config scan) in
/-- The scan is looking at the status. If it has seen that the search is over, it is. -/
structure Looking (trial : Trial) : Prop where
  present : trial.scan = { scan with session := .running, phase := .calling .tick }
  reached : ∃ past, Rig.Reached config trial.rig past ∧ trial.rig.Untaken past
  held : trial.rig.driver.held = true
  lock : ∃ rest, trial.rig.lock = some (.request .getStatus rest) ∧
    (rest = .read (Driver.statusWord config.layout) (fun word => .done (.word word)) ∨
      ∃ bits, rest = .done (.word bits) ∧
        ((Status.mk bits).isRunning = false → trial.rig.core.Over config scan.work))
  core : trial.rig.core.Hunted config scan.work
  since : trial.since ≤ trial.rig.now

variable (config scan) in
/-- The scan waits for its search, and looks at the status now and then. -/
inductive Hunting (trial : Trial) : Prop where
  | waiting (h : Waiting config scan (Core.Hunted config scan.work) .running false trial)
  | asking (h : Asking config scan (Core.Hunted config scan.work) trial)
  | looking (h : Looking config scan trial)
  | sensing (h : Sensing config scan (Core.Hunted config scan.work) trial)

theorem Hunting.core (h : Hunting config scan trial) : trial.rig.core.Hunted config scan.work := by
  cases h with
  | waiting h => exact h.core
  | asking h => exact h.core
  | looking h => exact h.core
  | sensing h => exact h.core

theorem Hunting.reached (h : Hunting config scan trial) :
    ∃ past, Rig.Reached config trial.rig past ∧ trial.rig.Untaken past := by
  cases h with
  | waiting h => exact h.reached
  | asking h => exact h.reached
  | looking h => exact h.reached
  | sensing h => exact h.reached

theorem Looking.other (h : Looking config scan trial) (hmove : move ≠ .scan) :
    Looking config scan (trial.act config move) := by
  obtain ⟨hscan, ⟨past, hreached, huntaken⟩, hheld, ⟨rest, hlock, hrest⟩, hcore, hsince⟩ := h
  obtain ⟨other, hother, hact, hnow⟩ := trial.act_other hmove
  have hmeanwhile : trial.rig.core.Meanwhile config scan.work (trial.rig.act config other).core :=
    hreached.other_meanwhile hother hlock
  rw [hact]
  refine ⟨hscan, ⟨_, .move other hreached, hreached.untaken_act huntaken hother.not_read⟩,
    hother.held.trans hheld, ⟨rest, (hother.lock _ rest).mpr hlock, ?_⟩,
    Rig.Kept.hunted.searching _ _ hcore hmeanwhile, hsince.trans hnow⟩
  rcases hrest with hread | ⟨bits, hdone, hover⟩
  · exact .inl hread
  · refine .inr ⟨bits, hdone, fun hbits => ?_⟩
    exact Rig.Kept.finished.searching _ _ (hover hbits) hmeanwhile

theorem Hunting.other (h : Hunting config scan trial) (hmove : move ≠ .scan) :
    Hunting config scan (trial.act config move) := by
  cases h with
  | waiting h => exact .waiting (In.other h .untaken .hunted hmove).1
  | asking h => exact .asking (In.other h .untaken .hunted hmove).1
  | looking h => exact .looking (h.other hmove)
  | sensing h => exact .sensing (In.other h .untaken .hunted hmove).1

/-- The scan begins to look, or waits for the lock. -/
theorem Asking.turn (h : Asking config scan (Core.Hunted config scan.work) trial) :
    Hunting config scan (trial.act config .scan) ∧
      (trial.act config .scan).rig.core = trial.rig.core ∧
      (trial.act config .scan).rig.hashing = trial.rig.hashing := by
  obtain ⟨rig, present, since⟩ := trial
  obtain ⟨hscan, ⟨past, hreached, huntaken⟩, hheld, hfree, hcore, hsince⟩ := id h
  dsimp only at hscan hreached hheld huntaken hfree hcore hsince
  subst hscan
  have hprogram : Driver.program config.layout .getStatus =
      .ok (.read (Driver.statusWord config.layout) fun word => .done (.word word)) := rfl
  cases hlock : rig.lock with
  | some holder =>
    cases holder with
    | request asked rest => exact absurd hlock (hfree asked rest)
    | service rest =>
      have hturn := @goOn_blocked config rig { scan with session := .running } since .tick _ hprogram
        rest hlock
      rw [act, hturn]
      exact ⟨.asking h, rfl, rfl⟩
  | none =>
    have hturn := @goOn_begins config rig { scan with session := .running } since .tick _ hprogram hlock
    have huntaken' := @Rig.Reached.untaken_act config rig past hreached huntaken
      (.request .getStatus) (by simp)
    have hreached' := hreached.move (.request .getStatus)
    have hact : rig.act config (.request .getStatus) = { rig with
        lock := some (.request .getStatus
          (.read (Driver.statusWord config.layout) fun word => .done (.word word))) } := by
      simp [Rig.act, Rig.beginRequest, hheld, hlock, hprogram]
    rw [hact] at huntaken' hreached'
    have hnext : goOn config
        ⟨rig, { scan with session := .running, phase := .calling .tick }, since⟩ =
        ⟨_, { scan with session := .running, phase := .calling .tick }, since⟩ := hturn.trans
          (congrArg (Trial.mk · { scan with session := .running, phase := .calling .tick } since) hact)
    rw [act, hnext]
    exact ⟨.looking ⟨rfl, ⟨_, hreached', huntaken'⟩, hheld, ⟨_, rfl, .inl rfl⟩, hcore, hsince⟩, rfl,
      rfl⟩

/-- The scan reads the status, or goes by what it has read. -/
theorem Looking.turn (h : Looking config scan trial) {next : Nat}
    (hunderway : trial.rig.core.Underway config scan.work next) :
    Hunting config scan (trial.act config .scan) ∧
      (trial.act config .scan).rig.core = trial.rig.core ∧
      (trial.act config .scan).rig.hashing = trial.rig.hashing := by
  obtain ⟨rig, present, since⟩ := trial
  obtain ⟨hscan, ⟨past, hreached, huntaken⟩, hheld, ⟨rest, hlock, hrest⟩, hcore, hsince⟩ := h
  dsimp only at hscan hreached hheld huntaken hlock hrest hcore hsince hunderway
  subst hscan
  have hprogram : Driver.program config.layout .getStatus =
      .ok (.read (Driver.statusWord config.layout) fun word => .done (.word word)) := rfl
  have huntaken' := @Rig.Reached.untaken_act config rig past hreached huntaken .proceed (by simp)
  have hreached' := hreached.move .proceed
  rcases hrest with rfl | ⟨bits, rfl, hover⟩
  · have hturn := @goOn_accesses config rig { scan with session := .running } since .tick _ hprogram
      .getStatus _ hlock (by simp)
    have hread : rig.core.read config rig.now (Driver.statusWord config.layout) =
        (Status.running.bits, rig.core) := by
      rw [Driver.read_statusWord, Core.refresh_of_readyAt hunderway.readyAt, hunderway.status]
    have hact : rig.act config .proceed =
        { rig with lock := some (.request .getStatus (.done (.word Status.running.bits))) } := by
      simp [Rig.act, Rig.proceed, hlock, Bus.advance, Rig.window, Core.registerFile, hread]
    rw [hact] at huntaken' hreached'
    have hnext := hturn.trans
      (congrArg (Trial.mk · { scan with session := .running, phase := .calling .tick } since) hact)
    rw [act, hnext]
    refine ⟨.looking ⟨rfl, ⟨_, hreached', huntaken'⟩, hheld, ⟨_, rfl, .inr ⟨_, rfl, ?_⟩⟩, hcore,
      hsince⟩, rfl, rfl⟩
    intro hidle
    exact absurd hidle (by decide)
  · have hturn := @goOn_returns config rig { scan with session := .running } since .tick _ hprogram
      .getStatus _ hlock
    have hrunning : (Status.mk bits).isRunning = true := by
      by_contra hidle
      have hjob := (hover (by simpa using hidle)).job
      simp [hunderway.job] at hjob
    have hcalled : (Scan.called { scan with session := .running, phase := .calling .tick } .tick
        (.ok (.word bits)) ⟨rig.now, false⟩).1 =
        { scan with session := .running, phase := .sensing } := by
      rw [Scan.called_status rfl]
      simp only [Scan.proceed, SessionCall.advance, hrunning, if_true]
      rfl
    have hact : rig.act config .proceed = { rig with lock := none } := by
      simp [Rig.act, Rig.proceed, hlock, DriverState.finishRequest]
    rw [hact] at huntaken' hreached'
    have hnext : goOn config ⟨rig, { scan with session := .running, phase := .calling .tick }, since⟩ =
        ⟨{ rig with lock := none }, { scan with session := .running, phase := .sensing }, rig.now⟩ := by
      rw [← hact, ← hcalled]
      exact hturn
    rw [act, hnext]
    exact ⟨.sensing ⟨rfl, ⟨_, hreached', huntaken'⟩, hheld, by simp, hcore, Nat.le_refl _⟩, rfl, rfl⟩

/-- The scan itself does nothing to a search that is under way, and goes on waiting for it. -/
theorem Hunting.turn (h : Hunting config scan trial) {next : Nat}
    (hunderway : trial.rig.core.Underway config scan.work next) :
    Hunting config scan (trial.act config .scan) ∧
      (trial.act config .scan).rig.core = trial.rig.core ∧
      (trial.act config .scan).rig.hashing = trial.rig.hashing := by
  cases h with
  | asking h => exact h.turn
  | looking h => exact h.turn hunderway
  | waiting h =>
    obtain ⟨rig, present, since⟩ := trial
    obtain ⟨hscan, ⟨past, hreached, huntaken⟩, hheld, hfree, hcore, hsince⟩ := h
    dsimp only at hscan hreached hunderway
    subst hscan
    have hready := hreached.not_ready (by rw [hunderway.job]; rfl)
    by_cases hdue : since + scan.config.waitTick ≤ rig.now
    · have hturn := @goOn_lapses config rig { scan with session := .running } since false hready hdue
      rw [act, hturn]
      exact ⟨.asking ⟨rfl, ⟨past, hreached, huntaken⟩, hheld, hfree, hcore, Nat.le_refl _⟩, rfl, rfl⟩
    · have hturn := @goOn_waits config rig { scan with session := .running } since false hready hdue
      rw [act, hturn]
      exact ⟨.waiting ⟨rfl, ⟨past, hreached, huntaken⟩, hheld, hfree, hcore, hsince⟩, rfl, rfl⟩
  | sensing h =>
    obtain ⟨rig, present, since⟩ := trial
    obtain ⟨hscan, hreached, hheld, hfree, hcore, -⟩ := h
    dsimp only at hscan
    subst hscan
    exact ⟨.waiting ⟨rfl, hreached, hheld, hfree, hcore, Nat.le_refl _⟩, rfl, rfl⟩

/-! ### The end of the search -/

/-- Nobody but its searcher does anything to a search that is under way. -/
theorem Hunting.others (h : Hunting config scan trial) {next : Nat}
    (hunderway : trial.rig.core.Underway config scan.work next)
    (hsearcher : move ≠ .search trial.rig.core.run) :
    Hunting config scan (trial.act config move) ∧
      (trial.act config move).rig.core = trial.rig.core ∧
      (trial.act config move).rig.hashing trial.rig.core.run =
        trial.rig.hashing trial.rig.core.run := by
  obtain ⟨past, hreached, -⟩ := h.reached
  by_cases hmove : move = .scan
  · subst hmove
    obtain ⟨hnext, hcore, hhashing⟩ := h.turn hunderway
    exact ⟨hnext, hcore, congrFun hhashing _⟩
  · refine ⟨h.other hmove, ?_⟩
    cases move with
    | scan => exact absurd rfl hmove
    | serve => exact hreached.other_outstanding hunderway .serve nofun
    | search run =>
      refine hreached.other_outstanding hunderway (.search run) fun hsame => hsearcher ?_
      rw [Rig.Move.search.inj hsame]
    | pass duration => exact hreached.other_outstanding hunderway (.pass duration) nofun

end Trial

end NonceSearch
