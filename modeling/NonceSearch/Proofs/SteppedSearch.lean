import NonceSearch.Proofs.HeldCores
import NonceSearch.Proofs.Remainders

/-!
# A search under halts and steps

Two hands move a search on: its searcher, a batch at a time, and, while the core is halted, whoever gives
step commands. A batch that was overtaken by a step is dropped, and the searcher takes the next one from
where the search is by then. So whatever the schedule, the results that are taken in are those of the
nonces from zero up, each of them once, and the search ends at the first that is accepted or at the last
(`Engine.stepped_search_is_exact`).
-/

namespace NonceSearch

/-! ### What a batch tries -/

namespace Job

variable {config : CoreConfig} {job : Job}

/-- The last nonce that a searcher tries of a batch: it stops at the first that is accepted. -/
def lastTried (config : CoreConfig) (job : Job) : Nat :=
  match Core.hashBatch config job with
  | some nonce => nonce.toNat
  | none => config.batchEnd job.next

theorem le_firstHit {count start : Nat} (hfits : start + count ≤ 2 ^ 32) {nonce : UInt32}
    (h : job.firstHit count start = some nonce) : start ≤ nonce.toNat := by
  induction count generalizing start with
  | zero => exact absurd h nofun
  | succ count ih =>
    have hsmall : start < UInt32.size := Nat.lt_of_lt_of_le (by omega) hfits
    have hstart : (UInt32.ofNat start).toNat = start := UInt32.toNat_ofNat_of_lt' hsmall
    simp only [firstHit] at h
    split at h
    · obtain rfl := Option.some.inj h
      exact Nat.le_of_eq hstart.symm
    · have hlater := ih (by omega) h
      omega

/-- A batch is tried from its first nonce on, and of all but the last it is known that they are
    rejected. -/
theorem lastTried_spec (h : job.next ≤ config.lastNonce.toNat) :
    job.next ≤ job.lastTried config ∧ job.lastTried config ≤ config.lastNonce.toNat ∧
      (∀ nonce : UInt32, job.next ≤ nonce.toNat → nonce.toNat < job.lastTried config →
        job.accepts nonce = false) ∧
      job.accepts (UInt32.ofNat (job.lastTried config)) = (Core.hashBatch config job).isSome := by
  obtain ⟨hle, hend⟩ := CoreConfig.batchEnd_bounds h
  have hlast := config.lastNonce.toNat_lt
  have hfits : job.next + (config.batchEnd job.next + 1 - job.next) ≤ 2 ^ 32 := by omega
  unfold lastTried
  cases hhit : Core.hashBatch config job with
  | some nonce =>
    obtain ⟨hlt, haccepts, hbefore⟩ := firstHit_some hfits hhit
    have hfrom := le_firstHit hfits hhit
    dsimp only
    refine ⟨hfrom, by omega, hbefore, ?_⟩
    rw [UInt32.ofNat_toNat]
    exact haccepts
  | none =>
    have hrejected := firstHit_none hfits hhit
    dsimp only
    refine ⟨hle, hend, fun nonce hfrom hto => hrejected nonce hfrom (by omega), ?_⟩
    have hsame : (UInt32.ofNat (config.batchEnd job.next)).toNat = config.batchEnd job.next :=
      UInt32.toNat_ofNat_of_lt' (Nat.lt_of_le_of_lt hend hlast)
    apply hrejected
    · rw [hsame]
      exact hle
    · rw [hsame]
      omega

variable (config) in
structure First (job : Job) (nonce : UInt32) : Prop where
  searched : nonce ≤ config.lastNonce
  accepted : job.accepts nonce = true
  rejected : ∀ earlier, earlier < nonce → job.accepts earlier = false

variable (config) in
def Barren (job : Job) : Prop := ∀ nonce, nonce ≤ config.lastNonce → job.accepts nonce = false

end Job

/-! ### What a search comes to -/

namespace Core

variable (config : CoreConfig) (task : Job)

/-- The search goes on, and all nonces before the next one have been rejected. -/
structure Searching (core : Core) (next : Nat) : Prop where
  job : core.job = some { task with next := next }
  status : core.status = .running
  readyAt : core.readyAt = none
  current : core.nonceCurrent.toNat = next
  searched : next ≤ config.lastNonce.toNat
  rejected : ∀ nonce : UInt32, nonce.toNat < next → task.accepts nonce = false

/-- The search is over after so many nonces. -/
inductive Ended (core : Core) : Nat → Prop where
  | found (job : core.job = none) (readyAt : core.readyAt = none) (status : core.status = .found)
    (first : task.First config core.nonceCandidate) : Ended core (core.nonceCandidate.toNat + 1)
  | exhausted (job : core.job = none) (readyAt : core.readyAt = none)
    (status : core.status = .exhausted) (barren : task.Barren config) :
    Ended core (config.lastNonce.toNat + 1)

/-- So many nonces have been tried, and so often the search has ended. -/
inductive Tries (core : Core) : (tried ended : Nat) → Prop where
  | goesOn {next : Nat} (searching : Searching config task core next) : Tries core next 0
  | closed {tried : Nat} (ended : Ended config task core tried) : Tries core tried 1

variable {config task} {core next : Core} {tried ended : Nat}

theorem Searching.stands (h : Searching config task core tried) (hstands : core.Stands next) :
    Searching config task next tried where
  job := hstands.job.trans h.job
  status := hstands.status.trans h.status
  readyAt := hstands.readyAt.trans h.readyAt
  current := hstands.nonceCurrent ▸ h.current
  searched := h.searched
  rejected := h.rejected

theorem Ended.stands (h : Ended config task core tried) (hstands : core.Stands next) :
    Ended config task next tried := by
  cases h with
  | found job readyAt status first =>
    rw [← hstands.nonceCandidate] at first ⊢
    exact .found (hstands.job.trans job) (hstands.readyAt.trans readyAt)
      (hstands.status.trans status) first
  | exhausted job readyAt status barren =>
    exact .exhausted (hstands.job.trans job) (hstands.readyAt.trans readyAt)
      (hstands.status.trans status) barren

theorem Ended.job (h : Ended config task core tried) : core.job = none := by
  cases h with
  | found job => exact job
  | exhausted job => exact job

theorem Tries.stands (h : Tries config task core tried ended) (hstands : core.Stands next) :
    Tries config task next tried ended := by
  cases h with
  | goesOn searching => exact .goesOn (searching.stands hstands)
  | closed hended => exact .closed (hended.stands hstands)

/-- Once it has begun, a search does not begin again. -/
theorem Tries.unready (h : Tries config task core tried ended) : core.Unready := by
  cases h with
  | goesOn searching => exact ⟨searching.readyAt, by rw [searching.status]; decide⟩
  | closed hended =>
    cases hended with
    | found job readyAt status => exact ⟨readyAt, by rw [status]; decide⟩
    | exhausted job readyAt status => exact ⟨readyAt, by rw [status]; decide⟩

theorem Tries.tried_le (h : Tries config task core tried ended) :
    tried ≤ config.lastNonce.toNat + 1 := by
  cases h with
  | goesOn searching => exact Nat.le_succ_of_le searching.searched
  | closed hended =>
    cases hended with
    | found job readyAt status first =>
      exact Nat.succ_le_succ (UInt32.le_iff_toNat_le.mp first.searched)
    | exhausted => exact Nat.le_refl _

/-- A result that is taken in brings a search further or ends it, and then raises the interrupt. -/
theorem Searching.conclude (h : Searching config task core tried) {nonce : UInt32}
    (hfrom : tried ≤ nonce.toNat) (hto : nonce ≤ config.lastNonce)
    (hrejected : ∀ other : UInt32, tried ≤ other.toNat → other.toNat < nonce.toNat →
      task.accepts other = false) :
    ∃ ended, Tries config task (core.conclude config nonce (task.accepts nonce))
        (nonce.toNat + 1) ended ∧
      (core.conclude config nonce (task.accepts nonce)).raised = core.raised + ended := by
  have hbefore : ∀ other : UInt32, other.toNat < nonce.toNat → task.accepts other = false := by
    intro other hother
    rcases Nat.lt_or_ge other.toNat tried with hold | hnew
    · exact h.rejected other hold
    · exact hrejected other hnew hother
  unfold Core.conclude
  rw [h.job]
  dsimp only
  cases haccepts : task.accepts nonce with
  | true =>
    rw [if_pos rfl]
    refine ⟨1, .closed (.found rfl h.readyAt rfl ?_), rfl⟩
    exact ⟨hto, haccepts, fun earlier hless => hbefore earlier (UInt32.lt_iff_toNat_lt.mp hless)⟩
  | false =>
    rw [if_neg Bool.false_ne_true]
    have hthrough : ∀ other : UInt32, other.toNat < nonce.toNat + 1 → task.accepts other = false := by
      intro other hother
      rcases Nat.eq_or_lt_of_le (Nat.le_of_lt_succ hother) with heq | hless
      · rw [UInt32.toNat_inj.mp heq]
        exact haccepts
      · exact hbefore other hless
    split
    · next hlast =>
      subst hlast
      refine ⟨1, .closed (.exhausted rfl h.readyAt rfl ?_), rfl⟩
      intro other hother
      exact hthrough other (Nat.lt_succ_of_le (UInt32.le_iff_toNat_le.mp hother))
    · next hearly =>
      have hless : nonce.toNat < config.lastNonce.toNat := by
        refine Nat.lt_of_le_of_ne (UInt32.le_iff_toNat_le.mp hto) fun heq => hearly ?_
        exact UInt32.toNat_inj.mp heq
      have hbound := config.lastNonce.toNat_lt
      refine ⟨0, .goesOn ⟨rfl, h.status, h.readyAt, ?_, hless, hthrough⟩, rfl⟩
      have hfits : min (nonce.toNat + 1) 0xffffffff = nonce.toNat + 1 := by omega
      have hsmall : nonce.toNat + 1 < UInt32.size := by
        have hsize : UInt32.size = 2 ^ 32 := rfl
        omega
      change (UInt32.ofNat (min (nonce.toNat + 1) 0xffffffff)).toNat = nonce.toNat + 1
      rw [hfits]
      exact UInt32.toNat_ofNat_of_lt' hsmall

/-- A batch that begins where the search is not any more is dropped. -/
theorem commit_of_overtaken {run start : Nat} {hit : Option UInt32}
    (hnext : core.job.map Job.next ≠ some start) : core.commit config run start hit = core :=
  if_pos (.inr hnext)

/-- To commit a batch is to conclude the last nonce that was tried of it. -/
theorem commit_eq_conclude {batch : Job} (hnext : core.job.map Job.next = some batch.next)
    (hsearched : batch.next ≤ config.lastNonce.toNat) :
    core.commit config core.run batch.next (hashBatch config batch) =
      core.conclude config (UInt32.ofNat (batch.lastTried config))
        (batch.accepts (UInt32.ofNat (batch.lastTried config))) := by
  obtain ⟨-, -, -, haccepts⟩ := Job.lastTried_spec hsearched
  have hturn : ¬ (core.run ≠ core.run ∨ core.job.map Job.next ≠ some batch.next) := by
    rintro (hrun | hjob)
    · exact hrun rfl
    · exact hjob hnext
  rw [haccepts]
  unfold commit Job.lastTried
  rw [if_neg hturn]
  cases hashBatch config batch with
  | some nonce =>
    dsimp only
    rw [UInt32.ofNat_toNat]
    rfl
  | none => rfl

/-- A batch that begins where the search is now is taken in. -/
theorem Searching.commit (h : Searching config task core tried) {batch : Job}
    (hbatch : batch = { task with next := tried }) :
    ∃ ended, Tries config task (core.commit config core.run batch.next (hashBatch config batch))
        (batch.lastTried config + 1) ended ∧
      (core.commit config core.run batch.next (hashBatch config batch)).raised =
        core.raised + ended := by
  have hsearched : batch.next ≤ config.lastNonce.toNat := by
    rw [hbatch]
    exact h.searched
  obtain ⟨hfrom, hto, hrejected, -⟩ := Job.lastTried_spec hsearched
  have hsame : (UInt32.ofNat (batch.lastTried config)).toNat = batch.lastTried config :=
    UInt32.toNat_ofNat_of_lt' (Nat.lt_of_le_of_lt hto config.lastNonce.toNat_lt)
  have hnext : core.job.map Job.next = some batch.next := by
    rw [h.job, hbatch]
    rfl
  have haccepts : ∀ nonce, batch.accepts nonce = task.accepts nonce := by
    intro nonce
    rw [hbatch]
    rfl
  have hstart : batch.next = tried := by rw [hbatch]
  rw [commit_eq_conclude hnext hsearched, haccepts]
  have hconcluded := @Searching.conclude config task core tried h
    (UInt32.ofNat (batch.lastTried config))
  rw [hsame] at hconcluded
  apply hconcluded
  · rw [← hstart]
    exact hfrom
  · rw [UInt32.le_iff_toNat_le, hsame]
    exact hto
  · intro other hother hless
    rw [← haccepts]
    exact hrejected other (hstart ▸ hother) hless

/-- A core that is not halted ignores a step. -/
theorem step_of_released (hreleased : core.halted = false) : core.step config = core := by
  unfold Core.step
  rw [hreleased]
  split <;> rfl

/-- A step takes in the next nonce. -/
theorem Searching.step (h : Searching config task core tried) (hhalted : core.halted = true) :
    ∃ ended, Tries config task (core.step config) (tried + 1) ended ∧
      (core.step config).raised = core.raised + ended := by
  have hsame : (UInt32.ofNat tried).toNat = tried :=
    UInt32.toNat_ofNat_of_lt' (Nat.lt_of_le_of_lt h.searched config.lastNonce.toNat_lt)
  have hrunning : core.status.isRunning = true := by
    rw [h.status]
    decide
  have hstep : core.step config =
      core.conclude config (UInt32.ofNat tried) (task.accepts (UInt32.ofNat tried)) := by
    unfold Core.step
    rw [h.job]
    dsimp only
    rw [hhalted, hrunning]
    rfl
  rw [hstep]
  have hconcluded := @Searching.conclude config task core tried h (UInt32.ofNat tried)
  rw [hsame] at hconcluded
  apply hconcluded
  · exact Nat.le_refl _
  · rw [UInt32.le_iff_toNat_le, hsame]
    exact h.searched
  · intro other hother hless
    exact absurd hother (Nat.not_le_of_lt hless)

end Core

/-! ### What is in hand -/

/-- A search that has begun or ended does not become ready by itself. -/
theorem Core.Change.unready {core next : Core} (h : core.Change next) (hcore : core.Unready) :
    next.Unready := by
  have hpending : core.readyAt.isSome → False := by
    rw [hcore.readyAt]
    exact nofun
  cases h with
  | kept same => exact same.stands.unready hcore
  | called same => exact ⟨same.readyAt.trans hcore.readyAt, same.status ▸ hcore.status⟩
  | readied pending same => exact (hpending pending).elim
  | started job ready same =>
    rcases ready with ready | pending
    · have hstatus := hcore.status
      rw [ready] at hstatus
      cases hstatus
    · exact (hpending pending).elim
  | advanced job reached current searching same =>
    exact ⟨same.readyAt.trans hcore.readyAt, same.status ▸ hcore.status⟩
  | ended job outcome current candidate searching outcomes same =>
    have houtcome : outcome.isReady = false := by
      rcases outcomes with rfl | rfl
      · decide
      · decide
    exact ⟨same.readyAt.trans hcore.readyAt, same.status ▸ houtcome⟩

namespace Engine

variable {config : CoreConfig} {begun mid next : Engine} {task : Job}

/-- A searcher has a batch in hand only if its run has begun a search, which it does once. -/
structure Handed (engine : Engine) : Prop where
  later : ∀ run, engine.core.run < run → engine.hashing run = none
  present : ∀ batch, engine.hashing engine.core.run = some batch → engine.core.Unready

theorem Handed.of_change (h : mid.Handed) (hchange : mid.core.Change next.core)
    (hhashing : ∀ run batch, next.hashing run = some batch →
      mid.hashing run = some batch ∨ run = mid.core.run ∧ mid.core.Unready) : next.Handed := by
  have hrun := hchange.run
  constructor
  · intro run hless
    rw [hrun] at hless
    rcases hbatch : next.hashing run with _ | batch
    · rfl
    · rcases hhashing run batch hbatch with hbefore | ⟨hpresent, -⟩
      · rw [h.later run hless] at hbefore
        cases hbefore
      · omega
  · intro batch hbatch
    rw [hrun] at hbatch
    have hunready : mid.core.Unready := by
      rcases hhashing _ batch hbatch with hbefore | ⟨-, hunready⟩
      · exact h.present batch hbefore
      · exact hunready
    exact hchange.unready hunready

/-- With a new run, nobody has anything in hand. -/
theorem Handed.of_new_run (h : mid.Handed) (hrun : next.core.run = mid.core.run + 1)
    (hhashing : next.hashing = mid.hashing) : next.Handed := by
  have hnone : ∀ run, mid.core.run < run → next.hashing run = none := by
    intro run hless
    rw [hhashing]
    exact h.later run hless
  constructor
  · intro run hless
    rw [hrun] at hless
    exact hnone run (Nat.lt_of_succ_lt hless)
  · intro batch hbatch
    rw [hrun, hnone _ (Nat.lt_succ_self _)] at hbatch
    cases hbatch

theorem search_of_taken {run : Nat} {batch : Job} (hnone : mid.hashing run = none)
    (htaken : mid.core.take run = .batch batch) :
    (mid.search config run).core = mid.core ∧ (mid.search config run).hashing run = some batch := by
  unfold Engine.search
  rw [hnone, htaken]
  exact ⟨rfl, Function.update_self ..⟩

theorem search_of_batch {run : Nat} {batch : Job} (hbatch : mid.hashing run = some batch) :
    (mid.search config run).core =
        mid.core.commit config run batch.next (Core.hashBatch config batch) ∧
      (mid.search config run).hashing run = none := by
  unfold Engine.search
  rw [hbatch]
  exact ⟨rfl, Function.update_self ..⟩

/-- A searcher that comes back with a batch has nothing in hand. -/
theorem hand_of_batch {batch : Job} (hbatch : mid.hashing mid.core.run = some batch) :
    (mid.search config mid.core.run).hashing (mid.search config mid.core.run).core.run = none := by
  obtain ⟨hcore, hhashing⟩ := @search_of_batch config mid _ _ hbatch
  rw [hcore, (Core.commit_change _ _ _).run]
  exact hhashing

theorem Handed.search (h : mid.Handed) (hcore : mid.core.Consistent) (run : Nat) :
    (mid.search config run).Handed := by
  unfold Engine.search
  split
  · next hnone =>
    split
    · next batch htaken =>
      obtain ⟨hrun, hjob, -⟩ := Core.take_batch htaken
      refine h.of_change (.kept (.refl mid.core)) ?_
      intro other taken hother
      by_cases hsame : other = run
      · subst hsame
        exact .inr ⟨hrun.symm, hcore.unready (by rw [hjob]; rfl)⟩
      · change Function.update mid.hashing run (some batch) other = some taken at hother
        rw [Function.update_of_ne hsame] at hother
        exact .inl hother
    · exact h
  · next batch hbatch =>
    apply h.of_change (Core.commit_change _ _ _)
    intro other taken hother
    change Function.update mid.hashing run none other = some taken at hother
    by_cases hsame : other = run
    · subst hsame
      rw [Function.update_self] at hother
      cases hother
    · rw [Function.update_of_ne hsame] at hother
      exact .inl hother

theorem Handed.act (h : mid.Handed) (hcore : mid.core.Consistent) (move : Move) :
    (mid.act config move).Handed := by
  have hkept : ∀ {next : Engine}, mid.core.Change next.core → next.hashing = mid.hashing →
      next.Handed := by
    intro next hchange hhashing
    apply h.of_change hchange
    intro run batch hbatch
    rw [hhashing] at hbatch
    exact .inl hbatch
  have hwrite : ∀ word value,
      ({ mid with core := mid.core.write config mid.now word value } : Engine).Handed := by
    intro word value
    by_cases hreset : Core.isReset config.layout word value
    · obtain ⟨rfl, rfl⟩ := hreset
      rw [Core.write_reset]
      exact h.of_new_run Core.reset_run rfl
    · exact hkept (Core.write_change hcore hreset) rfl
  cases move with
  | pass duration => exact hkept (.kept (.refl _)) rfl
  | read word => exact hkept (Core.read_change word) rfl
  | write word value => exact hwrite word value
  | writeByte word value => exact hwrite word value.toUInt32
  | search run => exact h.search hcore run
  | raiseSpurious => exact hkept (.called (.refl _)) rfl
  | stall => exact h.of_new_run rfl rfl
  | setHalted halted => exact hkept (.kept ⟨rfl, rfl, rfl, rfl, rfl, rfl, rfl⟩) rfl

theorem Reached.handed (h : Reached config mid) : mid.Handed := by
  induction h with
  | powered => exact ⟨fun _ _ => rfl, fun _ hbatch => nomatch hbatch⟩
  | move move before ih => exact ih.act before.consistent move

/-! ### The start of a search -/

theorem start_searching {core : Core} {now : Nat} (hcore : core.Consistent) (hidle : core.job = none)
    (hstarted : (core.start config now).job = some task) :
    Core.Searching config task (core.start config now) 0 ∧
      (core.start config now).raised = core.raised ∧ (core.start config now).run = core.run ∧
      ¬ core.Unready := by
  have htask : task = { task with next := 0 } := by
    rw [Core.start_job hidle hstarted]
    rfl
  have hchange : core.Change (core.refresh now) := Core.refresh_change
  by_cases hready : (core.refresh now).status.isReady = true
  · have hreadyAt : (core.refresh now).readyAt = none := by
      rcases hpending : (core.refresh now).readyAt with _ | due
      · rfl
      · rw [(hchange.consistent hcore).resetting (by rw [hpending]; rfl)] at hready
        exact absurd hready (by decide)
    have hstart : core.start config now = { core.refresh now with
        job := some ((core.refresh now).newJob config)
        status := .running
        nonceCurrent := 0 } := if_pos hready
    rw [hstart] at hstarted ⊢
    refine ⟨⟨htask ▸ hstarted, rfl, hreadyAt, rfl, Nat.zero_le _, ?_⟩, Core.refresh_raised,
      hchange.run, ?_⟩
    · intro nonce hnonce
      exact absurd hnonce (Nat.not_lt_zero _)
    · intro hunready
      rw [Core.refresh_of_readyAt hunready.readyAt, hunready.status] at hready
      cases hready
  · have hstart : core.start config now = core.refresh now := if_neg hready
    rw [hstart, Core.refresh_job, hidle] at hstarted
    cases hstarted

/-- A search that is begun by a write is at nonce zero, and nobody has a batch of it in hand. -/
theorem written_at_zero (hreached : Reached config begun) (hidle : begun.core.job = none) (word : Nat)
    (value : UInt32) (hstarted : (begun.core.write config begun.now word value).job = some task) :
    Core.Searching config task (begun.core.write config begun.now word value) 0 ∧
      (begun.core.write config begun.now word value).raised = begun.core.raised ∧
      begun.hashing (begun.core.write config begun.now word value).run = none := by
  by_cases hstart : Driver.Gives config.layout Control.start word value
  · obtain ⟨rfl, rfl⟩ := hstart
    rw [Core.write_start] at hstarted ⊢
    obtain ⟨hsearching, hraised, hrun, hready⟩ := start_searching hreached.consistent hidle hstarted
    refine ⟨hsearching, hraised, ?_⟩
    rw [hrun]
    rcases hbatch : begun.hashing begun.core.run with _ | batch
    · rfl
    · exact absurd (hreached.handed.present batch hbatch) hready
  · rw [Core.write_job hidle hstart] at hstarted
    cases hstarted

/-- No other move begins a search. -/
theorem begins_at_zero (hreached : Reached config begun) (hidle : begun.core.job = none) (move : Move)
    (hstarted : (begun.act config move).core.job = some task) :
    Core.Searching config task (begun.act config move).core 0 ∧
      (begun.act config move).core.raised = begun.core.raised ∧
      (begun.act config move).hashing (begun.act config move).core.run = none := by
  cases move with
  | write word value => exact written_at_zero hreached hidle word value hstarted
  | writeByte word value => exact written_at_zero hreached hidle word value.toUInt32 hstarted
  | read word =>
    have hjob : (begun.core.read config begun.now word).2.job = none := by
      rcases @Core.read_snd config begun.core begun.now word with hsame | hsame
      · rw [hsame, Core.refresh_job, hidle]
      · rw [hsame]
        exact Core.refresh_job.trans hidle
    cases hjob.symm.trans hstarted
  | search run =>
    have hjob : (begun.search config run).core.job = none := by
      unfold Engine.search
      split
      · split <;> exact hidle
      · next batch hbatch =>
        have hnext : begun.core.job.map Job.next ≠ some batch.next := by
          rw [hidle]
          exact nofun
        rw [Core.commit_of_overtaken hnext]
        exact hidle
    cases hjob.symm.trans hstarted
  | stall => cases hstarted
  | pass duration => cases hidle.symm.trans hstarted
  | raiseSpurious => cases hidle.symm.trans hstarted
  | setHalted halted => cases hidle.symm.trans hstarted

/-! ### Turns -/

/-- What a move has to do with the search of the present run. -/
inductive Turn where
  | aside
  /-- The interrupt is raised for nothing. -/
  | called
  | took (batch : Job)
  | committed (batch : Job)
  /-- The search was not any more where the batch begins. -/
  | dropped (batch : Job)
  /-- A step command has tried the next nonce. -/
  | stepped (nonce : Nat)
  deriving DecidableEq

/-- The nonces whose results are taken in. -/
def Turn.results (config : CoreConfig) : Turn → List Nat
  | .committed batch => List.range' batch.next (batch.lastTried config + 1 - batch.next)
  | .stepped nonce => [nonce]
  | _ => []

def Turn.counts : Turn → Bool
  | .committed _ | .stepped _ => true
  | _ => false

def searchTurn (run : Nat) (engine : Engine) : Turn :=
  if engine.core.run ≠ run then .aside
  else match engine.hashing run with
    | none =>
      match engine.core.take run with
      | .batch job => .took job
      | _ => .aside
    | some batch =>
      if engine.core.job.map Job.next = some batch.next then .committed batch else .dropped batch

variable (config) in
def writeTurn (word : Nat) (value : UInt32) (engine : Engine) : Turn :=
  match engine.core.job with
  | none => .aside
  | some job =>
    if word = Driver.commandWord config.layout ∧ value = Control.step ∧ engine.core.halted = true then
      .stepped job.next
    else .aside

variable (config) in
def turn (move : Move) (engine : Engine) : Turn :=
  match move with
  | .write word value => engine.writeTurn config word value
  | .writeByte word value => engine.writeTurn config word value.toUInt32
  | .search run => engine.searchTurn run
  | .raiseSpurious => .called
  | _ => .aside

variable (config) in
/-- Whatever happens to an engine as long as its core is neither reset nor stalled. -/
inductive Course (begun : Engine) : List Turn → Engine → Prop where
  | here : Course begun [] begun
  | move {turns : List Turn} {mid : Engine} (before : Course begun turns mid) (move : Move)
    (run : (mid.act config move).core.run = mid.core.run) :
    Course begun (turns ++ [mid.turn config move]) (mid.act config move)

/-- What is known of a search after these turns. -/
structure Pursues (config : CoreConfig) (task : Job) (raised : Nat) (turns : List Turn)
    (engine : Engine) (tried ended : Nat) : Prop where
  tries : Core.Tries config task engine.core tried ended
  results : turns.flatMap (Turn.results config) = List.range tried
  counts : (turns.filter Turn.counts).length ≤ tried
  raised : engine.core.raised = raised + turns.count .called + ended
  hand : ∀ batch, engine.hashing engine.core.run = some batch →
    batch = { task with next := batch.next }

/-- The search is still what it was to be, and has not begun again. -/
def PursuesOn (config : CoreConfig) (task : Job) (raised : Nat) (turns : List Turn)
    (engine : Engine) (ended : Nat) : Prop :=
  ∃ later again, ended ≤ again ∧ Pursues config task raised turns engine later again

variable {raised tried ended later again run : Nat} {turns : List Turn} {turn : Turn} {move : Move}

theorem PursuesOn.still (h : Pursues config task raised turns mid tried ended) :
    PursuesOn config task raised turns mid ended :=
  ⟨tried, ended, Nat.le_refl _, h⟩

/-- Nothing is taken in. -/
theorem Pursues.quiet (h : Pursues config task raised turns mid tried ended)
    (hresults : turn.results config = []) (hcounts : turn.counts = false)
    (hstands : mid.core.Stands next.core)
    (hraised : next.core.raised = mid.core.raised + [turn].count .called)
    (hhand : ∀ batch, next.hashing next.core.run = some batch →
      mid.hashing mid.core.run = some batch ∨ mid.core.job = some batch) :
    Pursues config task raised (turns ++ [turn]) next tried ended where
  tries := h.tries.stands hstands
  results := by
    rw [List.flatMap_append, List.flatMap_singleton, hresults, List.append_nil]
    exact h.results
  counts := by
    rw [List.filter_append, List.filter_singleton, hcounts, List.length_append]
    exact h.counts
  raised := by
    rw [hraised, h.raised, List.count_append]
    omega
  hand := by
    intro batch hbatch
    rcases hhand batch hbatch with hbefore | hjob
    · exact h.hand batch hbefore
    · cases h.tries with
      | goesOn searching =>
        obtain rfl := Option.some.inj (searching.job.symm.trans hjob)
        rfl
      | closed hended => cases hended.job.symm.trans hjob

/-- The next results are taken in. -/
theorem Pursues.takes (h : Pursues config task raised turns mid tried 0)
    (hresults : turn.results config = List.range' tried (later - tried)) (hless : tried < later)
    (hcalled : [turn].count .called = 0) (htries : Core.Tries config task next.core later again)
    (hraised : next.core.raised = mid.core.raised + again)
    (hhand : ∀ batch, next.hashing next.core.run = some batch →
      mid.hashing mid.core.run = some batch) :
    Pursues config task raised (turns ++ [turn]) next later again where
  tries := htries
  results := by
    have hsum : tried + (later - tried) = later := by omega
    rw [List.flatMap_append, List.flatMap_singleton, hresults, h.results, List.range_eq_range',
      List.range_eq_range', ← hsum, ← List.range'_append_1]
    simp
  counts := by
    have hcounts := h.counts
    have hone : ([turn].filter Turn.counts).length ≤ 1 := List.length_filter_le _ _
    rw [List.filter_append, List.length_append]
    omega
  raised := by
    rw [hraised, h.raised, List.count_append, hcalled]
    rfl
  hand := fun batch hbatch => h.hand batch (hhand batch hbatch)

theorem Pursues.step (h : Pursues config task raised turns mid tried ended)
    (hnext : next = { mid with core := mid.core.step config }) :
    PursuesOn config task raised
      (turns ++ [mid.writeTurn config (Driver.commandWord config.layout) Control.step]) next ended := by
  subst hnext
  have hrun : (mid.core.step config).run = mid.core.run := Core.step_change.run
  cases htries : h.tries with
  | closed hended =>
    have hturn : mid.writeTurn config (Driver.commandWord config.layout) Control.step = .aside := by
      rw [writeTurn, hended.job]
    have hsame : mid.core.step config = mid.core := by
      rw [Core.step, hended.job]
    rw [hturn, hsame]
    exact .still (h.quiet rfl rfl (.refl _) rfl fun batch => .inl)
  | goesOn searching =>
    cases hhalted : mid.core.halted with
    | true =>
      have hturn : mid.writeTurn config (Driver.commandWord config.layout) Control.step =
          .stepped tried := by
        rw [writeTurn, searching.job]
        exact if_pos ⟨rfl, rfl, hhalted⟩
      obtain ⟨again, hagain, hraised⟩ := searching.step hhalted
      rw [hturn]
      refine ⟨tried + 1, again, Nat.zero_le _, h.takes ?_ (Nat.lt_succ_self _) rfl hagain hraised ?_⟩
      · rw [Nat.add_sub_cancel_left]
        rfl
      · intro batch hbatch
        change mid.hashing (mid.core.step config).run = some batch at hbatch
        rw [hrun] at hbatch
        exact hbatch
    | false =>
      have hturn : mid.writeTurn config (Driver.commandWord config.layout) Control.step = .aside := by
        rw [writeTurn, searching.job, hhalted]
        exact if_neg fun hgives => Bool.false_ne_true hgives.2.2
      rw [hturn, Core.step_of_released hhalted]
      exact .still (h.quiet rfl rfl (.refl _) rfl fun batch => .inl)

theorem Pursues.write (h : Pursues config task raised turns mid tried ended) (word : Nat)
    (value : UInt32) (hrun : (mid.core.write config mid.now word value).run = mid.core.run)
    (hnext : next = { mid with core := mid.core.write config mid.now word value }) :
    PursuesOn config task raised (turns ++ [mid.writeTurn config word value]) next ended := by
  by_cases hstep : Driver.Gives config.layout Control.step word value
  · obtain ⟨rfl, rfl⟩ := hstep
    rw [Core.write_step] at hnext
    exact h.step hnext
  · subst hnext
    have hturn : mid.writeTurn config word value = .aside := by
      unfold writeTurn
      split
      · rfl
      · exact if_neg fun hgives => hstep ⟨hgives.1, hgives.2.1⟩
    have hstands := Core.write_stands h.tries.unready hstep hrun
    have hraised : (mid.core.write config mid.now word value).raised = mid.core.raised := by
      rcases @Core.write_raises config mid.core mid.now word value with hsame | ⟨-, hjob, hover⟩
      · exact hsame
      · rw [hstands.job] at hover
        rw [hover] at hjob
        cases hjob
    rw [hturn]
    refine .still (h.quiet rfl rfl hstands hraised ?_)
    intro batch hbatch
    change mid.hashing (mid.core.write config mid.now word value).run = some batch at hbatch
    rw [hrun] at hbatch
    exact .inl hbatch

/-- A searcher of another run does nothing to the search. -/
theorem search_of_other_run (hother : mid.core.run ≠ run) :
    (mid.search config run).core = mid.core ∧
      (mid.search config run).hashing mid.core.run = mid.hashing mid.core.run := by
  unfold Engine.search
  split
  · have htake : mid.core.take run = .retire := if_pos hother
    rw [htake]
    exact ⟨rfl, rfl⟩
  · exact ⟨Core.commit_of_other_run hother _ _, Function.update_of_ne hother _ _⟩

theorem Pursues.stranger (h : Pursues config task raised turns mid tried ended)
    (hother : mid.core.run ≠ run) :
    Pursues config task raised (turns ++ [mid.searchTurn run]) (mid.search config run) tried ended := by
  have hturn : mid.searchTurn run = .aside := if_pos hother
  obtain ⟨hcore, hhashing⟩ := @search_of_other_run config mid run hother
  rw [hturn]
  apply h.quiet rfl rfl
  · rw [hcore]
    exact .refl _
  · rw [hcore]
    rfl
  · intro batch hbatch
    rw [hcore, hhashing] at hbatch
    exact .inl hbatch

/-- The searcher looks for a batch. -/
theorem Pursues.takesBatch (h : Pursues config task raised turns mid tried ended)
    (hnone : mid.hashing mid.core.run = none) :
    Pursues config task raised (turns ++ [mid.searchTurn mid.core.run])
      (mid.search config mid.core.run) tried ended := by
  unfold searchTurn Engine.search
  rw [if_neg (not_not_intro rfl), hnone]
  dsimp only
  cases htaken : mid.core.take mid.core.run with
  | batch job =>
    refine h.quiet rfl rfl (.refl _) rfl ?_
    intro batch hbatch
    obtain ⟨-, hjob, -⟩ := Core.take_batch htaken
    change Function.update mid.hashing mid.core.run (some job) mid.core.run = some batch at hbatch
    rw [Function.update_self] at hbatch
    exact .inr (hjob.trans hbatch)
  | retire => exact h.quiet rfl rfl (.refl _) rfl fun batch => .inl
  | wait => exact h.quiet rfl rfl (.refl _) rfl fun batch => .inl

/-- The searcher comes back with its batch. -/
theorem Pursues.commits (h : Pursues config task raised turns mid tried ended) {batch : Job}
    (hbatch : mid.hashing mid.core.run = some batch) :
    PursuesOn config task raised (turns ++ [mid.searchTurn mid.core.run])
      (mid.search config mid.core.run) ended := by
  obtain ⟨hcore, -⟩ := @search_of_batch config mid _ _ hbatch
  have hempty : ∀ other, (mid.search config mid.core.run).hashing
      (mid.search config mid.core.run).core.run = some other → False := by
    intro other hother
    rw [hand_of_batch hbatch] at hother
    cases hother
  have hturn : mid.searchTurn mid.core.run =
      if mid.core.job.map Job.next = some batch.next then .committed batch else .dropped batch := by
    rw [searchTurn, if_neg (not_not_intro rfl), hbatch]
  rw [hturn]
  by_cases hnext : mid.core.job.map Job.next = some batch.next
  · rw [if_pos hnext]
    cases htries : h.tries with
    | closed hended =>
      rw [hended.job] at hnext
      cases hnext
    | goesOn searching =>
      have htask : batch = { task with next := tried } := by
        rw [searching.job] at hnext
        have hsame : tried = batch.next := Option.some.inj hnext
        rw [hsame]
        exact h.hand batch hbatch
      have hfrom : batch.next = tried := by rw [htask]
      obtain ⟨again, hagain, hraised⟩ := searching.commit htask
      obtain ⟨hle, -⟩ := @Job.lastTried_spec config batch (hfrom ▸ searching.searched)
      rw [← hcore] at hagain hraised
      refine ⟨batch.lastTried config + 1, again, Nat.zero_le _, ?_⟩
      apply h.takes _ (by omega) rfl hagain hraised
      · intro other hother
        exact (hempty other hother).elim
      · rw [Turn.results, hfrom]
  · rw [if_neg hnext]
    rw [Core.commit_of_overtaken hnext] at hcore
    refine .still (h.quiet rfl rfl ?_ ?_ fun other hother => (hempty other hother).elim)
    · rw [hcore]
      exact .refl _
    · rw [hcore]
      rfl

theorem Pursues.search (h : Pursues config task raised turns mid tried ended) (run : Nat) :
    PursuesOn config task raised (turns ++ [mid.searchTurn run]) (mid.search config run) ended := by
  by_cases hrun : mid.core.run = run
  · subst hrun
    rcases hbatch : mid.hashing mid.core.run with _ | batch
    · exact .still (h.takesBatch hbatch)
    · exact h.commits hbatch
  · exact .still (h.stranger hrun)

/-- Whatever the next move is, the search is still what it was to be. -/
theorem Pursues.act (h : Pursues config task raised turns mid tried ended) (move : Move)
    (hrun : (mid.act config move).core.run = mid.core.run) :
    PursuesOn config task raised (turns ++ [mid.turn config move]) (mid.act config move) ended := by
  have hunready := h.tries.unready
  cases move with
  | write word value => exact h.write word value hrun rfl
  | writeByte word value => exact h.write word value.toUInt32 hrun rfl
  | search run => exact h.search run
  | pass duration => exact .still (h.quiet rfl rfl (.refl _) rfl fun batch => .inl)
  | read word =>
    refine .still (h.quiet rfl rfl (Core.read_stands hunready word) (Core.read_raised word) ?_)
    intro batch hbatch
    rw [hrun] at hbatch
    exact .inl hbatch
  | raiseSpurious =>
    exact .still (h.quiet rfl rfl ⟨rfl, rfl, rfl, rfl, rfl, rfl⟩ rfl fun batch => .inl)
  | stall => exact absurd hrun (Nat.succ_ne_self _)
  | setHalted halted =>
    exact .still (h.quiet rfl rfl ⟨rfl, rfl, rfl, rfl, rfl, rfl⟩ rfl fun batch => .inl)

theorem Course.pursues (h : Course config begun turns mid)
    (hbegun : Pursues config task raised [] begun 0 0) :
    ∃ tried ended, Pursues config task raised turns mid tried ended := by
  induction h with
  | here => exact ⟨0, 0, hbegun⟩
  | move before move run ih =>
    obtain ⟨tried, ended, hmid⟩ := ih
    obtain ⟨later, again, -, hnext⟩ := hmid.act move run
    exact ⟨later, again, hnext⟩

/-! ### The end of the search -/

variable (config) in
/-- Whatever happens to an engine as long as its core is not halted, either. Its searcher has so many
    turns. -/
inductive Released (engine : Engine) : Nat → Engine → Prop where
  | here (released : engine.core.halted = false) : Released engine 0 engine
  | move {turns : Nat} {mid : Engine} (before : Released engine turns mid) (move : Move)
    (run : (mid.act config move).core.run = mid.core.run)
    (released : (mid.act config move).core.halted = false) :
    Released engine (turns + if move = .search mid.core.run then 1 else 0) (mid.act config move)

theorem Released.course {count : Nat} (h : Released config mid count next)
    (hmid : Course config begun turns mid) : ∃ turns, Course config begun turns next := by
  induction h with
  | here => exact ⟨turns, hmid⟩
  | move before move run released ih =>
    obtain ⟨turns, hbefore⟩ := ih
    exact ⟨_, hbefore.move move run⟩

theorem Released.released {count : Nat} (h : Released config mid count next) :
    next.core.halted = false := by
  cases h with
  | here released => exact released
  | move before move run released => exact released

/-- What a searcher has in hand saves it a turn, or costs it one if the search is somewhere else. -/
def handCost (next : Nat) : Option Job → Nat
  | none => 1
  | some batch => if batch.next = next then 0 else 2

/-- How many turns the searcher needs at the most: two for every nonce that is left. -/
def toDo (config : CoreConfig) (engine : Engine) : Nat :=
  match engine.core.job with
  | none => 0
  | some job => 2 * (config.lastNonce.toNat + 1 - job.next) +
      handCost job.next (engine.hashing engine.core.run)

theorem handCost_le (next : Nat) (hand : Option Job) : handCost next hand ≤ 2 := by
  unfold handCost
  split
  · exact Nat.le_succ _
  · split
    · exact Nat.zero_le _
    · exact Nat.le_refl _

theorem toDo_eq {job : Job} {hand : Option Job} (hjob : mid.core.job = some job)
    (hhand : mid.hashing mid.core.run = hand) :
    mid.toDo config = 2 * (config.lastNonce.toNat + 1 - job.next) + handCost job.next hand := by
  rw [toDo, hjob, ← hhand]

theorem toDo_le (engine : Engine) : engine.toDo config ≤ 2 * (config.lastNonce.toNat + 1) + 2 := by
  unfold toDo
  split
  · exact Nat.zero_le _
  · next job hjob =>
    have hcost := handCost_le job.next (engine.hashing engine.core.run)
    omega

theorem two_le_toDo (h : Core.Searching config task mid.core tried) : 2 ≤ mid.toDo config := by
  have hsearched := h.searched
  rw [toDo_eq h.job rfl]
  dsimp only
  omega

/-- Nobody but the searcher moves the search on while the core is not halted. -/
theorem toDo_of_others (hunready : mid.core.Unready) (hreleased : mid.core.halted = false)
    (hmove : move ≠ .search mid.core.run) (hrun : (mid.act config move).core.run = mid.core.run) :
    (mid.act config move).toDo config = mid.toDo config := by
  have hkept : ∀ {next : Engine}, mid.core.Stands next.core →
      next.hashing mid.core.run = mid.hashing mid.core.run → next.toDo config = mid.toDo config := by
    intro next hstands hhashing
    rw [toDo, toDo, hstands.job, hstands.run, hhashing]
  have hwrite : ∀ word value, (mid.core.write config mid.now word value).run = mid.core.run →
      mid.core.Stands (mid.core.write config mid.now word value) := by
    intro word value hsame
    by_cases hstep : Driver.Gives config.layout Control.step word value
    · obtain ⟨rfl, rfl⟩ := hstep
      rw [Core.write_step, Core.step_of_released hreleased]
      exact .refl _
    · exact Core.write_stands hunready hstep hsame
  cases move with
  | write word value => exact hkept (hwrite word value hrun) rfl
  | writeByte word value => exact hkept (hwrite word value.toUInt32 hrun) rfl
  | read word => exact hkept (Core.read_stands hunready word) rfl
  | pass duration => rfl
  | raiseSpurious => rfl
  | setHalted halted => rfl
  | stall => exact absurd hrun (Nat.succ_ne_self _)
  | search run =>
    have hother : mid.core.run ≠ run := by
      rintro rfl
      exact hmove rfl
    obtain ⟨hcore, hhashing⟩ := @search_of_other_run config mid run hother
    refine hkept ?_ hhashing
    change mid.core.Stands (mid.search config run).core
    rw [hcore]
    exact .refl _

/-- To take a batch from where the search is costs a turn. -/
theorem toDo_takes (h : Core.Searching config task mid.core tried)
    (hnone : mid.hashing mid.core.run = none) (hreleased : mid.core.halted = false) :
    (mid.search config mid.core.run).toDo config < mid.toDo config := by
  have htake : mid.core.take mid.core.run = .batch { task with next := tried } := by
    unfold Core.take
    rw [if_neg (not_not_intro rfl), h.job, hreleased]
    rfl
  obtain ⟨hcore, hhashing⟩ := @search_of_taken config mid _ _ hnone htake
  have hjob : (mid.search config mid.core.run).core.job = some { task with next := tried } := by
    rw [hcore]
    exact h.job
  have hfresh : (mid.search config mid.core.run).hashing (mid.search config mid.core.run).core.run =
      some { task with next := tried } := by
    rw [hcore]
    exact hhashing
  have hcost : handCost tried (some { task with next := tried }) = 0 := if_pos rfl
  rw [toDo_eq h.job hnone, toDo_eq hjob hfresh, hcost]
  exact Nat.lt_succ_self _

/-- A batch that is taken in pays for itself and for the next one. -/
theorem toDo_commits (h : Core.Searching config task mid.core tried)
    (hbatch : mid.hashing mid.core.run = some { task with next := tried }) :
    (mid.search config mid.core.run).core.job = none ∨
      (mid.search config mid.core.run).toDo config < mid.toDo config := by
  obtain ⟨again, hagain, -⟩ := h.commit rfl
  obtain ⟨hle, -⟩ := @Job.lastTried_spec config { task with next := tried } h.searched
  rw [← (search_of_batch hbatch).1] at hagain
  cases hagain with
  | closed hended => exact .inl hended.job
  | goesOn searching =>
    right
    have hlater := searching.searched
    rw [toDo_eq h.job hbatch, toDo_eq searching.job (hand_of_batch hbatch), handCost, handCost,
      if_pos rfl]
    dsimp only at hle ⊢
    omega

/-- An overtaken batch costs a turn. -/
theorem toDo_drops (h : Core.Searching config task mid.core tried) {batch : Job}
    (hbatch : mid.hashing mid.core.run = some batch) (hnext : batch.next ≠ tried) :
    (mid.search config mid.core.run).toDo config < mid.toDo config := by
  have hovertaken : mid.core.job.map Job.next ≠ some batch.next := by
    rw [h.job]
    intro hsame
    exact hnext (Option.some.inj hsame).symm
  have hjob : (mid.search config mid.core.run).core.job = some { task with next := tried } := by
    rw [(search_of_batch hbatch).1, Core.commit_of_overtaken hovertaken]
    exact h.job
  rw [toDo_eq h.job hbatch, toDo_eq hjob (hand_of_batch hbatch), handCost, handCost, if_neg hnext]
  exact Nat.lt_succ_self _

/-- A turn of the searcher is paid for. -/
theorem toDo_search (h : Core.Searching config task mid.core tried)
    (hhand : ∀ batch, mid.hashing mid.core.run = some batch → batch = { task with next := batch.next })
    (hreleased : mid.core.halted = false) :
    (mid.search config mid.core.run).core.job = none ∨
      (mid.search config mid.core.run).toDo config < mid.toDo config := by
  rcases hbatch : mid.hashing mid.core.run with _ | batch
  · exact .inr (toDo_takes h hbatch hreleased)
  · by_cases hnext : batch.next = tried
    · have htask : batch = { task with next := tried } := hnext ▸ hhand batch hbatch
      exact toDo_commits h (htask ▸ hbatch)
    · exact .inr (toDo_drops h hbatch hnext)

theorem Released.paid {count : Nat} (h : Released config mid count next)
    (hmid : Course config begun turns mid) (hbegun : Pursues config task raised [] begun 0 0) :
    next.core.job = none ∨ count + next.toDo config ≤ mid.toDo config := by
  induction h with
  | here => exact .inr (Nat.le_of_eq (Nat.zero_add _))
  | @move count last before move run released ih =>
    obtain ⟨turns, hcourse⟩ := before.course hmid
    obtain ⟨tried, ended, hpursues⟩ := hcourse.pursues hbegun
    cases htries : hpursues.tries with
    | closed hended =>
      left
      obtain ⟨later, again, hagain, hnext⟩ := hpursues.act move run
      cases hnext.tries with
      | closed hstill => exact hstill.job
      | goesOn => cases hagain
    | goesOn searching =>
      have hbefore : count + last.toDo config ≤ mid.toDo config := by
        rcases ih with hnone | hpaid
        · cases hnone.symm.trans searching.job
        · exact hpaid
      by_cases hmove : move = .search last.core.run
      · subst hmove
        rcases toDo_search searching hpursues.hand before.released with hnone | hless
        · exact .inl hnone
        · right
          rw [if_pos rfl]
          change count + 1 + (last.search config last.core.run).toDo config ≤ mid.toDo config
          omega
      · right
        rw [if_neg hmove, toDo_of_others hpursues.tries.unready before.released hmove run]
        exact hbefore

theorem core_of_dropped {batch : Job} (h : mid.turn config move = .dropped batch) :
    (mid.act config move).core = mid.core := by
  have hwrite : ∀ word value, mid.writeTurn config word value ≠ .dropped batch := by
    intro word value
    unfold writeTurn
    split
    · exact nofun
    · split <;> exact nofun
  cases move with
  | write word value => exact absurd h (hwrite word value)
  | writeByte word value => exact absurd h (hwrite word value.toUInt32)
  | search run =>
    change mid.searchTurn run = .dropped batch at h
    change (mid.search config run).core = mid.core
    unfold searchTurn at h
    split at h
    · cases h
    · split at h
      · split at h <;> cases h
      · next taken htaken =>
        split at h
        · cases h
        · next hnext =>
          rw [(search_of_batch htaken).1]
          exact Core.commit_of_overtaken hnext
  | _ => cases h

/-- A search is exact, whatever its batches and however it is halted, let go and stepped, as long as its
    core is neither reset nor stalled. While it goes on, it is at the current nonce, which is among the
    nonces that are searched, and the results that were taken in are those of all nonces before, each of
    them once and in order; all were rejected. It ends at the first nonce that is accepted, or after all
    of them if none is, and raises one interrupt then. A batch that was overtaken changes nothing. No more
    results are taken in than there are nonces; and once the core is not halted any more, the search ends
    within so many turns of its searcher. -/
theorem stepped_search_is_exact {starting : Move} (hreached : Reached config begun)
    (hidle : begun.core.job = none) (hstarted : (begun.act config starting).core.job = some task)
    (hcourse : Course config (begun.act config starting) turns mid) :
    (∀ job, mid.core.job = some job →
      job = { task with next := job.next } ∧ mid.core.status = .running ∧
      mid.core.nonceCurrent.toNat = job.next ∧ job.next ≤ config.lastNonce.toNat ∧
      (UInt32.ofNat job.next).toNat = job.next ∧ job.next + max config.batch.toNat 1 < 2 ^ 64 ∧
      (∀ nonce : UInt32, nonce.toNat < job.next → task.accepts nonce = false) ∧
      turns.flatMap (Turn.results config) = List.range job.next ∧
      mid.core.raised = begun.core.raised + turns.count .called) ∧
    (mid.core.job = none →
      mid.core.raised = begun.core.raised + turns.count .called + 1 ∧
      (mid.core.status = .found ∧ task.First config mid.core.nonceCandidate ∧
          turns.flatMap (Turn.results config) = List.range (mid.core.nonceCandidate.toNat + 1) ∨
        mid.core.status = .exhausted ∧ task.Barren config ∧
          turns.flatMap (Turn.results config) = List.range (config.lastNonce.toNat + 1))) ∧
    (turns.filter Turn.counts).length ≤ config.lastNonce.toNat + 1 ∧
    (∀ move batch, mid.turn config move = .dropped batch → (mid.act config move).core = mid.core) ∧
    ∀ count last, Released config mid count last → 2 * (config.lastNonce.toNat + 1) < count →
      last.core.job = none := by
  obtain ⟨hsearching, hraised, hnone⟩ := begins_at_zero hreached hidle starting hstarted
  have hbegun : Pursues config task begun.core.raised [] (begun.act config starting) 0 0 := by
    refine ⟨.goesOn hsearching, rfl, Nat.le_refl _, hraised, ?_⟩
    intro batch hbatch
    cases hnone.symm.trans hbatch
  obtain ⟨tried, ended, hpursues⟩ := hcourse.pursues hbegun
  refine ⟨?_, ?_, Nat.le_trans hpursues.counts hpursues.tries.tried_le,
    fun move batch => core_of_dropped, ?_⟩
  · intro job hjob
    cases htries : hpursues.tries with
    | closed hended => cases hended.job.symm.trans hjob
    | goesOn searching =>
      obtain rfl := Option.some.inj (searching.job.symm.trans hjob)
      have hlast := config.lastNonce.toNat_lt
      have hbatch := config.batch.toNat_lt
      have hsearched := searching.searched
      refine ⟨rfl, searching.status, searching.current, hsearched, ?_, ?_, searching.rejected,
        hpursues.results, hpursues.raised⟩
      · exact UInt32.toNat_ofNat_of_lt' (Nat.lt_of_le_of_lt hsearched hlast)
      · dsimp only
        omega
  · intro hover
    have hresults := hpursues.results
    have hraised := hpursues.raised
    cases htries : hpursues.tries with
    | goesOn searching => cases searching.job.symm.trans hover
    | closed hended =>
      refine ⟨hraised, ?_⟩
      cases hended with
      | found job readyAt status first => exact .inl ⟨status, first, hresults⟩
      | exhausted job readyAt status barren => exact .inr ⟨status, barren, hresults⟩
  · intro count last hreleased hcount
    rcases hreleased.paid hcourse hbegun with hjob | hpaid
    · exact hjob
    · obtain ⟨turns, hlater⟩ := hreleased.course hcourse
      obtain ⟨tried, ended, hlast⟩ := hlater.pursues hbegun
      cases hlast.tries with
      | closed hended => exact hended.job
      | goesOn searching =>
        have htwo := two_le_toDo searching
        have hall := @toDo_le config mid
        omega

/-! The searcher has taken both nonces when the core is halted and stepped once. Its batch is dropped, and
it goes on from the second nonce. -/

variable (config) in
def turnsOf : List Move → Engine → List Turn
  | [], _ => []
  | move :: moves, engine => engine.turn config move :: turnsOf moves (engine.act config move)

variable (config) in
def staysInRun : List Move → Engine → Bool
  | [], _ => true
  | move :: moves, engine =>
    (engine.act config move).core.run == engine.core.run && staysInRun moves (engine.act config move)

theorem Course.follow (h : Course config begun turns mid) (moves : List Move)
    (hstays : mid.staysInRun config moves = true) :
    Course config begun (turns ++ mid.turnsOf config moves) (Engine.follow config moves mid) := by
  induction moves generalizing turns mid with
  | nil =>
    rw [turnsOf, List.append_nil]
    exact h
  | cons move moves ih =>
    obtain ⟨hrun, hrest⟩ := Bool.and_eq_true_iff.mp hstays
    have hnext := ih (h.move move (by simpa using hrun)) hrest
    rw [List.append_assoc] at hnext
    exact hnext

def twoNonces : CoreConfig := { layout := .count, latency := 0, lastNonce := 1, batch := 2 }

def hardlySatisfied : Engine :=
  follow twoNonces
    [.write CountWindow.control Control.reset, .write CountWindow.leadingZeros 255] {}

def begunSearch : Engine :=
  hardlySatisfied.act twoNonces (.write CountWindow.control Control.start)

def steppedOnce : List Move :=
  [.search 1, .setHalted true, .write CountWindow.control Control.step, .setHalted false, .search 1,
    .search 1, .search 1]

theorem overtaken_batch_is_tried_again :
    ∃ task, begunSearch.core.job = some task ∧
      begunSearch.turnsOf twoNonces steppedOnce =
        [.took task, .aside, .stepped 0, .aside, .dropped task, .took { task with next := 1 },
          .committed { task with next := 1 }] ∧
      (follow twoNonces steppedOnce begunSearch).core.raised = 1 ∧
      (follow twoNonces steppedOnce begunSearch).core.status = .exhausted ∧
      task.Barren twoNonces ∧
      (begunSearch.turnsOf twoNonces steppedOnce).flatMap (Turn.results twoNonces) =
        List.range 2 := by
  have hstarted : begunSearch.core.job = some (hardlySatisfied.core.newJob twoNonces) := by
    decide +kernel
  have hrun : begunSearch.turnsOf twoNonces steppedOnce =
        [.took (hardlySatisfied.core.newJob twoNonces), .aside, .stepped 0, .aside,
          .dropped (hardlySatisfied.core.newJob twoNonces),
          .took { hardlySatisfied.core.newJob twoNonces with next := 1 },
          .committed { hardlySatisfied.core.newJob twoNonces with next := 1 }] ∧
      begunSearch.staysInRun twoNonces steppedOnce = true ∧
      (follow twoNonces steppedOnce begunSearch).core.job = none ∧
      (follow twoNonces steppedOnce begunSearch).core.status = .exhausted := by
    decide +kernel
  obtain ⟨hturns, hstays, hjob, hexhausted⟩ := hrun
  have hidle : hardlySatisfied.core.job = none := rfl
  have hcourse :=
    (Course.here : Course twoNonces begunSearch [] begunSearch).follow steppedOnce hstays
  obtain ⟨-, hends, -⟩ :=
    stepped_search_is_exact (Reached.powered.follow _) hidle hstarted hcourse
  obtain ⟨hraised, hfound | ⟨hstatus, hbarren, hresults⟩⟩ := hends hjob
  · rw [hexhausted] at hfound
    cases hfound.1
  · rw [List.nil_append] at hraised hresults
    refine ⟨_, hstarted, hturns, ?_, hstatus, hbarren, hresults⟩
    rw [hraised, hturns]
    rfl

end Engine

end NonceSearch
