import NonceSearch.Proofs.Turns

/-!
# What becomes of a call

A call waits until the driver's lock is free, and then makes one access at each turn of the scan. The
service thread cannot keep it from the lock forever, because its backlog gets smaller; and nothing can
keep it from its answer once it has the lock. So under a fair schedule every call comes to its end,
and leaves the core as its request says (`call_leadsTo`). How long that takes is not said; where it is
known, it is known of the answer as well (`call_leadsTo_within`).
-/

namespace NonceSearch

/-! ### What stays so while nobody reads -/

namespace Rig

/-- What nobody changes but a reader. -/
def Lasting (config : CoreConfig) (also : Rig → List Event → Prop) : Prop :=
  ∀ rig past move, Reached config rig past → also rig past → (∀ room, move ≠ .read room) →
    also (rig.act config move) (rig.events config move ++ past)

variable {config : CoreConfig}

theorem Lasting.untaken : Lasting config Untaken :=
  fun _ _ _ hreached h hmove => hreached.untaken_act h hmove

end Rig

namespace Trial

/-! ### Situations -/

section Situations

variable (config : CoreConfig) (work : WorkItem) (also : Rig → List Rig.Event → Prop)

/-- The scan has the device open, none of its requests has the lock, and so much holds of the core. -/
structure In (holds : Core → Prop) (scan : Scan) (trial : Trial) : Prop where
  present : trial.scan = scan
  reached : ∃ past, Rig.Reached config trial.rig past ∧ also trial.rig past
  held : trial.rig.driver.held = true
  free : ∀ asked rest, trial.rig.lock ≠ some (.request asked rest)
  core : holds trial.rig.core
  since : trial.since ≤ trial.rig.now

/-- A request of the scan has the lock, and is going to leave the core as `post` says, whenever it will
    be over. -/
structure Holds (asked : Request) (post : Nat → Nat → Reply → Core → Prop) (scan : Scan)
    (trial : Trial) : Prop where
  present : trial.scan = scan
  reached : ∃ past, Rig.Reached config trial.rig past ∧ also trial.rig past
  held : trial.rig.driver.held = true
  since : trial.since ≤ trial.rig.now
  secures : ∃ rest, trial.rig.lock = some (.request asked rest) ∧ ∀ ends, trial.rig.now ≤ ends →
    rest.Secures config (fun moment => trial.since ≤ moment ∧ moment ≤ ends)
      (Core.Meanwhile config work) (post trial.since ends) trial.rig.core

end Situations

variable {config : CoreConfig} {work : WorkItem} {also : Rig → List Rig.Event → Prop}
  {holds : Core → Prop} {scan : Scan} {trial : Trial} {move : Move}

/-- The others leave the scan where it is. -/
theorem In.other (h : In config also holds scan trial) (hlasting : Rig.Lasting config also)
    (hkept : Rig.Kept config work holds) (hmove : move ≠ .scan) :
    In config also holds scan (trial.act config move) ∧
      (trial.act config move).since = trial.since ∧
      (trial.rig.driver.queue.isReady → (trial.act config move).rig.driver.queue.isReady) ∧
      ((trial.act config move).rig.backlog < trial.rig.backlog ∨
        (trial.act config move).rig.backlog = trial.rig.backlog ∧
          (trial.act config move).rig.lock = trial.rig.lock ∧
          (trial.act config move).rig.driver = trial.rig.driver) := by
  obtain ⟨hscan, ⟨past, hreached, halso⟩, hheld, hfree, hcore, hsince⟩ := h
  obtain ⟨other, hother, hact, hnow⟩ := trial.act_other hmove
  rw [hact]
  refine ⟨⟨hscan, ⟨_, .move other hreached, hlasting _ _ _ hreached halso hother.not_read⟩,
    hother.held.trans hheld, ?_, hreached.other_kept hkept hother hcore, hsince.trans hnow⟩, rfl,
    hother.queue, hreached.other_backlog hfree hother⟩
  intro asked rest hlock
  exact hfree asked rest ((hother.lock asked rest).mp hlock)

/-- The others leave a request that has the lock as it is. -/
theorem Holds.other {asked : Request} {post : Nat → Nat → Reply → Core → Prop}
    (h : Holds config work also asked post scan trial) (hlasting : Rig.Lasting config also)
    (hmove : move ≠ .scan) :
    Holds config work also asked post scan (trial.act config move) ∧
      (trial.act config move).rig.lock = trial.rig.lock := by
  obtain ⟨hscan, ⟨past, hreached, halso⟩, hheld, hsince, rest, hlock, hsecures⟩ := h
  obtain ⟨other, hother, hact, hnow⟩ := trial.act_other hmove
  rw [hact]
  have hlock' := (@Rig.Other.lock config trial.rig other hother asked rest).mpr hlock
  refine ⟨⟨hscan, ⟨_, .move other hreached, hlasting _ _ _ hreached halso hother.not_read⟩,
    hother.held.trans hheld, hsince.trans hnow, rest, hlock', fun ends hends => ?_⟩,
    hlock'.trans hlock.symm⟩
  exact (hsecures ends (hnow.trans hends)).drift (fun _ _ _ => .trans)
    (hreached.other_meanwhile hother hlock)

/-! ### The end of a call -/

section Calls

/-- What comes next is what the answer to a call leads to. -/
def Answered (config : CoreConfig) (also : Rig → List Rig.Event → Prop) (call : ScanCall) (scan : Scan)
    (post : Nat → Nat → Reply → Core → Prop) (Q : Trial → Prop) : Prop :=
  ∀ rig past since reply, Rig.Reached config rig past → also rig past → rig.driver.held = true →
    rig.lock = none → post since rig.now reply rig.core →
    Q ⟨rig, (Scan.called { scan with phase := .calling call } call (.ok reply) ⟨rig.now, false⟩).1,
      rig.now⟩

variable {schedule : Nat → Move} {start : Trial} {post : Nat → Nat → Reply → Core → Prop}
  {within : Nat → Nat → Prop} {Q : Trial → Prop} {call : ScanCall} {asked : Request}

def remaining (trial : Trial) : Nat :=
  match trial.rig.lock with
  | some (.request _ rest) => rest.depth
  | _ => 0

/-- A request that has the lock makes an access at each turn of the scan, and then is answered. -/
theorem Holds.turn (h : Holds config work also asked post { scan with phase := .calling call } trial)
    (hlasting : Rig.Lasting config also) {program : Bus Reply}
    (hprogram : Driver.program config.layout (scan.sessionCall call).request = .ok program)
    (hwithin : within trial.since trial.rig.now)
    (hnext : Answered config also call scan
      (fun since ends reply core => post since ends reply core ∧ within since ends) Q) :
    Q (trial.act config .scan) ∨
      Holds config work also asked post { scan with phase := .calling call } (trial.act config .scan) ∧
        (trial.act config .scan).remaining < trial.remaining := by
  obtain ⟨rig, present, since⟩ := trial
  obtain ⟨hscan, ⟨past, hreached, halso⟩, hheld, hsince, rest, hlock, hsecures⟩ := h
  dsimp only at hscan hreached halso hheld hsince hlock hsecures hwithin
  subst hscan
  have hproceed := hlasting _ _ .proceed hreached halso nofun
  have hreached' := hreached.move .proceed
  have hheld' : (rig.act config .proceed).driver.held = true :=
    (@Rig.act_held config rig .proceed nofun nofun).trans hheld
  by_cases hdone : ∃ reply, rest = .done reply
  · left
    obtain ⟨reply, rfl⟩ := hdone
    have hpost := hsecures rig.now (Nat.le_refl _) rig.core (.refl _)
    have hact := @Rig.act_returns config _ _ _ hlock
    rw [act, goOn_returns hprogram hlock]
    rw [hact] at hproceed hreached' hheld' ⊢
    exact hnext _ _ since reply hreached' hproceed hheld' rfl ⟨hpost, hwithin⟩
  · right
    have hrest : ∀ reply, rest ≠ .done reply := fun reply hsame => hdone ⟨reply, hsame⟩
    have hact := @Rig.act_access config _ _ _ hlock hrest
    have hdepth := Bus.depth_advance hrest (rig.window config) rig.core
    rw [act, goOn_accesses hprogram hlock hrest]
    rw [hact] at hproceed hreached' hheld' ⊢
    refine ⟨⟨rfl, ⟨_, hreached', hproceed⟩, hheld', hsince, _, rfl, fun ends hends => ?_⟩, ?_⟩
    · exact (hsecures ends hends).advance .refl _ ⟨hsince, hends⟩
    · simp only [remaining, hlock]
      exact hdepth

/-- Within what time a call of the scan is answered. -/
def Within (config : CoreConfig) (schedule : Nat → Move) (start : Trial) (call : ScanCall)
    (within : Nat → Nat → Prop) : Prop :=
  ∀ n, schedule n = .scan → (run config schedule start n).scan.phase = .calling call →
    within (run config schedule start n).since (run config schedule start n).rig.now

/-- A call gets the lock at the first turn of the scan that finds it free. -/
theorem In.turn (h : In config also holds { scan with phase := .calling call } trial)
    (hlasting : Rig.Lasting config also)
    (hachieves : Driver.Achieves config work (scan.sessionCall call).request holds post) :
    Holds config work also (scan.sessionCall call).request post { scan with phase := .calling call }
        (trial.act config .scan) ∨
      trial.act config .scan = trial ∧ ∃ rest, trial.rig.lock = some (.service rest) := by
  obtain ⟨program, hprogram, hsecures⟩ := hachieves
  obtain ⟨rig, present, since⟩ := trial
  obtain ⟨hscan, ⟨past, hreached, halso⟩, hheld, hfree, hcore, hsince⟩ := h
  dsimp only at hscan hreached halso hheld hfree hcore hsince ⊢
  subst hscan
  match hlock : rig.lock with
  | some (.request asked rest) => exact absurd hlock (hfree asked rest)
  | some (.service rest) =>
    right
    exact ⟨goOn_blocked hprogram hlock, rest, rfl⟩
  | none =>
    left
    have hrequest := hlasting _ _ (.request (scan.sessionCall call).request) hreached halso nofun
    have hreached' := hreached.move (.request (scan.sessionCall call).request)
    have hact : rig.act config (.request (scan.sessionCall call).request) =
        { rig with lock := some (.request (scan.sessionCall call).request program) } := by
      simp [Rig.act, Rig.beginRequest, hheld, hlock, hprogram]
    rw [act, goOn_begins hprogram hlock]
    rw [hact] at hrequest hreached' ⊢
    exact ⟨rfl, ⟨_, hreached', hrequest⟩, hheld, hsince, program, rfl,
      fun ends _ => hsecures _ ends _ hcore⟩

end Calls

end Trial

end NonceSearch
