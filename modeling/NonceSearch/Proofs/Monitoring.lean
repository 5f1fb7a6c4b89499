import NonceSearch.Proofs.Onlookers

/-!
# Monitored sessions and scans

A session that anybody makes calls on, and scans one after another, are both something that goes on
around a rig. Neither notices onlookers: all calls and reads come to the same, the same happens to the
searches and the messages, and a scan enters the same states and ends with the same report.
-/

namespace NonceSearch

/-- What somebody who uses a rig is told, or can see. -/
inductive Sign where
  | happened (event : Rig.Event)
  /-- What comes of a call. -/
  | replied (result : Except DeviceError Reply)
  /-- What a read brings. -/
  | read (result : Except DeviceError (List UInt8))
  /-- What a scan is answered. -/
  | answered (demand : Demand) (answer : demand.Answer)
  /-- A state that a scan publishes, or what it logs. -/
  | noted (note : Note)

/-! ### Sessions -/

def Errand.outcome (state : SessionState) (errand : Errand) (result : Except DeviceError Reply) :
    Except DeviceError Reply :=
  match errand with
  | .call made => (made.settle state result).1
  | .glance => result

namespace Tenure

variable (config : CoreConfig)

/-- What comes of an errand that is taken on, when nothing more is to be done for it: it is out of turn, or
    the layout lacks it. -/
def declined (errand : Errand) (tenure : Tenure) : List Sign :=
  if tenure.errand.isSome then []
  else if errand.allowed tenure.state then
    match Driver.program config.layout errand.request with
    | .ok _ => []
    | .error cause => [.replied (errand.outcome tenure.state (.error cause))]
  else match errand with
    | .call made => [.replied (.error (made.refusal tenure.state))]
    | .glance => []

/-- What comes of a call or a read with a move of the rig. -/
def gets (move : Rig.Move) (tenure : Tenure) : List Sign :=
  match move with
  | .proceed =>
    match tenure.errand, tenure.rig.returning with
    | some errand, some (_, reply) => [.replied (errand.outcome tenure.state (.ok reply))]
    | _, _ => []
  | .read room => if tenure.rig.driver.held then [.read (tenure.rig.driver.tryRead room).1] else []
  | _ => []

def tells (move : Move) (tenure : Tenure) : List Sign :=
  match move with
  | .take errand => tenure.declined config errand
  | .rig move =>
    if tenure.permits move then tenure.gets move ++ (tenure.rig.events config move).map .happened else []

def waits (move : Move) (tenure : Tenure) : Bool :=
  match move with
  | .take _ => false
  | .rig move => tenure.permits move && tenure.rig.waits move

/-- A session as something that goes on around a rig. It permits no stalls. -/
def scene : Scene Tenure Move Sign where
  rig := Tenure.rig
  put rig tenure := { tenure with rig := rig }
  act := act config
  tells := tells config
  waits := waits
  stalls _ := false

variable {config} {tenure : Tenure} {move : Rig.Move} {looking : Bool} {watched : Rig}

/-- A move of the rig comes to the same for the session. -/
theorem goOn_alike (h : Rig.Alike config tenure.rig looking watched)
    (hwaits : looking = true → move ≠ .proceed) :
    goOn config move { tenure with rig := watched } =
        { goOn config move tenure with rig := watched.act config move } ∧
      gets move { tenure with rig := watched } = gets move tenure := by
  cases move with
  | proceed =>
    cases looking with
    -- The lock is then the onlooker's, and the session has nothing to proceed with.
    | true => exact absurd rfl (hwaits rfl)
    | false =>
      have hreturning := h.returning
      refine ⟨?_, by simp only [gets, hreturning]⟩
      simp only [goOn, hreturning]
      split <;> rfl
  | read room => exact ⟨rfl, by simp only [gets, h.driver]⟩
  | _ => exact ⟨rfl, rfl⟩

theorem scene_discreet :
    (scene config).Discreet config fun tenure => ∃ past, Reached config tenure past where
  rig_put _ _ := rfl
  put_put _ _ _ := rfl
  put_rig _ := rfl
  kept := by
    rintro move tenure ⟨past, hreached⟩
    exact ⟨_, hreached.move move⟩
  unnoticed := by
    rintro looking tenure watched action ⟨past, hreached⟩ halike - hwaits
    cases action with
    | take errand =>
      refine ⟨rfl, watched, ?_, ?_⟩
      · change take config errand { tenure with rig := watched } =
          { take config errand tenure with rig := watched }
        unfold take
        dsimp only
        split
        · split <;> rfl
        · rfl
      · change Rig.Alike config (take config errand tenure).rig looking watched
        rw [take_rig]
        exact halike
    | rig move =>
      have hpermits : permits { tenure with rig := watched } move = tenure.permits move := by
        cases move <;> rfl
      by_cases hpermitted : tenure.permits move = true
      · have hstall : move ≠ .stall := by
          rintro rfl
          exact Bool.false_ne_true hpermitted
        have hfree : looking = true → watched.waits move = false := by
          intro hlooking
          simpa [scene, waits, hpermits, hpermitted] using hwaits hlooking
        have hproceed : looking = true → move ≠ .proceed := by
          rintro hlooking rfl
          exact absurd (hfree hlooking).symm Bool.false_ne_true
        obtain ⟨hnext, hevents⟩ := halike.act ⟨past, hreached.rig⟩ hstall hfree
        obtain ⟨hgo, hgets⟩ := goOn_alike halike hproceed
        simp only [scene, tells, act, hpermits, hpermitted, if_true, hgo, hgets, hevents, goOn_rig]
        exact ⟨trivial, _, rfl, hnext⟩
      · simp only [scene, tells, act, hpermits, if_neg hpermitted]
        exact ⟨trivial, watched, rfl, halike⟩

end Tenure

/-! ### Scans -/

/-- Whether a demand has to wait for an onlooker who has the lock. -/
def Demand.waits (layout : RegisterLayout) : Demand → Bool
  | .request asked => (Driver.program layout asked).toBool
  | .release => true
  | _ => false

/-- A demand is met as if nobody looked on. -/
theorem Rig.Alike.answer? {config : CoreConfig} {alone watched : Rig} {looking : Bool}
    (h : Rig.Alike config alone looking watched) (hreached : ∃ past, Rig.Reached config alone past)
    (since : Nat) (demand : Demand) (hwaits : looking = true → demand.waits config.layout = false) :
    Rig.Alike config (alone.answer? config since demand).1 looking
        (watched.answer? config since demand).1 ∧
      (watched.answer? config since demand).2 = (alone.answer? config since demand).2 := by
  have hdriver := h.driver
  have hnow := h.now
  have hmoves : ∀ move : Rig.Move, move ≠ .stall → (looking = true → watched.waits move = false) →
      Rig.Alike config (alone.act config move) looking (watched.act config move) :=
    fun move hstall hfree => (h.act hreached hstall hfree).1
  cases demand with
  | acquire =>
    refine ⟨hmoves .acquire (by simp) fun _ => rfl, ?_⟩
    simp only [Rig.answer?, hdriver]
  | request asked =>
    cases hprogram : Driver.program config.layout asked with
    | error cause =>
      simp only [Rig.answer?, hprogram]
      exact ⟨h, trivial⟩
    | ok program =>
      cases looking with
      | true => simp [Demand.waits, hprogram, Except.toBool] at hwaits
      | false =>
        simp only [Rig.answer?, hprogram, h.lock]
        have hfree : ∀ move : Rig.Move, false = true → watched.waits move = false :=
          fun move hlooking => absurd hlooking Bool.false_ne_true
        split
        · next hother => cases hother
        · exact ⟨hmoves (.request asked) (by simp) (hfree _), rfl⟩
        · exact ⟨hmoves .proceed (by simp) (hfree _), rfl⟩
        · exact ⟨hmoves .proceed (by simp) (hfree _), rfl⟩
        · exact ⟨h, rfl⟩
  | readable timeout =>
    simp only [Rig.answer?, hdriver, hnow]
    exact ⟨h, trivial⟩
  | tryRead =>
    refine ⟨hmoves (.read CompletionMessage.size) (by simp) fun _ => rfl, ?_⟩
    simp only [Rig.answer?, hdriver]
  | pause duration =>
    simp only [Rig.answer?, hnow]
    exact ⟨h, trivial⟩
  | sense => exact ⟨h, rfl⟩
  | release =>
    cases looking with
    | true => exact absurd (hwaits rfl).symm Bool.false_ne_true
    | false =>
      exact ⟨hmoves .release (by simp) fun hlooking => absurd hlooking Bool.false_ne_true, rfl⟩
  | nothing => exact ⟨h, rfl⟩

namespace Campaign

variable (config : CoreConfig)

def tells (move : Move) (trial : Trial) : List Sign :=
  match move with
  | .scan cancelled =>
    match trial.rig.answer? config trial.since trial.scan.demand with
    | (rig, some answer) => .answered _ answer ::
        (trial.scan.resume ⟨rig.now, cancelled⟩ answer).2.map .noted ++
          (Rig.searchEvents trial.rig.core rig.core).map .happened
    | (rig, none) => (Rig.searchEvents trial.rig.core rig.core).map .happened
  | .launch device settings work =>
    if trial.scan.result?.isSome then
      (Scan.launch device config.layout settings work).2.map .noted
    else []
  | .beside move => if besides move then (trial.rig.events config move).map .happened else []

def waits (move : Move) (trial : Trial) : Bool :=
  match move with
  | .scan _ => trial.scan.demand.waits config.layout
  | .launch _ _ _ => false
  | .beside move => besides move && trial.rig.waits move

def stalls : Move → Bool
  | .beside .stall => true
  | _ => false

/-- Scans one after another as something that goes on around a rig. -/
def scene : Scene Trial Move Sign where
  rig := Trial.rig
  put rig trial := { trial with rig := rig }
  act := act config
  tells := tells config
  waits := waits config
  stalls := stalls

variable {config} {trial : Trial} {looking : Bool} {watched : Rig}

/-- A turn of the scan comes to the same. -/
theorem goOn_alike (h : Rig.Alike config trial.rig looking watched) (hreached : Reached config trial)
    (cancelled : Bool) (hwaits : looking = true → trial.scan.demand.waits config.layout = false) :
    tells config (.scan cancelled) { trial with rig := watched } =
        tells config (.scan cancelled) trial ∧
      ∃ next, goOn config cancelled { trial with rig := watched } =
          { goOn config cancelled trial with rig := next } ∧
        Rig.Alike config (goOn config cancelled trial).rig looking next := by
  obtain ⟨hnext, hanswer⟩ := h.answer? hreached.inStep.reached trial.since trial.scan.demand hwaits
  obtain ⟨past, hafter⟩ := (hreached.move (.scan cancelled)).inStep.reached
  change Rig.Reached config (goOn config cancelled trial).rig past at hafter
  generalize hshown : watched.answer? config trial.since trial.scan.demand = shown at hnext hanswer
  obtain ⟨next, reply⟩ := shown
  rcases hmet : trial.rig.answer? config trial.since trial.scan.demand with ⟨rig, _ | answer⟩
  · rw [goOn_unanswered hmet] at hafter ⊢
    rw [hmet] at hnext hanswer
    obtain rfl : reply = none := hanswer
    have hevents := Rig.searchEvents_noticed h.noticed hnext.noticed hafter.sound.consistent
    rw [@goOn_unanswered config { trial with rig := watched } cancelled next hshown]
    simp only [tells, hmet, hshown, hevents]
    exact ⟨trivial, next, rfl, hnext⟩
  · rw [goOn_answered hmet] at hafter ⊢
    rw [hmet] at hnext hanswer
    obtain rfl : reply = some answer := hanswer
    have hevents := Rig.searchEvents_noticed h.noticed hnext.noticed hafter.sound.consistent
    have hnow : next.now = rig.now := hnext.now
    rw [@goOn_answered config { trial with rig := watched } cancelled next answer hshown]
    simp only [tells, hmet, hshown, hevents, hnow]
    exact ⟨trivial, next, rfl, hnext⟩

theorem scene_discreet : (scene config).Discreet config (Reached config) where
  rig_put _ _ := rfl
  put_put _ _ _ := rfl
  put_rig _ := rfl
  kept move trial hreached := hreached.move move
  unnoticed := by
    intro looking trial watched action hreached halike hstalls hwaits
    have hrig := hreached.inStep.reached
    change Rig.Alike config trial.rig looking watched at halike
    cases action with
    | scan cancelled => exact goOn_alike halike hreached cancelled hwaits
    | launch device settings work =>
      simp only [scene, tells, act]
      split
      · refine ⟨trivial, watched, ?_, halike⟩
        simp only [Trial.launch, halike.now]
      · exact ⟨trivial, watched, rfl, halike⟩
    | beside move =>
      by_cases hbesides : besides move = true
      · have hstall : move ≠ .stall := by
          rintro rfl
          exact absurd hstalls.symm Bool.false_ne_true
        have hfree : looking = true → watched.waits move = false := by
          intro hlooking
          simpa [scene, waits, hbesides] using hwaits hlooking
        obtain ⟨hnext, hevents⟩ := halike.act hrig hstall hfree
        simp only [scene, tells, act, if_pos hbesides, hevents]
        exact ⟨trivial, _, rfl, hnext⟩
      · simp only [scene, tells, act, if_neg hbesides]
        exact ⟨trivial, watched, rfl, halike⟩

end Campaign

/-! ### What onlookers leave as it is -/

/-- **Monitoring disturbs neither a session nor a scan.** -/
theorem monitoring_changes_nothing (config : CoreConfig) :
    (∀ (start tenure : Tenure) (past : List Rig.Event) (looking : Bool) (done : List Tenure.Move)
      (told : List Sign), Tenure.Reached config start past →
      (Tenure.scene config).Watched config start looking tenure done told →
      let alone := (Tenure.scene config).after done start
      told = (Tenure.scene config).told done start ∧ tenure.state = alone.state ∧
        tenure.errand = alone.errand ∧ tenure.rig.driver = alone.rig.driver ∧
        Rig.Alike config alone.rig looking tenure.rig) ∧
    (∀ (start trial : Trial) (looking : Bool) (done : List Campaign.Move) (told : List Sign),
      Campaign.Reached config start →
      (Campaign.scene config).Watched config start looking trial done told →
      let alone := (Campaign.scene config).after done start
      told = (Campaign.scene config).told done start ∧ trial.scan = alone.scan ∧
        trial.since = alone.since ∧ trial.rig.driver = alone.rig.driver ∧
        Rig.Alike config alone.rig looking trial.rig) := by
  constructor
  · intro start tenure past looking done told hreached hwatched
    obtain ⟨htold, rig, rfl, halike⟩ := hwatched.alike Tenure.scene_discreet ⟨past, hreached⟩
    exact ⟨htold, rfl, rfl, halike.driver, halike⟩
  · intro start trial looking done told hreached hwatched
    obtain ⟨htold, rig, rfl, halike⟩ := hwatched.alike Campaign.scene_discreet hreached
    exact ⟨htold, rfl, rfl, halike.driver, halike⟩

/-! A session has reset its core, and a scan waits until its core is ready. Two milliseconds later, when
that is due, somebody looks, and another one passes while that one has the lock. -/

def awaited : List Tenure.Move := .rig (.pass 2) :: (Tenure.carryOut (.call .reset) 1).reverse

def awaitedByScan : List Campaign.Move := .beside (.pass 2) :: List.replicate 7 (.scan false)

def lateScan : Trial := .launch {} "core" .count {} Campaign.hopelessWork

theorem looks_go_unnoticed :
    (∃ (tenure : Tenure) (done : List Tenure.Move) (told : List Sign),
      Tenure.Reached Tenure.lateCount (.fresh Tenure.lateCount) [] ∧
      (Tenure.scene Tenure.lateCount).Watched Tenure.lateCount (.fresh Tenure.lateCount) false tenure
        done told ∧
      told = (Tenure.scene Tenure.lateCount).told done (.fresh Tenure.lateCount) ∧
      tenure.rig.core.status = .ready ∧
      ((Tenure.scene Tenure.lateCount).after done (.fresh Tenure.lateCount)).rig.core.status = .empty) ∧
    (∃ (trial : Trial) (done : List Campaign.Move) (told : List Sign),
      Campaign.Reached Tenure.lateCount lateScan ∧
      (Campaign.scene Tenure.lateCount).Watched Tenure.lateCount lateScan false trial done told ∧
      trial.scan = ((Campaign.scene Tenure.lateCount).after done lateScan).scan ∧
      trial.scan.phase = .calling .stateIn) := by
  constructor
  · have hreached := Tenure.fresh_reached Tenure.lateCount
    have hawaited := (@Scene.Watched.begins _ _ _ (Tenure.scene Tenure.lateCount) Tenure.lateCount
      (.fresh Tenure.lateCount)).go_on awaited fun _ _ => rfl
    have hlooked := (((hawaited.looks (rfl : Request.looks .getStatus = true) rfl rfl).acts (.rig (.pass 1)) rfl
      fun _ => rfl).peeks rfl).leaves rfl
    obtain ⟨htold, -⟩ :=
      (monitoring_changes_nothing Tenure.lateCount).1 _ _ _ _ _ _ hreached hlooked
    exact ⟨_, _, _, hreached, hlooked, htold, rfl, rfl⟩
  · have hreached : Campaign.Reached Tenure.lateCount lateScan :=
      .launched .bound rfl "core" {} Campaign.hopelessWork
    have hawaited := (@Scene.Watched.begins _ _ _ (Campaign.scene Tenure.lateCount) Tenure.lateCount
      lateScan).go_on awaitedByScan (by decide)
    have hlooked := hawaited.look Campaign.scene_discreet
      (rfl : Request.looks .getNonceCurrent = true) rfl rfl
    have hready := hlooked.go_on (List.replicate 4 (.scan false)) (by decide)
    obtain ⟨-, hscan, -⟩ :=
      (monitoring_changes_nothing Tenure.lateCount).2 _ _ _ _ _ hreached hready
    exact ⟨_, _, _, hreached, hready, hscan, rfl⟩

end NonceSearch
