import NonceSearch.Proofs.ScanSteps

/-!
# Scans on the clock

A scan on a bench goes on by answers, which take no time, and by waits, and its token may be fired
between any two of them. `ScanRun.Leads` says how one run comes to be another, with all the answers on
the way, oldest first. No demand lasts longer than its patience: a wait that is answered with nothing
has gone on to its very end, and so has a pause (`Leads.punctual`).
-/

namespace NonceSearch

/-- How long it may take until a demand is answered. -/
def Demand.patience : Demand → Nat
  | .readable timeout => timeout
  | .pause duration => duration
  | _ => 0

structure ScanAnswer where
  phase : ScanPhase
  /-- When the demand was made. -/
  since : Nat
  operation : Option Operation
  moment : Moment
  /-- The phase that the answer has led to. -/
  next : ScanPhase

/-! ### Answers on a bench -/

namespace Bench

variable {δ : Type} {bench next : Bench δ} {since : Nat} {demand : Demand} {answer : demand.Answer}

/-- An answer takes no time, and the device remains the same one. -/
theorem answer?_still (h : bench.answer? since demand = some (answer, next)) :
    next.now = bench.now ∧ next.device = bench.device := by
  cases demand with
  | readable timeout =>
    simp only [answer?] at h
    split at h
    · obtain ⟨-, rfl⟩ := Prod.mk.inj (Option.some.inj h)
      exact ⟨rfl, rfl⟩
    · split at h
      · obtain ⟨-, rfl⟩ := Prod.mk.inj (Option.some.inj h)
        exact ⟨rfl, rfl⟩
      · cases h
  | pause duration =>
    simp only [answer?, Option.ite_none_right_eq_some] at h
    obtain ⟨-, rfl⟩ := Prod.mk.inj (Option.some.inj h.2)
    exact ⟨rfl, rfl⟩
  | nothing => cases h
  | _ =>
    obtain ⟨-, rfl⟩ := Prod.mk.inj (Option.some.inj h)
    exact ⟨rfl, rfl⟩

/-- Only a wait and a pause are not answered at once, and they are looked at again before their end. -/
theorem nextMoment?_of_unanswered {later : Nat} (h : bench.answer? since demand = none)
    (hlater : bench.nextMoment? since demand = some later) :
    bench.now < later ∧ later ≤ since + demand.patience := by
  cases demand with
  | readable timeout =>
    obtain rfl := Option.some.inj hlater
    simp only [answer?] at h
    split at h
    · cases h
    · split at h
      · cases h
      · next hearly =>
        refine ⟨bench.device.lt_nextLook _ (Nat.lt_of_not_le hearly), ?_⟩
        have hpatience : (Demand.readable timeout).patience = timeout := rfl
        rw [hpatience]
        unfold Device.nextLook
        split <;> omega
  | pause duration =>
    obtain rfl := Option.some.inj hlater
    simp only [answer?, ite_eq_right_iff, reduceCtorEq, imp_false, Nat.not_le] at h
    exact ⟨h, Nat.le_refl _⟩
  | _ => cases hlater

theorem passTo_still {later : Nat} (h : bench.now < later) :
    (bench.passTo later).now = later ∧ (bench.passTo later).device = bench.device := by
  unfold passTo
  rw [if_pos h]
  exact ⟨rfl, rfl⟩

end Bench

/-! ### From one run to another -/

namespace ScanRun

variable {δ : Type} {start run next last : ScanRun δ} {past : List ScanAnswer}

/-- What is known of an answer once it has been given. -/
def answerTo (run next : ScanRun δ) : ScanAnswer :=
  ⟨run.scan.phase, run.since, run.operation?, ⟨run.bench.now, run.cancelled⟩, next.scan.phase⟩

/-- A run comes to be another one, with these answers on the way. -/
inductive Leads (start : ScanRun δ) : ScanRun δ → List ScanAnswer → Prop where
  | here : Leads start start []
  | answered {run next : ScanRun δ} {past : List ScanAnswer} (before : Leads start run past)
    (step : run.step? = some next) : Leads start next (past ++ [run.answerTo next])
  | passed {run : ScanRun δ} {past : List ScanAnswer} {later : Nat} (before : Leads start run past)
    (unanswered : run.step? = none) (moment : run.nextMoment? = some later) :
    Leads start (run.passTo later) past
  /-- The token is fired. -/
  | fired {run : ScanRun δ} {past : List ScanAnswer} (before : Leads start run past) :
    Leads start run.restart past

/-- One step, opened up. -/
theorem step?_spec (h : run.step? = some next) :
    ∃ answer bench, run.bench.answer? run.since run.scan.demand = some (answer, bench) ∧
      run.operation? = run.scan.demand.operation? answer ∧
      next = { run with
        bench := bench
        scan := (run.scan.resume ⟨run.bench.now, run.cancelled⟩ answer).1
        since := run.bench.now
        notes := (run.scan.resume ⟨run.bench.now, run.cancelled⟩ answer).2.reverse ++ run.notes } := by
  unfold step? at h
  rcases hanswer : run.bench.answer? run.since run.scan.demand with _ | ⟨answer, bench⟩
  · simp [hanswer] at h
  · simp only [hanswer, Option.some.injEq] at h
    obtain ⟨hnow, -⟩ := Bench.answer?_still hanswer
    refine ⟨answer, bench, rfl, by simp [operation?, hanswer], ?_⟩
    rw [← h, hnow]

/-- What a step leaves as it is. -/
theorem step?_still (h : run.step? = some next) :
    next.bench.now = run.bench.now ∧ next.bench.device = run.bench.device ∧
      next.since = run.bench.now ∧ next.fires = run.fires := by
  obtain ⟨answer, bench, hanswer, -, rfl⟩ := step?_spec h
  obtain ⟨hnow, hdevice⟩ := Bench.answer?_still hanswer
  exact ⟨hnow, hdevice, rfl, rfl⟩

theorem answer?_of_unanswered (h : run.step? = none) :
    run.bench.answer? run.since run.scan.demand = none := by
  unfold step? at h
  split at h
  · next hnone => exact hnone
  · cases h

/-- Time passes, but not beyond the end of the demand. -/
theorem passTo_spec {later : Nat} (h : run.step? = none) (hlater : run.nextMoment? = some later) :
    run.bench.now < later ∧ later ≤ run.since + run.scan.demand.patience ∧
      (run.passTo later).bench.now = later := by
  obtain ⟨hless, hend⟩ := Bench.nextMoment?_of_unanswered (answer?_of_unanswered h) hlater
  exact ⟨hless, hend, (Bench.passTo_still hless).1⟩

/-- A demand is made at the latest when it is looked at, and its patience is never exceeded. -/
structure Punctual (run : ScanRun δ) : Prop where
  begun : run.since ≤ run.bench.now
  inTime : run.bench.now ≤ run.since + run.scan.demand.patience

theorem Punctual.of_fresh (h : run.since = run.bench.now) : run.Punctual :=
  ⟨Nat.le_of_eq h, by omega⟩

theorem Leads.punctual (h : start.Leads run past) (hstart : start.Punctual) : run.Punctual := by
  induction h with
  | here => exact hstart
  | answered before step ih =>
    obtain ⟨hnow, -, hsince, -⟩ := step?_still step
    exact .of_fresh (hsince.trans hnow.symm)
  | passed before unanswered moment ih =>
    obtain ⟨hless, hend, hnow⟩ := passTo_spec unanswered moment
    have hbegun := ih.begun
    constructor
    · rw [hnow]
      exact Nat.le_trans hbegun (Nat.le_of_lt hless)
    · rw [hnow]
      exact hend
  | fired before ih => exact ⟨ih.begun, ih.inTime⟩

/-- The calls of a scan stay in turn. -/
theorem Leads.inTurn (h : start.Leads run past) (hstart : start.scan.InTurn) : run.scan.InTurn := by
  induction h with
  | here => exact hstart
  | answered before step ih => exact (step?_goes ih step).inTurn
  | passed before unanswered moment ih => exact ih
  | fired before ih => exact ih

/-- The work, the layout and the configuration stay. -/
theorem Leads.task (h : start.Leads run past) (hstart : start.scan.InTurn) :
    run.scan.task = start.scan.task := by
  induction h with
  | here => rfl
  | answered before step ih => exact (step?_goes (before.inTurn hstart) step).task.trans ih
  | passed before unanswered moment ih => exact ih
  | fired before ih => exact ih

/-! ### Going on -/

theorem Leads.advance (h : start.Leads run past) (hadvance : run.advance? = some next) :
    ∃ more, start.Leads next more := by
  unfold advance? at hadvance
  rcases hstep : run.step? with _ | stepped
  · rw [hstep] at hadvance
    obtain ⟨later, hmoment, rfl⟩ := Option.map_eq_some_iff.mp hadvance
    exact ⟨past, h.passed hstep hmoment⟩
  · rw [hstep] at hadvance
    obtain rfl := Option.some.inj hadvance
    exact ⟨_, h.answered hstep⟩

/-- A scan that has not ended never gets stuck: it is answered, or it waits for a later moment. -/
theorem step?_or_nextMoment? (hended : ∀ result, run.scan.phase ≠ .ended result) :
    (∃ next, run.step? = some next) ∨
      run.step? = none ∧ ∃ later, run.nextMoment? = some later := by
  rcases hstep : run.step? with _ | next
  · right
    refine ⟨rfl, ?_⟩
    have hanswer := answer?_of_unanswered hstep
    have hdemand : run.scan.demand ≠ .nothing := by
      intro hnothing
      unfold Scan.demand Scan.demandIn at hnothing
      split at hnothing
      · cases hnothing
      · cases hnothing
      · cases hnothing
      · cases hnothing
      · cases hnothing
      · cases hnothing
      · cases hnothing
      · next result hphase => exact hended result hphase
    unfold nextMoment?
    generalize run.scan.demand = demand at hanswer hdemand
    cases demand with
    | readable timeout => exact ⟨_, rfl⟩
    | pause duration => exact ⟨_, rfl⟩
    | nothing => exact absurd rfl hdemand
    | _ => cases hanswer
  · exact .inl ⟨next, rfl⟩

/-- What a run comes to by itself. -/
theorem Leads.goUntil (h : start.Leads run past) (stop : ScanRun δ → Bool) (fuel : Nat) :
    ∃ more, start.Leads (run.goUntil stop fuel) more := by
  induction fuel generalizing run past with
  | zero => exact ⟨past, h⟩
  | succ fuel ih =>
    rw [ScanRun.goUntil]
    split
    · exact ⟨past, h⟩
    · split
      · next next hadvance =>
        obtain ⟨more, hmore⟩ := h.advance hadvance
        exact ih hmore
      · exact ⟨past, h⟩

/-- A run comes to a halt if it can always go on until then, at the cost of its budget. -/
theorem goUntil_stops {stop : ScanRun δ → Bool} {Within : ScanRun δ → Nat → Prop}
    (hspend : ∀ run budget, Within run budget → stop run = false →
      ∃ next rest, run.advance? = some next ∧ rest < budget ∧ Within next rest)
    {budget fuel : Nat} (h : Within run budget) (hfuel : budget ≤ fuel) :
    stop (run.goUntil stop fuel) = true ∧ ∃ rest, Within (run.goUntil stop fuel) rest := by
  induction fuel generalizing run budget with
  | zero =>
    cases hstop : stop run with
    | true => exact ⟨hstop, budget, h⟩
    | false =>
      obtain ⟨next, rest, -, hless, -⟩ := hspend run budget h hstop
      omega
  | succ fuel ih =>
    rw [ScanRun.goUntil]
    cases hstop : stop run with
    | true => exact ⟨hstop, budget, h⟩
    | false =>
      obtain ⟨next, rest, hadvance, hless, hnext⟩ := hspend run budget h hstop
      rw [hadvance]
      exact ih hnext (by omega)

end ScanRun

/-! ### How far it is to the end -/

/-- So many answers end a scan that neither looks again nor begins another tick. -/
def ScanPhase.ahead : ScanPhase → Nat
  | .opening => 12
  | .calling call =>
    match call with
    | .clock _ => 11
    | .reset => 10
    | .poll _ => 9
    | .stateIn => 8
    | .tail => 7
    | .difficulty => 6
    | .start => 5
    | .tick => 6
    | .counter _ => 2
  | .pausing _ => 10
  | .sensing => 5
  | .waiting _ => 4
  | .reading _ => 3
  | .closing _ => 1
  | .ended _ => 0

theorem ScanPhase.ahead_le_twelve (phase : ScanPhase) : phase.ahead ≤ 12 := by
  cases phase with
  | calling call => cases call <;> exact Nat.le_of_ble_eq_true rfl
  | _ => exact Nat.le_of_ble_eq_true rfl

variable {task : ScanTask} {cancelled : Bool} {phase next : ScanPhase} {operation : Option Operation}
  {news : List ScanState}

/-- An answer brings the end nearer, unless it leads to another look or another tick. -/
theorem ScanTask.Goes.ahead_lt (h : task.Goes cancelled phase operation next news)
    (hlook : ∀ deadline, next ≠ .pausing deadline) (htick : next ≠ .calling .tick) :
    next.ahead < phase.ahead := by
  cases h with
  | denied => exact Nat.succ_pos _
  | opened =>
    unfold firstCall
    split
    · exact Nat.lt_succ_self _
    · exact Nat.lt_of_sub_eq_succ rfl
  | advanced hadvances =>
    cases hadvances with
    | passed hprecedes => cases hprecedes <;> exact Nat.lt_succ_self _
    | ready => exact Nat.lt_succ_self _
    | unready => exact absurd rfl (hlook _)
    | paused => exact Nat.lt_succ_self _
    | started => exact Nat.lt_succ_self _
    | ticked hnext =>
      rw [hnext]
      split
      · exact Nat.lt_succ_self _
      · exact Nat.lt_of_sub_eq_succ rfl
    | sensed => exact Nat.lt_succ_self _
    | announced => exact Nat.lt_succ_self _
    | lapsed => exact absurd rfl htick
  | concluded hmeets =>
    cases hmeets with
    | @call call unsettled =>
      cases call with
      | counter outcome => exact absurd rfl (unsettled outcome)
      | _ => exact Nat.lt_of_sub_eq_succ rfl
    | wait => exact Nat.lt_of_sub_eq_succ rfl
    | read => exact Nat.lt_of_sub_eq_succ rfl
  | counted => exact Nat.lt_succ_self _
  | closed => exact Nat.lt_succ_self _

/-- Only a look leads to another look. -/
theorem ScanTask.Goes.look_of_pausing {deadline : Nat}
    (h : task.Goes cancelled phase operation (.pausing deadline) news) :
    phase = .calling (.poll deadline) := by
  generalize hnext : ScanPhase.pausing deadline = next at h
  cases h with
  | advanced hadvances =>
    cases hadvances with
    | unready =>
      cases hnext
      rfl
    | ticked hticked =>
      rw [hticked] at hnext
      split at hnext <;> cases hnext
    | _ => cases hnext
  | _ => cases hnext

/-- Nothing leads back to the looks. -/
theorem ScanTask.Goes.ahead_le (h : task.Goes cancelled phase operation next news)
    (hphase : phase.ahead ≤ 8) : next.ahead ≤ 8 := by
  by_cases htick : next = .calling .tick
  · rw [htick]
    exact Nat.le_of_ble_eq_true rfl
  · have hlook : ∀ deadline, next ≠ .pausing deadline := by
      rintro deadline rfl
      rw [h.look_of_pausing] at hphase
      exact Nat.not_succ_le_self 8 hphase
    exact Nat.le_of_lt (Nat.lt_of_lt_of_le (h.ahead_lt hlook htick) hphase)

end NonceSearch
