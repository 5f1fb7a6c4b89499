import NonceSearch.Proofs.Endings
import NonceSearch.Proofs.ReadyWait

/-!
# How soon a scan heeds its token

The token is looked at only now and then: when a device is not ready, and when a tick has obtained
nothing. A scan may be caught in a pause by it, find its device ready after the pause, load it and start
it, and only then come to a tick; or it may be caught in its last wait. Nothing takes longer than that
(`ScanRun.fired_scan_ends_soon`): what a phase may still take once the token has fired
(`ScanConfig.remaining`) pays for everything that comes after it.
-/

namespace NonceSearch

/-! ### What a phase may take -/

namespace ScanConfig

def lasts (config : ScanConfig) : ScanPhase → Nat
  | .pausing _ => config.readyPoll
  | .waiting last => config.listens last
  | _ => 0

/-- How long it takes at the most from the beginning of a phase to the end of the scan, once the token
    has fired. -/
def remaining (config : ScanConfig) : ScanPhase → Nat
  | .pausing _ => config.readyPoll + config.waitTick
  | .opening => config.waitTick
  | .calling call =>
    match call with
    | .tick => max config.waitTick config.stopGrace
    | .counter _ => 0
    | _ => config.waitTick
  | .sensing => config.waitTick
  | .waiting last => config.listens last
  | .reading _ => 0
  | .closing _ => 0
  | .ended _ => 0

/-- How long a scan may take to end once its token has fired. -/
def leeway (config : ScanConfig) : Nat := max (config.readyPoll + config.waitTick) config.stopGrace

variable {config : ScanConfig} {phase : ScanPhase}

theorem waitTick_le_leeway : config.waitTick ≤ config.leeway :=
  Nat.le_trans (Nat.le_add_left _ _) (Nat.le_max_left _ _)

theorem remaining_le_leeway : config.remaining phase ≤ config.leeway := by
  cases phase with
  | pausing deadline => exact Nat.le_max_left _ _
  | opening => exact waitTick_le_leeway
  | sensing => exact waitTick_le_leeway
  | calling call =>
    cases call with
    | tick => exact Nat.max_le.mpr ⟨waitTick_le_leeway, Nat.le_max_right _ _⟩
    | counter outcome => exact Nat.zero_le _
    | _ => exact waitTick_le_leeway
  | waiting last =>
    cases last with
    | false => exact waitTick_le_leeway
    | true => exact Nat.le_max_right _ _
  | _ => exact Nat.zero_le _

theorem lasts_le_remaining : config.lasts phase ≤ config.remaining phase := by
  cases phase with
  | pausing deadline => exact Nat.le_add_right _ _
  | waiting last => exact Nat.le_refl _
  | _ => exact Nat.zero_le _

end ScanConfig

theorem Scan.demand_patience (scan : Scan) : scan.demand.patience = scan.config.lasts scan.phase := by
  obtain ⟨device, layout, config, work, session, phase⟩ := scan
  cases phase <;> rfl

/-- A phase that neither looks again nor begins another tick leaves to the next one what is left of its
    own time. -/
theorem ScanTask.Goes.pays {task : ScanTask} {cancelled : Bool} {phase next : ScanPhase}
    {operation : Option Operation} {news : List ScanState}
    (h : task.Goes cancelled phase operation next news) (hlook : ∀ deadline, next ≠ .pausing deadline)
    (htick : next ≠ .calling .tick) :
    task.config.lasts phase + task.config.remaining next ≤ task.config.remaining phase := by
  cases h with
  | denied => exact Nat.zero_le _
  | opened =>
    unfold firstCall
    split <;> exact Nat.le_of_eq (Nat.zero_add _)
  | advanced hadvances =>
    cases hadvances with
    | passed hprecedes => cases hprecedes <;> exact Nat.le_of_eq (Nat.zero_add _)
    | ready => exact Nat.le_of_eq (Nat.zero_add _)
    | unready => exact absurd rfl (hlook _)
    | paused => exact Nat.le_refl _
    | started => exact Nat.le_of_eq (Nat.zero_add _)
    | ticked hnext =>
      rw [hnext, show task.config.lasts (.calling .tick) = 0 from rfl, Nat.zero_add]
      split
      · exact Nat.le_max_left _ _
      · exact Nat.le_max_right _ _
    | sensed => exact Nat.le_of_eq (Nat.zero_add _)
    | announced => exact Nat.le_refl _
    | lapsed => exact absurd rfl htick
  | concluded hmeets =>
    cases hmeets with
    | call => exact Nat.zero_le _
    | wait => exact Nat.le_refl _
    | read => exact Nat.le_refl _
  | counted => exact Nat.le_refl _
  | closed => exact Nat.le_refl _

def ScanAnswer.beginsTick (answer : ScanAnswer) : Bool :=
  match answer.next with
  | .waiting false => true
  | _ => false

/-! ### Once the token has fired -/

/-- Only a wait that has obtained nothing leads to another look at the search. -/
theorem ScanTask.Goes.listening_of_tick {task : ScanTask} {cancelled : Bool} {phase : ScanPhase}
    {operation : Option Operation} {news : List ScanState}
    (h : task.Goes cancelled phase operation (.calling .tick) news) :
    ∃ last, phase = .waiting last ∨ phase = .reading last := by
  generalize hnext : ScanPhase.calling .tick = next at h
  cases h with
  | advanced hadvances =>
    cases hadvances with
    | lapsed hlapses =>
      cases hlapses with
      | wait last => exact ⟨last, .inl rfl⟩
      | read last => exact ⟨last, .inr rfl⟩
    | passed hprecedes => cases hprecedes <;> cases hnext
    | ticked hticked =>
      rw [hticked] at hnext
      split at hnext <;> cases hnext
    | _ => cases hnext
  | opened =>
    unfold firstCall at hnext
    split at hnext <;> cases hnext
  | _ => cases hnext

theorem Scan.lapse_of_cancelled {scan : Scan} {last : Bool} {moment : Moment}
    (h : moment.cancelled = true) : (scan.lapse last moment).1.phase ≠ .calling .tick := by
  cases last with
  | true =>
    rw [lapse_last]
    exact nofun
  | false =>
    rw [lapse_tick, if_pos h]
    exact nofun

theorem WorkItem.Settles.not_tick {work : WorkItem} {operation : Operation} {phase : ScanPhase}
    (h : work.Settles operation phase) : phase ≠ .calling .tick := by
  cases h with
  | told => exact nofun
  | failed => exact nofun

namespace ScanRun

variable {δ : Type} {start run next : ScanRun δ} {past : List ScanAnswer} {begun : Nat}

theorem not_tick_of_cancelled (hturn : run.scan.InTurn) (hcancelled : run.cancelled = true)
    (hstep : run.step? = some next) : next.scan.phase ≠ .calling .tick := by
  intro htick
  obtain ⟨news, -, hgoes⟩ := (step?_goes hturn hstep).goes
  rw [htick] at hgoes
  obtain ⟨last, hphase | hphase⟩ := hgoes.listening_of_tick
  · obtain ⟨result, -, hscan, -⟩ := step?_waiting hstep hphase
    rw [hscan] at htick
    rcases @Scan.waited_cases run.scan last ⟨run.bench.now, run.cancelled⟩ result with
      ⟨-, hlapse⟩ | ⟨-, hreading⟩ | hsettles
    · rw [hlapse] at htick
      exact Scan.lapse_of_cancelled hcancelled htick
    · cases hreading.symm.trans htick
    · exact hsettles.not_tick htick
  · obtain ⟨-, hscan⟩ := step?_reading hstep hphase
    rw [hscan] at htick
    rcases @Scan.read_cases run.scan last ⟨run.bench.now, run.cancelled⟩
      (run.bench.device.tryRead run.bench.now CompletionMessage.size run.bench.state).1 with
      ⟨-, hlapse⟩ | hsettles
    · rw [hlapse] at htick
      exact Scan.lapse_of_cancelled hcancelled htick
    · exact hsettles.not_tick htick

theorem not_pausing_of_cancelled (hturn : run.scan.InTurn) (hcancelled : run.cancelled = true)
    (hstep : run.step? = some next) (deadline : Nat) : next.scan.phase ≠ .pausing deadline := by
  intro hpausing
  obtain ⟨news, -, hgoes⟩ := (step?_goes hturn hstep).goes
  rw [hpausing] at hgoes
  have hdecides := step?_looking hstep hturn hgoes.look_of_pausing
  rw [hpausing] at hdecides
  cases hdecides with
  | nothing leavesOpen =>
    have hunfired : run.cancelled = false := leavesOpen.unfired
    cases hcancelled.symm.trans hunfired

/-- Once the token has fired, an answer brings the end nearer, and is paid for. -/
theorem step?_once_fired (hturn : run.scan.InTurn) (hcancelled : run.cancelled = true)
    (hstep : run.step? = some next) : next.scan.phase.ahead < run.scan.phase.ahead ∧
      run.scan.demand.patience + next.scan.config.remaining next.scan.phase ≤
        run.scan.config.remaining run.scan.phase := by
  have hgoes := step?_goes hturn hstep
  have hconfig : next.scan.config = run.scan.config := congrArg ScanTask.config hgoes.task
  obtain ⟨news, -, hgoes⟩ := hgoes.goes
  have hlook := not_pausing_of_cancelled hturn hcancelled hstep
  have htick := not_tick_of_cancelled hturn hcancelled hstep
  rw [hconfig, Scan.demand_patience]
  exact ⟨hgoes.ahead_lt hlook htick, hgoes.pays hlook htick⟩

theorem cancelled_iff :
    run.cancelled = true ↔ ∃ fired, run.fires = some fired ∧ fired ≤ run.bench.now := by
  unfold cancelled
  split
  · next fired hfires => simp [hfires]
  · next hfires => simp [hfires]

theorem cancelled_of_step (hstep : run.step? = some next) : next.cancelled = run.cancelled := by
  obtain ⟨hnow, -, -, hfires⟩ := step?_still hstep
  rw [cancelled, cancelled, hnow, hfires]

theorem cancelled_restart : run.restart.cancelled = true := by
  apply cancelled_iff.mpr
  exact ⟨_, rfl, Nat.min_le_right _ _⟩

/-- A token that has fired stays so. -/
theorem cancelled_passTo {later : Nat} (h : run.cancelled = true) (hless : run.bench.now < later) :
    (run.passTo later).cancelled = true := by
  obtain ⟨fired, hfires, hfired⟩ := cancelled_iff.mp h
  apply cancelled_iff.mpr
  refine ⟨fired, hfires, ?_⟩
  rw [passTo, (Bench.passTo_still hless).1]
  exact Nat.le_trans hfired (Nat.le_of_lt hless)

/-- The present phase is over in time, whatever comes of it, if the token has fired. -/
def Heeding (begun : Nat) (run : ScanRun δ) : Prop :=
  ∀ fired, run.fires = some fired → fired ≤ run.bench.now →
    run.since + run.scan.config.remaining run.scan.phase ≤ max fired begun + run.scan.config.leeway

theorem Heeding.step (h : run.Heeding begun) (hturn : run.scan.InTurn) (hpunctual : run.Punctual)
    (hstep : run.step? = some next) : next.Heeding begun := by
  intro fired hfires hfired
  obtain ⟨hnow, -, hsince, hsame⟩ := step?_still hstep
  rw [hsame] at hfires
  rw [hnow] at hfired
  have hcancelled : run.cancelled = true := cancelled_iff.mpr ⟨fired, hfires, hfired⟩
  obtain ⟨-, hpaid⟩ := step?_once_fired hturn hcancelled hstep
  have hconfig : next.scan.config = run.scan.config :=
    congrArg ScanTask.config (step?_goes hturn hstep).task
  have hdue := h fired hfires hfired
  have htime := hpunctual.inTime
  rw [hconfig] at hpaid ⊢
  rw [hsince]
  omega

/-- A phase that has begun by the time at which the token fired is over in time. -/
theorem heeding_of_since {fired : Nat} (h : run.since ≤ max fired begun) :
    run.since + run.scan.config.remaining run.scan.phase ≤
      max fired begun + run.scan.config.leeway :=
  Nat.add_le_add h ScanConfig.remaining_le_leeway

theorem Heeding.restart (h : run.Heeding begun) (hpunctual : run.Punctual) :
    run.restart.Heeding begun := by
  intro fired hfires _
  have hfired : fired = min (run.fires.getD run.bench.now) run.bench.now :=
    (Option.some.inj hfires).symm
  rcases Nat.lt_or_ge fired run.bench.now with hbefore | hnow
  · -- the token had fired before
    rcases hearlier : run.fires with _ | earlier
    · rw [hearlier, Option.getD_none, Nat.min_self] at hfired
      omega
    · rw [hearlier, Option.getD_some] at hfired
      obtain rfl : fired = earlier := by omega
      exact h fired hearlier (Nat.le_of_lt hbefore)
  · have hbegun : run.since ≤ run.bench.now := hpunctual.begun
    exact @heeding_of_since δ run.restart begun fired
      (Nat.le_trans hbegun (Nat.le_trans hnow (Nat.le_max_left _ _)))

theorem Heeding.passTo (h : run.Heeding begun) (hpunctual : run.Punctual) (later : Nat) :
    (run.passTo later).Heeding begun := by
  intro fired hfires _
  rcases Nat.lt_or_ge run.bench.now fired with hafter | hbefore
  · have hbegun : run.since ≤ run.bench.now := hpunctual.begun
    exact @heeding_of_since δ (run.passTo later) begun fired
      (Nat.le_trans hbegun (Nat.le_trans (Nat.le_of_lt hafter) (Nat.le_max_left _ _)))
  · exact h fired hfires hbefore

theorem Leads.heeding (h : start.Leads run past) (hturn : start.scan.InTurn)
    (hfresh : start.since = start.bench.now) : run.Heeding start.bench.now := by
  have hpunctual : start.Punctual := .of_fresh hfresh
  induction h with
  | here =>
    intro fired _ _
    apply heeding_of_since
    rw [hfresh]
    exact Nat.le_max_right _ _
  | answered before step ih => exact ih.step (before.inTurn hturn) (before.punctual hpunctual) step
  | passed before unanswered moment ih => exact ih.passTo (before.punctual hpunctual) _
  | fired before ih => exact ih.restart (before.punctual hpunctual)

/-! ### The end -/

/-- A run whose token fired at the moment `fired`, with a budget for the time and the answers that are
    left until it has to have ended. -/
structure Closes (start : ScanRun δ) (fired latest : Nat) (run : ScanRun δ) (budget : Nat) : Prop where
  comes : ∃ past, start.Leads run past
  fires : run.fires = some fired
  fired : fired ≤ run.bench.now
  time : run.bench.now ≤ run.since + run.scan.demand.patience
  ends : run.since + run.scan.demand.patience ≤ latest
  enough : latest - run.bench.now + run.scan.phase.ahead ≤ budget

theorem Leads.closes (h : start.Leads run past) (hturn : start.scan.InTurn)
    (hfresh : start.since = start.bench.now) {fired : Nat} (hfires : run.fires = some fired)
    (hfired : fired ≤ run.bench.now) {budget : Nat}
    (henough : max fired start.bench.now + start.scan.config.leeway - run.bench.now +
      run.scan.phase.ahead ≤ budget) :
    Closes start fired (max fired start.bench.now + start.scan.config.leeway) run budget := by
  have hconfig : run.scan.config = start.scan.config := congrArg ScanTask.config (h.task hturn)
  refine ⟨⟨past, h⟩, hfires, hfired, (h.punctual (.of_fresh hfresh)).inTime, ?_, henough⟩
  have hheeding := h.heeding hturn hfresh fired hfires hfired
  rw [Scan.demand_patience, ← hconfig]
  exact Nat.le_trans (Nat.add_le_add_left ScanConfig.lasts_le_remaining _) hheeding

/-- Every answer and every wait is paid for, until the end. -/
theorem Closes.goesOn (hturn : start.scan.InTurn) (hfresh : start.since = start.bench.now)
    {fired budget : Nat}
    (h : Closes start fired (max fired start.bench.now + start.scan.config.leeway) run budget)
    (hended : run.scan.result?.isSome = false) :
    ∃ next rest, run.advance? = some next ∧ rest < budget ∧
      Closes start fired (max fired start.bench.now + start.scan.config.leeway) next rest := by
  obtain ⟨⟨past, hleads⟩, hfires, hfired, htime, hends, henough⟩ := h
  have hphase : ∀ result, run.scan.phase ≠ .ended result := by
    intro result hresult
    rw [Scan.result?, hresult] at hended
    cases hended
  rcases step?_or_nextMoment? hphase with ⟨next, hstep⟩ | ⟨hnone, later, hmoment⟩
  · have hcancelled : run.cancelled = true := cancelled_iff.mpr ⟨fired, hfires, hfired⟩
    obtain ⟨hahead, -⟩ := step?_once_fired (hleads.inTurn hturn) hcancelled hstep
    obtain ⟨hnow, -, -, hsame⟩ := step?_still hstep
    refine ⟨next, budget - 1, ?_, by omega, ?_⟩
    · rw [advance?, hstep]
    · apply (hleads.answered hstep).closes hturn hfresh (hsame.trans hfires) (hnow ▸ hfired)
      omega
  · obtain ⟨hless, hend, hnow⟩ := passTo_spec hnone hmoment
    have hsame : (run.passTo later).scan.phase.ahead = run.scan.phase.ahead := rfl
    refine ⟨run.passTo later, budget - 1, ?_, by omega, ?_⟩
    · rw [advance?, hnone, hmoment]
      rfl
    · apply (hleads.passed hnone hmoment).closes hturn hfresh hfires
      · omega
      · omega

/-- The waits for a tick that are begun after the token has fired. -/
def lateTicks (past : List ScanAnswer) : List ScanAnswer :=
  past.filter fun answer => answer.moment.cancelled && answer.beginsTick

theorem lateTicks_concat (past : List ScanAnswer) (answer : ScanAnswer) :
    lateTicks (past ++ [answer]) = lateTicks past ++
      if answer.moment.cancelled && answer.beginsTick then [answer] else [] := by
  rw [lateTicks, List.filter_append, List.filter_singleton]
  cases answer.moment.cancelled && answer.beginsTick <;> rfl

theorem ahead_of_beginsTick {answer : ScanAnswer} (h : answer.beginsTick = true) :
    answer.next.ahead = 4 := by
  unfold ScanAnswer.beginsTick at h
  split at h
  · next hnext => rw [hnext]; rfl
  · cases h

/-- One more tick at the most, and no way back to it. -/
structure LastTick (run : ScanRun δ) (past : List ScanAnswer) : Prop where
  few : (lateTicks past).length ≤ 1
  last : lateTicks past ≠ [] → run.cancelled = true ∧ run.scan.phase.ahead ≤ 4

theorem LastTick.step (h : LastTick run past) (hturn : run.scan.InTurn)
    (hstep : run.step? = some next) : LastTick next (past ++ [run.answerTo next]) := by
  have hcancelled : (run.answerTo next).moment.cancelled = run.cancelled := rfl
  have hnext : (run.answerTo next).next = next.scan.phase := rfl
  have hsame := cancelled_of_step hstep
  cases hlate : (run.answerTo next).moment.cancelled && (run.answerTo next).beginsTick with
  | true =>
    obtain ⟨hfired, hbegins⟩ := Bool.and_eq_true_iff.mp hlate
    rw [hcancelled] at hfired
    have hahead := (step?_once_fired hturn hfired hstep).1
    have hfour := ahead_of_beginsTick hbegins
    rw [hnext] at hfour
    have hnone : lateTicks past = [] := by
      by_contra hsome
      have hbehind := (h.last hsome).2
      omega
    have hlist : lateTicks (past ++ [run.answerTo next]) = [run.answerTo next] := by
      rw [lateTicks_concat, hlate, hnone, if_pos rfl, List.nil_append]
    refine ⟨?_, fun _ => ⟨hsame.trans hfired, Nat.le_of_eq hfour⟩⟩
    rw [hlist, List.length_singleton]
  | false =>
    have hlist : lateTicks (past ++ [run.answerTo next]) = lateTicks past := by
      rw [lateTicks_concat, hlate, if_neg Bool.false_ne_true, List.append_nil]
    refine ⟨hlist ▸ h.few, ?_⟩
    intro hsome
    obtain ⟨hfired, hahead⟩ := h.last (hlist ▸ hsome)
    have hless := (step?_once_fired hturn hfired hstep).1
    exact ⟨hsame.trans hfired, Nat.le_trans (Nat.le_of_lt hless) hahead⟩

theorem Leads.lastTick (h : start.Leads run past) (hturn : start.scan.InTurn) :
    LastTick run past := by
  induction h with
  | here => exact ⟨Nat.zero_le _, fun hsome => absurd rfl hsome⟩
  | answered before step ih => exact ih.step (before.inTurn hturn) step
  | passed before unanswered moment ih =>
    refine ⟨ih.few, ?_⟩
    intro hsome
    obtain ⟨hfired, hahead⟩ := ih.last hsome
    exact ⟨cancelled_passTo hfired (passTo_spec unanswered moment).1, hahead⟩
  | fired before ih => exact ⟨ih.few, fun hsome => ⟨cancelled_restart, (ih.last hsome).2⟩⟩

theorem Leads.cancelled_of_restarted (h : start.Leads run past) (hturn : start.scan.InTurn)
    (hstart : start.scan.phase.outcome? = none)
    (hrestarted : run.scan.phase.outcome? = some .restarted) : run.cancelled = true := by
  induction h with
  | here => cases hstart.symm.trans hrestarted
  | answered before step ih =>
    obtain ⟨news, -, hgoes⟩ := (step?_goes (before.inTurn hturn) step).goes
    rw [cancelled_of_step step]
    rcases hgoes.cancelled_of_restarted hrestarted with hbefore | hcancelled
    · exact ih hbefore
    · exact hcancelled
  | passed before unanswered moment ih =>
    exact cancelled_passTo (ih hrestarted) (passTo_spec unanswered moment).1
  | fired before ih => exact cancelled_restart

/-- A scan whose token has fired ends by itself, and by then no more time has passed since the firing, or
    since the beginning of the scan if that was later, than a look's pause and a tick, or than the last
    wait if that is longer. It begins one more tick at the most. And a scan is not broken off unless its
    token has fired. -/
theorem fired_scan_ends_soon {bench : Bench δ} {config : ScanConfig} {work : WorkItem}
    {fires : Option Nat} (h : (launch bench config work fires).Leads run past) :
    (∀ fired, run.fires = some fired → fired ≤ run.bench.now →
      let latest := max fired bench.now + max (config.readyPoll + config.waitTick) config.stopGrace
      run.bench.now ≤ latest ∧ ∀ fuel, latest - run.bench.now + 12 ≤ fuel →
        let last := run.goUntil (fun run => run.scan.result?.isSome) fuel
        last.scan.result?.isSome = true ∧ last.bench.now ≤ latest) ∧
    (past.filter fun answer => answer.moment.cancelled && answer.beginsTick).length ≤ 1 ∧
    (run.scan.phase.outcome? = some .restarted → run.cancelled = true) := by
  have hturn : (launch bench config work fires).scan.InTurn := rfl
  have hfresh : (launch bench config work fires).since = (launch bench config work fires).bench.now :=
    rfl
  refine ⟨?_, (h.lastTick hturn).few, h.cancelled_of_restarted hturn rfl⟩
  intro fired hfires hfired latest
  have hcloses : Closes (launch bench config work fires) fired latest run _ :=
    h.closes hturn hfresh hfires hfired (Nat.le_refl _)
  refine ⟨Nat.le_trans hcloses.time hcloses.ends, ?_⟩
  intro fuel hfuel last
  have henough : latest - run.bench.now + run.scan.phase.ahead ≤ fuel :=
    Nat.le_trans (Nat.add_le_add_left (ScanPhase.ahead_le_twelve _) _) hfuel
  obtain ⟨hended, rest, hlast⟩ := @goUntil_stops δ run (fun run => run.scan.result?.isSome)
    (Closes (launch bench config work fires) fired latest)
    (fun run budget hrun => hrun.goesOn hturn hfresh) _ _ hcloses henough
  exact ⟨hended, Nat.le_trans hlast.time hlast.ends⟩

/-! The token is fired in the first pause. After it the device is ready, so it is loaded and started, and
the scan is not broken off before the end of a whole tick. -/

def caughtPausing : ScanRun ScriptedDevice :=
  launch
    { device := ScriptedDevice.device "pausing" .mask
      state := { scripts := [{ idle := [.ok (.word 0), .ok (.word 1)] }] } }
    { readyPoll := 10, waitTick := 20, stopGrace := 5 } ⟨Bytes.zero 32, Bytes.zero 12, 0⟩ (some 1)

theorem caught_scan_ends_after_pause_and_tick :
    ∃ mid past last, caughtPausing.Leads mid past ∧ mid.fires = some 1 ∧ 1 ≤ mid.bench.now ∧
      last = mid.goUntil (fun run => run.scan.result?.isSome) 33 ∧
      last.scan.result?.isSome = true ∧ last.bench.now ≤ 31 ∧ last.bench.now = 30 ∧
      last.scan.phase.outcome? = some .restarted := by
  have hstart : caughtPausing.Leads caughtPausing [] := .here
  obtain ⟨past, hmid⟩ := hstart.goUntil (fun run => run.cancelled) 20
  have hfired : (caughtPausing.goUntil (fun run => run.cancelled) 20).fires = some 1 ∧
      (caughtPausing.goUntil (fun run => run.cancelled) 20).bench.now = 10 := by
    decide +kernel
  have hended : ((caughtPausing.goUntil (fun run => run.cancelled) 20).goUntil
      (fun run => run.scan.result?.isSome) 33).bench.now = 30 ∧
      ((caughtPausing.goUntil (fun run => run.cancelled) 20).goUntil
        (fun run => run.scan.result?.isSome) 33).scan.phase.outcome? = some .restarted := by
    decide +kernel
  generalize caughtPausing.goUntil (fun run => run.cancelled) 20 = mid at hmid hfired hended
  obtain ⟨hfires, hnow⟩ := hfired
  have hbefore : 1 ≤ mid.bench.now := by omega
  obtain ⟨hsoon, -, -⟩ := fired_scan_ends_soon hmid
  obtain ⟨-, hends⟩ := hsoon 1 hfires hbefore
  obtain ⟨hresult, htime⟩ := hends 33 (by rw [hnow]; decide)
  exact ⟨mid, past, _, hmid, hfires, hbefore, rfl, hresult, htime, hended⟩

end ScanRun

end NonceSearch
