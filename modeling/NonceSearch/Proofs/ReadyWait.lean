import NonceSearch.Device.Script
import NonceSearch.Proofs.ScanTimes

/-!
# Waiting for a device to become ready

After its reset a device is looked at, and looked at again after a pause, until a look decides. A look
that shows READY decides for the device, whatever else is the case; one that does not decides for the
token if it has fired, and otherwise for the deadline if it has been reached; a look that fails decides
as well. All other looks leave it open. The looks are `ScanConfig.readyPoll` apart, so there is only so
much room for them before the deadline (`ScanRun.ReadyWait.few`).
-/

namespace NonceSearch

/-! ### Looks -/

def ScanPhase.isLook : ScanPhase → Bool
  | .calling (.poll _) => true
  | _ => false

/-- The device has been reset, and nothing has been decided. -/
def ScanPhase.awaitsReady : ScanPhase → Bool
  | .calling (.poll _) | .pausing _ => true
  | _ => false

theorem ScanPhase.not_awaitsReady_of_ahead {phase : ScanPhase} (h : phase.ahead ≤ 8) :
    phase.awaitsReady = false := by
  cases phase with
  | calling call =>
    cases call with
    | poll deadline => exact absurd h (Nat.not_succ_le_self 8)
    | _ => rfl
  | pausing deadline => exact absurd h (Nat.not_le_of_lt (Nat.lt_of_sub_eq_succ rfl))
  | _ => rfl

namespace ScanAnswer

variable {deadline : Nat} {look : ScanAnswer} {phase : ScanPhase}

/-- The status is exactly READY, whatever its bits without a meaning. -/
def ShowsReady (look : ScanAnswer) : Prop :=
  ∃ bits, look.operation = some (.asked .getStatus (.ok (.word bits))) ∧
    bits &&& Status.known = Status.ready.bits

def ShowsUnready (look : ScanAnswer) : Prop :=
  ∃ bits, look.operation = some (.asked .getStatus (.ok (.word bits))) ∧
    bits &&& Status.known ≠ Status.ready.bits

theorem ShowsUnready.not_ready (h : look.ShowsUnready) : ¬ look.ShowsReady := by
  rintro ⟨bits, hgiven, hready⟩
  obtain ⟨others, hothers, hunready⟩ := h
  rw [hgiven] at hothers
  cases hothers
  exact hunready hready

/-- A look that decides nothing. -/
structure LeavesOpen (deadline : Nat) (look : ScanAnswer) : Prop where
  unready : look.ShowsUnready
  unfired : look.moment.cancelled = false
  early : look.moment.now < deadline

inductive Decides (deadline : Nat) (look : ScanAnswer) : ScanPhase → Prop where
  | ready (ready : look.ShowsReady) : Decides deadline look (.calling .stateIn)
  | restarted (unready : look.ShowsUnready) (fired : look.moment.cancelled = true) :
    Decides deadline look (.calling (.counter .restarted))
  | expired (unready : look.ShowsUnready) (unfired : look.moment.cancelled = false)
    (late : deadline ≤ look.moment.now) :
    Decides deadline look (.calling (.counter (.faulted .readyTimeout)))
  | nothing (leavesOpen : look.LeavesOpen deadline) : Decides deadline look (.pausing deadline)
  | failed {operation : Operation} {cause : DeviceError} (given : look.operation = some operation)
    (failure : operation.failure? = some cause) :
    Decides deadline look (.calling (.counter (.faulted (.protocol cause.message))))

/-- READY wins over everything. -/
theorem Decides.ready_iff (h : look.Decides deadline phase) :
    phase = .calling .stateIn ↔ look.ShowsReady := by
  constructor
  · rintro rfl
    cases h with
    | ready ready => exact ready
  · intro hready
    cases h with
    | ready => rfl
    | restarted unready => exact absurd hready unready.not_ready
    | expired unready => exact absurd hready unready.not_ready
    | nothing leavesOpen => exact absurd hready leavesOpen.unready.not_ready
    | failed given failure =>
      obtain ⟨bits, hasked, -⟩ := hready
      cases given.symm.trans hasked
      cases failure

/-- A token that has fired wins over the deadline. -/
theorem Decides.restarted_iff (h : look.Decides deadline phase) :
    phase = .calling (.counter .restarted) ↔ look.ShowsUnready ∧ look.moment.cancelled = true := by
  constructor
  · rintro rfl
    cases h with
    | restarted unready fired => exact ⟨unready, fired⟩
  · rintro ⟨hunready, hfired⟩
    cases h with
    | ready ready => exact absurd ready hunready.not_ready
    | restarted => rfl
    | expired unready unfired => exact absurd (hfired.symm.trans unfired) (by decide)
    | nothing leavesOpen => exact absurd (hfired.symm.trans leavesOpen.unfired) (by decide)
    | failed given failure =>
      obtain ⟨bits, hasked, -⟩ := hunready
      cases given.symm.trans hasked
      cases failure

/-- The deadline counts last. -/
theorem Decides.expired_iff (h : look.Decides deadline phase) :
    phase = .calling (.counter (.faulted .readyTimeout)) ↔
      look.ShowsUnready ∧ look.moment.cancelled = false ∧ deadline ≤ look.moment.now := by
  constructor
  · rintro rfl
    cases h with
    | expired unready unfired late => exact ⟨unready, unfired, late⟩
  · rintro ⟨hunready, hunfired, hlate⟩
    cases h with
    | ready ready => exact absurd ready hunready.not_ready
    | restarted unready fired => exact absurd (hunfired.symm.trans fired) (by decide)
    | expired => rfl
    | nothing leavesOpen => exact absurd leavesOpen.early (Nat.not_lt_of_le hlate)
    | failed given failure =>
      obtain ⟨bits, hasked, -⟩ := hunready
      cases given.symm.trans hasked
      cases failure

end ScanAnswer

/-- What a scan makes of a look. -/
theorem Scan.look_decides {scan : Scan} {deadline : Nat} {look : ScanAnswer}
    (hsession : scan.session = .resetting) {reply : Except DeviceError Reply}
    (hgiven : look.operation = some (.asked .getStatus reply)) :
    look.Decides deadline (scan.called (.poll deadline) reply look.moment).1.phase := by
  rcases reply with cause | reply
  · exact .failed hgiven rfl
  · cases reply with
    | done => exact .failed hgiven rfl
    | registers words => exact .failed hgiven rfl
    | word bits =>
      simp only [called, SessionCall.settle, sessionCall, SessionCall.answer, Except.bind,
        Reply.toWord, Except.map, proceed, SessionCall.advance, hsession]
      by_cases hready : (Status.mk bits).isReady = true
      · -- the session has seen READY as well, so the midstate is in turn
        have hshows : look.ShowsReady := ⟨bits, hgiven, by simpa [Status.isReady] using hready⟩
        simp only [hready, if_true]
        exact .ready hshows
      · have hunready : look.ShowsUnready := ⟨bits, hgiven, by simpa [Status.isReady] using hready⟩
        rw [if_neg hready]
        split
        · next hfired => exact .restarted hunready hfired
        · next hunfired =>
          rw [Bool.not_eq_true] at hunfired
          split
          · next hlate => exact .expired hunready hunfired hlate
          · next hearly => exact .nothing ⟨hunready, hunfired, Nat.lt_of_not_le hearly⟩

/-! ### One look after another -/

def ScanConfig.pauses (config : ScanConfig) : Nat :=
  (config.readyTimeout + config.readyPoll - 1) / config.readyPoll

theorem ScanConfig.lt_pauses {config : ScanConfig} (hpoll : 0 < config.readyPoll) {looks : Nat}
    (h : looks * config.readyPoll < config.readyTimeout) : looks < config.pauses := by
  unfold pauses
  apply (Nat.le_div_iff_mul_le hpoll).mpr
  rw [Nat.succ_mul]
  omega

namespace ScanRun

variable {δ : Type} {config : ScanConfig} {start deadline : Nat} {run next : ScanRun δ}
  {looks : List ScanAnswer} {look : ScanAnswer}

theorem step?_looking (h : run.step? = some next) (hturn : run.scan.InTurn)
    (hphase : run.scan.phase = .calling (.poll deadline)) :
    (run.answerTo next).Decides deadline next.scan.phase := by
  obtain ⟨answer, bench, -, hoperation, rfl⟩ := step?_spec h
  obtain ⟨bench, scan, since, fires, notes⟩ := run
  obtain ⟨device, layout, config, work, session, phase⟩ := scan
  subst hphase
  exact Scan.look_decides hturn hoperation

theorem step?_pausing (h : run.step? = some next) (hphase : run.scan.phase = .pausing deadline) :
    next.scan.phase = .calling (.poll deadline) ∧
      run.since + run.scan.config.readyPoll ≤ run.bench.now := by
  obtain ⟨answer, bench, hanswer, -, rfl⟩ := step?_spec h
  obtain ⟨bench, scan, since, fires, notes⟩ := run
  obtain ⟨device, layout, config, work, session, phase⟩ := scan
  subst hphase
  exact ⟨rfl, (Option.ite_none_right_eq_some.mp hanswer).1⟩

theorem step?_resetting (h : run.step? = some next) (hphase : run.scan.phase = .calling .reset) :
    next.scan.phase.outcome?.isSome ∨
      next.scan.phase = .calling (.poll (run.bench.now + run.scan.config.readyTimeout)) := by
  obtain ⟨answer, bench, -, -, rfl⟩ := step?_spec h
  obtain ⟨bench, scan, since, fires, notes⟩ := run
  obtain ⟨device, layout, config, work, session, phase⟩ := scan
  subst hphase
  rcases answer with cause | reply
  · exact .inl rfl
  · exact .inr rfl

/-- The looks of a wait that has begun at the moment `start`. -/
structure Timely (config : ScanConfig) (start : Nat) (looks : List ScanAnswer) : Prop where
  times : looks.map (fun look => look.moment.now) =
    (List.range looks.length).map fun number => start + number * config.readyPoll
  decides : ∀ look ∈ looks, look.Decides (start + config.readyTimeout) look.next

theorem Timely.add (h : Timely config start looks)
    (htime : look.moment.now = start + looks.length * config.readyPoll)
    (hdecides : look.Decides (start + config.readyTimeout) look.next) :
    Timely config start (looks ++ [look]) where
  times := by
    rw [List.map_append, h.times, List.length_append, List.length_singleton, List.range_succ,
      List.map_append, List.map_singleton, List.map_singleton, htime]
  decides := by
    intro other hother
    rcases List.mem_append.mp hother with hother | hother
    · exact h.decides other hother
    · rw [List.mem_singleton.mp hother]
      exact hdecides

/-- Where the wait is, after these looks. -/
inductive ReadyWait (config : ScanConfig) (start : Nat) (run : ScanRun δ) : List ScanAnswer → Prop where
  | looking {looks : List ScanAnswer} (timely : Timely config start looks)
    (leaveOpen : ∀ look ∈ looks, look.LeavesOpen (start + config.readyTimeout))
    (few : looks.length ≤ config.pauses)
    (phase : run.scan.phase = .calling (.poll (start + config.readyTimeout)))
    (now : run.bench.now = start + looks.length * config.readyPoll) : ReadyWait config start run looks
  | pausing {looks : List ScanAnswer} {look : ScanAnswer}
    (timely : Timely config start (looks ++ [look]))
    (leaveOpen : ∀ other ∈ looks ++ [look], other.LeavesOpen (start + config.readyTimeout))
    (few : looks.length < config.pauses)
    (phase : run.scan.phase = .pausing (start + config.readyTimeout))
    (since : run.since = start + looks.length * config.readyPoll) :
    ReadyWait config start run (looks ++ [look])
  | decided {looks : List ScanAnswer} {look : ScanAnswer}
    (timely : Timely config start (looks ++ [look]))
    (leaveOpen : ∀ other ∈ looks, other.LeavesOpen (start + config.readyTimeout))
    (few : looks.length ≤ config.pauses)
    (decides : ¬ look.LeavesOpen (start + config.readyTimeout))
    (phase : run.scan.phase.ahead ≤ 8) : ReadyWait config start run (looks ++ [look])

namespace ReadyWait

theorem timely (h : ReadyWait config start run looks) : Timely config start looks := by
  cases h with
  | looking timely => exact timely
  | pausing timely => exact timely
  | decided timely => exact timely

theorem few (h : ReadyWait config start run looks) : looks.length ≤ config.pauses + 1 := by
  cases h with
  | looking timely leaveOpen few => exact Nat.le_succ_of_le few
  | pausing timely leaveOpen few =>
    rw [List.length_append, List.length_singleton]
    exact Nat.succ_le_succ (Nat.le_of_lt few)
  | decided timely leaveOpen few =>
    rw [List.length_append, List.length_singleton]
    exact Nat.succ_le_succ few

/-- A look that does not leave it open is the last one. -/
theorem leaveOpen_of_before (h : ReadyWait config start run looks) {before after : List ScanAnswer}
    (hlooks : looks = before ++ look :: after) :
    ∀ earlier ∈ before, earlier.LeavesOpen (start + config.readyTimeout) := by
  intro earlier hearlier
  cases h with
  | looking timely leaveOpen =>
    apply leaveOpen
    rw [hlooks]
    exact List.mem_append_left _ hearlier
  | pausing timely leaveOpen =>
    apply leaveOpen
    rw [hlooks]
    exact List.mem_append_left _ hearlier
  | @decided looks last timely leaveOpen =>
    apply leaveOpen
    have hdrop := congrArg List.dropLast hlooks
    rw [List.dropLast_concat, List.dropLast_append_of_ne_nil (List.cons_ne_nil _ _)] at hdrop
    rw [hdrop]
    exact List.mem_append_left _ hearlier

theorem step_looking (hpoll : 0 < config.readyPoll) (htimely : Timely config start looks)
    (hopen : ∀ look ∈ looks, look.LeavesOpen (start + config.readyTimeout))
    (hfew : looks.length ≤ config.pauses)
    (hphase : run.scan.phase = .calling (.poll (start + config.readyTimeout)))
    (hnow : run.bench.now = start + looks.length * config.readyPoll) (hturn : run.scan.InTurn)
    (hstep : run.step? = some next) :
    ReadyWait config start next (looks ++ [run.answerTo next]) := by
  have hdecides := step?_looking hstep hturn hphase
  have hadded : Timely config start (looks ++ [run.answerTo next]) := htimely.add hnow hdecides
  have hdecided : ¬ (run.answerTo next).LeavesOpen (start + config.readyTimeout) →
      next.scan.phase.ahead ≤ 8 → ReadyWait config start next (looks ++ [run.answerTo next]) :=
    fun hcloses hahead => .decided hadded hopen hfew hcloses hahead
  generalize hnext : next.scan.phase = phase at hdecides hdecided
  cases hdecides with
  | ready ready => exact hdecided (fun h => h.unready.not_ready ready) (by decide)
  | restarted unready fired =>
    exact hdecided (fun h => absurd (fired.symm.trans h.unfired) (by decide)) (by decide +revert)
  | expired unready unfired late =>
    exact hdecided (fun h => absurd h.early (Nat.not_lt_of_le late)) (by decide +revert)
  | failed given failure =>
    refine hdecided (fun h => ?_) (Nat.le_of_ble_eq_true rfl)
    obtain ⟨bits, hasked, -⟩ := h.unready
    cases given.symm.trans hasked
    cases failure
  | nothing leavesOpen =>
    have hearly : looks.length * config.readyPoll < config.readyTimeout := by
      have hless : run.bench.now < start + config.readyTimeout := leavesOpen.early
      omega
    refine .pausing hadded ?_ (ScanConfig.lt_pauses hpoll hearly) hnext ?_
    · intro other hother
      rcases List.mem_append.mp hother with hother | hother
      · exact hopen other hother
      · rw [List.mem_singleton.mp hother]
        exact leavesOpen
    · rw [(step?_still hstep).2.2.1]
      exact hnow

theorem step (h : ReadyWait config start run looks) (hpoll : 0 < config.readyPoll)
    (hconfig : run.scan.config = config) (hturn : run.scan.InTurn) (hpunctual : run.Punctual)
    (hstep : run.step? = some next) : ReadyWait config start next
      (looks ++ if run.scan.phase.isLook then [run.answerTo next] else []) := by
  cases h with
  | looking timely leaveOpen few phase now =>
    have hlook : run.scan.phase.isLook = true := congrArg ScanPhase.isLook phase
    rw [if_pos hlook]
    exact step_looking hpoll timely leaveOpen few phase now hturn hstep
  | @pausing looks look timely leaveOpen few phase since =>
    have hnot : ¬ run.scan.phase.isLook = true := by
      rw [phase]
      exact Bool.false_ne_true
    rw [if_neg hnot, List.append_nil]
    obtain ⟨hnext, hended⟩ := step?_pausing hstep phase
    have htime := hpunctual.inTime
    have hpatience : run.scan.demand.patience = config.readyPoll := by
      rw [Scan.demand, phase, ← hconfig]
      rfl
    rw [hpatience] at htime
    rw [hconfig] at hended
    have hlength : (looks ++ [look]).length = looks.length + 1 := List.length_append
    have hnow : run.bench.now = start + (looks ++ [look]).length * config.readyPoll := by
      rw [hlength, Nat.succ_mul]
      omega
    exact .looking timely leaveOpen (hlength ▸ few) hnext ((step?_still hstep).1.trans hnow)
  | decided timely leaveOpen few decides phase =>
    have hnot : ¬ run.scan.phase.isLook = true := by
      have hover := ScanPhase.not_awaitsReady_of_ahead phase
      intro hlook
      unfold ScanPhase.isLook at hlook
      split at hlook
      · next heq => rw [heq] at hover; cases hover
      · cases hlook
    rw [if_neg hnot, List.append_nil]
    obtain ⟨news, -, hgoes⟩ := (step?_goes hturn hstep).goes
    exact .decided timely leaveOpen few decides (hgoes.ahead_le phase)

/-- Firing the token moves nothing. -/
theorem restart (h : ReadyWait config start run looks) : ReadyWait config start run.restart looks := by
  cases h with
  | looking timely leaveOpen few phase now => exact .looking timely leaveOpen few phase now
  | pausing timely leaveOpen few phase since => exact .pausing timely leaveOpen few phase since
  | decided timely leaveOpen few decides phase => exact .decided timely leaveOpen few decides phase

/-- A look is answered at once. -/
theorem passTo (h : ReadyWait config start run looks) {later : Nat} (hunanswered : run.step? = none) :
    ReadyWait config start (run.passTo later) looks := by
  cases h with
  | looking timely leaveOpen few phase now =>
    have hanswer := answer?_of_unanswered hunanswered
    rw [Scan.demand, phase] at hanswer
    cases hanswer
  | pausing timely leaveOpen few phase since => exact .pausing timely leaveOpen few phase since
  | decided timely leaveOpen few decides phase => exact .decided timely leaveOpen few decides phase

end ReadyWait

def looksOf (past : List ScanAnswer) : List ScanAnswer := past.filter fun answer => answer.phase.isLook

theorem looksOf_concat (past : List ScanAnswer) (answer : ScanAnswer) :
    looksOf (past ++ [answer]) = looksOf past ++ if answer.phase.isLook then [answer] else [] := by
  rw [looksOf, List.filter_append, List.filter_singleton]
  cases answer.phase.isLook <;> rfl

theorem Leads.readyWait {waiting : ScanRun δ} {past : List ScanAnswer} (h : waiting.Leads run past)
    (hwaiting : ReadyWait config start waiting []) (hpoll : 0 < config.readyPoll)
    (hconfig : waiting.scan.config = config) (hturn : waiting.scan.InTurn)
    (hpunctual : waiting.Punctual) : ReadyWait config start run (looksOf past) := by
  induction h with
  | here => exact hwaiting
  | answered before step ih =>
    rw [looksOf_concat]
    have hsame := (congrArg ScanTask.config (before.task hturn)).trans hconfig
    exact ih.step hpoll hsame (before.inTurn hturn) (before.punctual hpunctual) step
  | passed before unanswered moment ih => exact ih.passTo unanswered
  | fired before ih => exact ih.restart

/-! ### The end of the wait -/

/-- What the wait may still cost, in answers and pauses. -/
def waitCost (config : ScanConfig) (run : ScanRun δ) (looks : List ScanAnswer) : Nat :=
  match run.scan.phase with
  | .calling (.poll _) => 3 * (config.pauses + 1 - looks.length)
  | .pausing _ => 3 * (config.pauses + 1 - looks.length) +
      if run.bench.now < run.since + config.readyPoll then 2 else 1
  | _ => 0

theorem advance_of_looking (hphase : run.scan.phase = .calling (.poll deadline)) :
    ∃ next, run.step? = some next := by
  have hnotEnded : ∀ result, run.scan.phase ≠ .ended result := by
    intro result hended
    cases hphase.symm.trans hended
  rcases step?_or_nextMoment? hnotEnded with hnext | ⟨hnone, -⟩
  · exact hnext
  · have hanswer := answer?_of_unanswered hnone
    rw [Scan.demand, hphase] at hanswer
    cases hanswer

theorem waitCost_after_look (hturn : run.scan.InTurn)
    (hphase : run.scan.phase = .calling (.poll deadline)) (hfew : looks.length ≤ config.pauses)
    (hstep : run.step? = some next) :
    waitCost config next (looks ++ [run.answerTo next]) < waitCost config run looks := by
  have hdecides := step?_looking hstep hturn hphase
  have hcost : waitCost config run looks = 3 * (config.pauses + 1 - looks.length) := by
    rw [waitCost, hphase]
  have hlength : (looks ++ [run.answerTo next]).length = looks.length + 1 := List.length_append
  rw [hcost]
  unfold waitCost
  rw [hlength]
  generalize next.scan.phase = phase at hdecides
  cases hdecides with
  | nothing =>
    dsimp only
    split
    · omega
    · omega
  | _ =>
    dsimp only
    omega

theorem waitCost_after_pause (hconfig : run.scan.config = config)
    (hphase : run.scan.phase = .pausing deadline) (hstep : run.step? = some next) :
    waitCost config next looks < waitCost config run looks := by
  obtain ⟨hnext, hended⟩ := step?_pausing hstep hphase
  rw [hconfig] at hended
  rw [waitCost, waitCost, hnext, hphase]
  dsimp only
  rw [if_neg (Nat.not_lt_of_le hended)]
  exact Nat.lt_succ_self _

theorem waitCost_in_pause (hconfig : run.scan.config = config)
    (hphase : run.scan.phase = .pausing deadline) {later : Nat} (hstep : run.step? = none)
    (hmoment : run.nextMoment? = some later) :
    waitCost config (run.passTo later) looks < waitCost config run looks := by
  have hlater : later = run.since + config.readyPoll := by
    rw [nextMoment?, Scan.demand, hphase] at hmoment
    rw [← hconfig]
    exact (Option.some.inj hmoment).symm
  obtain ⟨hless, -, hnow⟩ := passTo_spec hstep hmoment
  have hsince : (run.passTo later).since = run.since := rfl
  have hsame : (run.passTo later).scan.phase = run.scan.phase := rfl
  rw [waitCost, waitCost, hsame, hphase]
  dsimp only
  rw [hnow, hsince, if_neg (by omega), if_pos (by omega)]
  exact Nat.lt_succ_self _

/-- While the wait goes on, each answer and each pause is paid for. -/
theorem ReadyWait.pays {waiting : ScanRun δ} {past : List ScanAnswer} (hleads : waiting.Leads run past)
    (h : ReadyWait config start run (looksOf past)) (hconfig : run.scan.config = config)
    (hturn : run.scan.InTurn) (hawaits : run.scan.phase.awaitsReady = true) :
    ∃ next more, run.advance? = some next ∧ waiting.Leads next more ∧
      waitCost config next (looksOf more) < waitCost config run (looksOf past) := by
  have hstepped : ∀ next, run.step? = some next → waitCost config next (looksOf (past ++
      [run.answerTo next])) < waitCost config run (looksOf past) →
      ∃ next more, run.advance? = some next ∧ waiting.Leads next more ∧
        waitCost config next (looksOf more) < waitCost config run (looksOf past) := by
    intro next hstep hcost
    refine ⟨next, _, ?_, hleads.answered hstep, hcost⟩
    rw [advance?, hstep]
  generalize hlooks : looksOf past = looks at h hstepped ⊢
  cases h with
  | looking timely leaveOpen few phase now =>
    obtain ⟨next, hstep⟩ := advance_of_looking phase
    apply hstepped next hstep
    have hlook : (run.answerTo next).phase.isLook = true := congrArg ScanPhase.isLook phase
    rw [looksOf_concat, hlooks, if_pos hlook]
    exact waitCost_after_look hturn phase few hstep
  | @pausing looks look timely leaveOpen few phase since =>
    have hnotEnded : ∀ result, run.scan.phase ≠ .ended result := by
      intro result hended
      cases phase.symm.trans hended
    rcases step?_or_nextMoment? hnotEnded with ⟨next, hstep⟩ | ⟨hstep, later, hmoment⟩
    · apply hstepped next hstep
      have hlook : (run.answerTo next).phase.isLook = false := congrArg ScanPhase.isLook phase
      rw [looksOf_concat, hlooks, hlook, if_neg Bool.false_ne_true, List.append_nil]
      exact waitCost_after_pause hconfig phase hstep
    · refine ⟨run.passTo later, past, ?_, hleads.passed hstep hmoment, ?_⟩
      · rw [advance?, hstep, hmoment]
        rfl
      · rw [hlooks]
        exact waitCost_in_pause hconfig phase hstep hmoment
  | decided timely leaveOpen few decides phase =>
    cases hawaits.symm.trans (ScanPhase.not_awaitsReady_of_ahead phase)

theorem looks_after_reset {begun waiting : ScanRun δ} (hreset : begun.scan.phase = .calling .reset)
    (hstep : begun.step? = some waiting) (hpassed : waiting.scan.phase.outcome? = none) :
    waiting.scan.phase = .calling (.poll (begun.bench.now + begun.scan.config.readyTimeout)) := by
  rcases step?_resetting hstep hreset with houtcome | hphase
  · rw [hpassed] at houtcome
    cases houtcome
  · exact hphase

namespace ReadyWait

/-- The first look that shows READY counts, unless another one has decided before. -/
theorem ready_iff (h : ReadyWait config start run looks) :
    (∃ look ∈ looks, look.next = .calling .stateIn) ↔
      ∃ before look after, looks = before ++ look :: after ∧ look.ShowsReady ∧
        ∀ earlier ∈ before, ¬ earlier.ShowsReady ∧ earlier.moment.cancelled = false ∧
          earlier.moment.now < start + config.readyTimeout := by
  constructor
  · rintro ⟨look, hlook, hready⟩
    obtain ⟨before, after, hlooks⟩ := List.append_of_mem hlook
    refine ⟨before, look, after, hlooks, (h.timely.decides look hlook).ready_iff.mp hready, ?_⟩
    intro earlier hearlier
    have hopen := h.leaveOpen_of_before hlooks earlier hearlier
    exact ⟨hopen.unready.not_ready, hopen.unfired, hopen.early⟩
  · rintro ⟨before, look, after, hlooks, hready, -⟩
    have hlook : look ∈ looks := by
      rw [hlooks]
      exact List.mem_append_right _ List.mem_cons_self
    exact ⟨look, hlook, (h.timely.decides look hlook).ready_iff.mpr hready⟩

/-- The wait goes on as long as all looks leave it open, and no longer. -/
theorem verdict (h : ReadyWait config start run looks) :
    if run.scan.phase.awaitsReady then
      ∀ look ∈ looks, look.LeavesOpen (start + config.readyTimeout)
    else ∃ before look, looks = before ++ [look] ∧
      (∀ earlier ∈ before, earlier.LeavesOpen (start + config.readyTimeout)) ∧
        ¬ look.LeavesOpen (start + config.readyTimeout) := by
  cases h with
  | looking timely leaveOpen few phase =>
    rw [phase]
    exact leaveOpen
  | pausing timely leaveOpen few phase =>
    rw [phase]
    exact leaveOpen
  | @decided looks look timely leaveOpen few decides phase =>
    rw [ScanPhase.not_awaitsReady_of_ahead phase]
    exact ⟨looks, look, rfl, leaveOpen, decides⟩

end ReadyWait

/-- The wait after a reset ends, after so many looks at the most, and gives up only when it must. Its
    looks are one pause apart. The device is ready exactly if a look shows READY and no look before it
    has met with a fired token or with the deadline; the scan is restarted exactly at a look that does
    not show READY with the token fired; and the wait runs out exactly at one that does not show READY
    at the deadline or later, with the token not fired. -/
theorem ready_wait_ends_at_its_first_deciding_look {bench : Bench δ} {work : WorkItem}
    {fires : Option Nat} {begun waiting : ScanRun δ} {past : List ScanAnswer}
    (h : (launch bench config work fires).Leads begun past)
    (hreset : begun.scan.phase = .calling .reset) (hstep : begun.step? = some waiting)
    (hpassed : waiting.scan.phase.outcome? = none) (hpoll : 0 < config.readyPoll) :
    let deadline := begun.bench.now + config.readyTimeout
    (∀ run later, waiting.Leads run later →
      (looksOf later).length ≤ config.pauses + 1 ∧
      ((looksOf later).map fun look => look.moment.now) =
        (List.range (looksOf later).length).map (fun number =>
          begun.bench.now + number * config.readyPoll) ∧
      ((∃ look ∈ looksOf later, look.next = .calling .stateIn) ↔
        ∃ before look after, looksOf later = before ++ look :: after ∧ look.ShowsReady ∧
          ∀ earlier ∈ before, ¬ earlier.ShowsReady ∧ earlier.moment.cancelled = false ∧
            earlier.moment.now < deadline) ∧
      (∀ look ∈ looksOf later,
        (look.next = .calling (.counter .restarted) ↔
          look.ShowsUnready ∧ look.moment.cancelled = true) ∧
        (look.next = .calling (.counter (.faulted .readyTimeout)) ↔
          look.ShowsUnready ∧ look.moment.cancelled = false ∧ deadline ≤ look.moment.now)) ∧
      if run.scan.phase.awaitsReady then ∀ look ∈ looksOf later, look.LeavesOpen deadline
      else ∃ before look, looksOf later = before ++ [look] ∧
        (∀ earlier ∈ before, earlier.LeavesOpen deadline) ∧ ¬ look.LeavesOpen deadline) ∧
    ∀ fuel, 3 * (config.pauses + 1) ≤ fuel →
      (waiting.goUntil (fun run => !run.scan.phase.awaitsReady) fuel).scan.phase.awaitsReady =
        false := by
  have hconfig : begun.scan.config = config := congrArg ScanTask.config (h.task rfl)
  have hgoes := step?_goes (h.inTurn rfl) hstep
  have hsame : waiting.scan.config = config := (congrArg ScanTask.config hgoes.task).trans hconfig
  obtain ⟨hnow, -, hsince, -⟩ := step?_still hstep
  have hpunctual : waiting.Punctual := .of_fresh (hsince.trans hnow.symm)
  have hlooks := looks_after_reset hreset hstep hpassed
  rw [hconfig] at hlooks
  have hbegun : ReadyWait config begun.bench.now waiting [] := by
    refine .looking ⟨rfl, by simp⟩ (by simp) (Nat.zero_le _) hlooks ?_
    rw [List.length_nil, Nat.zero_mul]
    exact hnow
  have hwait : ∀ {run : ScanRun δ} {later : List ScanAnswer}, waiting.Leads run later →
      ReadyWait config begun.bench.now run (looksOf later) :=
    fun hleads => hleads.readyWait hbegun hpoll hsame hgoes.inTurn hpunctual
  intro deadline
  constructor
  · intro run later hlater
    have htimely := (hwait hlater).timely
    refine ⟨(hwait hlater).few, htimely.times, (hwait hlater).ready_iff, ?_, (hwait hlater).verdict⟩
    intro look hlook
    have hdecides := htimely.decides look hlook
    exact ⟨hdecides.restarted_iff, hdecides.expired_iff⟩
  · intro fuel hfuel
    have hstops : (!(waiting.goUntil (fun run => !run.scan.phase.awaitsReady)
        fuel).scan.phase.awaitsReady) = true := by
      -- the budget of a run is what its wait may still cost
      refine (@goUntil_stops δ waiting (fun run => !run.scan.phase.awaitsReady)
        (fun run budget => ∃ later, waiting.Leads run later ∧
          waitCost config run (looksOf later) ≤ budget) ?_ _ fuel ⟨[], .here, Nat.le_refl _⟩ ?_).1
      · rintro run budget ⟨later, hlater, hbudget⟩ hgoesOn
        have hawaits : run.scan.phase.awaitsReady = true := by simpa using hgoesOn
        have htask : run.scan.config = config :=
          (congrArg ScanTask.config (hlater.task hgoes.inTurn)).trans hsame
        obtain ⟨next, more, hadvance, hmore, hcost⟩ :=
          (hwait hlater).pays hlater htask (hlater.inTurn hgoes.inTurn) hawaits
        exact ⟨next, _, hadvance, Nat.lt_of_lt_of_le hcost hbudget, more, hmore, Nat.le_refl _⟩
      · rw [waitCost, hlooks]
        exact hfuel
    simpa using hstops

/-! The third look comes after the deadline, and the token has been fired by then. It shows READY, with a
bit that has no meaning. -/

def barelyReady : ScanRun ScriptedDevice :=
  launch
    { device := ScriptedDevice.device "slow" .mask
      state := { scripts := [{
        idle := [.ok (.word 0), .ok (.word 0x11), .ok (.word 0x41)] }] } }
    { readyPoll := 7, readyTimeout := 10 } ⟨Bytes.zero 32, Bytes.zero 12, 0⟩ (some 12)

theorem ready_wins_at_the_last_look_there_can_be :
    ∃ begun waiting run later before look, barelyReady.step? = some begun ∧
      begun.step? = some waiting ∧ waiting.Leads run later ∧ looksOf later = before ++ [look] ∧
      (∀ earlier ∈ before, earlier.LeavesOpen 10) ∧ ¬ look.LeavesOpen 10 ∧
      .ready ∈ run.states ∧ run.bench.now = 14 ∧ run.cancelled = true := by
  let begun := barelyReady.goUntil (fun run => run.scan.demand == .request .reset) 2
  let waiting := begun.goUntil (fun run => run.scan.phase.awaitsReady) 2
  have hbegun : barelyReady.step? = some begun := rfl
  have hwaiting : begun.step? = some waiting := rfl
  have hreset : begun.scan.phase = .calling .reset := rfl
  have hpassed : waiting.scan.phase.outcome? = none := rfl
  have hnow : begun.bench.now = 0 := rfl
  obtain ⟨run, hrun⟩ : ∃ run, run = waiting.goUntil (fun run => !run.scan.phase.awaitsReady) 9 :=
    ⟨_, rfl⟩
  have hready : .ready ∈ run.states ∧ run.bench.now = 14 ∧ run.cancelled = true := by
    rw [hrun]
    decide +kernel
  clear_value waiting begun
  have hleads : barelyReady.Leads begun _ := .answered .here hbegun
  obtain ⟨hwait, hstops⟩ :=
    ready_wait_ends_at_its_first_deciding_look hleads hreset hwaiting hpassed (by decide)
  have hdecided := hstops 9 (by decide)
  have hhere : waiting.Leads waiting [] := .here
  obtain ⟨later, hlater⟩ := hhere.goUntil (fun run => !run.scan.phase.awaitsReady) 9
  rw [← hrun] at hdecided hlater
  obtain ⟨-, -, -, -, hverdict⟩ := hwait run later hlater
  rw [hdecided, hnow] at hverdict
  obtain ⟨before, look, hlooks, hearlier, hlook⟩ := hverdict
  exact ⟨begun, waiting, run, later, before, look, hbegun, hwaiting, hlater, hlooks, hearlier, hlook,
    hready⟩

end ScanRun

end NonceSearch
