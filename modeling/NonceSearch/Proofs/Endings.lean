import NonceSearch.Device.Script
import NonceSearch.Proofs.ScanTimes

/-!
# How a running scan ends

While its search runs, a scan listens for a record tick by tick, and once more when the search is seen
to have stopped. A record, the token and a stopped search may come together. `ScanTask.Ends` says which
of them counts: a record that can be read by the end of a wait decides the outcome alone; only after a
tick that has obtained nothing does the token count, and after it the status; and a stopped search is a
fault only if the last wait has obtained nothing either.
-/

namespace NonceSearch

/-! ### What is obtained -/

/-- What a wait or a read tells: a record is taken at its word, with its nonce hashed again, and a
    record that is cut short says nothing. -/
inductive WorkItem.Tells (work : WorkItem) : Operation → ScanOutcome → Prop where
  | found {bytes : List UInt8} {message : CompletionMessage}
    (record : CompletionMessage.decode bytes = .ok message)
    (flag : message.flags.has .found = true) :
    work.Tells (.taken (.ok bytes))
      (.found ⟨message.nonce, work.hash message.nonce, work.meetsTarget (work.hash message.nonce)⟩)
  | exhausted {bytes : List UInt8} {message : CompletionMessage}
    (record : CompletionMessage.decode bytes = .ok message)
    (unfound : message.flags.has .found = false) (flag : message.flags.has .exhausted = true) :
    work.Tells (.taken (.ok bytes)) .exhausted
  | neither {bytes : List UInt8} {message : CompletionMessage}
    (record : CompletionMessage.decode bytes = .ok message)
    (unfound : message.flags.has .found = false) (unflagged : message.flags.has .exhausted = false) :
    work.Tells (.taken (.ok bytes)) .noResult
  | short {bytes : List UInt8} (length : bytes.length < CompletionMessage.size) :
    work.Tells (.taken (.ok bytes)) .noResult
  | cut (got expected : Nat) : work.Tells (.taken (.error (.shortRead got expected))) .noResult
  | cutWait (got expected : Nat) :
    work.Tells (.awaited (some (.error (.shortRead got expected)))) .noResult

theorem CompletionMessage.decode_error {bytes : List UInt8} {cause : DeviceError}
    (h : decode bytes = .error cause) :
    bytes.length < size ∧ cause = .shortRead bytes.length size := by
  rcases bytes with _ | ⟨b₀, _ | ⟨b₁, _ | ⟨b₂, _ | ⟨b₃, _ | ⟨b₄, _ | ⟨b₅, _ | ⟨b₆, _ | ⟨b₇, rest⟩⟩⟩⟩⟩⟩⟩⟩
  case cons.cons.cons.cons.cons.cons.cons.cons => cases h
  all_goals exact ⟨by simp [size], (Except.error.inj h).symm⟩

theorem CompletionMessage.size_le_of_decode {bytes : List UInt8} {message : CompletionMessage}
    (h : decode bytes = .ok message) : size ≤ bytes.length := by
  unfold decode at h
  split at h
  · simp [size]
  · cases h

namespace WorkItem

variable {work : WorkItem} {operation : Operation} {outcome other : ScanOutcome}

theorem tells_classify {bytes : List UInt8} {message : CompletionMessage}
    (h : CompletionMessage.decode bytes = .ok message) :
    work.Tells (.taken (.ok bytes)) (work.classify message) := by
  unfold classify
  split
  · next hfound => exact .found h hfound
  · next hfound =>
    rw [Bool.not_eq_true] at hfound
    split
    · next hexhausted => exact .exhausted h hfound hexhausted
    · next hexhausted =>
      rw [Bool.not_eq_true] at hexhausted
      exact .neither h hfound hexhausted

/-- A record has one meaning. -/
theorem Tells.unique (h : work.Tells operation outcome) (h' : work.Tells operation other) :
    outcome = other := by
  have hclassify : ∀ {bytes : List UInt8} {message : CompletionMessage} {told : ScanOutcome},
      CompletionMessage.decode bytes = .ok message → work.Tells (.taken (.ok bytes)) told →
      told = work.classify message := by
    intro bytes message told hrecord htold
    cases htold with
    | found record flag =>
      obtain rfl := Except.ok.inj (hrecord.symm.trans record)
      simp [classify, flag]
    | exhausted record unfound flag =>
      obtain rfl := Except.ok.inj (hrecord.symm.trans record)
      simp [classify, unfound, flag]
    | neither record unfound unflagged =>
      obtain rfl := Except.ok.inj (hrecord.symm.trans record)
      simp [classify, unfound, unflagged]
    | short length => exact absurd (CompletionMessage.size_le_of_decode hrecord) (Nat.not_le_of_lt length)
  cases h with
  | found record flag => exact (hclassify record (.found record flag)).trans (hclassify record h').symm
  | exhausted record unfound flag =>
    exact (hclassify record (.exhausted record unfound flag)).trans (hclassify record h').symm
  | neither record unfound unflagged =>
    exact (hclassify record (.neither record unfound unflagged)).trans (hclassify record h').symm
  | short length =>
    cases h' with
    | short => rfl
    | neither => rfl
    | found record => exact absurd (CompletionMessage.size_le_of_decode record) (Nat.not_le_of_lt length)
    | exhausted record =>
      exact absurd (CompletionMessage.size_le_of_decode record) (Nat.not_le_of_lt length)
  | cut => cases h'; rfl
  | cutWait => cases h'; rfl

end WorkItem

/-! ### Ends -/

def ScanConfig.listens (config : ScanConfig) (last : Bool) : Nat :=
  if last then config.stopGrace else config.waitTick

namespace ScanAnswer

/-- The wait is over because something can be read. -/
structure Announces (last : Bool) (answer : ScanAnswer) : Prop where
  phase : answer.phase = .waiting last
  operation : answer.operation = some (.awaited (some (.ok ())))

/-- The status at the end of a tick has RUNNING clear. -/
structure ShowsStopped (answer : ScanAnswer) : Prop where
  phase : answer.phase = .calling .tick
  operation : ∃ bits, answer.operation = some (.asked .getStatus (.ok (.word bits))) ∧
    (Status.mk bits).isRunning = false

/-- A whole wait has obtained nothing: it has gone on to its end, or what it has announced was not there
    any more when it came to be read. -/
inductive ObtainNothing (config : ScanConfig) (last : Bool) : List ScanAnswer → Prop where
  | unheard {answer : ScanAnswer} (phase : answer.phase = .waiting last)
    (operation : answer.operation = some (.awaited none))
    (ended : answer.moment.now = answer.since + config.listens last) :
    ObtainNothing config last [answer]
  | unread {heard read : ScanAnswer} (announces : heard.Announces last)
    (phase : read.phase = .reading last)
    (operation : read.operation = some (.taken (.error .wouldBlock))) :
    ObtainNothing config last [heard, read]

end ScanAnswer

/-- A scan waits for its search to end, or looks after it. -/
def ScanPhase.IsSearching : ScanPhase → Prop
  | .calling .tick | .waiting _ | .reading _ | .sensing => True
  | _ => False

theorem ScanPhase.IsSearching.unsettled {phase : ScanPhase} (h : phase.IsSearching) :
    phase.outcome? = none := by
  cases phase with
  | calling call => cases call <;> first | rfl | exact h.elim
  | closing report => exact h.elim
  | ended result => exact h.elim
  | _ => rfl

namespace ScanTask

open ScanAnswer (ObtainNothing)

/-- A search comes to its outcome with the last of these answers. -/
inductive Ends (task : ScanTask) : List ScanAnswer → ScanOutcome → Prop where
  /-- A record has been obtained, or a part of one. -/
  | told {before : List ScanAnswer} {answer : ScanAnswer} {operation : Operation}
    {outcome : ScanOutcome} (given : answer.operation = some operation)
    (tells : task.work.Tells operation outcome) : Ends task (before ++ [answer]) outcome
  /-- At the end of a tick the token had fired. -/
  | restarted {before tick : List ScanAnswer} (nothing : ObtainNothing task.config false tick)
    (fired : ∀ answer ∈ tick.getLast?, answer.moment.cancelled = true) :
    Ends task (before ++ tick) .restarted
  /-- At the end of a tick the search had stopped, and nothing came of the last wait. -/
  | stopped {before tick grace : List ScanAnswer} {status : ScanAnswer}
    (nothing : ObtainNothing task.config false tick) (clear : status.ShowsStopped)
    (missing : ObtainNothing task.config true grace) :
    Ends task (before ++ tick ++ [status] ++ grace) (.faulted .hardwareStopped)
  /-- A status call, a wait or a read has failed. -/
  | failed {before : List ScanAnswer} {answer : ScanAnswer} {operation : Operation}
    {cause : DeviceError} (searching : answer.phase.IsSearching)
    (given : answer.operation = some operation) (failure : operation.failure? = some cause)
    (untold : ∀ outcome, ¬ task.work.Tells operation outcome) :
    Ends task (before ++ [answer]) (.faulted (.protocol cause.message))

/-- What has led to a phase in which a scan searches. -/
def Midway (task : ScanTask) (past : List ScanAnswer) : ScanPhase → Prop
  | .waiting false | .sensing => True
  | .reading false => ∃ before answer, past = before ++ [answer] ∧ answer.Announces false
  | .calling .tick => ∃ before tick, past = before ++ tick ∧ ObtainNothing task.config false tick
  | .waiting true => ∃ before tick status, past = before ++ tick ++ [status] ∧
      ObtainNothing task.config false tick ∧ status.ShowsStopped
  | .reading true => ∃ before tick status answer, past = before ++ tick ++ [status] ++ [answer] ∧
      ObtainNothing task.config false tick ∧ status.ShowsStopped ∧ answer.Announces true
  | _ => False

end ScanTask

/-! ### One answer -/

/-- An operation settles the outcome by itself: by what it tells, or by its failure. -/
inductive WorkItem.Settles (work : WorkItem) (operation : Operation) : ScanPhase → Prop where
  | told {outcome : ScanOutcome} (tells : work.Tells operation outcome) :
    work.Settles operation (.calling (.counter outcome))
  | failed {cause : DeviceError} (failure : operation.failure? = some cause)
    (untold : ∀ outcome, ¬ work.Tells operation outcome) :
    work.Settles operation (.calling (.counter (.faulted (.protocol cause.message))))

namespace Scan

variable {scan : Scan} {last : Bool} {moment : Moment}

theorem lapse_last : (scan.lapse true moment).1.phase =
    .calling (.counter (.faulted .hardwareStopped)) := rfl

theorem lapse_tick : (scan.lapse false moment).1.phase =
    if moment.cancelled then .calling (.counter .restarted) else .calling .tick := by
  unfold lapse
  cases moment.cancelled <;> rfl

/-- A failed wait or read settles the outcome, be it by a record that is cut short. -/
theorem unreadable_settles {operation : Operation} {cause : DeviceError}
    (hfailure : operation.failure? = some cause)
    (hcut : ∀ outcome, scan.work.Tells operation outcome ↔
      outcome = .noResult ∧ ∃ got expected, cause = .shortRead got expected) :
    scan.work.Settles operation (scan.unreadable cause).1.phase := by
  unfold unreadable
  split
  · next got expected => exact .told ((hcut _).mpr ⟨rfl, got, expected, rfl⟩)
  · next hwhole =>
    apply WorkItem.Settles.failed hfailure
    intro outcome htells
    obtain ⟨-, got, expected, hcause⟩ := (hcut outcome).mp htells
    exact hwhole got expected hcause

theorem waited_cases (result : Option (Except DeviceError Unit)) :
    (result = none ∧ scan.waited last result moment = scan.lapse last moment) ∨
    (result = some (.ok ()) ∧ (scan.waited last result moment).1.phase = .reading last) ∨
    scan.work.Settles (.awaited result) (scan.waited last result moment).1.phase := by
  rcases result with _ | (cause | _)
  · exact .inl ⟨rfl, rfl⟩
  · right
    right
    apply unreadable_settles rfl
    intro outcome
    constructor
    · intro htells
      cases htells with
      | cutWait got expected => exact ⟨rfl, got, expected, rfl⟩
    · rintro ⟨rfl, got, expected, rfl⟩
      exact .cutWait got expected
  · exact .inr (.inl ⟨rfl, rfl⟩)

theorem read_cases (result : Except DeviceError (List UInt8)) :
    (result = .error .wouldBlock ∧ scan.read last result moment = scan.lapse last moment) ∨
    scan.work.Settles (.taken result) (scan.read last result moment).1.phase := by
  rcases result with cause | bytes
  · by_cases hnothing : cause = .wouldBlock
    · subst hnothing
      exact .inl ⟨rfl, rfl⟩
    · right
      have hcompletion : completionOf (.error cause) = .error cause := by
        cases cause <;> first | rfl | exact absurd rfl hnothing
      unfold read
      rw [hcompletion]
      apply unreadable_settles (by simp [Operation.failure?, hcompletion])
      intro outcome
      constructor
      · intro htells
        cases htells with
        | cut got expected => exact ⟨rfl, got, expected, rfl⟩
      · rintro ⟨rfl, got, expected, rfl⟩
        exact .cut got expected
  · right
    unfold read
    rcases hrecord : CompletionMessage.decode bytes with cause | message
    · have hcompletion : completionOf (.ok bytes) = .error cause := by
        rw [completionOf, hrecord]
        rfl
      obtain ⟨hshort, hcause⟩ := CompletionMessage.decode_error hrecord
      rw [hcompletion]
      apply unreadable_settles (by simp [Operation.failure?, hcompletion])
      intro outcome
      constructor
      · intro htells
        exact ⟨htells.unique (.short hshort), _, _, hcause⟩
      · rintro ⟨rfl, -⟩
        exact .short hshort
    · have hcompletion : completionOf (.ok bytes) = .ok (some message) := by
        rw [completionOf, hrecord]
        rfl
      rw [hcompletion]
      exact .told (WorkItem.tells_classify hrecord)

theorem tick_cases (reply : Except DeviceError Reply) :
    (∃ bits, reply = .ok (.word bits) ∧ (scan.called .tick reply moment).1.phase =
      if (Status.mk bits).isRunning then .sensing else .waiting true) ∨
    scan.work.Settles (.asked .getStatus reply) (scan.called .tick reply moment).1.phase := by
  have huntold : ∀ outcome, ¬ scan.work.Tells (.asked .getStatus reply) outcome :=
    fun outcome htells => by cases htells
  rcases reply with cause | reply
  · exact .inr (.failed rfl huntold)
  · cases reply with
    | word bits =>
      refine .inl ⟨bits, rfl, ?_⟩
      simp only [called, SessionCall.settle, sessionCall, SessionCall.answer, Except.bind,
        Reply.toWord, Except.map, proceed]
      split <;> rfl
    | done => exact .inr (.failed rfl huntold)
    | registers words => exact .inr (.failed rfl huntold)

end Scan

namespace ScanRun

variable {δ : Type} {run next : ScanRun δ} {last : Bool}

theorem step?_waiting (h : run.step? = some next) (hphase : run.scan.phase = .waiting last) :
    ∃ result, run.operation? = some (.awaited result) ∧
      next.scan = (run.scan.waited last result ⟨run.bench.now, run.cancelled⟩).1 ∧
      (result = none → run.since + run.scan.config.listens last ≤ run.bench.now) := by
  obtain ⟨answer, bench, hanswer, hoperation, rfl⟩ := step?_spec h
  obtain ⟨bench, scan, since, fires, notes⟩ := run
  obtain ⟨device, layout, config, work, session, phase⟩ := scan
  obtain rfl : phase = .waiting last := hphase
  refine ⟨answer, hoperation, rfl, ?_⟩
  rintro rfl
  simp only [Scan.demand, Scan.demandIn, Bench.answer?] at hanswer
  split at hanswer
  · cases hanswer
  · exact (Option.ite_none_right_eq_some.mp hanswer).1

theorem step?_reading (h : run.step? = some next) (hphase : run.scan.phase = .reading last) :
    run.operation? = some (.taken (run.bench.device.tryRead run.bench.now CompletionMessage.size
      run.bench.state).1) ∧
    next.scan = (run.scan.read last (run.bench.device.tryRead run.bench.now CompletionMessage.size
      run.bench.state).1 ⟨run.bench.now, run.cancelled⟩).1 := by
  obtain ⟨answer, bench, hanswer, hoperation, rfl⟩ := step?_spec h
  obtain ⟨bench, scan, since, fires, notes⟩ := run
  obtain ⟨device, layout, config, work, session, phase⟩ := scan
  obtain rfl : phase = .reading last := hphase
  obtain ⟨rfl, -⟩ := Prod.mk.inj (Option.some.inj hanswer)
  exact ⟨hoperation, rfl⟩

theorem step?_ticking (h : run.step? = some next) (hphase : run.scan.phase = .calling .tick) :
    ∃ reply, run.operation? = some (.asked .getStatus reply) ∧
      next.scan = (run.scan.called .tick reply ⟨run.bench.now, run.cancelled⟩).1 := by
  obtain ⟨answer, bench, hanswer, hoperation, rfl⟩ := step?_spec h
  obtain ⟨bench, scan, since, fires, notes⟩ := run
  obtain ⟨device, layout, config, work, session, phase⟩ := scan
  obtain rfl : phase = .calling .tick := hphase
  exact ⟨answer, hoperation, rfl⟩

theorem step?_sensing (h : run.step? = some next) (hphase : run.scan.phase = .sensing) :
    run.operation? = none ∧ next.scan.phase = .waiting false := by
  obtain ⟨answer, bench, hanswer, hoperation, rfl⟩ := step?_spec h
  obtain ⟨bench, scan, since, fires, notes⟩ := run
  obtain ⟨device, layout, config, work, session, phase⟩ := scan
  obtain rfl : phase = .sensing := hphase
  exact ⟨hoperation, rfl⟩

end ScanRun

/-! ### While a scan searches -/

namespace ScanTask

open ScanAnswer (ObtainNothing)

/-- A searching scan is given an answer: it goes on, and has not been told anything, or it comes to its
    end. -/
inductive Searches (task : ScanTask) (past : List ScanAnswer) (answer : ScanAnswer) : Prop where
  | goesOn (midway : task.Midway (past ++ [answer]) answer.next)
    (untold : ∀ operation ∈ answer.operation, ∀ outcome, ¬ task.work.Tells operation outcome)
  | ends {outcome : ScanOutcome} (next : answer.next = .calling (.counter outcome))
    (ends : task.Ends (past ++ [answer]) outcome)
    (told : ∀ operation ∈ answer.operation, ∀ other, task.work.Tells operation other → other = outcome)

variable {δ : Type} {task : ScanTask} {past before : List ScanAnswer} {answer : ScanAnswer}
  {operation : Operation} {run next : ScanRun δ} {scan : Scan}

theorem searches_of_settles (hgiven : answer.operation = some operation)
    (hsearching : answer.phase.IsSearching) (h : task.work.Settles operation answer.next) :
    task.Searches past answer := by
  generalize hnext : answer.next = phase at h
  cases h with
  | told tells =>
    refine .ends hnext (.told hgiven tells) ?_
    intro other hother outcome houtcome
    obtain rfl := Option.some.inj (hgiven.symm.trans hother)
    exact houtcome.unique tells
  | failed failure untold =>
    refine .ends hnext (.failed hsearching hgiven failure untold) ?_
    intro other hother outcome houtcome
    obtain rfl := Option.some.inj (hgiven.symm.trans hother)
    exact absurd houtcome (untold outcome)

/-- A tick has obtained nothing: the token decides whether the status is looked at. -/
theorem searches_of_tick {tick : List ScanAnswer} (hpast : past ++ [answer] = before ++ tick)
    (hnothing : ObtainNothing task.config false tick) (hlast : tick.getLast? = some answer)
    (hnext : answer.next = (scan.lapse false answer.moment).1.phase)
    (huntold : ∀ operation ∈ answer.operation, ∀ outcome, ¬ task.work.Tells operation outcome) :
    task.Searches past answer := by
  rw [Scan.lapse_tick] at hnext
  split at hnext
  · next hcancelled =>
    refine .ends hnext ?_ fun operation hgiven outcome htells =>
      absurd htells (huntold operation hgiven outcome)
    rw [hpast]
    apply Ends.restarted hnothing
    intro other hother
    obtain rfl := Option.some.inj (hlast.symm.trans hother)
    exact hcancelled
  · refine .goesOn ?_ huntold
    rw [hnext, hpast]
    exact ⟨before, tick, rfl, hnothing⟩

/-- The last wait has obtained nothing, either. -/
theorem searches_of_grace {tick grace : List ScanAnswer} {status : ScanAnswer}
    (hpast : past ++ [answer] = before ++ tick ++ [status] ++ grace)
    (htick : ObtainNothing task.config false tick) (hstatus : status.ShowsStopped)
    (hgrace : ObtainNothing task.config true grace)
    (hnext : answer.next = (scan.lapse true answer.moment).1.phase)
    (huntold : ∀ operation ∈ answer.operation, ∀ outcome, ¬ task.work.Tells operation outcome) :
    task.Searches past answer := by
  refine .ends (hnext.trans Scan.lapse_last) ?_ fun operation hgiven outcome htells =>
    absurd htells (huntold operation hgiven outcome)
  rw [hpast]
  exact .stopped htick hstatus hgrace

theorem searches_of_waiting {last : Bool} (htask : run.scan.task = task) (hpunctual : run.Punctual)
    (hphase : run.scan.phase = .waiting last) (hmidway : task.Midway past (.waiting last))
    (hstep : run.step? = some next) : task.Searches past (run.answerTo next) := by
  obtain ⟨result, hoperation, hscan, hended⟩ := ScanRun.step?_waiting hstep hphase
  have hnext : (run.answerTo next).next = next.scan.phase := rfl
  rw [hscan] at hnext
  subst htask
  rcases @Scan.waited_cases run.scan last ⟨run.bench.now, run.cancelled⟩ result with
    ⟨rfl, hlapse⟩ | ⟨rfl, hreading⟩ | hsettles
  · have hdemand : run.scan.demand.patience = run.scan.config.listens last := by
      rw [Scan.demand, hphase]
      rfl
    have hnothing : ObtainNothing run.scan.task.config last [run.answerTo next] := by
      apply ObtainNothing.unheard hphase hoperation
      have htime := hpunctual.inTime
      rw [hdemand] at htime
      exact Nat.le_antisymm htime (hended rfl)
    have huntold : ∀ operation ∈ (run.answerTo next).operation,
        ∀ outcome, ¬ run.scan.task.work.Tells operation outcome := by
      intro operation hgiven outcome htells
      obtain rfl := Option.some.inj (hoperation.symm.trans hgiven)
      cases htells
    rw [hlapse] at hnext
    cases last with
    | false => exact searches_of_tick rfl hnothing rfl hnext huntold
    | true =>
      obtain ⟨before, tick, status, rfl, htick, hstatus⟩ := hmidway
      exact searches_of_grace rfl htick hstatus hnothing hnext huntold
  · refine .goesOn ?_ ?_
    · rw [hnext.trans hreading]
      cases last with
      | false => exact ⟨past, _, rfl, hphase, hoperation⟩
      | true =>
        obtain ⟨before, tick, status, rfl, htick, hstatus⟩ := hmidway
        exact ⟨before, tick, status, _, rfl, htick, hstatus, hphase, hoperation⟩
    · intro operation hgiven outcome htells
      obtain rfl := Option.some.inj (hoperation.symm.trans hgiven)
      cases htells
  · refine searches_of_settles hoperation ?_ (hnext ▸ hsettles)
    exact (congrArg ScanPhase.IsSearching hphase).mpr trivial

theorem searches_of_reading {last : Bool} (htask : run.scan.task = task)
    (hphase : run.scan.phase = .reading last) (hmidway : task.Midway past (.reading last))
    (hstep : run.step? = some next) : task.Searches past (run.answerTo next) := by
  obtain ⟨hoperation, hscan⟩ := ScanRun.step?_reading hstep hphase
  generalize (run.bench.device.tryRead run.bench.now CompletionMessage.size run.bench.state).1 = result
    at hoperation hscan
  have hnext : (run.answerTo next).next = next.scan.phase := rfl
  rw [hscan] at hnext
  subst htask
  rcases @Scan.read_cases run.scan last ⟨run.bench.now, run.cancelled⟩ result with
    ⟨rfl, hlapse⟩ | hsettles
  · have huntold : ∀ operation ∈ (run.answerTo next).operation,
        ∀ outcome, ¬ run.scan.task.work.Tells operation outcome := by
      intro operation hgiven outcome htells
      obtain rfl := Option.some.inj (hoperation.symm.trans hgiven)
      cases htells
    rw [hlapse] at hnext
    cases last with
    | false =>
      obtain ⟨before, heard, rfl, hannounces⟩ := hmidway
      have hnothing := @ObtainNothing.unread run.scan.task.config _ _ (run.answerTo next) hannounces
        hphase hoperation
      exact searches_of_tick (List.append_assoc _ _ _) hnothing rfl hnext huntold
    | true =>
      obtain ⟨before, tick, status, heard, rfl, htick, hstatus, hannounces⟩ := hmidway
      have hnothing := @ObtainNothing.unread run.scan.task.config _ _ (run.answerTo next) hannounces
        hphase hoperation
      exact searches_of_grace (List.append_assoc _ _ _) htick hstatus hnothing hnext huntold
  · refine searches_of_settles hoperation ?_ (hnext ▸ hsettles)
    exact (congrArg ScanPhase.IsSearching hphase).mpr trivial

theorem searches_of_ticking (htask : run.scan.task = task) (hphase : run.scan.phase = .calling .tick)
    (hmidway : task.Midway past (.calling .tick)) (hstep : run.step? = some next) :
    task.Searches past (run.answerTo next) := by
  obtain ⟨reply, hoperation, hscan⟩ := ScanRun.step?_ticking hstep hphase
  have hnext : (run.answerTo next).next = next.scan.phase := rfl
  rw [hscan] at hnext
  subst htask
  rcases @Scan.tick_cases run.scan ⟨run.bench.now, run.cancelled⟩ reply with
    ⟨bits, rfl, hticked⟩ | hsettles
  · refine .goesOn ?_ ?_
    · rw [hnext.trans hticked]
      obtain ⟨before, tick, rfl, htick⟩ := hmidway
      cases hrunning : (Status.mk bits).isRunning with
      | true => trivial
      | false => exact ⟨before, tick, _, rfl, htick, hphase, bits, hoperation, hrunning⟩
    · intro operation hgiven outcome htells
      obtain rfl := Option.some.inj (hoperation.symm.trans hgiven)
      cases htells
  · refine searches_of_settles hoperation ?_ (hnext ▸ hsettles)
    exact (congrArg ScanPhase.IsSearching hphase).mpr trivial

/-- One answer to a searching scan. -/
theorem Midway.step (hmidway : task.Midway past run.scan.phase) (htask : run.scan.task = task)
    (hpunctual : run.Punctual) (hstep : run.step? = some next) :
    task.Searches past (run.answerTo next) := by
  generalize hphase : run.scan.phase = phase at hmidway
  cases phase with
  | waiting last => exact searches_of_waiting htask hpunctual hphase hmidway hstep
  | reading last => exact searches_of_reading htask hphase hmidway hstep
  | sensing =>
    obtain ⟨hoperation, hnext⟩ := ScanRun.step?_sensing hstep hphase
    refine .goesOn ?_ ?_
    · exact (congrArg (task.Midway _) hnext).mpr trivial
    · intro operation hgiven
      cases hoperation.symm.trans hgiven
  | calling call =>
    cases call with
    | tick => exact searches_of_ticking htask hphase hmidway hstep
    | _ => exact hmidway.elim
  | _ => exact hmidway.elim

/-! ### Whole scans -/

/-- Outside its search a scan is told nothing, comes to search only by its start, and sticks to an
    outcome that it has settled on. -/
theorem Goes.outside {cancelled : Bool} {phase next : ScanPhase} {operation : Option Operation}
    {news : List ScanState} (h : task.Goes cancelled phase operation next news)
    (hphase : ¬ phase.IsSearching) :
    (next = .waiting false ∨ ¬ next.IsSearching ∧ .running ∉ news) ∧
      (∀ outcome, phase.outcome? = some outcome → next.outcome? = some outcome) ∧
      ∀ performed ∈ operation, ∀ outcome, ¬ task.work.Tells performed outcome := by
  have huntold : ∀ {only : Operation}, (∀ outcome, ¬ task.work.Tells only outcome) →
      ∀ performed ∈ some only, ∀ outcome, ¬ task.work.Tells performed outcome := by
    intro only honly performed hperformed
    obtain rfl := Option.some.inj hperformed
    exact honly
  cases h with
  | denied cause =>
    exact ⟨.inr ⟨id, by simp⟩, nofun, huntold nofun⟩
  | opened =>
    refine ⟨.inr ⟨?_, by simp⟩, nofun, huntold nofun⟩
    unfold firstCall
    split <;> exact id
  | advanced hadvances =>
    cases hadvances with
    | passed hprecedes =>
      cases hprecedes <;> exact ⟨.inr ⟨id, by simp⟩, nofun, huntold nofun⟩
    | ready => exact ⟨.inr ⟨id, by simp⟩, nofun, huntold nofun⟩
    | unready => exact ⟨.inr ⟨id, by simp⟩, nofun, huntold nofun⟩
    | paused => exact ⟨.inr ⟨id, by simp⟩, nofun, nofun⟩
    | started => exact ⟨.inl rfl, nofun, huntold nofun⟩
    | ticked => exact absurd trivial hphase
    | sensed => exact absurd trivial hphase
    | announced => exact absurd trivial hphase
    | lapsed hlapses => cases hlapses <;> exact absurd trivial hphase
  | @concluded _ _ outcome hmeets =>
    cases hmeets with
    | call unsettled =>
      refine ⟨.inr ⟨id, ?_⟩, ?_, huntold nofun⟩
      · cases outcome <;> simp [ScanOutcome.state]
      · intro settled hsettled
        unfold ScanPhase.outcome? at hsettled
        split at hsettled
        · next hcounter => exact absurd (ScanPhase.calling.inj hcounter) (unsettled _)
        · next hcounter => cases hcounter
        · next hcounter => cases hcounter
        · cases hsettled
    | wait => exact absurd trivial hphase
    | read => exact absurd trivial hphase
  | counted outcome reply => exact ⟨.inr ⟨id, by simp⟩, fun _ h => h, huntold nofun⟩
  | closed report => exact ⟨.inr ⟨id, by simp⟩, fun _ h => h, huntold nofun⟩

theorem Midway.isSearching {phase : ScanPhase} (h : task.Midway past phase) : phase.IsSearching := by
  cases phase with
  | calling call => cases call <;> trivial
  | waiting last => trivial
  | reading last => trivial
  | sensing => trivial
  | _ => exact h.elim

/-- What is known of a scan and all its answers. -/
structure Follows (task : ScanTask) (run : ScanRun δ) (past : List ScanAnswer) : Prop where
  midway : run.scan.phase.IsSearching → task.Midway past run.scan.phase
  told : ∀ answer ∈ past, ∀ operation ∈ answer.operation, ∀ outcome,
    task.work.Tells operation outcome → run.scan.phase.outcome? = some outcome
  ended : .running ∈ run.states → run.scan.phase.IsSearching ∨ ∃ outcome before answer rest,
    run.scan.phase.outcome? = some outcome ∧ past = before ++ [answer] ++ rest ∧
      answer.next = .calling (.counter outcome) ∧ task.Ends (before ++ [answer]) outcome

theorem Follows.of_eq (h : task.Follows run past) (hscan : next.scan = run.scan)
    (hnotes : next.notes = run.notes) : task.Follows next past := by
  have hstates : next.states = run.states := by
    rw [ScanRun.states_eq, ScanRun.states_eq, hnotes]
  refine ⟨?_, ?_, ?_⟩
  · rw [hscan]
    exact h.midway
  · rw [hscan]
    exact h.told
  · rw [hscan, hstates]
    exact h.ended

theorem Follows.searching (h : task.Follows run past) (htask : run.scan.task = task)
    (hpunctual : run.Punctual) (hstep : run.step? = some next)
    (hsearching : run.scan.phase.IsSearching) :
    task.Follows next (past ++ [run.answerTo next]) := by
  have hunsettled := hsearching.unsettled
  have hbefore : ∀ answer ∈ past, ∀ operation ∈ answer.operation, ∀ outcome,
      ¬ task.work.Tells operation outcome := by
    intro answer hanswer operation hoperation outcome htells
    cases hunsettled.symm.trans (h.told answer hanswer operation hoperation outcome htells)
  cases (h.midway hsearching).step htask hpunctual hstep with
  | goesOn hmidway huntold =>
    refine ⟨fun _ => hmidway, ?_, fun _ => .inl hmidway.isSearching⟩
    intro answer hanswer operation hoperation outcome htells
    rcases List.mem_append.mp hanswer with hanswer | hanswer
    · exact absurd htells (hbefore answer hanswer operation hoperation outcome)
    · obtain rfl := List.mem_singleton.mp hanswer
      exact absurd htells (huntold operation hoperation outcome)
  | @ends outcome hnext hends htold =>
    have hsettled : next.scan.phase.outcome? = some outcome := congrArg ScanPhase.outcome? hnext
    refine ⟨?_, ?_, fun _ =>
      .inr ⟨outcome, past, _, [], hsettled, (List.append_nil _).symm, hnext, hends⟩⟩
    · intro hagain
      exact ((congrArg ScanPhase.IsSearching hnext).mp hagain).elim
    · intro answer hanswer operation hoperation other htells
      rcases List.mem_append.mp hanswer with hanswer | hanswer
      · exact absurd htells (hbefore answer hanswer operation hoperation other)
      · obtain rfl := List.mem_singleton.mp hanswer
        rw [htold operation hoperation other htells]
        exact hsettled

theorem Follows.outside (h : task.Follows run past) (hgoes : run.Goes next)
    (htask : run.scan.task = task) (hsearching : ¬ run.scan.phase.IsSearching) :
    task.Follows next (past ++ [run.answerTo next]) := by
  obtain ⟨news, hstates, hgoes⟩ := hgoes.goes
  rw [htask] at hgoes
  obtain ⟨hnext, hsettled, huntold⟩ := hgoes.outside hsearching
  refine ⟨?_, ?_, ?_⟩
  · intro hagain
    rcases hnext with hwaiting | ⟨hnot, -⟩
    · rw [hwaiting]
      trivial
    · exact absurd hagain hnot
  · intro answer hanswer operation hoperation outcome htells
    rcases List.mem_append.mp hanswer with hanswer | hanswer
    · exact hsettled outcome (h.told answer hanswer operation hoperation outcome htells)
    · obtain rfl := List.mem_singleton.mp hanswer
      exact absurd htells (huntold operation hoperation outcome)
  · intro hrunning
    rcases hnext with hwaiting | ⟨-, hquiet⟩
    · left
      rw [hwaiting]
      trivial
    · right
      have hbefore : .running ∈ run.states := by
        rw [hstates] at hrunning
        exact (List.mem_append.mp hrunning).resolve_right hquiet
      rcases h.ended hbefore with hphase | ⟨outcome, before, answer, rest, houtcome, rfl, hends⟩
      · exact absurd hphase hsearching
      · exact ⟨outcome, before, answer, rest ++ [run.answerTo next], hsettled outcome houtcome,
          List.append_assoc _ _ _, hends⟩

end ScanTask

namespace ScanRun

variable {δ : Type} {start run next : ScanRun δ} {past : List ScanAnswer} {work : WorkItem}
  {outcome : ScanOutcome}

theorem punctual_launch (bench : Bench δ) (config : ScanConfig) (work : WorkItem)
    (fires : Option Nat) : (launch bench config work fires).Punctual :=
  .of_fresh rfl

theorem Leads.follows {bench : Bench δ} {config : ScanConfig} {fires : Option Nat}
    (h : (launch bench config work fires).Leads run past) :
    ScanTask.Follows ⟨bench.device.layout, config, work⟩ run past := by
  induction h with
  | here =>
    have hstates : (launch bench config work fires).states = [.configuring] := rfl
    refine ⟨False.elim, by simp, ?_⟩
    intro hrunning
    rw [hstates] at hrunning
    cases List.mem_singleton.mp hrunning
  | @answered run next past before step ih =>
    have htask := before.task rfl
    by_cases hsearching : run.scan.phase.IsSearching
    · exact ih.searching htask (before.punctual (punctual_launch _ _ _ _)) step hsearching
    · exact ih.outside (step?_goes (before.inTurn rfl) step) htask hsearching
  | passed before unanswered moment ih => exact ih.of_eq rfl rfl
  | fired before ih => exact ih.of_eq rfl rfl

/-! ### What can be read by the end of a wait -/

theorem step?_of_readable {last : Bool} {state : δ} (hphase : run.scan.phase = .waiting last)
    (hreadable : run.bench.device.readable? run.bench.now run.bench.state = (some (.ok ()), state)) :
    ∃ heard, run.step? = some heard ∧ heard.scan.phase = .reading last ∧
      heard.bench = { run.bench with state := state } ∧ heard.scan.work = run.scan.work := by
  obtain ⟨bench, scan, since, fires, notes⟩ := run
  obtain ⟨device, layout, config, work, session, phase⟩ := scan
  subst hphase
  have hannounced : bench.device.readable? bench.now bench.state = (some (.ok ()), state) := hreadable
  simp only [step?, Scan.demand, Scan.demandIn, Bench.answer?, hannounced]
  exact ⟨_, rfl, rfl, rfl, rfl⟩

theorem step?_of_reading {last : Bool} (hphase : run.scan.phase = .reading last) :
    ∃ settled, run.step? = some settled := by
  obtain ⟨bench, scan, since, fires, notes⟩ := run
  obtain ⟨device, layout, config, work, session, phase⟩ := scan
  subst hphase
  exact ⟨_, rfl⟩

theorem outcome_of_reading {last : Bool} (hphase : run.scan.phase = .reading last)
    (htells : run.scan.work.Tells (.taken (run.bench.device.tryRead run.bench.now
      CompletionMessage.size run.bench.state).1) outcome)
    (hstep : run.step? = some next) : next.scan.phase.outcome? = some outcome := by
  obtain ⟨-, hscan⟩ := step?_reading hstep hphase
  generalize (run.bench.device.tryRead run.bench.now CompletionMessage.size run.bench.state).1 = result
    at hscan htells
  rcases @Scan.read_cases run.scan last ⟨run.bench.now, run.cancelled⟩ result with ⟨rfl, -⟩ | hsettles
  · cases htells
  · rw [← hscan] at hsettles
    generalize next.scan.phase = phase at hsettles
    cases hsettles with
    | told other =>
      rw [htells.unique other]
      rfl
    | failed failure untold => exact absurd htells (untold outcome)

variable (work outcome) in
/-- What a scan hears is on its way: it can be read, or is being read, or has settled the outcome. -/
inductive Hears (run : ScanRun δ) : Prop where
  | readable {last : Bool} {state : δ} (phase : run.scan.phase = .waiting last)
    (announced : run.bench.device.readable? run.bench.now run.bench.state = (some (.ok ()), state))
    (tells : work.Tells (.taken (run.bench.device.tryRead run.bench.now CompletionMessage.size state).1)
      outcome)
  | reading {last : Bool} (phase : run.scan.phase = .reading last)
    (tells : work.Tells (.taken (run.bench.device.tryRead run.bench.now CompletionMessage.size
      run.bench.state).1) outcome)
  | settled (phase : run.scan.phase.outcome? = some outcome)

/-- What can be heard settles the outcome with the next answer but one. -/
theorem Hears.step (h : run.Hears work outcome) (hwork : run.scan.work = work)
    (hturn : run.scan.InTurn) (hstep : run.step? = some next) : next.Hears work outcome := by
  cases h with
  | readable phase announced tells =>
    obtain ⟨answer, bench, hanswer, -, rfl⟩ := step?_spec hstep
    obtain ⟨bench, scan, since, fires, notes⟩ := run
    obtain ⟨device, layout, config, work, session, phase⟩ := scan
    subst phase
    have hreadable : bench.device.readable? bench.now bench.state = (some (.ok ()), _) := announced
    simp only [Scan.demand, Scan.demandIn, Bench.answer?, hreadable] at hanswer
    obtain ⟨rfl, rfl⟩ := Prod.mk.inj (Option.some.inj hanswer)
    exact .reading rfl tells
  | reading phase tells => exact .settled (outcome_of_reading phase (hwork ▸ tells) hstep)
  | settled phase =>
    obtain ⟨news, -, hgoes⟩ := (step?_goes hturn hstep).goes
    refine .settled ((hgoes.outside fun hsearching => ?_).2.1 outcome phase)
    cases hsearching.unsettled.symm.trans phase

/-- Nobody has to wait for what can be read. -/
theorem Hears.passTo {later : Nat} (h : run.Hears work outcome) (hunanswered : run.step? = none) :
    (run.passTo later).Hears work outcome := by
  cases h with
  | readable phase announced tells =>
    obtain ⟨heard, hheard, -⟩ := step?_of_readable phase announced
    cases hunanswered.symm.trans hheard
  | reading phase tells =>
    obtain ⟨settled, hsettled⟩ := step?_of_reading phase
    cases hunanswered.symm.trans hsettled
  | settled phase => exact .settled phase

theorem Leads.hears (h : start.Leads run past) (hstart : start.Hears start.scan.work outcome)
    (hturn : start.scan.InTurn) : run.Hears start.scan.work outcome := by
  induction h with
  | here => exact hstart
  | answered before step ih =>
    exact ih.step (congrArg ScanTask.work (before.task hturn)) (before.inTurn hturn) step
  | passed before unanswered moment ih => exact ih.passTo unanswered
  | fired before ih =>
    cases ih with
    | readable phase announced tells => exact .readable phase announced tells
    | reading phase tells => exact .reading phase tells
    | settled phase => exact .settled phase

/-! ### The result -/

/-- How a scan ends that has come to search, whatever its device answers and whenever the token is
    fired. Its outcome is one that `ScanTask.Ends` allows. Nothing that tells an outcome is passed over:
    once it has been obtained, the scan has settled on what it tells; and if it can be read at any moment
    of a wait, the very end included, then it is read at once and nothing else can come of the scan. -/
theorem running_scan_ends_as_it_is_told {bench : Bench δ} {config : ScanConfig} {fires : Option Nat}
    (h : (launch bench config work fires).Leads run past) (hrunning : .running ∈ run.states) :
    (∀ outcome, run.scan.phase.outcome? = some outcome → ∃ before answer rest,
      past = before ++ [answer] ++ rest ∧ answer.next = .calling (.counter outcome) ∧
        ScanTask.Ends ⟨bench.device.layout, config, work⟩ (before ++ [answer]) outcome) ∧
    (∀ answer ∈ past, ∀ operation ∈ answer.operation, ∀ outcome, work.Tells operation outcome →
      run.scan.phase.outcome? = some outcome) ∧
    ∀ mid before last state told, (launch bench config work fires).Leads mid before →
      mid.scan.phase = .waiting last →
      mid.bench.device.readable? mid.bench.now mid.bench.state = (some (.ok ()), state) →
      work.Tells (.taken (mid.bench.device.tryRead mid.bench.now CompletionMessage.size state).1) told →
      (∃ heard settled, mid.step? = some heard ∧ heard.step? = some settled ∧
        settled.scan.phase.outcome? = some told) ∧
      ∀ run after, mid.Leads run after →
        ∀ outcome, run.scan.phase.outcome? = some outcome → outcome = told := by
  have hfollows := h.follows
  refine ⟨?_, hfollows.told, ?_⟩
  · intro outcome houtcome
    rcases hfollows.ended hrunning with hsearching | ⟨settled, before, answer, rest, hsettled, hends⟩
    · cases hsearching.unsettled.symm.trans houtcome
    · obtain rfl := Option.some.inj (hsettled.symm.trans houtcome)
      exact ⟨before, answer, rest, hends⟩
  · intro mid before last state told hbefore hphase hreadable htells
    have hwork : mid.scan.work = work := congrArg ScanTask.work (hbefore.task rfl)
    rw [← hwork] at htells
    constructor
    · obtain ⟨heard, hheard, hreading, hbench, hsame⟩ := step?_of_readable hphase hreadable
      obtain ⟨settled, hsettled⟩ := step?_of_reading hreading
      refine ⟨heard, settled, hheard, hsettled, outcome_of_reading hreading ?_ hsettled⟩
      rw [hbench, hsame]
      exact htells
    · intro run after hafter outcome houtcome
      have hhears := hafter.hears (.readable hphase hreadable htells) (hbefore.inTurn rfl)
      cases hhears with
      | readable phase => rw [phase] at houtcome; cases houtcome
      | reading phase => rw [phase] at houtcome; cases houtcome
      | settled phase => exact Option.some.inj (houtcome.symm.trans phase)

/-! A search is seen to have stopped at the end of its first tick. Half a record comes at the very end of
the last wait, and by then the token has been fired. -/

def lateHalf : ScanRun ScriptedDevice :=
  launch
    { device := ScriptedDevice.device "late" .mask
      state := { scripts := [{
        running := [.ok (.word 0)]
        records := [(70, .bytes [0x10, 0, 0, 0])] }] } }
    { waitTick := 20 } ⟨Bytes.zero 32, Bytes.zero 12, 0⟩ (some 30)

theorem half_record_counts_before_the_token :
    ∃ run past, lateHalf.Leads run past ∧ .running ∈ run.states ∧ run.cancelled = true ∧
      ∃ before answer rest, past = before ++ [answer] ++ rest ∧
        answer.next = .calling (.counter .noResult) ∧
        lateHalf.scan.task.Ends (before ++ [answer]) .noResult := by
  let run := lateHalf.goUntil (fun run => run.scan.result?.isSome) 40
  have hrun : .running ∈ run.states ∧ run.cancelled = true ∧
      run.scan.phase.outcome? = some .noResult := by
    decide +kernel
  obtain ⟨hrunning, hcancelled, houtcome⟩ := hrun
  obtain ⟨past, hleads⟩ := Leads.here.goUntil (fun run => run.scan.result?.isSome) 40
  obtain ⟨hends, -, -⟩ := running_scan_ends_as_it_is_told hleads hrunning
  exact ⟨run, past, hleads, hrunning, hcancelled, hends _ houtcome⟩

end ScanRun

end NonceSearch
