import NonceSearch.Proofs.HonestScan

/-!
# What one answer does to a scan

Whatever a scan is answered, one of a few things happens: it is denied its device, it goes on to its
next call, it looks again, it settles on an outcome, it gives the device back. `ScanTask.Goes` lists
them, with what has been done to the device and the state that is published. A call that its session
would refuse is not among them: the phase of a scan always goes with the state of its session
(`Scan.InTurn`), so every call is in turn (`Scan.resume_goes`).
-/

namespace NonceSearch

/-! ### Operations -/

/-- What a reply means to a request: one that asks for a word takes no other reply. -/
def Request.answer (request : Request) (reply : Reply) : Except DeviceError Reply :=
  match request with
  | .getStatus | .getNonceCurrent => reply.toWord.map .word
  | .getDebugRegisters => reply.toRegisters.map .registers
  | _ => .ok .done

theorem SessionCall.answer_eq (call : SessionCall) : call.answer = call.request.answer := by
  cases call with
  | setDifficulty difficulty => cases difficulty <;> rfl
  | _ => rfl

/-- Something that is done to a device, with what comes of it. -/
inductive Operation where
  | opened (result : Except DeviceError Unit)
  | asked (request : Request) (reply : Except DeviceError Reply)
  /-- A wait for something to read; nothing comes of it at its timeout. -/
  | awaited (result : Option (Except DeviceError Unit))
  | taken (result : Except DeviceError (List UInt8))
  | closed

/-- How an operation failed, if it did. To find nothing to read is not a failure. -/
def Operation.failure? : Operation → Option DeviceError
  | .opened (.error cause) => some cause
  | .asked request reply =>
    match reply.bind request.answer with
    | .error cause => some cause
    | .ok _ => none
  | .awaited (some (.error cause)) => some cause
  | .taken result =>
    match completionOf result with
    | .error cause => some cause
    | .ok _ => none
  | _ => none

theorem Operation.failure?_asked {request : Request} {reply : Except DeviceError Reply}
    {answer : Reply} (h : reply.bind request.answer = .ok answer) :
    (asked request reply).failure? = none := by
  simp [failure?, h]

/-- What has been done to the device once a demand is answered. Pauses and the temperature do not
    concern it. -/
def Demand.operation? : (demand : Demand) → demand.Answer → Option Operation
  | .acquire, result => some (.opened result)
  | .request asked, reply => some (.asked asked reply)
  | .readable _, result => some (.awaited result)
  | .tryRead, result => some (.taken result)
  | .release, _ => some .closed
  | .pause _, _ | .sense, _ | .nothing, _ => none

def Note.state? : Note → Option ScanState
  | .entered state => some state
  | .logged _ => none

/-! ### What can happen -/

/-- What stays the same as long as a scan lasts. -/
structure ScanTask where
  layout : RegisterLayout
  config : ScanConfig
  work : WorkItem

def Scan.task (scan : Scan) : ScanTask := ⟨scan.layout, scan.config, scan.work⟩

namespace ScanTask

def request (task : ScanTask) : ScanCall → Request
  | .clock mhz => .setClockSpeed mhz
  | .reset => .reset
  | .poll _ | .tick => .getStatus
  | .stateIn => .setStateIn task.work.midstate
  | .tail => .setTail task.work.tail
  | .difficulty => (task.layout.difficulty task.work.mask).request
  | .start => .start
  | .counter _ => .getNonceCurrent

theorem request_task (scan : Scan) (call : ScanCall) :
    (scan.sessionCall call).request = scan.task.request call := by
  cases call <;> rfl

/-- The clock is programmed before all else, if there is one to program. -/
def firstCall (task : ScanTask) : ScanCall :=
  match task.config.clockSpeed with
  | some mhz => .clock mhz
  | none => .reset

/-- One call comes after another once the first has gone through, whatever it was answered. -/
inductive Precedes : ScanCall → ScanCall → Prop where
  | clock (mhz : UInt32) : Precedes (.clock mhz) .reset
  | reset (deadline : Nat) : Precedes .reset (.poll deadline)
  | stateIn : Precedes .stateIn .tail
  | tail : Precedes .tail .difficulty
  | difficulty : Precedes .difficulty .start

/-- An operation is what a scan wants in a phase before the outcome is settled. -/
inductive Meets (task : ScanTask) : ScanPhase → Operation → Prop where
  | call {call : ScanCall} (unsettled : ∀ outcome, call ≠ .counter outcome)
    (reply : Except DeviceError Reply) :
    Meets task (.calling call) (.asked (task.request call) reply)
  | wait (last : Bool) (result : Option (Except DeviceError Unit)) :
    Meets task (.waiting last) (.awaited result)
  | read (last : Bool) (result : Except DeviceError (List UInt8)) :
    Meets task (.reading last) (.taken result)

/-- Nothing has come of a wait, or of a read after it. -/
inductive Lapses : ScanPhase → Operation → Prop where
  | wait (last : Bool) : Lapses (.waiting last) (.awaited none)
  | read (last : Bool) {result : Except DeviceError (List UInt8)} :
    completionOf result = .ok none → Lapses (.reading last) (.taken result)

/-- An operation accounts for an outcome: a scan is broken off only after its token has fired, and when
    a call, a wait or a read is to blame then it is this one. -/
structure Accounts (cancelled : Bool) (operation : Operation) (outcome : ScanOutcome) : Prop where
  restarted : outcome = .restarted → cancelled = true
  blame : ∀ reason, outcome = .faulted (.protocol reason) →
    ∃ cause, operation.failure? = some cause ∧ reason = cause.message

/-- The hashes that a report gives after the counter has been read, or could not be. -/
def hashesOf (reply : Except DeviceError Reply) : Nat :=
  match reply with
  | .ok (.word nonce) => nonce.toNat
  | _ => 0

/-- A scan gets on with its search. Nothing has failed, and nothing is settled. -/
inductive Advances (task : ScanTask) :
    ScanPhase → Option Operation → ScanPhase → List ScanState → Prop where
  | passed {call next : ScanCall} {reply : Except DeviceError Reply} {answer : Reply} :
    Precedes call next → reply.bind (task.request call).answer = .ok answer →
    Advances task (.calling call) (some (.asked (task.request call) reply)) (.calling next) []
  | ready {deadline : Nat} {bits : UInt32} : (Status.mk bits).isReady = true →
    Advances task (.calling (.poll deadline)) (some (.asked .getStatus (.ok (.word bits))))
      (.calling .stateIn) [.ready]
  | unready {deadline : Nat} {bits : UInt32} : (Status.mk bits).isReady = false →
    Advances task (.calling (.poll deadline)) (some (.asked .getStatus (.ok (.word bits))))
      (.pausing deadline) []
  | paused (deadline : Nat) : Advances task (.pausing deadline) none (.calling (.poll deadline)) []
  | started {reply : Except DeviceError Reply} {answer : Reply} :
    reply.bind Request.start.answer = .ok answer →
    Advances task (.calling .start) (some (.asked .start reply)) (.waiting false) [.running]
  | ticked {bits : UInt32} {next : ScanPhase} :
    next = (if (Status.mk bits).isRunning then .sensing else .waiting true) →
    Advances task (.calling .tick) (some (.asked .getStatus (.ok (.word bits)))) next []
  | sensed : Advances task .sensing none (.waiting false) []
  | announced (last : Bool) :
    Advances task (.waiting last) (some (.awaited (some (.ok ())))) (.reading last) []
  | lapsed {phase : ScanPhase} {operation : Operation} : Lapses phase operation →
    Advances task phase (some operation) (.calling .tick) []

/-- From one phase to the next: what has been done to the device, and which states are published. -/
inductive Goes (task : ScanTask) (cancelled : Bool) :
    ScanPhase → Option Operation → ScanPhase → List ScanState → Prop where
  | denied (cause : DeviceError) :
    Goes task cancelled .opening (some (.opened (.error cause))) (.ended (.error cause)) [.closed]
  | opened :
    Goes task cancelled .opening (some (.opened (.ok ()))) (.calling task.firstCall) []
  | advanced {phase next : ScanPhase} {operation : Option Operation} {news : List ScanState} :
    task.Advances phase operation next news → Goes task cancelled phase operation next news
  | concluded {phase : ScanPhase} {operation : Operation} {outcome : ScanOutcome} :
    task.Meets phase operation → Accounts cancelled operation outcome →
    Goes task cancelled phase (some operation) (.calling (.counter outcome)) [outcome.state]
  | counted (outcome : ScanOutcome) (reply : Except DeviceError Reply) :
    Goes task cancelled (.calling (.counter outcome)) (some (.asked .getNonceCurrent reply))
      (.closing ⟨outcome, hashesOf reply⟩) []
  | closed (report : ScanReport) :
    Goes task cancelled (.closing report) (some .closed) (.ended (.ok report)) [.closed]

theorem firstCall_outcome? (task : ScanTask) :
    (ScanPhase.calling task.firstCall).outcome? = none := by
  unfold firstCall
  split <;> rfl

/-- A step that settles on breaking off is made after the token has fired. -/
theorem Goes.cancelled_of_restarted {task : ScanTask} {cancelled : Bool} {phase next : ScanPhase}
    {operation : Option Operation} {news : List ScanState}
    (h : task.Goes cancelled phase operation next news) (hnext : next.outcome? = some .restarted) :
    phase.outcome? = some .restarted ∨ cancelled = true := by
  cases h with
  | denied => cases hnext
  | opened => exact absurd ((task.firstCall_outcome?).symm.trans hnext) nofun
  | advanced hadvances =>
    cases hadvances with
    | passed hprecedes => cases hprecedes <;> cases hnext
    | ticked hphase =>
      subst hphase
      split at hnext <;> cases hnext
    | _ => cases hnext
  | concluded _ haccounts => exact .inr (haccounts.restarted (Option.some.inj hnext))
  | counted => exact .inl hnext
  | closed => exact .inl hnext

end ScanTask

/-! ### In turn -/

namespace Scan

/-- The state of the session goes with the phase of the scan. -/
def InTurn (scan : Scan) : Prop :=
  match scan.phase with
  | .opening | .calling (.clock _) | .calling .reset => scan.session = .unknown
  | .calling (.poll _) | .pausing _ => scan.session = .resetting
  | .calling .stateIn | .calling .tail | .calling .difficulty | .calling .start =>
    scan.session = .ready
  | _ => True

/-- A session never refuses what its scan is about to ask. -/
theorem InTurn.allowed {scan : Scan} (h : scan.InTurn) {call : ScanCall}
    (hphase : scan.phase = .calling call) : (scan.sessionCall call).allowed scan.session = true := by
  unfold InTurn at h
  cases call with
  | clock mhz =>
    have hunknown : scan.session = .unknown := by simpa [hphase] using h
    rw [hunknown]
    rfl
  | stateIn | tail | difficulty | start =>
    have hready : scan.session = .ready := by simpa [hphase] using h
    rw [hready]
    rfl
  | reset | poll | tick | counter => rfl

/-- A step that a scan makes by an operation in a phase. -/
structure Step.Goes (task : ScanTask) (cancelled : Bool) (phase : ScanPhase)
    (operation : Option Operation) (step : Step) : Prop where
  goes : task.Goes cancelled phase operation step.1.phase (step.2.filterMap Note.state?)
  inTurn : step.1.InTurn
  task : step.1.task = task

variable {scan : Scan} {task : ScanTask} {cancelled : Bool} {phase : ScanPhase}
  {operation : Operation}

/-- A call that is in turn is made. -/
theorem enter_of_allowed {call : ScanCall} (h : (scan.sessionCall call).allowed scan.session = true) :
    scan.enter call = ({ scan with phase := .calling call }, []) := by
  simp [enter, h]

theorem conclude_goes {outcome : ScanOutcome} (hmeets : scan.task.Meets phase operation)
    (haccounts : ScanTask.Accounts cancelled operation outcome) :
    (scan.conclude outcome).Goes scan.task cancelled phase (some operation) where
  goes := .concluded hmeets haccounts
  inTurn := trivial
  task := rfl

theorem accounts_of_unforced {outcome : ScanOutcome} (hrestarted : outcome ≠ .restarted)
    (hfaulted : ∀ reason, outcome ≠ .faulted (.protocol reason)) :
    ScanTask.Accounts cancelled operation outcome :=
  ⟨fun h => absurd h hrestarted, fun reason h => absurd h (hfaulted reason)⟩

theorem fail_goes {cause : DeviceError} (hmeets : scan.task.Meets phase operation)
    (hfailure : operation.failure? = some cause) :
    (scan.fail cause).Goes scan.task cancelled phase (some operation) := by
  apply conclude_goes hmeets
  refine ⟨nofun, fun reason hreason => ⟨cause, hfailure, ?_⟩⟩
  simpa [ScanFault.ofError] using hreason.symm

theorem noting_goes {notes : List Note} {step : Step} {operation : Option Operation}
    (hquiet : notes.filterMap Note.state? = []) (h : step.Goes task cancelled phase operation) :
    (noting notes step).Goes task cancelled phase operation := by
  refine ⟨?_, h.inTurn, h.task⟩
  have hgoes := h.goes
  simpa [noting, List.filterMap_append, hquiet] using hgoes

theorem unreadable_goes {cause : DeviceError} (hmeets : scan.task.Meets phase operation)
    (hfailure : operation.failure? = some cause) :
    (scan.unreadable cause).Goes scan.task cancelled phase (some operation) := by
  unfold unreadable
  split
  · exact noting_goes rfl (conclude_goes hmeets (accounts_of_unforced nofun nofun))
  · exact fail_goes hmeets hfailure

theorem lapse_goes {last : Bool} {moment : Moment} (hmeets : scan.task.Meets phase operation)
    (hlapses : ScanTask.Lapses phase operation) :
    (scan.lapse last moment).Goes scan.task moment.cancelled phase (some operation) := by
  unfold lapse
  split
  · exact conclude_goes hmeets (accounts_of_unforced nofun nofun)
  · split
    · next hcancelled => exact conclude_goes hmeets ⟨fun _ => hcancelled, nofun⟩
    · rw [enter_of_allowed rfl]
      exact ⟨.advanced (.lapsed hlapses), trivial, rfl⟩

theorem classify_unforced (work : WorkItem) (message : CompletionMessage) :
    work.classify message ≠ .restarted ∧ ∀ reason, work.classify message ≠ .faulted reason := by
  unfold WorkItem.classify
  split
  · exact ⟨nofun, nofun⟩
  · split
    · exact ⟨nofun, nofun⟩
    · exact ⟨nofun, nofun⟩

theorem complete_goes {message : CompletionMessage} (hmeets : scan.task.Meets phase operation) :
    (scan.complete message).Goes scan.task cancelled phase (some operation) := by
  obtain ⟨hrestarted, hfaulted⟩ := classify_unforced scan.work message
  apply noting_goes
  · split <;> rfl
  · exact conclude_goes hmeets (accounts_of_unforced hrestarted fun reason => hfaulted _)

/-! ### Each kind of answer -/

theorem opened_goes (result : Except DeviceError Unit) (hunknown : scan.session = .unknown) :
    (scan.opened result).Goes scan.task cancelled .opening (some (.opened result)) := by
  have hfirst : ∀ call, call = scan.task.firstCall → (scan.sessionCall call).allowed scan.session →
      { scan with phase := .calling call }.InTurn →
      (scan.enter call).Goes scan.task cancelled .opening (some (.opened (.ok ()))) := by
    rintro call rfl hallowed hturn
    rw [enter_of_allowed hallowed]
    exact ⟨.opened, hturn, rfl⟩
  unfold opened
  cases result with
  | error cause => exact ⟨.denied cause, trivial, rfl⟩
  | ok =>
    cases hclock : scan.config.clockSpeed with
    | some mhz =>
      apply hfirst
      · simp [ScanTask.firstCall, Scan.task, hclock]
      · rw [hunknown]
        rfl
      · exact hunknown
    | none =>
      apply hfirst
      · simp [ScanTask.firstCall, Scan.task, hclock]
      · rfl
      · exact hunknown

/-- A call that has gone through, with its session in the state after it, leads to the next one. -/
theorem passed_goes {call next : ScanCall} {session : SessionState} {reply : Except DeviceError Reply}
    {answer : Reply} (hprecedes : ScanTask.Precedes call next)
    (hanswer : reply.bind (scan.task.request call).answer = .ok answer)
    (hallowed : (scan.sessionCall next).allowed session = true)
    (hturn : { scan with session := session, phase := .calling next }.InTurn) :
    ({ scan with session := session }.enter next).Goes scan.task cancelled (.calling call)
      (some (.asked (scan.task.request call) reply)) := by
  rw [@enter_of_allowed { scan with session := session } next hallowed]
  exact ⟨.advanced (.passed hprecedes hanswer), hturn, rfl⟩

theorem word_of_status {reply : Except DeviceError Reply} {answer : Reply}
    (h : reply.bind Request.getStatus.answer = .ok answer) :
    ∃ bits, reply = .ok (.word bits) ∧ answer = .word bits := by
  rcases reply with cause | reply
  · cases h
  · cases reply with
    | word bits => exact ⟨bits, rfl, (Except.ok.inj h).symm⟩
    | done => cases h
    | registers words => cases h

theorem finish_goes (outcome : ScanOutcome) (reply : Except DeviceError Reply) :
    (scan.finish outcome (reply.bind Request.getNonceCurrent.answer)).Goes scan.task cancelled
      (.calling (.counter outcome)) (some (.asked .getNonceCurrent reply)) := by
  have hcounted := @ScanTask.Goes.counted scan.task cancelled outcome reply
  rcases reply with cause | reply
  · exact ⟨hcounted, trivial, rfl⟩
  · cases reply with
    | word nonce => exact ⟨hcounted, trivial, rfl⟩
    | done => exact ⟨hcounted, trivial, rfl⟩
    | registers words => exact ⟨hcounted, trivial, rfl⟩

/-- A call has gone through, and the session knows. -/
theorem proceed_goes {call : ScanCall} {reply : Except DeviceError Reply} {answer : Reply}
    (moment : Moment) (hturn : { scan with phase := .calling call }.InTurn)
    (hcounter : ∀ outcome, call ≠ .counter outcome)
    (hanswer : reply.bind (scan.task.request call).answer = .ok answer) :
    ({ scan with session := (scan.sessionCall call).advance scan.session answer }.proceed call answer
        moment).Goes scan.task moment.cancelled (.calling call)
      (some (.asked (scan.task.request call) reply)) := by
  cases call with
  | counter outcome => exact absurd rfl (hcounter outcome)
  | clock mhz => exact passed_goes (.clock mhz) hanswer rfl hturn
  | reset => exact passed_goes (.reset _) hanswer rfl rfl
  | stateIn =>
    have hready : scan.session = .ready := hturn
    exact passed_goes .stateIn hanswer (by rw [hready]; rfl) hturn
  | tail =>
    have hready : scan.session = .ready := hturn
    exact passed_goes .tail hanswer (by rw [hready]; rfl) hturn
  | difficulty =>
    have hready : scan.session = .ready := hturn
    exact passed_goes .difficulty hanswer (by rw [hready]; rfl) hturn
  | start => exact ⟨.advanced (.started hanswer), trivial, rfl⟩
  | poll deadline =>
    have hresetting : scan.session = .resetting := hturn
    obtain ⟨bits, rfl, rfl⟩ := word_of_status hanswer
    have hmeets : scan.task.Meets (.calling (.poll deadline))
        (.asked .getStatus (.ok (.word bits))) :=
      @ScanTask.Meets.call scan.task (.poll deadline) (by simp) _
    simp only [proceed]
    by_cases hready : (Status.mk bits).isReady = true
    · -- the session has seen READY as well, so the parameters are in turn
      have hsession : (scan.sessionCall (.poll deadline)).advance scan.session (.word bits) = .ready := by
        simp [sessionCall, SessionCall.advance, hresetting, hready]
      rw [if_pos hready, hsession, enter_of_allowed rfl]
      exact ⟨.advanced (.ready hready), rfl, rfl⟩
    · have hsession : (scan.sessionCall (.poll deadline)).advance scan.session (.word bits) =
          .resetting := by
        simp [sessionCall, SessionCall.advance, hresetting, hready]
      rw [if_neg hready, hsession]
      have hconclude : ∀ outcome, ScanTask.Accounts moment.cancelled
          (.asked .getStatus (.ok (.word bits))) outcome →
          ({ scan with session := .resetting }.conclude outcome).Goes scan.task moment.cancelled
            (.calling (.poll deadline)) (some (.asked .getStatus (.ok (.word bits)))) :=
        fun outcome => @conclude_goes { scan with session := .resetting } _ _ _ outcome hmeets
      split
      · next hcancelled => exact hconclude _ ⟨fun _ => hcancelled, by simp⟩
      · split
        · exact hconclude _ (accounts_of_unforced (by simp) (by simp))
        · exact ⟨.advanced (.unready (by simpa using hready)), rfl, rfl⟩
  | tick =>
    obtain ⟨bits, rfl, rfl⟩ := word_of_status hanswer
    simp only [proceed]
    split
    · next hrunning => exact ⟨.advanced (.ticked (by simp [hrunning])), trivial, rfl⟩
    · next hrunning => exact ⟨.advanced (.ticked (by simp [hrunning])), trivial, rfl⟩

theorem called_goes {call : ScanCall} (reply : Except DeviceError Reply) (moment : Moment)
    (hturn : { scan with phase := .calling call }.InTurn) :
    (scan.called call reply moment).Goes scan.task moment.cancelled (.calling call)
      (some (.asked (scan.task.request call) reply)) := by
  have hsettle : reply.bind (scan.sessionCall call).answer =
      reply.bind (scan.task.request call).answer := by
    rw [SessionCall.answer_eq, ScanTask.request_task]
  unfold called SessionCall.settle
  rw [hsettle]
  by_cases hcounter : ∃ outcome, call = .counter outcome
  · obtain ⟨outcome, rfl⟩ := hcounter
    have hfinish := @finish_goes scan moment.cancelled outcome reply
    change (scan.finish outcome (reply.bind (scan.task.request (.counter outcome)).answer)).Goes
      _ _ _ _ at hfinish
    rcases hanswer : reply.bind (scan.task.request (.counter outcome)).answer with cause | answer
    · rw [hanswer] at hfinish
      exact hfinish
    · rw [hanswer] at hfinish
      exact hfinish
  · have hunsettled : ∀ outcome, call ≠ .counter outcome :=
      fun outcome h => hcounter ⟨outcome, h⟩
    rcases hanswer : reply.bind (scan.task.request call).answer with cause | answer
    · have hfailed : (scan.fail cause).Goes scan.task moment.cancelled (.calling call)
          (some (.asked (scan.task.request call) reply)) :=
        fail_goes (.call hunsettled reply) (by simp [Operation.failure?, hanswer])
      cases call with
      | counter outcome => exact absurd rfl (hunsettled outcome)
      | _ => exact hfailed
    · exact proceed_goes moment hturn hunsettled hanswer

theorem waited_goes (last : Bool) (result : Option (Except DeviceError Unit)) (moment : Moment) :
    (scan.waited last result moment).Goes scan.task moment.cancelled (.waiting last)
      (some (.awaited result)) := by
  unfold waited
  rcases result with _ | (cause | _)
  · exact lapse_goes (.wait last none) (.wait last)
  · exact unreadable_goes (.wait last _) rfl
  · exact ⟨.advanced (.announced last), trivial, rfl⟩

theorem read_goes (last : Bool) (result : Except DeviceError (List UInt8)) (moment : Moment) :
    (scan.read last result moment).Goes scan.task moment.cancelled (.reading last)
      (some (.taken result)) := by
  unfold read
  rcases hresult : completionOf result with cause | (_ | message)
  · exact unreadable_goes (.read last result) (by simp [Operation.failure?, hresult])
  · exact lapse_goes (.read last result) (.read last hresult)
  · exact complete_goes (.read last result)

/-! ### Any answer -/

/-- Whatever a scan is answered, it goes on as a scan can, and stays in turn. -/
theorem resume_goes (h : scan.InTurn) (moment : Moment) (answer : scan.demand.Answer)
    (hended : ∀ result, scan.phase ≠ .ended result) :
    (scan.resume moment answer).Goes scan.task moment.cancelled scan.phase
      (scan.demand.operation? answer) := by
  obtain ⟨device, layout, config, work, session, phase⟩ := scan
  cases phase with
  | opening => exact opened_goes _ h
  | calling call =>
    have hcalled := @called_goes ⟨device, layout, config, work, session, .calling call⟩ call answer
      moment h
    rw [← ScanTask.request_task] at hcalled
    exact hcalled
  | pausing deadline => exact ⟨.advanced (.paused deadline), h, rfl⟩
  | waiting last => exact waited_goes last _ moment
  | reading last => exact read_goes last _ moment
  | sensing => exact ⟨.advanced .sensed, trivial, rfl⟩
  | closing report => exact ⟨.closed report, trivial, rfl⟩
  | ended result => exact absurd rfl (hended result)

end Scan

/-! ### On a bench -/

namespace ScanRun

variable {δ : Type} {run next : ScanRun δ}

def operation? (run : ScanRun δ) : Option Operation :=
  (run.bench.answer? run.since run.scan.demand).bind fun answered =>
    run.scan.demand.operation? answered.1

theorem states_eq (run : ScanRun δ) : run.states = run.notes.reverse.filterMap Note.state? :=
  rfl

/-- A scan that has ended wants nothing more. -/
theorem not_ended_of_step? (hstep : run.step? = some next) (result : Except DeviceError ScanReport) :
    run.scan.phase ≠ .ended result := by
  intro hended
  have hnothing : ∀ demand, demand = .nothing → run.bench.answer? run.since demand = none := by
    rintro demand rfl
    rfl
  have hdemand : run.scan.demand = .nothing := by simp [Scan.demand, hended, Scan.demandIn]
  unfold step? at hstep
  rw [hnothing _ hdemand] at hstep
  exact absurd hstep nofun

/-- A step of a scan on a bench, as the device and whoever follows the state see it. -/
structure Goes (run next : ScanRun δ) : Prop where
  inTurn : next.scan.InTurn
  task : next.scan.task = run.scan.task
  goes : ∃ news, next.states = run.states ++ news ∧
    run.scan.task.Goes run.cancelled run.scan.phase run.operation? next.scan.phase news

theorem step?_goes (h : run.scan.InTurn) (hstep : run.step? = some next) : run.Goes next := by
  have hended := not_ended_of_step? hstep
  unfold step? at hstep
  rcases hanswer : run.bench.answer? run.since run.scan.demand with _ | ⟨answer, bench⟩
  · simp [hanswer] at hstep
  · simp only [hanswer, Option.some.injEq] at hstep
    have hgoes := Scan.resume_goes h ⟨bench.now, run.cancelled⟩ answer hended
    have hoperation : run.operation? = run.scan.demand.operation? answer := by
      simp [operation?, hanswer]
    subst hstep
    refine ⟨hgoes.inTurn, hgoes.task, _, ?_, hoperation ▸ hgoes.goes⟩
    simp [states_eq]

end ScanRun

end NonceSearch
