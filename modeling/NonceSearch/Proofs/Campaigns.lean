import NonceSearch.Proofs.SessionStates
import NonceSearch.Proofs.Trial

/-!
# Scans one after another

Scans share a core, but each has a session of its own, which knows nothing of the searches of earlier
ones. A scan that is restarted leaves its search going on, and the session of the next one stays in the
dark until it has reset the core. Whatever is searched for is loaded after that, into a core that does
not search. The clock is not: a scan sets it before it resets the core.
-/

namespace NonceSearch

/-! ### Calls in turn -/

namespace Scan

/-- A scan makes the calls that are in turn, and sets the clock before all others. -/
structure Orderly (scan : Scan) : Prop where
  opening : scan.phase = .opening → scan.session = .unknown
  allowed : ∀ call, scan.phase = .calling call → (scan.sessionCall call).allowed scan.session
  clock : ∀ mhz, scan.phase = .calling (.clock mhz) →
    scan.session = .unknown ∧ scan.config.clockSpeed = some mhz

/-- A step that leads to a session state, and to no call that is out of turn. -/
def Step.OrderlyIn (session : SessionState) (step : Step) : Prop :=
  step.1.session = session ∧ step.1.Orderly

variable {scan : Scan} {session : SessionState}

theorem orderly_of_quiet (hopening : scan.phase ≠ .opening)
    (hcalling : ∀ call, scan.phase ≠ .calling call) : scan.Orderly where
  opening h := absurd h hopening
  allowed call h := absurd h (hcalling call)
  clock _ h := absurd h (hcalling _)

theorem conclude_orderly (outcome : ScanOutcome) :
    (scan.conclude outcome).OrderlyIn scan.session := by
  refine ⟨rfl, nofun, fun call hcall => ?_, nofun⟩
  obtain rfl := ScanPhase.calling.inj hcall
  rfl

theorem enter_orderly {call : ScanCall} (hclock : ∀ mhz, call = .clock mhz →
    scan.session = .unknown ∧ scan.config.clockSpeed = some mhz) :
    (scan.enter call).OrderlyIn scan.session := by
  simp only [enter]
  split
  · next hallowed =>
    refine ⟨rfl, nofun, fun other hother => ?_, fun mhz hmhz => ?_⟩
    · obtain rfl := ScanPhase.calling.inj hother
      exact hallowed
    · exact hclock mhz (ScanPhase.calling.inj hmhz)
  · exact conclude_orderly _

theorem noting_orderly {notes : List Note} {step : Step} (h : step.OrderlyIn session) :
    (noting notes step).OrderlyIn session := h

theorem unreadable_orderly (cause : DeviceError) :
    (scan.unreadable cause).OrderlyIn scan.session := by
  unfold unreadable
  split
  · exact noting_orderly (conclude_orderly _)
  · exact conclude_orderly _

theorem lapse_orderly (last : Bool) (moment : Moment) :
    (scan.lapse last moment).OrderlyIn scan.session := by
  unfold lapse
  split
  · exact conclude_orderly _
  · split
    · exact conclude_orderly _
    · exact enter_orderly nofun

theorem finish_orderly (outcome : ScanOutcome) (counter : Except DeviceError Reply) :
    (scan.finish outcome counter).OrderlyIn scan.session := by
  unfold finish
  split <;> exact ⟨rfl, orderly_of_quiet nofun nofun⟩

theorem proceed_orderly {call : ScanCall} (answer : Reply) (moment : Moment)
    (hphase : scan.phase = .calling call) : (scan.proceed call answer moment).OrderlyIn scan.session := by
  -- an answer that is not for it leaves a status call waiting, and that is always in turn
  have hstays : scan.sessionCall call = .status → (∀ mhz, call ≠ .clock mhz) →
      Step.OrderlyIn scan.session (scan, []) := by
    intro hstatus hclock
    refine ⟨rfl, fun hopening => ?_, fun other hother => ?_, fun mhz hmhz => ?_⟩
    · rw [hphase] at hopening
      exact absurd hopening nofun
    · obtain rfl := ScanPhase.calling.inj (hphase.symm.trans hother)
      rw [hstatus]
      rfl
    · exact absurd (ScanPhase.calling.inj (hphase.symm.trans hmhz)) (hclock mhz)
  cases call with
  | poll deadline =>
    simp only [proceed]
    split
    · split
      · exact noting_orderly (enter_orderly nofun)
      · split
        · exact conclude_orderly _
        · split
          · exact conclude_orderly _
          · exact ⟨rfl, orderly_of_quiet nofun nofun⟩
    · exact hstays rfl nofun
  | tick =>
    simp only [proceed]
    split
    · split <;> exact ⟨rfl, orderly_of_quiet nofun nofun⟩
    · exact hstays rfl nofun
  | counter outcome => exact finish_orderly outcome _
  | start => exact ⟨rfl, orderly_of_quiet nofun nofun⟩
  | clock mhz => exact enter_orderly nofun
  | reset => exact enter_orderly nofun
  | stateIn => exact enter_orderly nofun
  | tail => exact enter_orderly nofun
  | difficulty => exact enter_orderly nofun

theorem called_orderly {call : ScanCall} (reply : Except DeviceError Reply) (moment : Moment)
    (hphase : scan.phase = .calling call) : (scan.called call reply moment).OrderlyIn
      ((scan.sessionCall call).settle scan.session reply).2 := by
  unfold called
  generalize (scan.sessionCall call).settle scan.session reply = settled
  obtain ⟨result, session⟩ := settled
  cases result with
  | ok answer => exact @proceed_orderly { scan with session := session } call answer moment hphase
  | error cause =>
    cases call with
    | counter outcome => exact @finish_orderly { scan with session := session } outcome _
    | _ => exact @conclude_orderly { scan with session := session } _

theorem opened_orderly (result : Except DeviceError Unit) (hunknown : scan.session = .unknown) :
    (scan.opened result).OrderlyIn scan.session := by
  unfold opened
  split
  · exact ⟨rfl, orderly_of_quiet nofun nofun⟩
  · split
    · next mhz hconfigured =>
      refine enter_orderly fun other hother => ⟨hunknown, ?_⟩
      obtain rfl := ScanCall.clock.inj hother
      exact hconfigured
    · exact enter_orderly nofun

theorem waited_orderly (last : Bool) (result : Option (Except DeviceError Unit)) (moment : Moment) :
    (scan.waited last result moment).OrderlyIn scan.session := by
  unfold waited
  split
  · exact lapse_orderly last moment
  · exact unreadable_orderly _
  · exact ⟨rfl, orderly_of_quiet nofun nofun⟩

theorem read_orderly (last : Bool) (result : Except DeviceError (List UInt8)) (moment : Moment) :
    (scan.read last result moment).OrderlyIn scan.session := by
  unfold read
  split
  · exact noting_orderly (conclude_orderly _)
  · exact lapse_orderly last moment
  · exact unreadable_orderly _

/-- Beside its calls, whatever a scan is answered leaves its session where it is. -/
theorem resume_orderly (h : scan.Orderly) (moment : Moment) (answer : scan.demand.Answer)
    (hcalling : ∀ call, scan.phase ≠ .calling call) :
    (scan.resume moment answer).OrderlyIn scan.session := by
  obtain ⟨device, layout, config, work, session, phase⟩ := scan
  cases phase with
  | opening => exact opened_orderly _ (h.opening rfl)
  | calling call => exact absurd rfl (hcalling call)
  | pausing deadline => exact enter_orderly nofun
  | waiting last => exact waited_orderly last _ moment
  | reading last => exact read_orderly last _ moment
  | sensing => exact ⟨rfl, orderly_of_quiet nofun nofun⟩
  | closing report => exact ⟨rfl, orderly_of_quiet nofun nofun⟩
  | ended result => exact ⟨rfl, orderly_of_quiet nofun nofun⟩

/-- What the session of a scan is about. -/
def errand (scan : Scan) : Option Errand :=
  match scan.phase with
  | .calling call => some (.call (scan.sessionCall call))
  | _ => none

end Scan

/-! ### Campaigns -/

namespace Campaign

inductive Move where
  /-- The scan goes on, and its restart token has fired or has not. -/
  | scan (cancelled : Bool)
  /-- The next work item is scanned for, when the last scan has ended. -/
  | launch (device : String) (settings : ScanConfig) (work : WorkItem)
  /-- Time passes, the service thread or a searcher goes on, or a hook is pulled. -/
  | beside (move : Rig.Move)

def besides : Rig.Move → Bool
  | .pass _ | .serve | .search _ | .raiseSpurious | .stall | .setHalted _ => true
  | _ => false

variable (config : CoreConfig)

def goOn (cancelled : Bool) (trial : Trial) : Trial :=
  match trial.rig.answer? config trial.since trial.scan.demand with
  | (rig, some answer) =>
    { rig := rig, scan := (trial.scan.resume ⟨rig.now, cancelled⟩ answer).1, since := rig.now }
  | (rig, none) => { trial with rig := rig }

def act (move : Move) (trial : Trial) : Trial :=
  match move with
  | .scan cancelled => goOn config cancelled trial
  | .launch device settings work =>
    if trial.scan.result?.isSome then .launch trial.rig device config.layout settings work else trial
  | .beside move =>
    if besides move then { trial with rig := trial.rig.act config move } else trial

/-- A scan and its rig can be reached by one scan after another, whatever has been done with the device
    before. -/
inductive Reached : Trial → Prop where
  | launched {rig : Rig} {past : List Rig.Event} (earlier : Rig.Reached config rig past)
    (free : rig.driver.held = false) (device : String) (settings : ScanConfig) (work : WorkItem) :
    Reached (.launch rig device config.layout settings work)
  | move {trial : Trial} (move : Move) : Reached trial → Reached (act config move trial)

def follow (moves : List Move) (trial : Trial) : Trial :=
  moves.foldl (fun trial move => act config move trial) trial

variable {config} {trial : Trial}

theorem Reached.follow (h : Reached config trial) (moves : List Move) :
    Reached config (follow config moves trial) := by
  induction moves generalizing trial with
  | nil => exact h
  | cons move moves ih => exact ih (.move move h)

/-! ### Keeping step -/

variable (config) in
/-- The session of the scan keeps step with the rig. -/
structure InStep (trial : Trial) : Prop where
  reached : ∃ past, Rig.Reached config trial.rig past
  orderly : trial.scan.Orderly
  inStep : Rig.InStep True trial.scan.session trial.rig trial.scan.errand

/-- A step that the scan has made after an answer. -/
theorem InStep.answered {rig : Rig} {past : List Rig.Event} {session : SessionState}
    {step : Scan.Step} {since : Nat} (hreached : Rig.Reached config rig past)
    (hstep : Rig.InStep True session rig none) (horderly : step.OrderlyIn session) :
    InStep config ⟨rig, step.1, since⟩ := by
  obtain ⟨hsession, horderly⟩ := horderly
  refine ⟨⟨past, hreached⟩, horderly, ?_⟩
  dsimp only
  rw [hsession]
  unfold Scan.errand
  split
  · next call hphase =>
    have hallowed := horderly.allowed call hphase
    rw [hsession] at hallowed
    exact hstep.takes hallowed
  · exact hstep

/-- What is not a request is met without touching one. -/
theorem answer_aside {rig : Rig} {since : Nat} {demand : Demand}
    (h : ∀ asked, demand ≠ .request asked) : (rig.answer? config since demand).1 = rig ∨
      ∃ move : Rig.Move, move.Aside ∧ (rig.answer? config since demand).1 = rig.act config move := by
  cases demand with
  | request asked => exact absurd rfl (h asked)
  | acquire => exact .inr ⟨.acquire, ⟨nofun, nofun⟩, rfl⟩
  | tryRead => exact .inr ⟨.read CompletionMessage.size, ⟨nofun, nofun⟩, rfl⟩
  | release => exact .inr ⟨.release, ⟨nofun, nofun⟩, rfl⟩
  | readable timeout => exact .inl rfl
  | pause duration => exact .inl rfl
  | sense => exact .inl rfl
  | nothing => exact .inl rfl

theorem goOn_answered {cancelled : Bool} {rig : Rig} {answer : trial.scan.demand.Answer}
    (h : trial.rig.answer? config trial.since trial.scan.demand = (rig, some answer)) :
    goOn config cancelled trial =
      ⟨rig, (trial.scan.resume ⟨rig.now, cancelled⟩ answer).1, rig.now⟩ := by
  unfold goOn
  rw [h]

theorem goOn_unanswered {cancelled : Bool} {rig : Rig}
    (h : trial.rig.answer? config trial.since trial.scan.demand = (rig, none)) :
    goOn config cancelled trial = { trial with rig := rig } := by
  unfold goOn
  rw [h]

theorem InStep.goOn_aside (h : InStep config trial) (cancelled : Bool)
    (hcalling : ∀ call, trial.scan.phase ≠ .calling call) :
    InStep config (goOn config cancelled trial) := by
  obtain ⟨⟨past, hreached⟩, horderly, hstep⟩ := h
  have hidle : trial.scan.errand = none := by
    unfold Scan.errand
    split
    · next call hphase => exact absurd hphase (hcalling call)
    · rfl
  have hdemand : ∀ asked, trial.scan.demand ≠ .request asked := by
    intro asked
    unfold Scan.demand
    cases hphase : trial.scan.phase with
    | calling call => exact absurd hphase (hcalling call)
    | _ => exact nofun
  -- the state after the answer is that of the session before, since no request has been made
  obtain ⟨past', hreached', hstep'⟩ : ∃ past',
      Rig.Reached config (trial.rig.answer? config trial.since trial.scan.demand).1 past' ∧
      Rig.InStep True trial.scan.session
        (trial.rig.answer? config trial.since trial.scan.demand).1 trial.scan.errand := by
    rcases @answer_aside config trial.rig trial.since _ hdemand with hsame | ⟨move, hmove, hact⟩
    · rw [hsame]
      exact ⟨past, hreached, hstep⟩
    · rw [hact]
      exact ⟨_, hreached.move move, hstep.aside hreached hmove fun _ => trivial⟩
  rcases hanswer : trial.rig.answer? config trial.since trial.scan.demand with ⟨rig, _ | answer⟩
  · rw [hanswer] at hreached' hstep'
    rw [goOn_unanswered hanswer]
    exact ⟨⟨past', hreached'⟩, horderly, hstep'⟩
  · rw [hanswer] at hreached' hstep'
    rw [hidle] at hstep'
    rw [goOn_answered hanswer]
    exact .answered hreached' hstep' (Scan.resume_orderly horderly _ answer hcalling)

theorem InStep.goOn_calling {rig : Rig} {scan : Scan} {since : Nat} {call : ScanCall}
    (h : InStep config ⟨rig, { scan with phase := .calling call }, since⟩) (cancelled : Bool) :
    InStep config (goOn config cancelled ⟨rig, { scan with phase := .calling call }, since⟩) := by
  obtain ⟨⟨past, hreached⟩, horderly, hstep⟩ := h
  have hwaits : ∀ {next : Rig} {past : List Rig.Event}, Rig.Reached config next past →
      rig.answer? config since (.request (scan.sessionCall call).request) = (next, none) →
      Rig.InStep True scan.session next (some (.call (scan.sessionCall call))) →
      InStep config (goOn config cancelled ⟨rig, { scan with phase := .calling call }, since⟩) := by
    intro next past hreached hanswer hstep
    rw [@goOn_unanswered config ⟨rig, { scan with phase := .calling call }, since⟩ _ _ hanswer]
    exact ⟨⟨past, hreached⟩, horderly, hstep⟩
  have hreturns : ∀ {next : Rig} {past : List Rig.Event} {reply : Except DeviceError Reply},
      Rig.Reached config next past →
      rig.answer? config since (.request (scan.sessionCall call).request) = (next, some reply) →
      Rig.InStep True ((scan.sessionCall call).settle scan.session reply).2 next none →
      InStep config (goOn config cancelled ⟨rig, { scan with phase := .calling call }, since⟩) := by
    intro next past reply hreached hanswer hstep
    rw [@goOn_answered config ⟨rig, { scan with phase := .calling call }, since⟩ _ _ _ hanswer]
    exact .answered hreached hstep (Scan.called_orderly reply _ rfl)
  cases hprogram : Driver.program config.layout (scan.sessionCall call).request with
  | error cause =>
    have hsame : ((scan.sessionCall call).settle scan.session (.error cause)).2 = scan.session :=
      (Errand.call (scan.sessionCall call)).settle_error cause
    have hanswer : rig.answer? config since (.request (scan.sessionCall call).request) =
        (rig, some (.error cause)) := by simp [Rig.answer?, hprogram]
    refine hreturns hreached hanswer ?_
    rw [hsame]
    exact hstep.refused hreached hprogram
  | ok program =>
    match hlock : rig.lock with
    | none =>
      exact hwaits (hreached.move (.request (scan.sessionCall call).request))
        (by simp only [Rig.answer?, hprogram, hlock]) hstep.asks
    | some (.service rest) =>
      exact hwaits hreached (by simp only [Rig.answer?, hprogram, hlock]) hstep
    | some (.request asked (.done reply)) =>
      have hanswer : rig.answer? config since (.request (scan.sessionCall call).request) =
          (rig.act config .proceed, some (.ok reply)) := by simp [Rig.answer?, hprogram, hlock]
      exact hreturns (hreached.move .proceed) hanswer (hstep.returns hlock)
    | some (.request asked (.read word next)) =>
      exact hwaits (hreached.move .proceed) (by simp only [Rig.answer?, hprogram, hlock])
        (hstep.proceeds hreached (by simp [hlock]))
    | some (.request asked (.write word value next)) =>
      exact hwaits (hreached.move .proceed) (by simp only [Rig.answer?, hprogram, hlock])
        (hstep.proceeds hreached (by simp [hlock]))
    | some (.request asked (.writeByte word value next)) =>
      exact hwaits (hreached.move .proceed) (by simp only [Rig.answer?, hprogram, hlock])
        (hstep.proceeds hreached (by simp [hlock]))

theorem InStep.goOn (h : InStep config trial) (cancelled : Bool) :
    InStep config (goOn config cancelled trial) := by
  by_cases hcalling : ∃ call, trial.scan.phase = .calling call
  · obtain ⟨rig, ⟨device, layout, settings, work, session, phase⟩, since⟩ := trial
    obtain ⟨call, hphase⟩ := hcalling
    dsimp only at hphase
    subst hphase
    exact @goOn_calling config rig ⟨device, layout, settings, work, session, .calling call⟩ since call
      h cancelled
  · exact h.goOn_aside cancelled fun call hphase => hcalling ⟨call, hphase⟩

/-- A new session on a device that an earlier scan has given back. -/
theorem InStep.launch {rig : Rig} {past : List Rig.Event} (hreached : Rig.Reached config rig past)
    (hlock : ∀ asked rest, rig.lock ≠ some (.request asked rest)) (device : String)
    (settings : ScanConfig) (work : WorkItem) :
    InStep config (.launch rig device config.layout settings work) :=
  ⟨⟨past, hreached⟩, ⟨fun _ => rfl, nofun, nofun⟩, .free hlock nofun trivial⟩

theorem Reached.inStep (h : Reached config trial) : InStep config trial := by
  induction h with
  | @launched rig past earlier free device settings work =>
    refine .launch earlier (fun asked rest hlock => ?_) device settings work
    have hheld := earlier.held_of_request hlock
    rw [free] at hheld
    exact absurd hheld nofun
  | @move trial move _ ih =>
    cases move with
    | scan cancelled => exact ih.goOn cancelled
    | launch device settings work =>
      simp only [act]
      split
      · next hended =>
        obtain ⟨⟨past, hreached⟩, -, hstep⟩ := ih
        have hidle : trial.scan.errand = none := by
          unfold Scan.errand
          split
          · next call hphase => simp [Scan.result?, hphase] at hended
          · rfl
        rw [hidle] at hstep
        cases hstep with
        | free lock => exact .launch hreached lock device settings work
      · exact ih
    | beside move =>
      simp only [act]
      split
      · next hbesides =>
        obtain ⟨⟨past, hreached⟩, horderly, hstep⟩ := ih
        have hmove : move.Aside := by
          refine ⟨?_, fun asked => ?_⟩
          · rintro rfl
            exact absurd hbesides nofun
          · rintro rfl
            exact absurd hbesides nofun
        exact ⟨⟨_, hreached.move move⟩, horderly, hstep.aside hreached hmove fun _ => trivial⟩
      · exact ih

/-! ### What is set, and when -/

def readyMask : CoreConfig := { layout := .mask, latency := 0, lastNonce := 0xffffffff, batch := 256 }

def hopelessWork : WorkItem where
  midstate := Bytes.zero 32
  tail := Bytes.zero 12
  target := 0

def firstScan : Trial := .launch {} "core" .mask {} hopelessWork

def loading : Trial := follow readyMask (List.replicate 12 (.scan false)) firstScan

end Campaign

end NonceSearch
