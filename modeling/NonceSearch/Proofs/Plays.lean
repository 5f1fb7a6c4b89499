import NonceSearch.Proofs.Sketches
import NonceSearch.Proofs.Tenures

/-!
# Plays

A play is a tenure in which no calls are made but those that every layout has, with what has come of
them. Its schedule leaves out the accesses that are a layout's own way to load a parameter or to select
a bank. Whatever the layout, a play looks as the sketch of its schedule does (`Play.Reached.fits`).
-/

namespace NonceSearch

/-! ### Plays -/

/-- Whether a deal is an access by which a layout loads a parameter, or selects a bank for a service.
    How many of them there are depends on the layout. -/
def Rig.transfers (layout : RegisterLayout) (deal : Deal) (rig : Rig) : Bool :=
  match deal, rig.lock with
  | .proceed, some (.request _ (.done _)) => false
  | .proceed, some (.request asked _) => asked.loads
  | .serve, some (.service (.write word _ _)) => layout == .mask && word == MaskWindow.command
  | _, _ => false

/-- What comes of a call or a read with a deal. A call that is out of turn fails when it is made. -/
def Tenure.result? (config : CoreConfig) (deal : Deal) (tenure : Tenure) : Option Session.Outcome :=
  match deal with
  | .ask ask =>
    let call := ask.call config.layout
    if tenure.errand.isSome then none
    else if call.allowed tenure.state then none
    else some (.answer (.error (call.refusal tenure.state)))
  | .proceed =>
    match tenure.errand, tenure.rig.returning with
    | some (.call made), some (_, reply) => some (.answer (made.settle tenure.state (.ok reply)).1)
    | _, _ => none
  | .tryCompletion =>
    some (.message (completionOf (tenure.rig.driver.tryRead CompletionMessage.size).1))
  | _ => none

/-- A session on a device, what has come of its calls and reads, and the schedule that it has gone by,
    each latest first. -/
structure Play where
  tenure : Tenure
  results : List Session.Outcome := []
  /-- The nonces that have been found, each with its search. -/
  finds : List (Job × UInt32) := []
  schedule : List Deal := []

namespace Play

variable (config : CoreConfig)

def move? (deal : Deal) (play : Play) : Option Tenure.Move :=
  match deal with
  | .ask ask => some (.take (.call (ask.call config.layout)))
  | .lock => play.tenure.errand.map fun errand => .rig (.request errand.request)
  | .proceed => some (.rig .proceed)
  | .serve => some (.rig .serve)
  | .search run => some (.rig (.search run))
  | .pass duration => some (.rig (.pass duration))
  | .tryCompletion => some (.rig (.read CompletionMessage.size))
  | .raiseSpurious => some (.rig .raiseSpurious)
  | .setHalted halted => some (.rig (.setHalted halted))

def go (deal : Deal) (play : Play) : Tenure :=
  match play.move? config deal with
  | some move => play.tenure.act config move
  | none => play.tenure

def act (deal : Deal) (play : Play) : Play where
  tenure := play.go config deal
  results := (play.tenure.result? config deal).toList ++ play.results
  finds := (play.tenure.rig.core.found? (play.go config deal).rig.core).toList ++ play.finds
  schedule := if play.tenure.rig.transfers config.layout deal then play.schedule
    else deal :: play.schedule

/-- A play can be reached from a session that has just been opened on a new driver and core. -/
inductive Reached : Play → Prop where
  | opened : Reached { tenure := .fresh config }
  | deal {play : Play} (deal : Deal) : Reached play → Reached (play.act config deal)

def follow : List Deal → Play → Play
  | [], play => play
  | deal :: deals, play => follow deals (play.act config deal)

variable {config} in
theorem Reached.follow {play : Play} (h : Reached config play) (deals : List Deal) :
    Reached config (follow config deals play) := by
  induction deals generalizing play with
  | nil => exact h
  | cons deal deals ih => exact ih (.deal deal h)

end Play

/-! ### Loads -/

namespace Core

variable {config : CoreConfig} {core : Core} {now : Nat}

/-- A write below the nonce candidate changes a parameter only. -/
theorem bare_write_count (hlayout : config.layout = .count) {word : Nat}
    (hword : word < CountWindow.nonceCandidate) (value : UInt32) :
    (core.write config now word value).bare = core.bare := by
  have hwrite : core.write config now word value = core.writeCount config now word value := by
    rw [write, hlayout]
  rw [hwrite, writeCount]
  by_cases hstate : word < CountWindow.tail
  · rw [if_pos hstate]
    simp only [bare]
  · by_cases htail : word < CountWindow.leadingZeros
    · rw [if_neg hstate, if_pos htail]
      simp only [bare]
    · have hzeros : word = CountWindow.leadingZeros :=
        Nat.le_antisymm (Nat.le_of_lt_succ hword) (Nat.le_of_not_lt htail)
      rw [if_neg hstate, if_neg htail, if_pos hzeros]
      simp only [bare]

/-- A selection is the mask layout's own. -/
theorem bare_select (hlayout : config.layout = .mask) (bank : Bank) :
    (core.write config now MaskWindow.command bank.select).bare = core.bare := by
  rw [write_select hlayout]
  rfl

/-- A write into a bank that holds a parameter changes that parameter only. -/
theorem bare_write_data (hlayout : config.layout = .mask) {bank : Bank} {k : Nat}
    (hplace : core.At bank k) (hbank : bank = .stateIn ∨ bank = .tail ∨ bank = .mask)
    (value : UInt32) : (core.write config now MaskWindow.data value).bare = core.bare := by
  have hput : (core.putBankWord bank core.cursor value).bare = core.bare := by
    unfold putBankWord
    split
    · rcases hbank with rfl | rfl | rfl <;> simp only [bare]
    · rfl
  rw [write_data hlayout, writeData, hplace.bank]
  exact hput

theorem At.select (hlayout : config.layout = .mask) (bank : Bank) :
    (core.write config now MaskWindow.command bank.select).At bank 0 := by
  rw [write_select hlayout]
  exact ⟨rfl, rfl⟩

end Core

namespace Bus

variable {config : CoreConfig}

/-- A program writes parameters and selects banks only, whatever the others do between its accesses, and
    ends without a value. -/
def Fills (config : CoreConfig) : Bus Reply → Core → Prop
  | .done reply, _ => reply = .done
  | .read _ _, _ => False
  | .write word value next, core => ∀ core' now, core.Drifts core' →
    (core'.write config now word value).bare = core'.bare ∧
      next.Fills config (core'.write config now word value)
  | .writeByte word value next, core => ∀ core' now, core.Drifts core' →
    (core'.write config now word value.toUInt32).bare = core'.bare ∧
      next.Fills config (core'.write config now word value.toUInt32)

variable {program : Bus Reply} {core next : Core}

theorem Fills.drift (h : program.Fills config core) (hdrift : core.Drifts next) :
    program.Fills config next := by
  cases program with
  | done reply => exact h
  | read word next => exact h
  | write word value rest => exact fun last now hlast => h last now (hdrift.trans hlast)
  | writeByte word value rest => exact fun last now hlast => h last now (hdrift.trans hlast)

theorem Fills.advance (h : program.Fills config core) (now : Nat) :
    (program.advance (Core.registerFile config now) core).2.bare = core.bare ∧
      (program.advance (Core.registerFile config now) core).1.Fills config
        (program.advance (Core.registerFile config now) core).2 := by
  cases program with
  | done reply => exact ⟨rfl, h⟩
  | read word next => exact h.elim
  | write word value rest => exact h core now (.refl core)
  | writeByte word value rest => exact h core now (.refl core)

theorem fills_putFrom (hlayout : config.layout = .count) {word : Nat} {values : List UInt32}
    (hwords : word + values.length ≤ CountWindow.nonceCandidate) (core : Core) :
    (Driver.andDone (putFrom word values)).Fills config core := by
  induction values generalizing word core with
  | nil => rfl
  | cons value values ih =>
    rw [List.length_cons] at hwords
    intro before now _
    exact ⟨Core.bare_write_count hlayout (by omega) value, ih (by omega) _⟩

theorem fills_writeBank (hlayout : config.layout = .mask) {bank : Bank}
    (hbank : bank = .stateIn ∨ bank = .tail ∨ bank = .mask) (values : List UInt32) (core : Core) :
    (Driver.andDone (Driver.writeBank bank values)).Fills config core := by
  -- once the bank is selected, it stays so
  have hwrites : ∀ k (core : Core), core.At bank k →
      (Driver.andDone (putAll MaskWindow.data values)).Fills config core := by
    induction values with
    | nil => exact fun _ _ _ => rfl
    | cons value values ih =>
      intro k core hplace before now hdrift
      have hbefore := hplace.drift hdrift
      exact ⟨Core.bare_write_data hlayout hbefore hbank value,
        ih (k + 1) _ (hbefore.write_data hlayout now value).1⟩
  intro before now _
  exact ⟨Core.bare_select hlayout bank, hwrites 0 _ (Core.At.select hlayout bank)⟩

end Bus

namespace Ask

variable {config : CoreConfig} {ask : Ask}

/-- Every layout has all of the calls. -/
theorem granted (layout : RegisterLayout) (ask : Ask) :
    ∃ program, Driver.program layout (ask.request layout) = .ok program := by
  cases ask with
  | load part work => cases part <;> cases layout <;> exact ⟨_, rfl⟩
  | _ => cases layout <;> exact ⟨_, rfl⟩

theorem loads_request (layout : RegisterLayout) (ask : Ask) :
    (ask.request layout).loads = ask.loads := by
  cases ask with
  | load part work => cases part <;> cases layout <;> rfl
  | _ => rfl

theorem fills (hask : ask.loads = true) {program : Bus Reply}
    (hprogram : Driver.program config.layout (ask.request config.layout) = .ok program) (core : Core) :
    program.Fills config core := by
  cases ask with
  | load part work =>
    cases hlayout : config.layout with
    | count =>
      rw [hlayout] at hprogram
      cases part with
      | midstate =>
        obtain rfl := Except.ok.inj hprogram
        exact Bus.fills_putFrom hlayout (by simp [CountWindow.stateIn, CountWindow.nonceCandidate]) core
      | tail =>
        obtain rfl := Except.ok.inj hprogram
        exact Bus.fills_putFrom hlayout (by simp [CountWindow.tail, CountWindow.nonceCandidate]) core
      | difficulty =>
        obtain rfl := Except.ok.inj hprogram
        exact fun before now _ => ⟨Core.bare_write_count hlayout (by decide) _, rfl⟩
    | mask =>
      rw [hlayout] at hprogram
      cases part with
      | midstate =>
        obtain rfl := Except.ok.inj hprogram
        exact Bus.fills_writeBank hlayout (.inl rfl) _ core
      | tail =>
        obtain rfl := Except.ok.inj hprogram
        exact Bus.fills_writeBank hlayout (.inr (.inl rfl)) _ core
      | difficulty =>
        obtain rfl := Except.ok.inj hprogram
        exact Bus.fills_writeBank hlayout (.inr (.inr rfl)) _ core
  | _ => cases hask

end Ask

/-! ### Single accesses -/

theorem Driver.program_nonceCurrent (layout : RegisterLayout) :
    Driver.program layout .getNonceCurrent =
      .ok (.read (nonceCurrentWord layout) fun word => .done (.word word)) := by
  cases layout <;> rfl

theorem Driver.read_nonceCurrentWord (config : CoreConfig) (now : Nat) (core : Core) :
    core.read config now (nonceCurrentWord config.layout) =
      ((core.refresh now).nonceCurrent, core.refresh now) := by
  unfold Core.read
  cases config.layout <;> rfl

/-! ### Services -/

namespace Driver

def candidateWord : RegisterLayout → Nat
  | .count => CountWindow.nonceCandidate
  | .mask => MaskWindow.data

def debugWord : RegisterLayout → Nat
  | .count => CountWindow.debugEnable
  | .mask => MaskWindow.data

def letRun (layout : RegisterLayout) (message : CompletionMessage) : Bus (Option CompletionMessage) :=
  .write (debugWord layout) 1 (.done (some message))

end Driver

/-- What is left of a program before an access that needs a bank on the mask layout: the bank may still
    have to be selected. -/
inductive Poised {α : Type} (config : CoreConfig) (bank : Bank) (access : Bus α) (core : Core) :
    Bus α → Prop where
  | selecting (layout : config.layout = .mask) :
    Poised config bank access core (.write MaskWindow.command bank.select access)
  | ready (selected : config.layout = .mask → core.At bank 0) : Poised config bank access core access

namespace Driver

variable {config : CoreConfig} {core : Core}

/-- What is left of a service that has seen a status, with its nonce to be read. -/
def latch (layout : RegisterLayout) (status : UInt32) : Bus (Option CompletionMessage) :=
  .read (candidateWord layout) fun nonce =>
    (setDebugEnable layout true).bind fun _ => .done (some ⟨status, nonce⟩)

theorem afterStatus_poised {status : UInt32} (h : (Status.mk status).isCompletion = true) :
    Poised config .nonceCandidate (latch config.layout status) core
      (afterStatus config.layout status) := by
  rw [afterStatus, if_pos h]
  unfold latch
  cases hlayout : config.layout with
  | count => exact .ready (by simp [hlayout])
  | mask => exact .selecting hlayout

theorem letRun_poised (message : CompletionMessage) :
    Poised config .debugEnable (letRun config.layout message) core
      ((setDebugEnable config.layout true).bind fun _ => .done (some message)) := by
  unfold letRun
  cases hlayout : config.layout with
  | count => exact .ready (by simp [hlayout])
  | mask => exact .selecting hlayout

/-- The nonce is read as it is when the reset that may be in progress has been noticed. -/
theorem read_candidateWord (hselected : config.layout = .mask → core.At .nonceCandidate 0) (now : Nat) :
    (core.read config now (candidateWord config.layout)).1 = (core.refresh now).nonceCandidate := by
  cases hlayout : config.layout with
  | count =>
    rw [Core.read, hlayout]
    rfl
  | mask =>
    obtain ⟨-, hread⟩ := (hselected hlayout).read_data hlayout now
    exact hread

theorem bare_write_debugWord (hselected : config.layout = .mask → core.At .debugEnable 0) (now : Nat) :
    (core.write config now (debugWord config.layout) 1).bare = core.bare.setHalted false := by
  cases hlayout : config.layout with
  | count =>
    rw [Core.write, hlayout]
    rfl
  | mask =>
    have hplace := hselected hlayout
    change (core.write config now MaskWindow.data 1).bare = _
    rw [Core.write_data hlayout, Core.writeData, hplace.bank, hplace.cursor]
    rfl

end Driver

namespace Rig

variable {config : CoreConfig} {move : Move}

theorem offBus_drifts (h : move.offBus = true) (rig : Rig) :
    rig.core.Drifts (rig.act config move).core ∧ (rig.act config move).lock = rig.lock := by
  cases move with
  | pass duration => exact ⟨.refl _, rfl⟩
  | raiseSpurious => exact ⟨Core.raiseSpurious_drifts, rfl⟩
  | setHalted halted => exact ⟨Core.setHalted_drifts halted, rfl⟩
  | read room =>
    simp only [act]
    split <;> exact ⟨.refl _, rfl⟩
  | search run =>
    simp only [act, search]
    split
    · split <;> exact ⟨.refl _, rfl⟩
    · exact ⟨Core.commit_drifts _ _ _, rfl⟩
  | _ => cases h

theorem act_waits {rig : Rig} (h : ∀ rest, rig.lock ≠ some (.service rest)) :
    rig.act config .serve = rig.answerCall config := by
  simp only [act, serve]
  split
  · next hlock => exact absurd hlock (h _)
  · next hlock => exact absurd hlock (h _)
  · rfl

theorem act_inspects {rig : Rig} {rest : Bus (Option CompletionMessage)}
    (hlock : rig.lock = some (.service rest)) (hrest : ∀ report, rest ≠ .done report) :
    rig.act config .serve = { rig with
      core := (rest.advance (rig.window config) rig.core).2
      lock := some (.service (rest.advance (rig.window config) rig.core).1) } := by
  cases rest with
  | done report => exact absurd rfl (hrest report)
  | _ => simp [act, serve, hlock]

theorem act_reports {rig : Rig} {report : Option CompletionMessage}
    (hlock : rig.lock = some (.service (.done report))) :
    rig.act config .serve =
      { rig with lock := none, driver := rig.driver.finishService report } := by
  simp [act, serve, hlock]

theorem returning_of_unfinished {rig : Rig} {asked : Request} {rest : Bus Reply}
    (hlock : rig.lock = some (.request asked rest)) (hrest : ∀ reply, rest ≠ .done reply) :
    rig.returning = none := by
  cases rest with
  | done reply => exact absurd rfl (hrest reply)
  | _ => simp [returning, hlock]

theorem returned_of_unfinished {rig : Rig} {asked : Request} {rest : Bus Reply}
    (hlock : rig.lock = some (.request asked rest)) (hrest : ∀ reply, rest ≠ .done reply) :
    rig.returned .proceed = [] := by
  cases rest with
  | done reply => exact absurd rfl (hrest reply)
  | _ => simp [returned, hlock]

theorem returned_of_offBus (h : move.offBus = true) (rig : Rig) : rig.returned move = [] := by
  cases move with
  | proceed => exact absurd h nofun
  | _ => rfl

end Rig

/-! ### What a play looks like -/

/-- What the holder of the lock has left to do, and how that looks in a sketch. -/
inductive Holds (config : CoreConfig) (core : Core) : Option LockHolder → Option Holder → Prop where
  | free : Holds config core none none
  | asking {ask : Ask} {program : Bus Reply} (loads : ask.loads = false)
    (granted : Driver.program config.layout (ask.request config.layout) = .ok program) :
    Holds config core (some (.request (ask.request config.layout) program)) (some (.asking ask))
  | answered (ask : Ask) (reply : Reply) :
    Holds config core (some (.request (ask.request config.layout) (.done reply)))
      (some (.answered ask reply))
  | filling {ask : Ask} {rest : Bus Reply} (loads : ask.loads = true)
    (fills : rest.Fills config core) :
    Holds config core (some (.request (ask.request config.layout) rest)) (some (.answered ask .done))
  | looking : Holds config core (some (.service (Driver.service config.layout))) (some .looking)
  | latching {status : UInt32} {rest : Bus (Option CompletionMessage)}
    (poised : Poised config .nonceCandidate (Driver.latch config.layout status) core rest) :
    Holds config core (some (.service rest)) (some (.latching status))
  | releasing {message : CompletionMessage} {rest : Bus (Option CompletionMessage)}
    (poised : Poised config .debugEnable (Driver.letRun config.layout message) core rest) :
    Holds config core (some (.service rest)) (some (.releasing message))
  | reporting (report : Option CompletionMessage) :
    Holds config core (some (.service (.done report))) (some (.reporting report))

section Holders

variable {config : CoreConfig} {core next : Core} {lock : Option LockHolder} {holder : Option Holder}

theorem Poised.drift {α : Type} {bank : Bank} {access rest : Bus α}
    (h : Poised config bank access core rest) (hdrift : core.Drifts next) :
    Poised config bank access next rest := by
  cases h with
  | selecting layout => exact .selecting layout
  | ready selected => exact .ready fun hlayout => (selected hlayout).drift hdrift

/-- What the searchers and the hooks do is nothing to the holder. -/
theorem Holds.drift (h : Holds config core lock holder) (hdrift : core.Drifts next) :
    Holds config next lock holder := by
  cases h with
  | free => exact .free
  | asking loads granted => exact .asking loads granted
  | answered ask reply => exact .answered ask reply
  | filling loads fills => exact .filling loads (fills.drift hdrift)
  | looking => exact .looking
  | latching poised => exact .latching (poised.drift hdrift)
  | releasing poised => exact .releasing (poised.drift hdrift)
  | reporting report => exact .reporting report

/-- A call begins with its lock. -/
theorem Holds.begins {ask : Ask} {program : Bus Reply}
    (hprogram : Driver.program config.layout (ask.request config.layout) = .ok program) (core : Core) :
    Holds config core (some (.request (ask.request config.layout) program))
      (some (if ask.loads then .answered ask .done else .asking ask)) := by
  cases hloads : ask.loads with
  | false => exact .asking hloads hprogram
  | true => exact .filling hloads (Ask.fills hloads hprogram core)

end Holders

/-! ### Deals -/

namespace Tenure

variable {config : CoreConfig} {tenure : Tenure} {sketch : Sketch}

/-- A tenure looks as a sketch does. -/
structure Fits (config : CoreConfig) (tenure : Tenure) (sketch : Sketch) : Prop where
  rig : sketch.rig = tenure.rig.bare
  holds : Holds config tenure.rig.core tenure.rig.lock sketch.holder
  state : sketch.state = tenure.state
  errand : tenure.errand = sketch.errand.map fun ask => .call (ask.call config.layout)
  asking : ∀ ask, sketch.holder = some (.asking ask) → sketch.errand = some ask
  answered : ∀ ask reply, sketch.holder = some (.answered ask reply) → sketch.errand = some ask
  served : Rig.Served config tenure.rig (sketch.carriedOut.map (Ask.request config.layout))

theorem act_of_offBus {move : Rig.Move} (hmove : move.offBus = true) :
    tenure.act config (.rig move) = { tenure with rig := tenure.rig.act config move } := by
  cases move with
  | search run => rfl
  | pass duration => rfl
  | read room => rfl
  | raiseSpurious => rfl
  | setHalted halted => rfl
  | _ => cases hmove

theorem Fits.moveRig (h : tenure.Fits config sketch) (move : Rig.Move)
    (hmove : move.offBus = true) :
    (tenure.act config (.rig move)).Fits config (sketch.moveRig config move) := by
  obtain ⟨hrig, hholds, hstate, herrand, hasking, hanswered, hserved⟩ := h
  obtain ⟨hdrifts, hlock⟩ := @Rig.offBus_drifts config move hmove tenure.rig
  rw [act_of_offBus hmove]
  refine ⟨?_, ?_, hstate, herrand, hasking, hanswered, ?_⟩
  · rw [Sketch.moveRig, hrig, Rig.bare_act hmove]
  · rw [hlock]
    exact hholds.drift hdrifts
  · have hnext := hserved.move move
    rwa [Rig.returned_of_offBus hmove] at hnext

theorem Fits.take (h : tenure.Fits config sketch) (ask : Ask) :
    (tenure.act config (.take (.call (ask.call config.layout)))).Fits config
      (sketch.take config ask) := by
  obtain ⟨hrig, hholds, hstate, herrand, hasking, hanswered, hserved⟩ := id h
  obtain ⟨program, hprogram⟩ := Ask.granted config.layout ask
  have hprogram' : Driver.program config.layout (Errand.call (ask.call config.layout)).request =
      .ok program := hprogram
  have hallowed : (Errand.call (ask.call config.layout)).allowed tenure.state =
      (ask.call config.layout).allowed sketch.state := by
    rw [hstate]
    rfl
  simp only [act, Tenure.take, Sketch.take, herrand, hprogram', hallowed]
  cases hunderway : sketch.errand with
  | some other => exact h
  | none =>
    have hnever : (∀ other, sketch.holder ≠ some (.asking other)) ∧
        ∀ other reply, sketch.holder ≠ some (.answered other reply) := by
      refine ⟨fun other hother => ?_, fun other reply hother => ?_⟩
      · cases (hasking other hother).symm.trans hunderway
      · cases (hanswered other reply hother).symm.trans hunderway
    by_cases hturn : (ask.call config.layout).allowed sketch.state = true
    · simp only [hturn]
      exact ⟨hrig, hholds, hstate, rfl, fun other hother => absurd hother (hnever.1 other),
        fun other reply hother => absurd hother (hnever.2 other reply), hserved⟩
    · simp only [hturn]
      exact ⟨hrig, hholds, hstate, herrand.trans (congrArg _ hunderway),
        fun other hother => absurd hother (hnever.1 other),
        fun other reply hother => absurd hother (hnever.2 other reply), hserved⟩

theorem Fits.take_results (h : tenure.Fits config sketch) (ask : Ask) :
    (sketch.take config ask).results =
      (tenure.result? config (.ask ask)).toList ++ sketch.results := by
  have hbusy : tenure.errand.isSome = sketch.errand.isSome := by simp [h.errand]
  simp only [Sketch.take, result?, hbusy, h.state]
  split
  · rfl
  · split <;> rfl

/-- The call that is under way gets the lock if nobody else has it. -/
theorem Fits.lock (h : tenure.Fits config sketch) {ask : Ask} (hask : sketch.errand = some ask) :
    (tenure.act config (.rig (.request (ask.request config.layout)))).Fits config sketch.lock := by
  obtain ⟨hrig, hholds, hstate, herrand, hasking, hanswered, hserved⟩ := id h
  obtain ⟨program, hprogram⟩ := Ask.granted config.layout ask
  have hunderway : tenure.errand = some (.call (ask.call config.layout)) := by
    rw [herrand, hask]
    rfl
  have hpermits : tenure.permits (.request (ask.request config.layout)) = true := by
    simp only [permits, hunderway, Option.any_some]
    exact beq_self_eq_true _
  have hact : tenure.act config (.rig (.request (ask.request config.layout))) =
      { tenure with rig := tenure.rig.beginRequest config (ask.request config.layout) } := by
    simp only [act, hpermits, if_true]
    rfl
  have hheld : sketch.rig.driver.held = tenure.rig.driver.held := by
    rw [hrig]
    rfl
  rw [hact]
  simp only [Sketch.lock, Rig.beginRequest, hask, hheld, hprogram]
  cases hdriver : tenure.rig.driver.held with
  | false => exact h
  | true =>
    generalize hlock : tenure.rig.lock = lock at hholds
    generalize hholder : sketch.holder = holder at hholds
    cases hholds with
    | free =>
      refine ⟨hrig, Holds.begins hprogram _, hstate, hunderway, ?_, ?_, ?_⟩
      · intro other hother
        have hsame := Option.some.inj hother
        split at hsame
        · cases hsame
        · cases hsame
          rfl
      · intro other reply hother
        have hsame := Option.some.inj hother
        split at hsame
        · cases hsame
          rfl
        · cases hsame
      · have hnext := hserved.move (.request (ask.request config.layout))
        have hbegins : tenure.rig.act config (.request (ask.request config.layout)) =
            { tenure.rig with lock := some (.request (ask.request config.layout) program) } := by
          simp [Rig.act, Rig.beginRequest, hdriver, hlock, hprogram]
        rw [hbegins] at hnext
        exact hnext
    | _ => exact h

/-- A start searches for what has been loaded. -/
theorem Fits.newJob (h : tenure.Fits config sketch) {rest : Bus Reply}
    (hlock : tenure.rig.lock = some (.request .start rest)) :
    tenure.rig.core.newJob config = sketch.newJob config := by
  obtain ⟨-, hconfigured⟩ := h.served.configured
  have hhas : tenure.rig.core.parameters =
      .after (sketch.carriedOut.map (Ask.request config.layout)) := by
    refine hconfigured.has fun asked left hother => ?_
    obtain ⟨rfl, -⟩ : asked = .start ∧ _ := by simpa [hlock, eq_comm] using hother
    rfl
  rw [Core.newJob_eq, hhas]
  rfl

/-- A call that is no load makes one access, and is answered. -/
theorem Fits.access (h : tenure.Fits config sketch) {ask : Ask} (hask : ask.loads = false)
    {program : Bus Reply}
    (hprogram : Driver.program config.layout (ask.request config.layout) = .ok program)
    (hlock : tenure.rig.lock = some (.request (ask.request config.layout) program)) :
    (∀ reply, program ≠ .done reply) ∧
      (program.advance (tenure.rig.window config) tenure.rig.core).1 =
        .done (sketch.access config ask).1 ∧
      (program.advance (tenure.rig.window config) tenure.rig.core).2.bare =
        (sketch.access config ask).2 := by
  have hcore : sketch.rig.core = tenure.rig.core.bare := by
    rw [h.rig]
    rfl
  have hnow : sketch.rig.now = tenure.rig.now := by
    rw [h.rig]
    rfl
  have hcommand : ∀ command, Driver.commandOf (ask.request config.layout) = some command →
      program = .write (Driver.commandWord config.layout) command (.done .done) := by
    intro command hcommand
    rw [Driver.program_command config.layout hcommand] at hprogram
    exact (Except.ok.inj hprogram).symm
  simp only [Sketch.access, hcore, hnow]
  cases ask with
  | reset =>
    obtain rfl := hcommand _ rfl
    refine ⟨by simp, rfl, ?_⟩
    have hwrite := @Core.write_reset config tenure.rig.core tenure.rig.now
    simp only [Bus.advance, Rig.window, Core.registerFile, hwrite]
    exact Core.bare_reset
  | start =>
    have hjob := h.newJob hlock
    obtain rfl := hcommand _ rfl
    refine ⟨by simp, rfl, ?_⟩
    have hwrite := @Core.write_start config tenure.rig.core tenure.rig.now
    simp only [Bus.advance, Rig.window, Core.registerFile, hwrite, Core.start_eq, hjob]
    exact Core.bare_begin _
  | step =>
    obtain rfl := hcommand _ rfl
    refine ⟨by simp, rfl, ?_⟩
    have hwrite := @Core.write_step config tenure.rig.core tenure.rig.now
    simp only [Bus.advance, Rig.window, Core.registerFile, hwrite]
    exact Core.bare_step
  | status =>
    have hgranted := hprogram.symm.trans (Driver.program_status config.layout)
    obtain rfl := Except.ok.inj hgranted
    have hread := Driver.read_statusWord config tenure.rig.now tenure.rig.core
    refine ⟨by simp, ?_, ?_⟩
    · simp only [Bus.advance, Rig.window, Core.registerFile, hread, ← Core.bare_refresh]
      rfl
    · simp only [Bus.advance, Rig.window, Core.registerFile, hread, ← Core.bare_refresh]
  | currentNonce =>
    have hgranted := hprogram.symm.trans (Driver.program_nonceCurrent config.layout)
    obtain rfl := Except.ok.inj hgranted
    have hread := Driver.read_nonceCurrentWord config tenure.rig.now tenure.rig.core
    refine ⟨by simp, ?_, ?_⟩
    · simp only [Bus.advance, Rig.window, Core.registerFile, hread, ← Core.bare_refresh]
      rfl
    · simp only [Bus.advance, Rig.window, Core.registerFile, hread, ← Core.bare_refresh]
  | load part work => cases hask

theorem act_of_unanswered (h : tenure.rig.returning = none) :
    tenure.act config (.rig .proceed) = { tenure with rig := tenure.rig.act config .proceed } := by
  simp only [act, permits, if_true, goOn, h]
  cases tenure.errand <;> rfl

theorem act_of_answered {errand : Errand} (herrand : tenure.errand = some errand) {asked : Request}
    {reply : Reply} (hlock : tenure.rig.lock = some (.request asked (.done reply))) :
    tenure.act config (.rig .proceed) =
      { rig := { tenure.rig with lock := none, driver := tenure.rig.driver.finishRequest asked }
        state := errand.settle tenure.state (.ok reply) } := by
  have hreturning : tenure.rig.returning = some (asked, reply) := by
    simp [Rig.returning, hlock]
  simp only [act, permits, if_true, goOn, herrand, hreturning, Rig.act_returns hlock]

/-- A call returns. -/
theorem Fits.returns (h : tenure.Fits config sketch) {ask : Ask} {reply : Reply}
    (hlock : tenure.rig.lock = some (.request (ask.request config.layout) (.done reply)))
    (hholder : sketch.holder = some (.answered ask reply)) :
    (tenure.act config (.rig .proceed)).Fits config (sketch.proceed config) ∧
      (sketch.proceed config).results =
        (tenure.result? config .proceed).toList ++ sketch.results := by
  obtain ⟨hrig, hholds, hstate, herrand, hasking, hanswered, hserved⟩ := h
  have hunderway : tenure.errand = some (.call (ask.call config.layout)) := by
    rw [herrand, hanswered ask reply hholder]
    rfl
  have hreturning : tenure.rig.returning = some (ask.request config.layout, reply) := by
    simp [Rig.returning, hlock]
  have hreturned : tenure.rig.returned .proceed = [ask.request config.layout] := by
    simp [Rig.returned, hlock]
  rw [act_of_answered hunderway hlock]
  simp only [Sketch.proceed, hholder]
  refine ⟨⟨?_, .free, ?_, rfl, by simp, by simp, ?_⟩, ?_⟩
  · rw [hrig]
    rfl
  · rw [hstate]
    rfl
  · have hnext := hserved.move .proceed
    rw [Rig.act_returns hlock, hreturned] at hnext
    exact hnext
  · simp only [result?, hunderway, hreturning, hstate]
    rfl

/-- The holder of the lock goes on. -/
theorem Fits.proceed (h : tenure.Fits config sketch)
    (hvisible : tenure.rig.transfers config.layout .proceed = false) :
    (tenure.act config (.rig .proceed)).Fits config (sketch.proceed config) ∧
      (sketch.proceed config).results =
        (tenure.result? config .proceed).toList ++ sketch.results := by
  obtain ⟨hrig, hholds, hstate, herrand, hasking, hanswered, hserved⟩ := id h
  generalize hlock : tenure.rig.lock = lock at hholds
  generalize hholder : sketch.holder = holder at hholds
  -- without a request that has the lock there is nothing to go on with
  have hidle : (∀ asked rest, lock ≠ some (.request asked rest)) → sketch.proceed config = sketch →
      (tenure.act config (.rig .proceed)).Fits config (sketch.proceed config) ∧
        (sketch.proceed config).results =
          (tenure.result? config .proceed).toList ++ sketch.results := by
    intro hnone hsame
    subst hlock
    have hreturning : tenure.rig.returning = none := by
      unfold Rig.returning
      split
      · next hdone => exact absurd hdone (hnone _ _)
      · rfl
    have hact : tenure.rig.act config .proceed = tenure.rig := by
      simp only [Rig.act, Rig.proceed]
      split
      · next hdone => exact absurd hdone (hnone _ _)
      · next hrest => exact absurd hrest (hnone _ _)
      · rfl
    rw [act_of_unanswered hreturning, hact, hsame]
    refine ⟨h, ?_⟩
    simp [result?, hreturning]
  cases hholds with
  | free => exact hidle (by simp) (by simp [Sketch.proceed, hholder])
  | looking => exact hidle (by simp) (by simp [Sketch.proceed, hholder])
  | latching poised => exact hidle (by simp) (by simp [Sketch.proceed, hholder])
  | releasing poised => exact hidle (by simp) (by simp [Sketch.proceed, hholder])
  | reporting report => exact hidle (by simp) (by simp [Sketch.proceed, hholder])
  | answered ask reply => exact h.returns hlock hholder
  | @filling ask rest loads fills =>
    cases rest with
    | done reply =>
      obtain rfl : reply = .done := fills
      exact h.returns hlock hholder
    | read word next => exact fills.elim
    | write word value next =>
      simp [Rig.transfers, hlock, Ask.loads_request, loads] at hvisible
    | writeByte word value next =>
      simp [Rig.transfers, hlock, Ask.loads_request, loads] at hvisible
  | @asking ask program loads granted =>
    obtain ⟨hunfinished, hreply, hcore⟩ := h.access loads granted hlock
    have hreturning := Rig.returning_of_unfinished hlock hunfinished
    have hreturned := Rig.returned_of_unfinished hlock hunfinished
    have hact := @Rig.act_access config _ _ _ hlock hunfinished
    have hunderway := hasking ask hholder
    rw [act_of_unanswered hreturning]
    simp only [Sketch.proceed, hholder]
    refine ⟨⟨?_, ?_, hstate, herrand, by simp, ?_, ?_⟩, ?_⟩
    · rw [hact, hrig]
      simp only [Rig.bare, hcore]
    · rw [hact]
      simp only [hreply]
      exact .answered ask _
    · intro other reply hother
      cases Option.some.inj hother
      exact hunderway
    · have hnext := hserved.move .proceed
      rwa [hreturned] at hnext
    · simp [result?, hreturning]

/-- The service thread does nothing to the session, and returns no call. -/
theorem act_serve : tenure.act config (.rig .serve) =
    { tenure with rig := tenure.rig.act config .serve } := rfl

/-- The service thread has a turn, after which a call has the lock only if it had it before. -/
theorem Fits.turn (h : tenure.Fits config sketch) {rig : Rig}
    (hact : tenure.rig.act config .serve = rig) {holder : Option Holder}
    (hholds : Holds config rig.core rig.lock holder)
    (hasking : ∀ ask, holder = some (.asking ask) → sketch.errand = some ask)
    (hanswered : ∀ ask reply, holder = some (.answered ask reply) → sketch.errand = some ask) :
    (tenure.act config (.rig .serve)).Fits config { sketch with rig := rig.bare, holder := holder } := by
  have hserved : Rig.Served config (tenure.rig.act config .serve)
      (sketch.carriedOut.map (Ask.request config.layout)) := h.served.move .serve
  rw [hact] at hserved
  rw [act_serve, hact]
  exact ⟨rfl, hholds, h.state, h.errand, hasking, hanswered, hserved⟩

/-- The service thread looks for an interrupt, or for the lock. -/
theorem Fits.answerCall (h : tenure.Fits config sketch)
    (hact : tenure.rig.act config .serve = tenure.rig.answerCall config) :
    (tenure.act config (.rig .serve)).Fits config sketch.answerCall := by
  have hholds := h.holds
  have hcalled : sketch.rig.called = tenure.rig.called := by rw [h.rig]; rfl
  have htaken : sketch.rig.taken = tenure.rig.taken := by rw [h.rig]; rfl
  have hraised : sketch.rig.core.raised = tenure.rig.core.raised := by rw [h.rig]; rfl
  have hstays : tenure.rig.answerCall config = tenure.rig → sketch.answerCall = sketch →
      (tenure.act config (.rig .serve)).Fits config sketch.answerCall := by
    intro hsame hsketch
    rw [act_serve, hact, hsame, hsketch]
    exact h
  by_cases hcall : tenure.rig.called = true
  · generalize hlock : tenure.rig.lock = lock at hholds
    generalize hholder : sketch.holder = holder at hholds
    cases hholds with
    | free =>
      have hrig : tenure.rig.answerCall config = { tenure.rig with
          called := false, lock := some (.service (Driver.service config.layout)) } := by
        simp [Rig.answerCall, hcall, hlock]
      have hsketch : sketch.answerCall =
          { sketch with rig := { sketch.rig with called := false }, holder := some .looking } := by
        simp [Sketch.answerCall, hcalled, hcall, hholder]
      rw [hrig] at hact
      rw [hsketch, h.rig]
      exact h.turn hact .looking (by simp) (by simp)
    | _ =>
      exact hstays (by simp [Rig.answerCall, hcall, hlock])
        (by simp [Sketch.answerCall, hcalled, hcall, hholder])
  · by_cases hpending : tenure.rig.taken < tenure.rig.core.raised
    · have hrig : tenure.rig.answerCall config =
          { tenure.rig with taken := tenure.rig.taken + 1, called := true } := by
        simp [Rig.answerCall, hcall, hpending]
      have hsketch : sketch.answerCall =
          { sketch with rig := { sketch.rig with taken := sketch.rig.taken + 1, called := true } } := by
        simp [Sketch.answerCall, hcalled, hcall, htaken, hraised, hpending]
      rw [hrig] at hact
      rw [hsketch, h.rig]
      exact h.turn hact hholds h.asking h.answered
    · exact hstays (by simp [Rig.answerCall, hcall, hpending])
        (by simp [Sketch.answerCall, hcalled, hcall, htaken, hraised, hpending])

/-- The service sees whether its interrupt brings a result. -/
theorem Fits.looks (h : tenure.Fits config sketch)
    (hlock : tenure.rig.lock = some (.service (Driver.service config.layout)))
    (hholder : sketch.holder = some .looking) :
    (tenure.act config (.rig .serve)).Fits config sketch.serve := by
  rw [Driver.service_eq] at hlock
  have hact := @Rig.act_inspects config _ _ hlock (by simp)
  have hread := Driver.read_statusWord config tenure.rig.now tenure.rig.core
  simp only [Bus.advance, Rig.window, Core.registerFile, hread] at hact
  let seen := tenure.rig.core.refresh tenure.rig.now
  let next : Holder :=
    if seen.status.isCompletion then .latching seen.status.bits else .reporting none
  have hnext : Holds config seen (some (.service (Driver.afterStatus config.layout seen.status.bits)))
      (some next) := by
    by_cases hcompletion : seen.status.isCompletion = true
    · simp only [next, if_pos hcompletion]
      exact .latching (Driver.afterStatus_poised hcompletion)
    · have hspurious : Driver.afterStatus config.layout seen.status.bits = .done none :=
        if_neg hcompletion
      simp only [next, if_neg hcompletion, hspurious]
      exact .reporting none
  have hsketch : sketch.serve = { sketch with
      rig := { tenure.rig with core := seen.bare, lock := none }, holder := some next } := by
    simp only [Sketch.serve, hholder, h.rig, Rig.bare, ← Core.bare_refresh]
    rfl
  rw [hsketch]
  refine h.turn hact hnext (fun ask hask => ?_) fun ask reply hask => ?_
  · have hsame : next = .asking ask := Option.some.inj hask
    simp only [next] at hsame
    split at hsame <;> cases hsame
  · have hsame : next = .answered ask reply := Option.some.inj hask
    simp only [next] at hsame
    split at hsame <;> cases hsame

/-- The service reads the nonce of the result. -/
theorem Fits.latches (h : tenure.Fits config sketch) {status : UInt32}
    (hselected : config.layout = .mask → tenure.rig.core.At .nonceCandidate 0)
    (hlock : tenure.rig.lock = some (.service (Driver.latch config.layout status)))
    (hholder : sketch.holder = some (.latching status)) :
    (tenure.act config (.rig .serve)).Fits config sketch.serve := by
  have hact := @Rig.act_inspects config _ _ hlock (by simp [Driver.latch])
  let message : CompletionMessage := ⟨status, (tenure.rig.core.refresh tenure.rig.now).nonceCandidate⟩
  have hcandidate := Driver.read_candidateWord hselected tenure.rig.now
  have hbare := @Core.bare_read config tenure.rig.core tenure.rig.now (Driver.candidateWord config.layout)
  simp only [Driver.latch, Bus.advance, Rig.window, Core.registerFile, hcandidate] at hact
  have hsketch : sketch.serve = { sketch with
      rig := { tenure.rig with
        core := (tenure.rig.core.read config tenure.rig.now
          (Driver.candidateWord config.layout)).2.bare
        lock := none }
      holder := some (.releasing message) } := by
    simp only [Sketch.serve, hholder, h.rig, Rig.bare, hbare, ← Core.bare_refresh]
    rfl
  rw [hsketch]
  exact h.turn hact (.releasing (Driver.letRun_poised message)) (by simp) (by simp)

/-- The service lets the core run. -/
theorem Fits.releases (h : tenure.Fits config sketch) {message : CompletionMessage}
    (hselected : config.layout = .mask → tenure.rig.core.At .debugEnable 0)
    (hlock : tenure.rig.lock = some (.service (Driver.letRun config.layout message)))
    (hholder : sketch.holder = some (.releasing message)) :
    (tenure.act config (.rig .serve)).Fits config sketch.serve := by
  have hact := @Rig.act_inspects config _ _ hlock (by simp [Driver.letRun])
  have hbare := Driver.bare_write_debugWord hselected tenure.rig.now
  simp only [Driver.letRun, Bus.advance, Rig.window, Core.registerFile] at hact
  have hsketch : sketch.serve = { sketch with
      rig := { tenure.rig with
        core := (tenure.rig.core.write config tenure.rig.now (Driver.debugWord config.layout) 1).bare
        lock := none }
      holder := some (.reporting (some message)) } := by
    simp only [Sketch.serve, hholder, h.rig, Rig.bare, hbare]
  rw [hsketch]
  exact h.turn hact (.reporting (some message)) (by simp) (by simp)

/-- The service thread goes on. -/
theorem Fits.serve (h : tenure.Fits config sketch)
    (hvisible : tenure.rig.transfers config.layout .serve = false) :
    (tenure.act config (.rig .serve)).Fits config sketch.serve := by
  have hholds := h.holds
  generalize hlock : tenure.rig.lock = lock at hholds
  generalize hholder : sketch.holder = holder at hholds
  have hwaits : (∀ rest, lock ≠ some (.service rest)) → sketch.serve = sketch.answerCall →
      (tenure.act config (.rig .serve)).Fits config sketch.serve := by
    intro hnone hserve
    rw [← hlock] at hnone
    rw [hserve]
    exact h.answerCall (Rig.act_waits hnone)
  cases hholds with
  | free => exact hwaits (by simp) (by simp [Sketch.serve, hholder])
  | asking loads granted => exact hwaits (by simp) (by simp [Sketch.serve, hholder])
  | answered ask reply => exact hwaits (by simp) (by simp [Sketch.serve, hholder])
  | filling loads fills => exact hwaits (by simp) (by simp [Sketch.serve, hholder])
  | looking => exact h.looks hlock hholder
  | latching poised =>
    cases poised with
    | selecting layout => simp [Rig.transfers, hlock, layout] at hvisible
    | ready selected => exact h.latches selected hlock hholder
  | releasing poised =>
    cases poised with
    | selecting layout => simp [Rig.transfers, hlock, layout] at hvisible
    | ready selected => exact h.releases selected hlock hholder
  | reporting report =>
    have hact := @Rig.act_reports config _ _ hlock
    have hsketch : sketch.serve = { sketch with
        rig := { tenure.rig.bare with driver := tenure.rig.driver.finishService report }
        holder := none } := by
      simp only [Sketch.serve, hholder, h.rig]
      rfl
    rw [hsketch]
    exact h.turn hact .free (by simp) (by simp)

/-- What a transfer is: an access of a load, or the selection of a bank by a service. -/
theorem Fits.of_transfers (h : tenure.Fits config sketch) {deal : Deal}
    (htransfers : tenure.rig.transfers config.layout deal = true) :
    (∃ ask rest, deal = .proceed ∧ (∀ reply, rest ≠ .done reply) ∧
      tenure.rig.lock = some (.request (ask.request config.layout) rest) ∧
      ask.loads = true ∧ rest.Fills config tenure.rig.core ∧
      sketch.holder = some (.answered ask .done)) ∨
    ∃ bank access, deal = .serve ∧ config.layout = .mask ∧
      tenure.rig.lock = some (.service (.write MaskWindow.command bank.select access)) ∧
      (∀ core : Core, core.At bank 0 → Holds config core (some (.service access)) sketch.holder) := by
  have hholds := h.holds
  unfold Rig.transfers at htransfers
  split at htransfers
  · exact absurd htransfers nofun
  · next asked rest hunfinished hlock =>
    left
    rw [hlock] at hholds
    generalize hholder : sketch.holder = holder at hholds
    cases hholds with
    | asking loads granted => rw [Ask.loads_request, loads] at htransfers; exact absurd htransfers nofun
    | answered ask reply => exact (hunfinished _ rfl).elim
    | @filling ask rest loads fills =>
      exact ⟨ask, rest, rfl, hunfinished, hlock, loads, fills, rfl⟩
  · next word value next hlock =>
    right
    obtain ⟨hlayout, rfl⟩ : config.layout = .mask ∧ word = MaskWindow.command := by
      simpa using htransfers
    rw [hlock] at hholds
    generalize hholder : sketch.holder = holder at hholds
    generalize hrest : Bus.write MaskWindow.command value next = rest at hholds
    cases hholds with
    | looking =>
      rw [Driver.service_eq] at hrest
      cases hrest
    | reporting report => cases hrest
    | latching poised =>
      cases poised with
      | selecting layout =>
        cases hrest
        exact ⟨_, _, rfl, hlayout, hlock, fun core hcore => .latching (.ready fun _ => hcore)⟩
      | ready selected => cases hrest
    | releasing poised =>
      cases poised with
      | selecting layout =>
        cases hrest
        exact ⟨_, _, rfl, hlayout, hlock, fun core hcore => .releasing (.ready fun _ => hcore)⟩
      | ready selected =>
        unfold Driver.letRun at hrest
        injection hrest with hword
        rw [hlayout] at hword
        exact absurd hword (by decide)
  · exact absurd htransfers nofun

/-- An access of a load is nothing to the sketch. -/
theorem Fits.fill (h : tenure.Fits config sketch) {ask : Ask} {rest : Bus Reply}
    (hrest : ∀ reply, rest ≠ .done reply)
    (hlock : tenure.rig.lock = some (.request (ask.request config.layout) rest))
    (hloads : ask.loads = true) (hfills : rest.Fills config tenure.rig.core)
    (hholder : sketch.holder = some (.answered ask .done)) :
    (tenure.act config (.rig .proceed)).Fits config sketch ∧
      (tenure.act config (.rig .proceed)).rig.core.bare = tenure.rig.core.bare ∧
      tenure.result? config .proceed = none := by
  have hreturning : tenure.rig.returning = none := Rig.returning_of_unfinished hlock hrest
  have hreturned : tenure.rig.returned .proceed = [] := Rig.returned_of_unfinished hlock hrest
  have hact := @Rig.act_access config _ _ _ hlock hrest
  have hserved := h.served.move .proceed
  obtain ⟨hbare, hleft⟩ := hfills.advance tenure.rig.now
  rw [hreturned] at hserved
  rw [act_of_unanswered hreturning]
  refine ⟨⟨?_, ?_, h.state, h.errand, h.asking, h.answered, hserved⟩, ?_, ?_⟩
  · rw [hact, h.rig]
    simp only [Rig.bare]
    exact congrArg (fun core => { tenure.rig with core := core, lock := none }) hbare.symm
  · rw [hact, hholder]
    exact .filling hloads hleft
  · rw [hact]
    exact hbare
  · simp [result?, hreturning]

/-- The selection of a bank is nothing to the sketch. -/
theorem Fits.select (h : tenure.Fits config sketch) (hlayout : config.layout = .mask) {bank : Bank}
    {access : Bus (Option CompletionMessage)}
    (hlock : tenure.rig.lock = some (.service (.write MaskWindow.command bank.select access)))
    (hselected : ∀ core : Core, core.At bank 0 →
      Holds config core (some (.service access)) sketch.holder) :
    (tenure.act config (.rig .serve)).Fits config sketch ∧
      (tenure.act config (.rig .serve)).rig.core.bare = tenure.rig.core.bare := by
  have hact := @Rig.act_inspects config _ _ hlock nofun
  have hserved : Rig.Served config (tenure.rig.act config .serve)
      (sketch.carriedOut.map (Ask.request config.layout)) := h.served.move .serve
  have hbare := @Core.bare_select config tenure.rig.core tenure.rig.now hlayout bank
  have hplace := @Core.At.select config tenure.rig.core tenure.rig.now hlayout bank
  rw [act_serve]
  refine ⟨⟨?_, ?_, h.state, h.errand, h.asking, h.answered, hserved⟩, ?_⟩
  · rw [hact, h.rig]
    simp only [Rig.bare]
    exact congrArg (fun core => { tenure.rig with core := core, lock := none }) hbare.symm
  · rw [hact]
    exact hselected _ hplace
  · rw [hact]
    exact hbare

end Tenure

/-! ### Plays and sketches -/

namespace Play

variable {config : CoreConfig} {play : Play} {sketch : Sketch} {deal : Deal}

/-- A play looks as a sketch does, and the same has come of it. -/
structure Fits (config : CoreConfig) (play : Play) (sketch : Sketch) : Prop where
  tenure : play.tenure.Fits config sketch
  results : sketch.results = play.results
  finds : sketch.finds = play.finds

/-- A transfer is nothing to the sketch. -/
theorem Fits.transfer (h : play.Fits config sketch)
    (htransfers : play.tenure.rig.transfers config.layout deal = true) :
    (play.act config deal).Fits config sketch := by
  have hkeeps : (play.go config deal).Fits config sketch ∧
      (play.go config deal).rig.core.bare = play.tenure.rig.core.bare ∧
      play.tenure.result? config deal = none := by
    rcases h.tenure.of_transfers htransfers with
      ⟨ask, rest, rfl, hrest, hlock, hloads, hfills, hholder⟩
      | ⟨bank, access, rfl, hlayout, hlock, hselected⟩
    · exact h.tenure.fill hrest hlock hloads hfills hholder
    · obtain ⟨hfits, hbare⟩ := h.tenure.select hlayout hlock hselected
      exact ⟨hfits, hbare, rfl⟩
  obtain ⟨hfits, hbare, hresult⟩ := hkeeps
  refine ⟨hfits, ?_, ?_⟩
  · simp only [act, hresult]
    exact h.results
  · have hfound : play.tenure.rig.core.found? (play.go config deal).rig.core = none := by
      rw [← Core.found?_bare, hbare]
      exact Core.found?_self _
    simp only [act, hfound]
    exact h.finds

/-- Any other deal is the same on the play and on the sketch. -/
theorem Fits.act (h : play.Fits config sketch)
    (hvisible : play.tenure.rig.transfers config.layout deal = false) :
    (play.act config deal).Fits config (sketch.act config deal) := by
  have hgoes : (play.go config deal).Fits config (sketch.advance config deal) ∧
      (sketch.advance config deal).results =
        (play.tenure.result? config deal).toList ++ sketch.results := by
    cases deal with
    | ask ask => exact ⟨h.tenure.take ask, h.tenure.take_results ask⟩
    | lock =>
      cases hask : sketch.errand with
      | none =>
        have hidle : play.tenure.errand = none := by rw [h.tenure.errand, hask]; rfl
        have hgo : play.go config .lock = play.tenure := by simp [go, move?, hidle]
        have hsketch : sketch.advance config .lock = sketch := by
          simp [Sketch.advance, Sketch.lock, hask]
        rw [hgo, hsketch]
        exact ⟨h.tenure, rfl⟩
      | some ask =>
        have hunderway : play.tenure.errand = some (.call (ask.call config.layout)) := by
          rw [h.tenure.errand, hask]
          rfl
        have hgo : play.go config .lock =
            play.tenure.act config (.rig (.request (ask.request config.layout))) := by
          simp only [go, move?, hunderway, Option.map_some]
          rfl
        rw [hgo]
        exact ⟨h.tenure.lock hask, sketch.lock_results⟩
    | proceed => exact h.tenure.proceed hvisible
    | serve => exact ⟨h.tenure.serve hvisible, sketch.serve_results⟩
    | search run => exact ⟨h.tenure.moveRig (.search run) rfl, rfl⟩
    | pass duration => exact ⟨h.tenure.moveRig (.pass duration) rfl, rfl⟩
    | tryCompletion =>
      obtain ⟨hrig, hholds, hstate, herrand, hasking, hanswered, hserved⟩ :=
        h.tenure.moveRig (.read CompletionMessage.size) rfl
      have hdriver : sketch.rig.driver = play.tenure.rig.driver := by rw [h.tenure.rig]; rfl
      refine ⟨⟨hrig, hholds, hstate, herrand, hasking, hanswered, hserved⟩, ?_⟩
      simp only [Sketch.advance, Sketch.tryCompletion, Tenure.result?, hdriver]
      rfl
    | raiseSpurious => exact ⟨h.tenure.moveRig .raiseSpurious rfl, rfl⟩
    | setHalted halted => exact ⟨h.tenure.moveRig (.setHalted halted) rfl, rfl⟩
  obtain ⟨⟨hrig, hholds, hstate, herrand, hasking, hanswered, hserved⟩, hresults⟩ := hgoes
  refine ⟨⟨hrig, hholds, hstate, herrand, hasking, hanswered, hserved⟩, ?_, ?_⟩
  · calc (sketch.act config deal).results
        = (play.tenure.result? config deal).toList ++ sketch.results := hresults
      _ = (play.act config deal).results := by
        rw [h.results]
        rfl
  · have hbefore : sketch.rig.core = play.tenure.rig.core.bare := by rw [h.tenure.rig]; rfl
    have hafter : (sketch.advance config deal).rig.core = (play.go config deal).rig.core.bare := by
      rw [hrig]
      rfl
    simp only [Sketch.act, Play.act, hbefore, hafter, Core.found?_bare, h.finds]

/-- **A play looks as the sketch of its schedule does**, whatever the layout. -/
theorem Reached.fits (h : Reached config play) : play.Fits config (.run config play.schedule) := by
  induction h with
  | opened =>
    have hserved : Rig.Served config (Tenure.fresh config).rig [] := .move .acquire .bound
    exact ⟨⟨rfl, .free, rfl, rfl, nofun, nofun, hserved⟩, rfl, rfl⟩
  | @deal play deal _ ih =>
    cases htransfers : play.tenure.rig.transfers config.layout deal with
    | true =>
      have hschedule : (play.act config deal).schedule = play.schedule := by
        simp [act, htransfers]
      rw [hschedule]
      exact ih.transfer htransfers
    | false =>
      have hschedule : (play.act config deal).schedule = deal :: play.schedule := by
        simp [act, htransfers]
      rw [hschedule]
      exact ih.act htransfers

end Play

end NonceSearch
