import NonceSearch.Proofs.CoreSteps

/-!
# Register programs under interference

A driver's programs hold its lock, but not the core's: between two accesses the core may drift. What a
program does is therefore said in a way that allows for it. `Bus.Writes` restricts the writes that are
left in a program, whatever its reads bring. `Bus.Secures` says that a program ends with a value and a
core of some kind, at whatever times its accesses fall and whatever the others do in between; both are
kept by every access.
-/

namespace NonceSearch

namespace Bus

variable {α β : Type}

def Writes (allowed : Nat → UInt32 → Prop) : Bus α → Prop
  | .done _ => True
  | .read _ next => ∀ value, (next value).Writes allowed
  | .write word value next => allowed word value ∧ next.Writes allowed
  | .writeByte word value next => allowed word value.toUInt32 ∧ next.Writes allowed

section Writes

variable {allowed : Nat → UInt32 → Prop}

theorem Writes.bind {program : Bus α} {f : α → Bus β} (h : program.Writes allowed)
    (hf : ∀ value, (f value).Writes allowed) : (program.bind f).Writes allowed := by
  induction program with
  | done value => exact hf value
  | read word next ih => exact fun value => ih value (h value)
  | write word value next ih => exact ⟨h.1, ih h.2⟩
  | writeByte word value next ih => exact ⟨h.1, ih h.2⟩

theorem writes_putFrom {word : Nat} {values : List UInt32}
    (h : ∀ i value, i < values.length → allowed (word + i) value) :
    (putFrom word values).Writes allowed := by
  induction values generalizing word with
  | nil => trivial
  | cons value values ih =>
    refine ⟨h 0 value (by simp), ih fun i value hi => ?_⟩
    rw [Nat.add_assoc, Nat.add_comm 1]
    exact h (i + 1) value (by simpa using hi)

theorem writes_putAll {word : Nat} {values : List UInt32} (h : ∀ value, allowed word value) :
    (putAll word values).Writes allowed := by
  induction values with
  | nil => trivial
  | cons value values ih => exact ⟨h value, ih⟩

theorem writes_getAll (word count : Nat) : (getAll word count).Writes allowed := by
  induction count with
  | zero => trivial
  | succ count ih => exact fun value => ih.bind fun _ => trivial

theorem writes_getFrom {word : Nat} (count : Nat) : (getFrom word count).Writes allowed := by
  induction count generalizing word with
  | zero => trivial
  | succ count ih => exact fun value => ih.bind fun _ => trivial

theorem Writes.advance {σ : Type} {file : RegisterFile σ} {program : Bus α} {s : σ}
    (h : program.Writes allowed) : (program.advance file s).1.Writes allowed := by
  cases program with
  | done value => trivial
  | read word next => exact h _
  | write word value next => exact h.2
  | writeByte word value next => exact h.2

/-- A program that does not reset the core changes its search, access by access, in one of the ways
    listed. -/
theorem Writes.advance_change {config : CoreConfig} {program : Bus α} {core : Core} {now : Nat}
    (h : program.Writes fun word value => ¬ Core.isReset config.layout word value)
    (hcore : core.Consistent) :
    core.Change (program.advance (Core.registerFile config now) core).2 := by
  cases program with
  | done value => exact .kept (.refl core)
  | read word next => exact Core.read_change word
  | write word value next => exact Core.write_change hcore h.1
  | writeByte word value next => exact Core.write_change hcore h.1

end Writes

/-- Whatever the others do to the core in accordance with `rely`, and at whichever of the `times` the
    accesses are made, a program ends with a value and a core that are as `post` says, also after more
    interference. -/
def Secures (config : CoreConfig) (times : Nat → Prop) (rely : Core → Core → Prop)
    (post : α → Core → Prop) : Bus α → Core → Prop
  | .done value, core => ∀ core', rely core core' → post value core'
  | .read word next, core => ∀ core' now, times now → rely core core' →
    (next (core'.read config now word).1).Secures config times rely post (core'.read config now word).2
  | .write word value next, core => ∀ core' now, times now → rely core core' →
    next.Secures config times rely post (core'.write config now word value)
  | .writeByte word value next, core => ∀ core' now, times now → rely core core' →
    next.Secures config times rely post (core'.write config now word value.toUInt32)

section Secures

variable {config : CoreConfig} {times : Nat → Prop} {rely : Core → Core → Prop} {post : α → Core → Prop}

theorem Secures.drift {program : Bus α} {core core' : Core}
    (htrans : ∀ a b c, rely a b → rely b c → rely a c)
    (h : program.Secures config times rely post core) (hdrift : rely core core') :
    program.Secures config times rely post core' := by
  cases program with
  | done value => exact fun last hlast => h last (htrans _ _ _ hdrift hlast)
  | read word next => exact fun last now htime hlast => h last now htime (htrans _ _ _ hdrift hlast)
  | write word value next =>
    exact fun last now htime hlast => h last now htime (htrans _ _ _ hdrift hlast)
  | writeByte word value next =>
    exact fun last now htime hlast => h last now htime (htrans _ _ _ hdrift hlast)

theorem Secures.advance {program : Bus α} {core : Core} (hrefl : ∀ a, rely a a)
    (h : program.Secures config times rely post core) (now : Nat) (hnow : times now) :
    (program.advance (Core.registerFile config now) core).1.Secures config times rely post
      (program.advance (Core.registerFile config now) core).2 := by
  cases program with
  | done value => exact h
  | read word next => exact h core now hnow (hrefl core)
  | write word value next => exact h core now hnow (hrefl core)
  | writeByte word value next => exact h core now hnow (hrefl core)

theorem Secures.bind {program : Bus α} {f : α → Bus β} {core : Core} {post : β → Core → Prop}
    (h : program.Secures config times rely
    (fun value core => (f value).Secures config times rely post core) core)
    (hrefl : ∀ a, rely a a) : (program.bind f).Secures config times rely post core := by
  induction program generalizing core with
  | done value => exact h core (hrefl core)
  | read word next ih => exact fun core' now htime hrely => ih _ (h core' now htime hrely)
  | write word value next ih => exact fun core' now htime hrely => ih (h core' now htime hrely)
  | writeByte word value next ih => exact fun core' now htime hrely => ih (h core' now htime hrely)

theorem Secures.mono {program : Bus α} {core : Core} {post' : α → Core → Prop}
    (h : program.Secures config times rely post core)
    (hpost : ∀ value core, post value core → post' value core) :
    program.Secures config times rely post' core := by
  induction program generalizing core with
  | done value => exact fun core' hrely => hpost value core' (h core' hrely)
  | read word next ih => exact fun core' now htime hrely => ih _ (h core' now htime hrely)
  | write word value next ih => exact fun core' now htime hrely => ih (h core' now htime hrely)
  | writeByte word value next ih => exact fun core' now htime hrely => ih (h core' now htime hrely)

/-- A program that ends with a value of its own ends with that value. -/
theorem secures_bind_done {value : β} {post : β → Core → Prop} (h : ∀ core, post value core)
    (program : Bus α) (core : Core) :
    (program.bind fun _ => .done value).Secures config times rely post core := by
  induction program generalizing core with
  | done _ => exact fun core' _ => h core'
  | read word next ih => exact fun core' now _ _ => ih _ _
  | write word value next ih => exact fun core' now _ _ => ih _
  | writeByte word value next ih => exact fun core' now _ _ => ih _

end Secures

end Bus

/-! ### The driver's programs -/

namespace Driver

theorem writes_writeBank {allowed : Nat → UInt32 → Prop} {bank : Bank} {words : List UInt32}
    (hselect : allowed MaskWindow.command bank.select)
    (hdata : ∀ value, allowed MaskWindow.data value) :
    (writeBank bank words).Writes allowed :=
  ⟨hselect, Bus.writes_putAll hdata⟩

theorem writes_readBanks {allowed : Nat → UInt32 → Prop}
    (hselect : ∀ bank : Bank, allowed MaskWindow.command bank.select) (banks : List Bank) :
    (readBanks banks).Writes allowed := by
  induction banks with
  | nil => trivial
  | cons bank banks ih =>
    refine Bus.Writes.bind ?_ fun words => ih.bind fun rest => trivial
    exact ⟨hselect bank, Bus.writes_getAll _ _⟩

def Gives (layout : RegisterLayout) (command : UInt32) (word : Nat) (value : UInt32) : Prop :=
  word = commandWord layout ∧ value = command

def commandOf : Request → Option UInt32
  | .reset => some Control.reset
  | .start => some Control.start
  | .step => some Control.step
  | _ => none

/-- No two requests are about one command. -/
theorem commandOf_inj {asked other : Request} {command : UInt32} (h : commandOf asked = some command)
    (h' : commandOf other = some command) : asked = other := by
  cases asked <;> cases h <;> cases other <;>
    first | rfl | exact absurd h' nofun

section Commands

variable {layout : RegisterLayout} {command : UInt32}

/-- Selections are no control commands. -/
theorem select_gives_none (hcommand : command &&& MaskWindow.selectBit = 0) (bank : Bank) :
    ¬ Gives .mask command MaskWindow.command bank.select := by
  rintro ⟨-, rfl⟩
  revert hcommand
  cases bank <;> decide

theorem data_gives_none (value : UInt32) : ¬ Gives .mask command MaskWindow.data value :=
  fun h => absurd h.1 (by decide)

theorem writeBank_gives_none (hcommand : command &&& MaskWindow.selectBit = 0) (bank : Bank)
    (words : List UInt32) :
    (writeBank bank words).Writes fun word value => ¬ Gives .mask command word value :=
  writes_writeBank (select_gives_none hcommand bank) data_gives_none

theorem setDebugEnable_gives_none (hcommand : command &&& MaskWindow.selectBit = 0) (enabled : Bool) :
    (setDebugEnable layout enabled).Writes fun word value => ¬ Gives layout command word value := by
  cases layout with
  | count => exact ⟨fun h => absurd h.1 (by decide), trivial⟩
  | mask => exact writeBank_gives_none hcommand _ _

theorem dump_gives_none (hcommand : command &&& MaskWindow.selectBit = 0) :
    (dump layout).Writes fun word value => ¬ Gives layout command word value := by
  refine (setDebugEnable_gives_none hcommand false).bind fun _ => ?_
  refine Bus.Writes.bind ?_ fun words =>
    (setDebugEnable_gives_none hcommand true).bind fun _ => trivial
  cases layout with
  | count => exact Bus.writes_getFrom _
  | mask =>
    intro status current
    exact (writes_readBanks (select_gives_none hcommand) _).bind fun banks => trivial

/-- Words below the control word hold parameters. -/
theorem putFrom_gives_none {word : Nat} {values : List UInt32}
    (h : word + values.length ≤ CountWindow.control) :
    (Bus.putFrom word values).Writes fun word value => ¬ Gives .count command word value := by
  refine Bus.writes_putFrom fun i value hi hgives => ?_
  have hword : word + i = CountWindow.control := hgives.1
  omega

/-- Only the requests that are about a control command give it. -/
theorem program_gives {asked : Request} {program : Bus Reply}
    (hprogram : Driver.program layout asked = .ok program)
    (hcommand : command &&& MaskWindow.selectBit = 0) (hasked : commandOf asked ≠ some command) :
    program.Writes fun word value => ¬ Gives layout command word value := by
  have hother : ∀ word, commandOf asked = some word →
      ¬ Gives layout command (commandWord layout) word := by
    rintro word hword ⟨-, rfl⟩
    exact hasked hword
  cases asked with
  | reset => cases layout <;> obtain rfl := Except.ok.inj hprogram <;> exact ⟨hother _ rfl, trivial⟩
  | start => cases layout <;> obtain rfl := Except.ok.inj hprogram <;> exact ⟨hother _ rfl, trivial⟩
  | step => cases layout <;> obtain rfl := Except.ok.inj hprogram <;> exact ⟨hother _ rfl, trivial⟩
  | getStatus => cases layout <;> obtain rfl := Except.ok.inj hprogram <;> exact fun _ => trivial
  | getNonceCurrent => cases layout <;> obtain rfl := Except.ok.inj hprogram <;> exact fun _ => trivial
  | getDebugRegisters =>
    cases layout <;> obtain rfl := Except.ok.inj hprogram <;>
      exact (dump_gives_none hcommand).bind fun _ => trivial
  | setStateIn midstate =>
    cases layout <;> obtain rfl := Except.ok.inj hprogram
    · exact (putFrom_gives_none (by simp [CountWindow.stateIn, CountWindow.control])).bind
        fun _ => trivial
    · exact (writeBank_gives_none hcommand _ _).bind fun _ => trivial
  | setTail tail =>
    cases layout <;> obtain rfl := Except.ok.inj hprogram
    · exact (putFrom_gives_none (by simp [CountWindow.tail, CountWindow.control])).bind
        fun _ => trivial
    · exact (writeBank_gives_none hcommand _ _).bind fun _ => trivial
  | setLeadingZeros count =>
    cases layout with
    | count =>
      obtain rfl := Except.ok.inj hprogram
      exact ⟨fun h => absurd h.1 (by decide), trivial⟩
    | mask => exact absurd hprogram nofun
  | setDifficultyMask mask =>
    cases layout with
    | count => exact absurd hprogram nofun
    | mask =>
      obtain rfl := Except.ok.inj hprogram
      exact (writeBank_gives_none hcommand _ _).bind fun _ => trivial
  | setClockSpeed mhz =>
    cases layout with
    | count => exact absurd hprogram nofun
    | mask =>
      obtain rfl := Except.ok.inj hprogram
      exact (writeBank_gives_none hcommand _ _).bind fun _ => trivial

/-- Only the reset request resets the core. -/
theorem program_not_reset {asked : Request} {program : Bus Reply}
    (hprogram : Driver.program layout asked = .ok program) (hasked : asked ≠ .reset) :
    program.Writes fun word value => ¬ Core.isReset layout word value := by
  exact program_gives hprogram (by decide) fun hreset => hasked (commandOf_inj hreset rfl)

end Commands

theorem program_command (layout : RegisterLayout) {asked : Request} {command : UInt32}
    (hcommand : commandOf asked = some command) : Driver.program layout asked =
      .ok (.write (commandWord layout) command (.done .done)) := by
  cases asked with
  | reset => obtain rfl := Option.some.inj hcommand; cases layout <;> rfl
  | start => obtain rfl := Option.some.inj hcommand; cases layout <;> rfl
  | step => obtain rfl := Option.some.inj hcommand; cases layout <;> rfl
  | _ => exact absurd hcommand nofun

theorem program_reset (layout : RegisterLayout) : Driver.program layout .reset =
    .ok (.write (commandWord layout) Control.reset (.done .done)) := program_command layout rfl

theorem program_status (layout : RegisterLayout) : Driver.program layout .getStatus =
    .ok (.read (statusWord layout) fun word => .done (.word word)) := by
  cases layout <;> rfl

def afterStatus (layout : RegisterLayout) (status : UInt32) : Bus (Option CompletionMessage) :=
  if (Status.mk status).isCompletion then
    (readCandidate layout).bind fun nonce =>
      (setDebugEnable layout true).bind fun _ => .done (some ⟨status, nonce⟩)
  else .done none

theorem service_eq (layout : RegisterLayout) :
    service layout = .read (statusWord layout) (afterStatus layout) := by
  cases layout <;> rfl

theorem read_statusWord (config : CoreConfig) (now : Nat) (core : Core) :
    core.read config now (statusWord config.layout) =
      ((core.refresh now).status.bits, core.refresh now) := by
  unfold Core.read
  cases config.layout <;> rfl

theorem afterStatus_gives_none {layout : RegisterLayout} {command : UInt32}
    (hcommand : command &&& MaskWindow.selectBit = 0) (status : UInt32) :
    (afterStatus layout status).Writes fun word value => ¬ Gives layout command word value := by
  unfold afterStatus
  split
  · refine Bus.Writes.bind ?_ fun nonce =>
      (setDebugEnable_gives_none hcommand true).bind fun _ => trivial
    cases layout with
    | count => exact fun _ => trivial
    | mask => exact ⟨select_gives_none hcommand _, fun _ => trivial⟩
  · trivial

theorem afterStatus_not_reset (layout : RegisterLayout) (status : UInt32) :
    (afterStatus layout status).Writes fun word value => ¬ Core.isReset layout word value :=
  afterStatus_gives_none (by decide) status

/-- The service of an interrupt gives no control commands. -/
theorem service_gives_none {layout : RegisterLayout} {command : UInt32}
    (hcommand : command &&& MaskWindow.selectBit = 0) :
    (service layout).Writes fun word value => ¬ Gives layout command word value := by
  rw [service_eq]
  exact fun status => afterStatus_gives_none hcommand status

/-- The candidate of a search that is over is read as it was latched. -/
theorem readCandidate_secures {config : CoreConfig} {times : Nat → Prop} {core : Core}
    (hjob : core.job = none)
    (hready : core.readyAt = none) :
    (readCandidate config.layout).Secures config times Core.Drifts
      (fun nonce _ => nonce = core.nonceCandidate) core := by
  cases hlayout : config.layout with
  | count =>
    intro first now _ hfirst last hlast
    have hkept := Core.refresh_of_readyAt (hfirst.readyAt.trans hready) now
    simp only [Core.read, hlayout, hkept]
    exact (hfirst.idle hjob).2.1
  | mask =>
    intro first now _ hfirst second now' _ hsecond last hlast
    have hselected : first.write config now MaskWindow.command Bank.nonceCandidate.select =
        { first with bank := some .nonceCandidate, cursor := 0 } := by
      unfold Core.write
      rw [hlayout]
      simp only [Core.writeMask, Core.command, if_pos, Command.decode_select]
    rw [hselected] at hsecond
    have hkept := Core.refresh_of_readyAt (hsecond.readyAt.trans (hfirst.readyAt.trans hready)) now'
    have hover := hfirst.idle hjob
    have hread : second.read config now' MaskWindow.data = second.readData := by
      simp only [Core.read, hlayout, hkept]
      rfl
    rw [hread]
    simp only [Core.readData, hsecond.bank, hsecond.cursor]
    exact (hsecond.idle hover.1).2.1.trans hover.2.1

/-- Once a service has read the status of a search that is over, it ends with its message, whatever the
    searchers and the hooks do in between. -/
theorem afterStatus_secures {config : CoreConfig} {times : Nat → Prop} {core : Core}
    {message : CompletionMessage}
    (hcompletion : message.flags.isCompletion) (hjob : core.job = none) (hready : core.readyAt = none)
    (hnonce : core.nonceCandidate = message.nonce) :
    (afterStatus config.layout message.status).Secures config times Core.Drifts
      (fun report _ => report = some message) core := by
  have hcompletion' : (Status.mk message.status).isCompletion = true := hcompletion
  unfold afterStatus
  rw [if_pos hcompletion']
  refine Bus.Secures.bind ?_ Core.Drifts.refl
  apply (readCandidate_secures hjob hready).mono
  rintro nonce after rfl
  rw [hnonce]
  exact Bus.secures_bind_done (fun _ => rfl) _ _

end Driver

end NonceSearch
