import NonceSearch.Proofs.Loading
import NonceSearch.Proofs.Parameters

/-!
# What requests do to the parameters

A request for another value of a parameter stores that value whatever the searchers do meanwhile, also
in a core that is searching. Everything else, the service of interrupts and the dump of the registers
included, leaves all parameters as they are after every access, though on the mask layout it moves the
bank and its cursor.
-/

namespace NonceSearch

variable {config : CoreConfig} {times : Nat → Prop}

namespace Bus

variable {α β : Type}

/-! ### What is kept after every access -/

/-- The core is as `holds` says after every access, whatever the others do in accordance with
    `rely`. -/
def Keeps (config : CoreConfig) (rely : Core → Core → Prop) (holds : Core → Prop) :
    Bus α → Core → Prop
  | .done _, _ => True
  | .read word next, core => ∀ core' now, rely core core' →
    holds (core'.read config now word).2 ∧
      (next (core'.read config now word).1).Keeps config rely holds (core'.read config now word).2
  | .write word value next, core => ∀ core' now, rely core core' →
    holds (core'.write config now word value) ∧
      next.Keeps config rely holds (core'.write config now word value)
  | .writeByte word value next, core => ∀ core' now, rely core core' →
    holds (core'.write config now word value.toUInt32) ∧
      next.Keeps config rely holds (core'.write config now word value.toUInt32)

section Keeps

variable {rely : Core → Core → Prop} {holds : Core → Prop} {program : Bus α} {core core' : Core}

theorem Keeps.drift (h : program.Keeps config rely holds core)
    (htrans : ∀ a b c, rely a b → rely b c → rely a c) (hdrift : rely core core') :
    program.Keeps config rely holds core' := by
  cases program with
  | done value => trivial
  | read word next => exact fun last now hlast => h last now (htrans _ _ _ hdrift hlast)
  | write word value next => exact fun last now hlast => h last now (htrans _ _ _ hdrift hlast)
  | writeByte word value next => exact fun last now hlast => h last now (htrans _ _ _ hdrift hlast)

theorem Keeps.advance (h : program.Keeps config rely holds core) (hrefl : ∀ a, rely a a)
    (hcore : holds core) (now : Nat) :
    holds (program.advance (Core.registerFile config now) core).2 ∧
      (program.advance (Core.registerFile config now) core).1.Keeps config rely holds
        (program.advance (Core.registerFile config now) core).2 := by
  cases program with
  | done value => exact ⟨hcore, trivial⟩
  | read word next => exact h core now (hrefl core)
  | write word value next => exact h core now (hrefl core)
  | writeByte word value next => exact h core now (hrefl core)

theorem Keeps.bind {f : α → Bus β} (h : program.Keeps config rely holds core) (hcore : holds core)
    (hf : ∀ value core, holds core → (f value).Keeps config rely holds core) :
    (program.bind f).Keeps config rely holds core := by
  induction program generalizing core with
  | done value => exact hf value core hcore
  | read word next ih =>
    intro core' now hrely
    obtain ⟨hheld, hnext⟩ := h core' now hrely
    exact ⟨hheld, ih _ hnext hheld⟩
  | write word value next ih =>
    intro core' now hrely
    obtain ⟨hheld, hnext⟩ := h core' now hrely
    exact ⟨hheld, ih hnext hheld⟩
  | writeByte word value next ih =>
    intro core' now hrely
    obtain ⟨hheld, hnext⟩ := h core' now hrely
    exact ⟨hheld, ih hnext hheld⟩

/-- What is kept after every access holds at the end. -/
theorem Keeps.secures (h : program.Keeps config rely holds core) (hcore : holds core)
    (hquiet : ∀ a b, holds a → rely a b → holds b) :
    program.Secures config times rely (fun _ => holds) core := by
  induction program generalizing core with
  | done value => exact fun core' hrely => hquiet _ _ hcore hrely
  | read word next ih =>
    intro core' now _ hrely
    obtain ⟨hheld, hnext⟩ := h core' now hrely
    exact ih _ hnext hheld
  | write word value next ih =>
    intro core' now _ hrely
    obtain ⟨hheld, hnext⟩ := h core' now hrely
    exact ih hnext hheld
  | writeByte word value next ih =>
    intro core' now _ hrely
    obtain ⟨hheld, hnext⟩ := h core' now hrely
    exact ih hnext hheld

end Keeps

end Bus

/-! ### Single writes -/

def Core.Has (parameters : Parameters) (core : Core) : Prop := core.parameters = parameters

theorem Core.Has.drift {parameters : Parameters} {core next : Core} (h : core.Has parameters)
    (hdrift : core.Drifts next) : next.Has parameters := hdrift.parameters.trans h

/-- The parameters of a core go the way of those it is compared with. -/
theorem Core.Has.map {f : Parameters → Parameters} {parameters : Parameters} {core next : Core}
    (h : core.Has parameters) (hnext : next.parameters = f core.parameters) :
    next.Has (f parameters) := hnext.trans (congrArg f h)

/-- A write that leaves the parameters alone, whichever bank is selected. -/
def Spares (config : CoreConfig) (word : Nat) (value : UInt32) : Prop :=
  ∀ core now, (Core.write config now word value core).parameters = core.parameters

theorem spares_command {command : UInt32} (hcommand : command ≠ Control.reset) :
    Spares config (Driver.commandWord config.layout) command := by
  intro core now
  unfold Core.write
  cases config.layout with
  | count => exact Core.control_parameters hcommand
  | mask =>
    change (core.command config now command).parameters = core.parameters
    unfold Core.command
    split
    · rfl
    · next word hdecode =>
      obtain rfl := Command.eq_of_control hdecode
      exact Core.control_parameters hcommand
    · rfl

namespace Core

variable {core : Core} {now : Nat}

theorem write_select (hlayout : config.layout = .mask) (bank : Bank) :
    core.write config now MaskWindow.command bank.select =
      { core with bank := some bank, cursor := 0 } := by
  rw [write, hlayout]
  simp [writeMask, command, Command.decode_select]

theorem write_data (hlayout : config.layout = .mask) (value : UInt32) :
    core.write config now MaskWindow.data value = core.writeData value := by
  rw [write, hlayout]
  rfl

structure At (bank : Bank) (k : Nat) (core : Core) : Prop where
  bank : core.bank = some bank
  cursor : core.cursor = k

theorem At.drift {bank : Bank} {k : Nat} {next : Core} (h : core.At bank k) (hdrift : core.Drifts next) :
    next.At bank k := ⟨hdrift.bank.trans h.bank, hdrift.cursor.trans h.cursor⟩

theorem putBankWord_bank (bank : Bank) (index : Nat) (value : UInt32) :
    (core.putBankWord bank index value).bank = core.bank := by
  unfold putBankWord
  split
  · cases bank <;> rfl
  · rfl

/-- The data word stores into the selected bank and goes on to the next word. -/
theorem At.write_data {bank : Bank} {k : Nat} (h : core.At bank k) (hlayout : config.layout = .mask)
    (now : Nat) (value : UInt32) : (core.write config now MaskWindow.data value).At bank (k + 1) ∧
      (core.write config now MaskWindow.data value).parameters =
        (core.putBankWord bank k value).parameters := by
  rw [Core.write_data hlayout, writeData, h.bank, h.cursor]
  exact ⟨⟨(putBankWord_bank bank k value).trans h.bank, rfl⟩, rfl⟩

/-- The data word reads from the selected bank and goes on to the next word. -/
theorem At.read_data {bank : Bank} {k : Nat} (h : core.At bank k) (hlayout : config.layout = .mask)
    (now : Nat) :
    (core.read config now MaskWindow.data).2.At bank (k + 1) ∧
      (core.read config now MaskWindow.data).1 = (core.refresh now).bankWord bank k := by
  have hbank : (core.refresh now).bank = some bank ∧ (core.refresh now).cursor = k := by
    unfold refresh
    split
    · split <;> exact ⟨h.bank, h.cursor⟩
    · exact ⟨h.bank, h.cursor⟩
  have hread : core.read config now MaskWindow.data = (core.refresh now).readData := by
    rw [read, hlayout]
    rfl
  rw [hread, readData, hbank.1, hbank.2]
  exact ⟨⟨rfl, rfl⟩, rfl⟩

end Core

namespace Driver

variable {parameters : Parameters} {core : Core}

/-! ### Programs that leave the parameters alone -/

theorem keeps_of_writes {α : Type} {program : Bus α} (h : program.Writes (Spares config))
    (hcore : core.Has parameters) :
    program.Keeps config Core.Drifts (Core.Has parameters) core := by
  induction program generalizing core with
  | done value => trivial
  | read word next ih =>
    intro core' now hdrift
    have hread : (core'.read config now word).2.Has parameters :=
      (Core.read_parameters word).trans (hcore.drift hdrift)
    exact ⟨hread, ih _ (h _) hread⟩
  | write word value next ih =>
    intro core' now hdrift
    have hwritten : (core'.write config now word value).Has parameters :=
      (h.1 core' now).trans (hcore.drift hdrift)
    exact ⟨hwritten, ih h.2 hwritten⟩
  | writeByte word value next ih =>
    intro core' now hdrift
    have hwritten : (core'.write config now word value.toUInt32).Has parameters :=
      (h.1 core' now).trans (hcore.drift hdrift)
    exact ⟨hwritten, ih h.2 hwritten⟩

theorem spares_select (hlayout : config.layout = .mask) (bank : Bank) :
    Spares config MaskWindow.command bank.select := by
  intro core now
  rw [Core.write_select hlayout]
  rfl

theorem setDebugEnable_keeps (enabled : Bool) (hcore : core.Has parameters) :
    (setDebugEnable config.layout enabled).Keeps config Core.Drifts (Core.Has parameters) core := by
  cases hlayout : config.layout with
  | count =>
    refine keeps_of_writes ⟨fun core now => ?_, trivial⟩ hcore
    rw [Core.write, hlayout]
    rfl
  | mask =>
    intro before now hbefore
    rw [Core.write_select hlayout]
    let selected : Core := { before with bank := some .debugEnable, cursor := 0 }
    have hhas : before.Has parameters := hcore.drift hbefore
    have hselected : selected.Has parameters := hhas
    refine ⟨hselected, fun stored now' hstored => ⟨?_, trivial⟩⟩
    have hplace : selected.At .debugEnable 0 := ⟨rfl, rfl⟩
    have hwritten := ((hplace.drift hstored).write_data hlayout now' (if enabled then 1 else 0)).2
    have hkept : stored.Has parameters := hselected.drift hstored
    exact Eq.trans hwritten hkept

theorem readBanks_keeps (hlayout : config.layout = .mask) (banks : List Bank)
    (hcore : core.Has parameters) :
    (readBanks banks).Keeps config Core.Drifts (Core.Has parameters) core :=
  keeps_of_writes (writes_readBanks (spares_select hlayout) banks) hcore

theorem readAll_keeps (hcore : core.Has parameters) :
    (readAll config.layout).Keeps config Core.Drifts (Core.Has parameters) core := by
  apply keeps_of_writes ?_ hcore
  cases hlayout : config.layout with
  | count => exact Bus.writes_getFrom _
  | mask =>
    intro status current
    exact (writes_readBanks (spares_select hlayout) _).bind fun banks => trivial

theorem dump_keeps (hcore : core.Has parameters) :
    (dump config.layout).Keeps config Core.Drifts (Core.Has parameters) core := by
  refine (setDebugEnable_keeps false hcore).bind hcore fun _ halted hhalted => ?_
  refine (readAll_keeps hhalted).bind hhalted fun words read hread => ?_
  exact (setDebugEnable_keeps true hread).bind hread fun _ _ _ => trivial

theorem service_keeps (hcore : core.Has parameters) :
    (service config.layout).Keeps config Core.Drifts (Core.Has parameters) core := by
  rw [service_eq]
  intro looked now hlooked
  have hread : (looked.read config now (statusWord config.layout)).2.Has parameters :=
    (Core.read_parameters _).trans (hcore.drift hlooked)
  refine ⟨hread, ?_⟩
  unfold afterStatus
  split
  · have hcandidate : (readCandidate config.layout).Writes (Spares config) := by
      cases hlayout : config.layout with
      | count => exact fun _ => trivial
      | mask => exact ⟨spares_select hlayout _, fun _ => trivial⟩
    refine (keeps_of_writes hcandidate hread).bind hread fun nonce core hcore => ?_
    exact (setDebugEnable_keeps true hcore).bind hcore fun _ _ _ => trivial
  · trivial

/-- A request that is not for another value of a parameter leaves them all as they are. -/
theorem program_keeps {asked : Request} {program : Bus Reply}
    (hprogram : Driver.program config.layout asked = .ok program)
    (hasked : Parameters.isSetBy asked = false) (hcore : core.Has parameters) :
    program.Keeps config Core.Drifts (Core.Has parameters) core := by
  have hcommand : ∀ command, commandOf asked = some command →
      program.Keeps config Core.Drifts (Core.Has parameters) core := by
    intro command hcommand
    rw [program_command _ hcommand] at hprogram
    obtain rfl := Except.ok.inj hprogram
    have hother : command ≠ Control.reset := by
      rintro rfl
      obtain rfl : asked = .reset := commandOf_inj hcommand rfl
      exact absurd hasked nofun
    exact keeps_of_writes ⟨spares_command hother, trivial⟩ hcore
  cases asked with
  | start => exact hcommand _ rfl
  | step => exact hcommand _ rfl
  | getStatus =>
    obtain rfl : _ = program := Except.ok.inj hprogram
    exact keeps_of_writes (fun _ => trivial) hcore
  | getNonceCurrent =>
    obtain rfl : _ = program := Except.ok.inj hprogram
    exact keeps_of_writes (fun _ => trivial) hcore
  | getDebugRegisters =>
    obtain rfl : _ = program := Except.ok.inj hprogram
    exact (dump_keeps hcore).bind hcore fun _ _ _ => trivial
  | _ => exact absurd hasked nofun

/-! ### Programs that store a parameter -/

section Stores

variable {n : Nat} {put : Bytes n → Parameters} {place : Nat → Core → Prop}

/-- A string on its way into the parameters: so many of its words have been stored. -/
structure Filling (put : Bytes n → Parameters) (place : Nat → Core → Prop) (target : Bytes n)
    (count : Nat) (core : Core) : Prop where
  place : place count core
  filled : ∃ bytes, core.Has (put bytes) ∧ Bytes.Agree count bytes target

/-- A string is stored word by word, whether or not the core is searching. -/
theorem secures_string {puts : Nat → List UInt32 → Bus Unit} {address : Nat → Nat}
    (hnil : ∀ k, puts k [] = .done ())
    (hcons : ∀ k value values, puts k (value :: values) = .write (address k) value (puts (k + 1) values))
    (hn : n ≤ 4 * (n / 4)) (target : Bytes n)
    (hquiet : ∀ k core next, place k core → core.Drifts next → place k next)
    (hwrite : ∀ k bytes value core now, k < n / 4 → place k core → core.Has (put bytes) →
      place (k + 1) (core.write config now (address k) value) ∧
        (core.write config now (address k) value).Has (put (bytes.putWord k value)))
    {bytes : Bytes n} (hplace : place 0 core) (hcore : core.Has (put bytes)) :
    (puts 0 target.words.toList).Secures config times Core.Drifts
      (fun _ => Core.Has (put target)) core := by
  have hstage : Filling put place target 0 core := ⟨hplace, bytes, hcore, .zero bytes target⟩
  apply (@Bus.secures_puts config times _ (Filling put place target) puts address hnil hcons 0
    target.words.toList core hstage ?_ ?_).mono
  · intro _ core h
    rw [Vector.length_toList, Nat.zero_add] at h
    obtain ⟨-, stored, hhas, hagree⟩ := h
    rwa [hagree.eq hn] at hhas
  · intro k core next h hdrift
    obtain ⟨hplace, stored, hhas, hagree⟩ := h
    exact ⟨hquiet _ _ _ hplace hdrift, stored, hhas.drift hdrift, hagree⟩
  · -- the next word joins those that have been stored
    intro i hi core now h
    rw [Vector.length_toList] at hi
    rw [Nat.zero_add] at h ⊢
    obtain ⟨hplace, stored, hhas, hagree⟩ := h
    obtain ⟨hnext, hwritten⟩ := hwrite i stored target.words[i] core now hi hplace hhas
    rw [Vector.getElem_toList]
    exact ⟨hnext, _, hwritten, hagree.putWord hi⟩

theorem putFrom_secures {first : Nat} (hn : n ≤ 4 * (n / 4)) (target : Bytes n)
    (hwrite : ∀ k bytes value core now, k < n / 4 → Core.Has (put bytes) core →
      (core.write config now (first + k) value).Has (put (bytes.putWord k value)))
    {bytes : Bytes n} (hcore : core.Has (put bytes)) :
    (Bus.putFrom first target.words.toList).Secures config times Core.Drifts
      (fun _ => Core.Has (put target)) core :=
  @secures_string config times core n put (fun _ _ => True) (fun k => Bus.putFrom (first + k))
    (first + ·) (fun _ => rfl) (fun _ _ _ => rfl) hn target (fun _ _ _ _ _ => trivial)
    (fun k bytes value core now hk _ hhas => ⟨trivial, hwrite k bytes value core now hk hhas⟩)
    bytes trivial hcore

theorem writeBank_secures {bank : Bank} (hlayout : config.layout = .mask) (hn : n ≤ 4 * (n / 4))
    (target : Bytes n)
    (hwrite : ∀ k bytes value core, k < n / 4 → Core.Has (put bytes) core →
      (core.putBankWord bank k value).Has (put (bytes.putWord k value)))
    {bytes : Bytes n} (hcore : core.Has (put bytes)) :
    (writeBank bank target.words.toList).Secures config times Core.Drifts
      (fun _ => Core.Has (put target)) core := by
  intro before now _ hbefore
  rw [Core.write_select hlayout]
  have hhas : before.Has (put bytes) := hcore.drift hbefore
  have hplace : Core.At bank 0 { before with bank := some bank, cursor := 0 } := ⟨rfl, rfl⟩
  refine @secures_string config times _ n put (Core.At bank) (fun _ => Bus.putAll MaskWindow.data)
    (fun _ => MaskWindow.data) (fun _ => rfl) (fun _ _ _ => rfl) hn target (fun _ _ _ => Core.At.drift)
    (fun k bytes value core now hk hplace hhas => ?_) bytes hplace hhas
  obtain ⟨hnext, hwritten⟩ := hplace.write_data hlayout now value
  exact ⟨hnext, hwritten.trans (hwrite k bytes value core hk hhas)⟩

theorem andDone_has {program : Bus Unit}
    (h : program.Secures config times Core.Drifts (fun _ => Core.Has parameters) core) :
    (andDone program).Secures config times Core.Drifts (fun _ => Core.Has parameters) core :=
  Bus.Secures.bind (h.mono fun _ _ hhas _ hdrift => hhas.drift hdrift) .refl

end Stores

section Requests

variable {asked : Request} {program : Bus Reply}

theorem stateIn_secures {midstate : Bytes 32}
    (hprogram : Driver.program config.layout (.setStateIn midstate) = .ok program)
    (hcore : core.Has parameters) :
    program.Secures config times Core.Drifts
      (fun _ => Core.Has { parameters with stateIn := midstate }) core := by
  have hput : ∀ bytes word (core : Core), core.Has { parameters with stateIn := bytes } → ∀ k,
      Core.Has { parameters with stateIn := bytes.putWord k word }
        { core with stateIn := core.stateIn.putWord k word } := by
    intro bytes word core hhas k
    obtain rfl : core.stateIn = bytes := congrArg Parameters.stateIn hhas
    exact hhas.map (f := fun old => { old with stateIn := core.stateIn.putWord k word }) rfl
  cases hlayout : config.layout with
  | count =>
    rw [hlayout] at hprogram
    obtain rfl := Except.ok.inj hprogram
    refine andDone_has (@putFrom_secures config times core 32
      (fun bytes => { parameters with stateIn := bytes }) _ (by decide) midstate
      (fun k bytes value core now hk hhas => ?_) parameters.stateIn hcore)
    have hword : k < CountWindow.tail := hk
    rw [Core.write, hlayout, CountWindow.stateIn, Nat.zero_add]
    simp only [Core.writeCount, if_pos hword]
    exact hput bytes value core hhas k
  | mask =>
    rw [hlayout] at hprogram
    obtain rfl := Except.ok.inj hprogram
    refine andDone_has (@writeBank_secures config times core 32
      (fun bytes => { parameters with stateIn := bytes }) _ hlayout (by decide) midstate
      (fun k bytes value core hk hhas => ?_) parameters.stateIn hcore)
    have hword : k < Bank.stateIn.size := hk
    simp only [Core.putBankWord, if_pos hword]
    exact hput bytes value core hhas k

theorem tail_secures {tail : Bytes 12}
    (hprogram : Driver.program config.layout (.setTail tail) = .ok program)
    (hcore : core.Has parameters) :
    program.Secures config times Core.Drifts
      (fun _ => Core.Has { parameters with tail := tail }) core := by
  have hput : ∀ bytes word (core : Core), core.Has { parameters with tail := bytes } → ∀ k,
      Core.Has { parameters with tail := bytes.putWord k word }
        { core with tail := core.tail.putWord k word } := by
    intro bytes word core hhas k
    obtain rfl : core.tail = bytes := congrArg Parameters.tail hhas
    exact hhas.map (f := fun old => { old with tail := core.tail.putWord k word }) rfl
  cases hlayout : config.layout with
  | count =>
    rw [hlayout] at hprogram
    obtain rfl := Except.ok.inj hprogram
    refine andDone_has (@putFrom_secures config times core 12
      (fun bytes => { parameters with tail := bytes }) _ (by decide) tail
      (fun k bytes value core now hk hhas => ?_) parameters.tail hcore)
    have hword : ¬ CountWindow.tail + k < CountWindow.tail := by omega
    have hword' : CountWindow.tail + k < CountWindow.leadingZeros := by
      simp only [CountWindow.leadingZeros, CountWindow.tail]
      omega
    rw [Core.write, hlayout]
    simp only [Core.writeCount, if_neg hword, if_pos hword', Nat.add_sub_cancel_left]
    exact hput bytes value core hhas k
  | mask =>
    rw [hlayout] at hprogram
    obtain rfl := Except.ok.inj hprogram
    refine andDone_has (@writeBank_secures config times core 12
      (fun bytes => { parameters with tail := bytes }) _ hlayout (by decide) tail
      (fun k bytes value core hk hhas => ?_) parameters.tail hcore)
    have hword : k < Bank.tail.size := hk
    simp only [Core.putBankWord, if_pos hword]
    exact hput bytes value core hhas k

theorem mask_secures {mask : Bytes 32}
    (hprogram : Driver.program config.layout (.setDifficultyMask mask) = .ok program)
    (hcore : core.Has parameters) :
    program.Secures config times Core.Drifts
      (fun _ => Core.Has { parameters with mask := mask }) core := by
  cases hlayout : config.layout with
  | count =>
    rw [hlayout] at hprogram
    exact absurd hprogram nofun
  | mask =>
    rw [hlayout] at hprogram
    obtain rfl := Except.ok.inj hprogram
    refine andDone_has (@writeBank_secures config times core 32
      (fun bytes => { parameters with mask := bytes }) _ hlayout (by decide) mask
      (fun k bytes value core hk hhas => ?_) parameters.mask hcore)
    have hword : k < Bank.mask.size := hk
    obtain rfl : core.mask = bytes := congrArg Parameters.mask hhas
    simp only [Core.putBankWord, if_pos hword]
    exact hhas.map (f := fun old => { old with mask := core.mask.putWord k value }) rfl

theorem zeroCount_secures {count : UInt8}
    (hprogram : Driver.program config.layout (.setLeadingZeros count) = .ok program)
    (hcore : core.Has parameters) :
    program.Secures config times Core.Drifts
      (fun _ => Core.Has { parameters with zeroCount := count }) core := by
  cases hlayout : config.layout with
  | mask =>
    rw [hlayout] at hprogram
    exact absurd hprogram nofun
  | count =>
    rw [hlayout] at hprogram
    obtain rfl := Except.ok.inj hprogram
    refine andDone_has fun before now _ hbefore last hlast => ?_
    have hhas : before.Has parameters := hcore.drift hbefore
    have hwritten : before.write config now CountWindow.leadingZeros count.toUInt32 =
        { before with zeroCount := count.toUInt32.toUInt8 } := by
      rw [Core.write, hlayout]
      rfl
    rw [hwritten, UInt8.toUInt8_toUInt32] at hlast
    exact (hhas.map (f := fun old => { old with zeroCount := count }) rfl).drift hlast

theorem clock_secures {mhz : UInt32}
    (hprogram : Driver.program config.layout (.setClockSpeed mhz) = .ok program)
    (hcore : core.Has parameters) :
    program.Secures config times Core.Drifts
      (fun _ => Core.Has { parameters with clock := mhz }) core := by
  cases hlayout : config.layout with
  | count =>
    rw [hlayout] at hprogram
    exact absurd hprogram nofun
  | mask =>
    rw [hlayout] at hprogram
    obtain rfl := Except.ok.inj hprogram
    refine andDone_has fun before now _ hbefore stored now' _ hstored last hlast => ?_
    rw [Core.write_select hlayout] at hstored
    have hhas : before.Has parameters := hcore.drift hbefore
    have hplace : Core.At .clock 0 { before with bank := some .clock, cursor := 0 } := ⟨rfl, rfl⟩
    have hselected : Core.Has parameters { before with bank := some .clock, cursor := 0 } := hhas
    have hkept : stored.Has parameters := hselected.drift hstored
    have hwritten := ((hplace.drift hstored).write_data hlayout now' mhz).2
    exact (hkept.map (f := fun old => { old with clock := mhz }) hwritten).drift hlast

/-- A request that holds the lock leaves the parameters as it says. -/
theorem program_secures (hprogram : Driver.program config.layout asked = .ok program)
    (hcore : core.Has parameters) :
    program.Secures config times Core.Drifts
      (fun _ => Core.Has (parameters.accept asked)) core := by
  by_cases hasked : Parameters.isSetBy asked = false
  · rw [parameters.accept_of_not_isSetBy hasked]
    exact (program_keeps hprogram hasked hcore).secures hcore fun _ _ => Core.Has.drift
  · cases asked with
    | reset =>
      rw [program_reset] at hprogram
      obtain rfl := Except.ok.inj hprogram
      intro before now _ hbefore last hlast
      rw [Core.write_reset] at hlast
      have hhas : before.Has parameters := hcore.drift hbefore
      have hreset : (before.reset config now).Has (parameters.accept .reset) :=
        hhas.map (f := fun old => old.accept .reset) Core.reset_parameters
      exact hreset.drift hlast
    | setStateIn midstate => exact stateIn_secures hprogram hcore
    | setTail tail => exact tail_secures hprogram hcore
    | setDifficultyMask mask => exact mask_secures hprogram hcore
    | setLeadingZeros count => exact zeroCount_secures hprogram hcore
    | setClockSpeed mhz => exact clock_secures hprogram hcore
    | _ => exact absurd rfl hasked

end Requests

end Driver

end NonceSearch
