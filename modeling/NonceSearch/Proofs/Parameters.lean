import NonceSearch.Proofs.Remainders
import NonceSearch.Proofs.WordStores

/-!
# The parameters of a core

What a core is told for its next search, and its clock. `Parameters.after` says what a list of requests
comes to that have been carried out: each parameter is as the last request for it since the last reset
has set it, and the clock as the last request for it at all. `Parameters.unpack` reads the parameters
off a dump of the registers. The rest is what single accesses do to the parameters.
-/

namespace NonceSearch

structure Parameters where
  stateIn : Bytes 32 := .zero 32
  tail : Bytes 12 := .zero 12
  mask : Bytes 32 := .zero 32
  zeroCount : UInt8 := 0
  clock : UInt32 := 0
  deriving DecidableEq

namespace Parameters

/-! ### Requests -/

/-- The parameters that have been set, the last request first in the list. -/
def after (carriedOut : List Request) : Parameters :=
  let sinceReset := carriedOut.takeWhile (· != .reset)
  { stateIn := (sinceReset.findSome? fun
      | .setStateIn midstate => some midstate
      | _ => none).getD (.zero 32)
    tail := (sinceReset.findSome? fun
      | .setTail tail => some tail
      | _ => none).getD (.zero 12)
    mask := (sinceReset.findSome? fun
      | .setDifficultyMask mask => some mask
      | _ => none).getD (.zero 32)
    zeroCount := (sinceReset.findSome? fun
      | .setLeadingZeros count => some count
      | _ => none).getD 0
    clock := (carriedOut.findSome? fun
      | .setClockSpeed mhz => some mhz
      | _ => none).getD 0 }

def accept (parameters : Parameters) : Request → Parameters
  | .reset => { clock := parameters.clock }
  | .setStateIn midstate => { parameters with stateIn := midstate }
  | .setTail tail => { parameters with tail := tail }
  | .setDifficultyMask mask => { parameters with mask := mask }
  | .setLeadingZeros count => { parameters with zeroCount := count }
  | .setClockSpeed mhz => { parameters with clock := mhz }
  | _ => parameters

theorem after_cons (asked : Request) (carriedOut : List Request) :
    after (asked :: carriedOut) = (after carriedOut).accept asked := by
  cases asked <;> rfl

/-- Whether a request is for another value of a parameter. -/
def isSetBy : Request → Bool
  | .reset | .setStateIn _ | .setTail _ | .setDifficultyMask _ | .setLeadingZeros _ |
    .setClockSpeed _ => true
  | _ => false

theorem accept_of_not_isSetBy (parameters : Parameters) {asked : Request}
    (h : isSetBy asked = false) : parameters.accept asked = parameters := by
  cases asked with
  | start => rfl
  | step => rfl
  | getStatus => rfl
  | getNonceCurrent => rfl
  | getDebugRegisters => rfl
  | _ => exact absurd h nofun

/-- The parameters that a layout lacks have never been set. -/
def On (layout : RegisterLayout) (parameters : Parameters) : Prop :=
  match layout with
  | .count => parameters.mask = .zero 32 ∧ parameters.clock = 0
  | .mask => parameters.zeroCount = 0

theorem On.accept {layout : RegisterLayout} {parameters : Parameters} (h : parameters.On layout)
    {asked : Request} {program : Bus Reply} (hprogram : Driver.program layout asked = .ok program) :
    (parameters.accept asked).On layout := by
  cases layout with
  | count =>
    cases asked with
    | reset => exact ⟨rfl, h.2⟩
    | setDifficultyMask mask => exact absurd hprogram nofun
    | setClockSpeed mhz => exact absurd hprogram nofun
    | _ => exact h
  | mask =>
    cases asked with
    | reset => rfl
    | setLeadingZeros count => exact absurd hprogram nofun
    | _ => exact h

/-! ### Dumps -/

def comparator (layout : RegisterLayout) (parameters : Parameters) : Bytes 32 :=
  match layout with
  | .count => (DifficultyMask.ofLeadingZeros parameters.zeroCount.toNat).bytes
  | .mask => parameters.mask

/-- The parameters of a layout in words, as a dump of the registers has them. -/
def words (layout : RegisterLayout) (parameters : Parameters) : List UInt32 :=
  match layout with
  | .count =>
    parameters.stateIn.words.toList ++ parameters.tail.words.toList ++
      [parameters.zeroCount.toUInt32]
  | .mask =>
    parameters.stateIn.words.toList ++ parameters.tail.words.toList ++ parameters.mask.words.toList ++
      [parameters.clock]

/-- Read the parameters off a dump of all registers. -/
def unpack (layout : RegisterLayout) (dump : List UInt32) : Parameters :=
  match layout with
  | .count =>
    { stateIn := .ofWords 32 (dump.take 8)
      tail := .ofWords 12 ((dump.drop 8).take 3)
      zeroCount := (dump.getD 11 0).toUInt8 }
  | .mask =>
    let banks := dump.drop 2
    { stateIn := .ofWords 32 (banks.take 8)
      tail := .ofWords 12 ((banks.drop 8).take 3)
      mask := .ofWords 32 ((banks.drop 11).take 8)
      clock := banks.getD 19 0 }

theorem unpack_count {parameters : Parameters} (h : parameters.On .count) (rest : List UInt32) :
    unpack .count (parameters.words .count ++ rest) = parameters := by
  obtain ⟨stateIn, tail, mask, zeroCount, clock⟩ := parameters
  obtain ⟨rfl, rfl⟩ : mask = .zero 32 ∧ clock = 0 := h
  have hstateIn : stateIn.words.toList.length = 8 := Vector.length_toList
  have htail : tail.words.toList.length = 3 := Vector.length_toList
  simp [unpack, words, hstateIn, htail, List.getElem?_append, Bytes.ofWords_words]

theorem unpack_mask {parameters : Parameters} (h : parameters.On .mask) (status current : UInt32)
    (rest : List UInt32) :
    unpack .mask (status :: current :: (parameters.words .mask ++ rest)) = parameters := by
  obtain ⟨stateIn, tail, mask, zeroCount, clock⟩ := parameters
  obtain rfl : zeroCount = 0 := h
  have hstateIn : stateIn.words.toList.length = 8 := Vector.length_toList
  have htail : tail.words.toList.length = 3 := Vector.length_toList
  have hmask : mask.words.toList.length = 8 := Vector.length_toList
  have hbefore : stateIn.words.toList.drop 11 = [] := List.drop_eq_nil_of_le (by omega)
  simp [unpack, words, hstateIn, htail, hmask, hbefore, List.drop_append, List.getElem?_append,
    Bytes.ofWords_words]

def newJob (layout : RegisterLayout) (parameters : Parameters) : Job where
  midstate := parameters.stateIn
  tail := parameters.tail
  mask := parameters.comparator layout
  next := 0

end Parameters

/-! ### Registers -/

namespace Core

def parameters (core : Core) : Parameters where
  stateIn := core.stateIn
  tail := core.tail
  mask := core.mask
  zeroCount := core.zeroCount
  clock := core.clock

variable {config : CoreConfig} {core next : Core} {now : Nat}

theorem newJob_eq : core.newJob config = core.parameters.newJob config.layout := rfl

/-- Searchers and hooks leave the parameters alone. -/
theorem Drifts.parameters (h : core.Drifts next) : next.parameters = core.parameters := by
  simp only [Core.parameters, h.stateIn, h.tail, h.mask, h.zeroCount, h.clock]

theorem refresh_parameters : (core.refresh now).parameters = core.parameters := by
  unfold refresh
  split
  · split <;> rfl
  · rfl

theorem read_parameters (word : Nat) : (core.read config now word).2.parameters = core.parameters := by
  rcases @read_snd config core now word with h | h <;> rw [h] <;> exact refresh_parameters

theorem reset_parameters : (core.reset config now).parameters = core.parameters.accept .reset := by
  unfold reset
  dsimp only
  split <;> rfl

theorem start_parameters : (core.start config now).parameters = core.parameters := by
  rw [← @refresh_parameters core now]
  unfold start
  dsimp only
  split <;> rfl

theorem step_parameters : (core.step config).parameters = core.parameters := by
  unfold step
  split
  · rfl
  · split
    · exact (conclude_drifts _ _).parameters
    · rfl

theorem control_parameters {word : UInt32} (hword : word ≠ Control.reset) :
    (core.control config now word).parameters = core.parameters := by
  unfold control
  rw [if_neg hword]
  split_ifs
  · exact start_parameters
  · exact step_parameters
  · rfl

end Core

end NonceSearch
