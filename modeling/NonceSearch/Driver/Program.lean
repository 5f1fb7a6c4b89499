import NonceSearch.Protocol.Completion
import NonceSearch.Registers.Bus

/-!
# What a driver does to the registers

Each request that a layout supports is a program of register accesses, and so is the service of an
interrupt. The programs say nothing about what else the driver keeps; that is in `Driver.Basic`.

The service reads the status first. If it shows a completion, the nonce candidate is read after it
and the core is let run again; otherwise the interrupt was spurious and nothing more is touched.
-/

namespace NonceSearch.Driver

/-! ### Words by layout -/

def statusWord : RegisterLayout → Nat
  | .count => CountWindow.status
  | .mask => MaskWindow.status

def nonceCurrentWord : RegisterLayout → Nat
  | .count => CountWindow.nonceCurrent
  | .mask => MaskWindow.nonceCurrent

def commandWord : RegisterLayout → Nat
  | .count => CountWindow.control
  | .mask => MaskWindow.command

/-! ### Pieces of programs -/

def command (layout : RegisterLayout) (word : UInt32) : Bus Unit := .put (commandWord layout) word

def writeBank (bank : Bank) (words : List UInt32) : Bus Unit := do
  .put MaskWindow.command bank.select
  .putAll MaskWindow.data words

def readBank (bank : Bank) : Bus (List UInt32) := do
  .put MaskWindow.command bank.select
  .getAll MaskWindow.data bank.size

def readBanks : List Bank → Bus (List UInt32)
  | [] => .done []
  | bank :: banks => do
    let words ← readBank bank
    let rest ← readBanks banks
    return words ++ rest

def setDebugEnable (layout : RegisterLayout) (enabled : Bool) : Bus Unit :=
  let value : UInt32 := if enabled then 1 else 0
  match layout with
  | .count => .put CountWindow.debugEnable value
  | .mask => writeBank .debugEnable [value]

/-- Every register: the whole window, or the readable words and then every bank. -/
def readAll : RegisterLayout → Bus (List UInt32)
  | .count => .getFrom 0 CountWindow.size
  | .mask => do
    let status ← .get MaskWindow.status
    let current ← .get MaskWindow.nonceCurrent
    let banks ← readBanks Bank.all
    return status :: current :: banks

/-- Read every register while the core is halted, and let it run again. -/
def dump (layout : RegisterLayout) : Bus (List UInt32) := do
  setDebugEnable layout false
  let words ← readAll layout
  setDebugEnable layout true
  return words

def readCandidate : RegisterLayout → Bus UInt32
  | .count => .get CountWindow.nonceCandidate
  | .mask => do
    .put MaskWindow.command Bank.nonceCandidate.select
    .get MaskWindow.data

/-! ### Requests and interrupts -/

def andDone (program : Bus Unit) : Bus Reply := program.bind fun _ => .done .done

/-- The program of a request, or the reason why the layout has none. A step is carried out as in builds
    with debug assertions; builds without them refuse it as unsupported, whatever the layout. -/
def program (layout : RegisterLayout) (request : Request) : Except DeviceError (Bus Reply) :=
  match layout, request with
  | _, .reset => .ok (andDone (command layout Control.reset))
  | _, .start => .ok (andDone (command layout Control.start))
  | _, .step => .ok (andDone (command layout Control.step))
  | _, .getStatus => .ok ((Bus.get (statusWord layout)).bind fun word => .done (.word word))
  | _, .getNonceCurrent =>
    .ok ((Bus.get (nonceCurrentWord layout)).bind fun word => .done (.word word))
  | _, .getDebugRegisters => .ok ((dump layout).bind fun words => .done (.registers words))
  | .count, .setStateIn midstate =>
    .ok (andDone (.putFrom CountWindow.stateIn midstate.words.toList))
  | .count, .setTail tail => .ok (andDone (.putFrom CountWindow.tail tail.words.toList))
  | .count, .setLeadingZeros count => .ok (andDone (.putByte CountWindow.leadingZeros count))
  | .mask, .setStateIn midstate => .ok (andDone (writeBank .stateIn midstate.words.toList))
  | .mask, .setTail tail => .ok (andDone (writeBank .tail tail.words.toList))
  | .mask, .setDifficultyMask mask => .ok (andDone (writeBank .mask mask.words.toList))
  | .mask, .setClockSpeed mhz => .ok (andDone (writeBank .clock [mhz]))
  | .count, .setDifficultyMask _ | .count, .setClockSpeed _ | .mask, .setLeadingZeros _ =>
    .error (.unsupported (.onLayout request.code layout))

/-- The service of one interrupt: the message to queue, or nothing if it was spurious. -/
def service (layout : RegisterLayout) : Bus (Option CompletionMessage) := do
  let status ← .get (statusWord layout)
  if (Status.mk status).isCompletion then
    let nonce ← readCandidate layout
    setDebugEnable layout true
    return some ⟨status, nonce⟩
  else return none

end NonceSearch.Driver
