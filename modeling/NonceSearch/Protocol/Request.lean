import NonceSearch.Mask
import NonceSearch.Protocol.Layout

/-!
# Control requests

What a program asks of an open accelerator, and what it gets back. Each request has a number and a
name; number 5 is not in use. The difficulty is asked for in the encoding that the layout has.
-/

namespace NonceSearch

inductive RequestCode where
  | reset
  | start
  | setStateIn
  | setTail
  | setLeadingZeros
  | getNonceCurrent
  | getStatus
  | getDebugRegisters
  | setDifficultyMask
  | setClockSpeed
  | step
  deriving DecidableEq, Repr

namespace RequestCode

def all : List RequestCode :=
  [.reset, .start, .setStateIn, .setTail, .setLeadingZeros, .getNonceCurrent, .getStatus,
    .getDebugRegisters, .setDifficultyMask, .setClockSpeed, .step]

def number : RequestCode → Nat
  | .reset => 0
  | .start => 1
  | .setStateIn => 2
  | .setTail => 3
  | .setLeadingZeros => 4
  | .getNonceCurrent => 6
  | .getStatus => 7
  | .getDebugRegisters => 8
  | .setDifficultyMask => 9
  | .setClockSpeed => 10
  | .step => 11

def ofNumber? (number : Nat) : Option RequestCode :=
  all.find? fun code => code.number == number

def name : RequestCode → String
  | .reset => "Reset"
  | .start => "Start"
  | .setStateIn => "SetStateIn"
  | .setTail => "SetPrefix"
  | .setLeadingZeros => "SetNumLeadingZeros"
  | .getNonceCurrent => "GetNonceCurrent"
  | .getStatus => "GetStatus"
  | .getDebugRegisters => "GetDebugRegisters"
  | .setDifficultyMask => "SetDifficultyMask"
  | .setClockSpeed => "SetClockSpeed"
  | .step => "Step"

theorem ofNumber?_number (code : RequestCode) : ofNumber? code.number = some code := by
  cases code <;> decide

end RequestCode

inductive Request where
  /-- Stop any search and begin anew. -/
  | reset
  /-- Begin a search over the loaded parameters. -/
  | start
  | setStateIn (midstate : Bytes 32)
  /-- Load the twelve header bytes before the nonce. -/
  | setTail (tail : Bytes 12)
  /-- Load the difficulty as a count of leading zeros. -/
  | setLeadingZeros (count : UInt8)
  /-- Load the difficulty as a mask. -/
  | setDifficultyMask (mask : Bytes 32)
  /-- Program the clock, in megahertz. -/
  | setClockSpeed (mhz : UInt32)
  /-- Read the search counter. -/
  | getNonceCurrent
  /-- Read the status word. -/
  | getStatus
  /-- Read every register while the core holds still. -/
  | getDebugRegisters
  /-- Move a halted core on by one nonce. -/
  | step
  deriving DecidableEq

namespace Request

def code : Request → RequestCode
  | .reset => .reset
  | .start => .start
  | .setStateIn _ => .setStateIn
  | .setTail _ => .setTail
  | .setLeadingZeros _ => .setLeadingZeros
  | .setDifficultyMask _ => .setDifficultyMask
  | .setClockSpeed _ => .setClockSpeed
  | .getNonceCurrent => .getNonceCurrent
  | .getStatus => .getStatus
  | .getDebugRegisters => .getDebugRegisters
  | .step => .step

def name (request : Request) : String := request.code.name

def bare : List Request :=
  [.reset, .start, .getNonceCurrent, .getStatus, .getDebugRegisters, .step]

def listText (numbers : List Nat) : String :=
  "[" ++ String.intercalate ", " (numbers.map toString) ++ "]"

def describe (request : Request) : String :=
  let carrying := fun text => request.name ++ "(" ++ text ++ ")"
  let bytes := fun (bytes : List UInt8) => carrying (listText (bytes.map UInt8.toNat))
  match request with
  | .setStateIn midstate => bytes midstate.toList
  | .setTail tail => bytes tail.toList
  | .setDifficultyMask mask => bytes mask.toList
  | .setLeadingZeros count => carrying (toString count.toNat)
  | .setClockSpeed mhz => carrying (toString mhz.toNat)
  | _ => request.name

end Request

inductive Difficulty where
  | leadingZeros (count : UInt8)
  | mask (mask : DifficultyMask)
  deriving DecidableEq

def Difficulty.request : Difficulty → Request
  | .leadingZeros count => .setLeadingZeros count
  | .mask full => .setDifficultyMask full.bytes

def RegisterLayout.difficulty (layout : RegisterLayout) (mask : DifficultyMask) : Difficulty :=
  match layout with
  | .count => .leadingZeros mask.zeroCount
  | .mask => .mask mask

inductive Reply where
  | done
  | word (word : UInt32)
  | registers (words : List UInt32)
  deriving DecidableEq, Repr

def Reply.describe : Reply → String
  | .done => "Done"
  | .word value => "Word(" ++ toString value.toNat ++ ")"
  | .registers values => "Registers(" ++ Request.listText (values.map UInt32.toNat) ++ ")"

end NonceSearch
