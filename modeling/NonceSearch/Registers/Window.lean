import NonceSearch.Bytes
import NonceSearch.Protocol.Layout

/-!
# Register windows

A core is reached through a window of 32-bit words. On the count layout every register has a word of
its own. On the mask layout the parameters lie in banks: a command word selects a bank and rewinds its
cursor, and the data word then reads or writes the bank's words one after another. Command words with
the select bit name a bank; all others are control commands.
-/

namespace NonceSearch

/-! ### Commands -/

namespace Control

/-- Stop any search, clear the registers and become ready again. -/
def reset : UInt32 := 0x1
/-- Begin a search. -/
def start : UInt32 := 0x2
/-- Move a halted search on by one nonce. -/
def step : UInt32 := 0x4

end Control

/-! ### Words of the count layout -/

namespace CountWindow

def stateIn : Nat := 0
def tail : Nat := 8
def leadingZeros : Nat := 11
def nonceCandidate : Nat := 12
def nonceCurrent : Nat := 13
def status : Nat := 14
def control : Nat := 15
/-- Zero halts the core, anything else lets it run. -/
def debugEnable : Nat := 16
def size : Nat := 17

end CountWindow

/-! ### Words of the mask layout -/

namespace MaskWindow

def command : Nat := 0
def data : Nat := 1
def status : Nat := 2
def nonceCurrent : Nat := 3
def size : Nat := 4
/-- The bit of a command word that makes it a selection. -/
def selectBit : UInt32 := 0x100

end MaskWindow

def RegisterLayout.windowSize : RegisterLayout → Nat
  | .count => CountWindow.size
  | .mask => MaskWindow.size

/-! ### Banks of the mask layout -/

/-- A group of words behind the data register. -/
inductive Bank where
  | stateIn
  | tail
  | mask
  | clock
  | nonceCandidate
  | debugEnable
  deriving DecidableEq, Repr

namespace Bank

/-- The banks in the order of their numbers. -/
def all : List Bank := [.stateIn, .tail, .mask, .clock, .nonceCandidate, .debugEnable]

def number : Bank → UInt32
  | .stateIn => 0
  | .tail => 1
  | .mask => 2
  | .clock => 3
  | .nonceCandidate => 4
  | .debugEnable => 5

def ofNumber? (number : UInt32) : Option Bank :=
  all.find? fun bank => bank.number == number

def size : Bank → Nat
  | .stateIn | .mask => 8
  | .tail => 3
  | .clock | .nonceCandidate | .debugEnable => 1

def select (bank : Bank) : UInt32 := MaskWindow.selectBit ||| bank.number

def describe : Bank → String
  | .stateIn => "StateIn"
  | .tail => "Prefix"
  | .mask => "Mask"
  | .clock => "Clock"
  | .nonceCandidate => "NonceCandidate"
  | .debugEnable => "DebugEnable"

theorem ofNumber?_number (bank : Bank) : ofNumber? bank.number = some bank := by
  cases bank <;> decide

end Bank

/-- What a command word of the mask layout means. -/
inductive Command where
  | select (bank : Bank)
  | control (word : UInt32)
  /-- A selection of a bank that there is not. -/
  | invalid (word : UInt32)
  deriving DecidableEq, Repr

def Command.decode (word : UInt32) : Command :=
  if word &&& MaskWindow.selectBit = 0 then .control word
  else match Bank.ofNumber? (word &&& ~~~MaskWindow.selectBit) with
    | some bank => .select bank
    | none => .invalid word

theorem Command.decode_select (bank : Bank) : Command.decode bank.select = .select bank := by
  cases bank <;> decide

end NonceSearch
