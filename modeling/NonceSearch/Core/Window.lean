import NonceSearch.Core.Basic
import NonceSearch.Registers.Bus
import NonceSearch.Words

/-!
# A core seen through its register window

What a read or a write of each word does to the core. On the mask layout the data word moves the
bank's cursor at every access, also past the end of the bank, where reads give zero and writes are
dropped.
-/

namespace NonceSearch.Core

/-- Every read first notices that a reset is over. On the count layout that is all a read changes. -/
def readCount (word : Nat) (core : Core) : UInt32 :=
  if word < CountWindow.tail then core.stateIn.word word
  else if word < CountWindow.leadingZeros then core.tail.word (word - CountWindow.tail)
  else if word = CountWindow.leadingZeros then core.zeroCount.toUInt32
  else if word = CountWindow.nonceCandidate then core.nonceCandidate
  else if word = CountWindow.nonceCurrent then core.nonceCurrent
  else if word = CountWindow.status then core.status.bits
  else if word = CountWindow.debugEnable then if core.halted then 0 else 1
  else 0

def writeCount (config : CoreConfig) (now word : Nat) (value : UInt32) (core : Core) : Core :=
  if word < CountWindow.tail then { core with stateIn := core.stateIn.putWord word value }
  else if word < CountWindow.leadingZeros then
    { core with tail := core.tail.putWord (word - CountWindow.tail) value }
  else if word = CountWindow.leadingZeros then { core with zeroCount := value.toUInt8 }
  else if word = CountWindow.control then core.control config now value
  else if word = CountWindow.debugEnable then core.setHalted (value == 0)
  else core

/-! ### Banks -/

/-- Word `index` of a bank, zero past its end. -/
def bankWord (bank : Bank) (index : Nat) (core : Core) : UInt32 :=
  if index < bank.size then
    match bank with
    | .stateIn => core.stateIn.word index
    | .tail => core.tail.word index
    | .mask => core.mask.word index
    | .clock => core.clock
    | .nonceCandidate => core.nonceCandidate
    | .debugEnable => if core.halted then 0 else 1
  else 0

/-- Write word `index` of a bank. The candidate cannot be written, and there is nothing past the
    end. -/
def putBankWord (bank : Bank) (index : Nat) (value : UInt32) (core : Core) : Core :=
  if index < bank.size then
    match bank with
    | .stateIn => { core with stateIn := core.stateIn.putWord index value }
    | .tail => { core with tail := core.tail.putWord index value }
    | .mask => { core with mask := core.mask.putWord index value }
    | .clock => { core with clock := value }
    | .nonceCandidate => core
    | .debugEnable => core.setHalted (value == 0)
  else core

def readData (core : Core) : UInt32 × Core :=
  match core.bank with
  | none => (0, core)
  | some bank => (core.bankWord bank core.cursor, { core with cursor := core.cursor + 1 })

def writeData (value : UInt32) (core : Core) : Core :=
  match core.bank with
  | none => core
  | some bank => { core.putBankWord bank core.cursor value with cursor := core.cursor + 1 }

def command (config : CoreConfig) (now : Nat) (word : UInt32) (core : Core) : Core :=
  match Command.decode word with
  | .select bank => { core with bank := some bank, cursor := 0 }
  | .control word => core.control config now word
  | .invalid _ => core

def readMask (word : Nat) (core : Core) : UInt32 × Core :=
  if word = MaskWindow.command then ((core.bank.map Bank.select).getD 0, core)
  else if word = MaskWindow.data then core.readData
  else if word = MaskWindow.status then (core.status.bits, core)
  else if word = MaskWindow.nonceCurrent then (core.nonceCurrent, core)
  else (0, core)

def writeMask (config : CoreConfig) (now word : Nat) (value : UInt32) (core : Core) : Core :=
  if word = MaskWindow.command then core.command config now value
  else if word = MaskWindow.data then core.writeData value
  else core

/-! ### The window -/

def read (config : CoreConfig) (now word : Nat) (core : Core) : UInt32 × Core :=
  let core := core.refresh now
  match config.layout with
  | .count => (core.readCount word, core)
  | .mask => core.readMask word

def write (config : CoreConfig) (now word : Nat) (value : UInt32) (core : Core) : Core :=
  match config.layout with
  | .count => core.writeCount config now word value
  | .mask => core.writeMask config now word value

/-- A core as a register window at one moment. A byte store writes the word that holds only it. -/
def registerFile (config : CoreConfig) (now : Nat) : RegisterFile Core where
  read := fun word core => core.read config now word
  write := fun word value core => core.write config now word value
  writeByte := fun word value core => core.write config now word value.toUInt32

end NonceSearch.Core
