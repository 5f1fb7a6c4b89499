import NonceSearch.Registers.Bus

/-!
# A window of plain memory

A register window with no core behind it: a word reads back what was last written to it. A word may
also be fed values that its next reads return instead, one each. What is read and written is
recorded, so that the accesses of a driver can be seen.
-/

namespace NonceSearch

/-- Memory words, and the values that some of them have yet to return. -/
structure Memory where
  words : Array UInt32
  feeds : List (Nat × List UInt32) := []
  deriving DecidableEq, Repr

namespace Memory

def zeroed (size : Nat) : Memory := { words := Array.replicate size 0 }

def poke (word : Nat) (value : UInt32) (memory : Memory) : Memory :=
  { memory with words := memory.words.setIfInBounds word value }

def fed (word : Nat) (memory : Memory) : List UInt32 := (memory.feeds.lookup word).getD []

def setFed (word : Nat) (values : List UInt32) (memory : Memory) : Memory :=
  { memory with feeds := (word, values) :: memory.feeds.filter fun entry => entry.1 != word }

/-- Let reads of a word return these values, after those it has yet to return. -/
def feed (word : Nat) (values : List UInt32) (memory : Memory) : Memory :=
  memory.setFed word (memory.fed word ++ values)

def fetch (word : Nat) (memory : Memory) : UInt32 × Memory :=
  match memory.fed word with
  | value :: values => (value, memory.setFed word values)
  | [] => (memory.words.getD word 0, memory)

/-- The memory as a register window. A byte store sets the whole word. -/
def registerFile : RegisterFile Memory where
  read := fetch
  write := poke
  writeByte := fun word value => poke word value.toUInt32

end Memory

end NonceSearch
