import NonceSearch.Registers.Window

/-!
# Register access programs

What a driver does to a register window is a program of single accesses, each of which may depend on
the words read before it. A `Bus` is such a program, kept apart from the window it runs on: `run` runs
all of it on any register file, `advance` runs one access and leaves the rest, so that whatever else
goes on may happen between two accesses.
-/

namespace NonceSearch

inductive Access where
  | read (word : Nat) (value : UInt32)
  | write (word : Nat) (value : UInt32)
  | writeByte (word : Nat) (value : UInt8)
  deriving DecidableEq, Repr

/-- A window of 32-bit words with a state behind it. A read may change that state. -/
structure RegisterFile (σ : Type) where
  read : Nat → σ → UInt32 × σ
  write : Nat → UInt32 → σ → σ
  /-- Store one byte at the start of a word. -/
  writeByte : Nat → UInt8 → σ → σ

/-- The same window, with a list of all accesses beside its state, latest first. -/
def RegisterFile.logged {σ : Type} (file : RegisterFile σ) : RegisterFile (σ × List Access) where
  read := fun word (s, log) =>
    let (value, s) := file.read word s
    (value, s, .read word value :: log)
  write := fun word value (s, log) => (file.write word value s, .write word value :: log)
  writeByte := fun word value (s, log) => (file.writeByte word value s, .writeByte word value :: log)

/-- A program of register accesses that ends with a value. -/
inductive Bus (α : Type) where
  | done (value : α)
  | read (word : Nat) (next : UInt32 → Bus α)
  | write (word : Nat) (value : UInt32) (next : Bus α)
  | writeByte (word : Nat) (value : UInt8) (next : Bus α)

namespace Bus

variable {α β σ : Type}

def bind : Bus α → (α → Bus β) → Bus β
  | .done value, f => f value
  | .read word next, f => .read word fun value => (next value).bind f
  | .write word value next, f => .write word value (next.bind f)
  | .writeByte word value next, f => .writeByte word value (next.bind f)

instance : Monad Bus where
  pure := .done
  bind := bind

def get (word : Nat) : Bus UInt32 := .read word .done

def put (word : Nat) (value : UInt32) : Bus Unit := .write word value (.done ())

def putByte (word : Nat) (value : UInt8) : Bus Unit := .writeByte word value (.done ())

/-- Write words to one address, in order. -/
def putAll (word : Nat) : List UInt32 → Bus Unit
  | [] => .done ()
  | value :: values => .write word value (putAll word values)

/-- Write words to increasing addresses. -/
def putFrom (word : Nat) : List UInt32 → Bus Unit
  | [] => .done ()
  | value :: values => .write word value (putFrom (word + 1) values)

/-- Read one address a number of times. -/
def getAll (word : Nat) : Nat → Bus (List UInt32)
  | 0 => .done []
  | count + 1 => .read word fun value => (getAll word count).bind fun values => .done (value :: values)

/-- Read a number of increasing addresses. -/
def getFrom (word : Nat) : Nat → Bus (List UInt32)
  | 0 => .done []
  | count + 1 =>
    .read word fun value => (getFrom (word + 1) count).bind fun values => .done (value :: values)

def run (file : RegisterFile σ) : Bus α → σ → α × σ
  | .done value, s => (value, s)
  | .read word next, s =>
    let (value, s) := file.read word s
    run file (next value) s
  | .write word value next, s => run file next (file.write word value s)
  | .writeByte word value next, s => run file next (file.writeByte word value s)

/-- Run the next access of a program, if it has one left. -/
def advance (file : RegisterFile σ) : Bus α → σ → Bus α × σ
  | .done value, s => (.done value, s)
  | .read word next, s =>
    let (value, s) := file.read word s
    (next value, s)
  | .write word value next, s => (next, file.write word value s)
  | .writeByte word value next, s => (next, file.writeByte word value s)

/-- One access more or less does not change where a program ends. -/
theorem run_advance (file : RegisterFile σ) (program : Bus α) (s : σ) :
    run file (advance file program s).1 (advance file program s).2 = run file program s := by
  cases program <;> rfl

theorem run_bind (file : RegisterFile σ) (program : Bus α) (f : α → Bus β) (s : σ) :
    run file (program.bind f) s = run file (f (run file program s).1) (run file program s).2 := by
  induction program generalizing s with
  | done value => rfl
  | read word next ih => exact ih _ _
  | write word value next ih => exact ih _
  | writeByte word value next ih => exact ih _

end Bus

end NonceSearch
