import NonceSearch.Bytes

/-!
# The status word

A core reports its state in one word. Four of its bits have a meaning, the rest are carried along
unread. READY counts only when it stands alone among the four: a word that says READY and RUNNING is
not ready.
-/

namespace NonceSearch

structure Status where
  bits : UInt32
  deriving DecidableEq, Repr

namespace Status

/-- Nothing to report. -/
def empty : Status := ⟨0⟩
/-- Parameters may be written and a search may be started. -/
def ready : Status := ⟨0x01⟩
/-- A search is going on. -/
def running : Status := ⟨0x02⟩
/-- A search ended with a nonce. -/
def found : Status := ⟨0x10⟩
/-- A search ended without one. -/
def exhausted : Status := ⟨0x20⟩

instance : Inhabited Status := ⟨empty⟩

/-- The bits with a meaning, and their names, in the order in which they are shown. -/
def flags : List (Status × String) :=
  [(ready, "READY"), (running, "RUNNING"), (found, "FOUND"), (exhausted, "EXHAUSTED")]

def known : UInt32 := 0x33

def has (s flag : Status) : Bool := s.bits &&& flag.bits == flag.bits

/-- Whether READY is the only bit with a meaning that is set. -/
def isReady (s : Status) : Bool := s.bits &&& known == ready.bits

def isRunning (s : Status) : Bool := s.has running

/-- Whether FOUND or EXHAUSTED is set. -/
def isCompletion (s : Status) : Bool := s.bits &&& 0x30 != 0

/-- A word as hexadecimal digits, without leading zeros. -/
def hexNumber (word : UInt32) : String := "0x" ++ String.ofList (hexDigits word.toNat)

/-- The names of the bits that are set and the rest of the word, for diagnostics. -/
def describe (s : Status) : String :=
  let names := (flags.filter fun flag => s.has flag.1).map Prod.snd
  let rest := s.bits &&& ~~~known
  let parts := if rest = 0 ∧ names ≠ [] then names else names ++ [hexNumber rest]
  "Status(" ++ String.intercalate " | " parts ++ ")"

end Status

end NonceSearch
