import NonceSearch.Protocol.Error
import NonceSearch.Protocol.Status
import NonceSearch.Words

/-!
# Completion messages

When a search ends, its status word and nonce candidate are latched into a message of eight bytes,
two words with the least significant byte first. Reading back takes the first eight bytes of what
was read and refuses anything shorter.
-/

namespace NonceSearch

/-- The result of one search. -/
structure CompletionMessage where
  /-- The status word when the search had ended. -/
  status : UInt32
  /-- The nonce that was accepted, if the status says so. -/
  nonce : UInt32
  deriving DecidableEq, Repr

namespace CompletionMessage

def size : Nat := 8

def flags (message : CompletionMessage) : Status := ⟨message.status⟩

def isFound (message : CompletionMessage) : Bool := message.flags.has .found

def toBytes (message : CompletionMessage) : List UInt8 :=
  wordBytes message.status ++ wordBytes message.nonce

/-- The message that a byte list starts with. -/
def decode : List UInt8 → Except DeviceError CompletionMessage
  | b₀ :: b₁ :: b₂ :: b₃ :: b₄ :: b₅ :: b₆ :: b₇ :: _ =>
    .ok ⟨wordOf b₀ b₁ b₂ b₃, wordOf b₄ b₅ b₆ b₇⟩
  | bytes => .error (.shortRead bytes.length size)

/-- The first bytes of a message, as many as a buffer takes. -/
def copyOut (message : CompletionMessage) (room : Nat) : List UInt8 :=
  message.toBytes.take room

end CompletionMessage

end NonceSearch
