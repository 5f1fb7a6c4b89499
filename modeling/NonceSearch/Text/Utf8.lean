/-!
# UTF-8

Environment values and files are bytes. `decode?` gives their text if they are well formed; for
showing a path, `decodeLossy` puts the replacement character in place of every longest piece that
could still have begun a character, and of every byte that could not.
-/

namespace NonceSearch.Text

def decode? (bytes : List UInt8) : Option String :=
  String.fromUTF8? ⟨bytes.toArray⟩

def encode (text : String) : List UInt8 := text.toUTF8.toList

/-- How many bytes may follow a first byte, and the range of the first that follows. A character
    outside these ranges would have a shorter form, be half of a pair or lie past the last one. -/
def following (first : UInt8) : Option (Nat × UInt8 × UInt8) :=
  if first < 0x80 then some (0, 0x80, 0xbf)
  else if 0xc2 ≤ first ∧ first ≤ 0xdf then some (1, 0x80, 0xbf)
  else if first = 0xe0 then some (2, 0xa0, 0xbf)
  else if first = 0xed then some (2, 0x80, 0x9f)
  else if 0xe1 ≤ first ∧ first ≤ 0xef then some (2, 0x80, 0xbf)
  else if first = 0xf0 then some (3, 0x90, 0xbf)
  else if 0xf1 ≤ first ∧ first ≤ 0xf3 then some (3, 0x80, 0xbf)
  else if first = 0xf4 then some (3, 0x80, 0x8f)
  else none

/-- Collect up to `count` following bytes onto a value: the value, how many there were, and the
    rest. -/
def collect : (count : Nat) → (low high : UInt8) → (value : Nat) → List UInt8 →
    Nat × Nat × List UInt8
  | count + 1, low, high, value, byte :: rest =>
    if low ≤ byte ∧ byte ≤ high then
      let (value, taken, rest) := collect count 0x80 0xbf (value * 64 + byte.toNat % 64) rest
      (value, taken + 1, rest)
    else (value, 0, byte :: rest)
  | _, _, _, value, bytes => (value, 0, bytes)

/-- The bits of a first byte that belong to the character. -/
def leadingBits (first : UInt8) (count : Nat) : Nat :=
  if count = 0 then first.toNat else first.toNat % (1 <<< (6 - count))

/-- The character that stands in for what cannot be decoded. -/
def replacement : Char := Char.ofNat 0xfffd

/-- Decode bytes, one character or one replacement at a time. Every turn uses up a byte. -/
def decodeChars : (fuel : Nat) → List UInt8 → List Char
  | fuel + 1, first :: rest =>
    match following first with
    | none => replacement :: decodeChars fuel rest
    | some (count, low, high) =>
      let (value, taken, rest) := collect count low high (leadingBits first count) rest
      (if taken = count then Char.ofNat value else replacement) :: decodeChars fuel rest
  | _, _ => []

/-- The text of bytes, with a replacement for whatever is not well formed. -/
def decodeLossy (bytes : List UInt8) : String :=
  String.ofList (decodeChars bytes.length bytes)

end NonceSearch.Text
