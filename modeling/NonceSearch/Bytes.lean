/-!
# Byte strings of a fixed length

Midstates, header tails, masks, targets and digests are byte strings whose length never changes,
so the length is part of the type. A string has two readings as a number: most significant byte
first (`beNat`), as targets and masks are written, and least significant byte first (`leNat`), as
digests are compared.
-/

namespace NonceSearch

abbrev Bytes (n : Nat) := Vector UInt8 n

/-! ### Numbers -/

/-- The number a byte list spells with its first byte most significant. -/
def beNat (bytes : List UInt8) : Nat :=
  bytes.foldl (fun value byte => value * 256 + byte.toNat) 0

/-- The number a byte list spells with its first byte least significant. -/
def leNat : List UInt8 → Nat
  | [] => 0
  | byte :: rest => byte.toNat + 256 * leNat rest

namespace Bytes

def zero (n : Nat) : Bytes n := Vector.replicate n 0

/-- The low `n` bytes of a number, least significant first. -/
def ofNatLE (n value : Nat) : Bytes n :=
  Vector.ofFn fun i => UInt8.ofNat (value >>> (8 * i.val))

/-- The low `n` bytes of a number, most significant first. -/
def ofNatBE (n value : Nat) : Bytes n :=
  Vector.ofFn fun i => UInt8.ofNat (value >>> (8 * (n - 1 - i.val)))

def toNatLE {n : Nat} (bytes : Bytes n) : Nat := leNat bytes.toList

def toNatBE {n : Nat} (bytes : Bytes n) : Nat := beNat bytes.toList

/-- The first `n` bytes of a list, padded with zeros when the list is shorter. -/
def ofList (n : Nat) (bytes : List UInt8) : Bytes n :=
  Vector.ofFn fun i => bytes.getD i.val 0

end Bytes

/-! ### Hexadecimal text -/

def hexDigit (value : Nat) : Char :=
  if value < 10 then Char.ofNat (48 + value) else Char.ofNat (87 + value)

/-- Two digits for each byte, the high half first. -/
def hexText (bytes : List UInt8) : String :=
  String.ofList (bytes.flatMap fun byte => [hexDigit (byte.toNat / 16), hexDigit (byte.toNat % 16)])

/-- The value of a hexadecimal digit in either case. -/
def hexDigitValue? (c : Char) : Option Nat :=
  if '0' ≤ c ∧ c ≤ '9' then some (c.toNat - 48)
  else if 'a' ≤ c ∧ c ≤ 'f' then some (c.toNat - 87)
  else if 'A' ≤ c ∧ c ≤ 'F' then some (c.toNat - 55)
  else none

def parseHex? : List Char → Option (List UInt8)
  | [] => some []
  | high :: low :: rest => do
    let byte := UInt8.ofNat ((← hexDigitValue? high) * 16 + (← hexDigitValue? low))
    return byte :: (← parseHex? rest)
  | [_] => none

/-- The digits of a number in base sixteen, most significant first, without leading zeros. -/
def hexDigits (value : Nat) : List Char :=
  (Nat.toDigits 16 value)

def hexWord (word : UInt32) : String :=
  hexText (Bytes.ofNatBE 4 word.toNat).toList

end NonceSearch
