import NonceSearch.Bytes

/-!
# 256-bit unsigned numbers

Targets and digests are compared as 256-bit numbers. The arithmetic here is the little that this
needs: reading and writing in both byte orders, the count of leading zero bits, a subtraction that
says when it would go below zero, and a shift to the right that empties the number from 256 on.
-/

namespace NonceSearch

abbrev Uint256 := BitVec 256

/-- The number of bits needed to write a number in base two; none for zero. -/
def bitLength (value : Nat) : Nat :=
  if value = 0 then 0 else value.log2 + 1

namespace Uint256

def width : Nat := 256

def max : Uint256 := BitVec.allOnes 256

def ofBytesBE (bytes : Bytes 32) : Uint256 := BitVec.ofNat 256 bytes.toNatBE

def ofBytesLE (bytes : Bytes 32) : Uint256 := BitVec.ofNat 256 bytes.toNatLE

def toBytesBE (value : Uint256) : Bytes 32 := Bytes.ofNatBE 32 value.toNat

def toBytesLE (value : Uint256) : Bytes 32 := Bytes.ofNatLE 32 value.toNat

/-- The zero bits above the highest one bit; all 256 for zero. -/
def leadingZeros (value : Uint256) : Nat := 256 - bitLength value.toNat

def sub? (a b : Uint256) : Option Uint256 := if b ≤ a then some (a - b) else none

/-- A shift towards the least significant end; nothing is left from 256 on. -/
def shiftRight (value : Uint256) (count : Nat) : Uint256 := value >>> count

theorem leadingZeros_le (value : Uint256) : value.leadingZeros ≤ 256 := Nat.sub_le ..

end Uint256

/-- The greatest number with `bits` leading zero bits; zero from 256 on. -/
def targetWithLeadingZeros (bits : Nat) : Uint256 := Uint256.max.shiftRight bits

end NonceSearch
