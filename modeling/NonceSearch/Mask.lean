import NonceSearch.Uint256

/-!
# Difficulty masks

An accelerator does not compare a digest with a target. It is given a mask, a run of one bits from
the most significant end, and accepts a digest that is zero under all of them. The mask of a target
covers the leading zero bits of the greatest digest below that target, so whatever is below the
target is accepted; the reverse does not hold, and a reported nonce is hashed again in software.

A mask *is* its count of leading ones. Its bytes, its one-byte count for the layout that has no room
for a mask, and the two acceptance tests are derived from it.
-/

namespace NonceSearch

/-- A run of one bits from the most significant end of 256 bits. -/
structure DifficultyMask where
  /-- How many bits are set. -/
  leadingOnes : Nat
  leadingOnes_le : leadingOnes ≤ 256
  deriving DecidableEq, Repr

namespace DifficultyMask

def acceptAll : DifficultyMask := ⟨0, by decide⟩

instance : Inhabited DifficultyMask := ⟨acceptAll⟩

/-- The mask with the top `count` bits set, all of them from 256 on. -/
def ofLeadingZeros (count : Nat) : DifficultyMask := ⟨min count 256, Nat.min_le_right ..⟩

/-- The mask of the greatest number below a target. Nothing is below zero, whose mask has every bit
    set. -/
def ofTarget (target : Uint256) : DifficultyMask :=
  match target.sub? 1 with
  | some greatest => ofLeadingZeros greatest.leadingZeros
  | none => ofLeadingZeros 256

/-- A byte whose top `count` bits are set, all eight from eight on. -/
def leadingByte (count : Nat) : UInt8 :=
  UInt8.ofNat (0xff00 >>> min count 8)

/-- The mask's bytes, most significant first. -/
def bytes (mask : DifficultyMask) : Bytes 32 :=
  Vector.ofFn fun i => leadingByte (mask.leadingOnes - 8 * i.val)

/-- The leading-one count as one byte carries it: 255 stands for 256 as well. -/
def zeroCount (mask : DifficultyMask) : UInt8 :=
  UInt8.ofNat (min mask.leadingOnes 255)

end DifficultyMask

/-! ### Acceptance -/

/-- Whether 32 bytes are zero wherever a mask has a bit, both most significant byte first. -/
def clearUnder (mask value : Bytes 32) : Bool :=
  Nat.all 32 fun i _ => mask[i] &&& value[i] == 0

def digestClearUnder (mask digest : Bytes 32) : Bool :=
  Nat.all 32 fun i _ => mask[i] &&& digest[31 - i] == 0

namespace DifficultyMask

/-- Whether the mask accepts a value written most significant byte first. -/
def accepts (mask : DifficultyMask) (value : Bytes 32) : Bool :=
  clearUnder mask.bytes value

/-- Whether the mask accepts a digest, whose value is read least significant byte first. -/
def acceptsDigest (mask : DifficultyMask) (digest : Bytes 32) : Bool :=
  digestClearUnder mask.bytes digest

def text (mask : DifficultyMask) : String := hexText mask.bytes.toList

def describe (mask : DifficultyMask) : String :=
  "DifficultyMask \x7b leading_ones: " ++ toString mask.leadingOnes ++ " \x7d"

end DifficultyMask

end NonceSearch
