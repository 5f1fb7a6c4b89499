/-!
# Double-precision numbers

Temperatures and hash rates are double-precision numbers. A finite one is a significand below 2⁵³
times a power of two whose exponent is at least -1074, with a sign of its own for zero. Arithmetic
here is exact arithmetic on a quotient of two naturals followed by one rounding, `ofRatio`, to the
nearest double, where a tie goes to the even significand.
-/

namespace NonceSearch.Decimal

/-- The quotient rounded to the nearest natural, a tie to the even one. -/
def roundHalfEven (numerator denominator : Nat) : Nat :=
  let quotient := numerator / denominator
  let twice := 2 * (numerator % denominator)
  if twice > denominator ∨ (twice = denominator ∧ quotient % 2 = 1) then quotient + 1 else quotient

/-- Rounding moves a quotient up by less than one. -/
theorem roundHalfEven_mem (numerator denominator : Nat) :
    roundHalfEven numerator denominator = numerator / denominator ∨
      roundHalfEven numerator denominator = numerator / denominator + 1 := by
  unfold roundHalfEven
  dsimp only
  split
  · exact .inr rfl
  · exact .inl rfl

/-- The greatest exponent whose power of two is at most the quotient of two positive naturals. -/
def floorLog2 (numerator denominator : Nat) : Int :=
  let guess : Int := (numerator.log2 : Int) - (denominator.log2 : Int)
  let below :=
    if guess < 0 then numerator <<< (-guess).toNat < denominator
    else numerator < denominator <<< guess.toNat
  if below then guess - 1 else guess

inductive Binary64 where
  /-- `±significand · 2 ^ exponent`. -/
  | finite (negative : Bool) (significand : Nat) (exponent : Int)
  | infinite (negative : Bool)
  | notANumber
  deriving DecidableEq, Repr

namespace Binary64

def leastExponent : Int := -1074

/-- The least significand of fifty-three bits, 2⁵². Below it are only the smallest numbers. -/
def leastNormal : Nat := 0x10000000000000

def zero : Binary64 := .finite false 0 leastExponent

def isFinite : Binary64 → Bool
  | .finite .. => true
  | _ => false

/-- The double nearest to `±numerator / denominator`, infinite when that is out of range. -/
def ofRatio (negative : Bool) (numerator denominator : Nat) : Binary64 :=
  if numerator = 0 then .finite negative 0 leastExponent
  else
    let exponent := max leastExponent (floorLog2 numerator denominator - 52)
    let significand :=
      if exponent < 0 then roundHalfEven (numerator <<< (-exponent).toNat) denominator
      else roundHalfEven numerator (denominator <<< exponent.toNat)
    -- Rounding up to 2⁵³ leaves the range of significands by one bit.
    let (significand, exponent) :=
      if significand = 2 * leastNormal then (leastNormal, exponent + 1) else (significand, exponent)
    if exponent > 971 then .infinite negative else .finite negative significand exponent

def ofNat (value : Nat) : Binary64 := ofRatio false value 1

/-- A non-negative finite number as a quotient of two naturals. -/
def toRatio (significand : Nat) (exponent : Int) : Nat × Nat :=
  if exponent < 0 then (significand, 1 <<< (-exponent).toNat)
  else (significand <<< exponent.toNat, 1)

/-- The number that sixty-four bits encode: a sign, eleven bits of exponent, fifty-two of
    significand. -/
def ofBits (bits : UInt64) : Binary64 :=
  let negative := bits >>> 63 == 1
  let field := ((bits >>> 52) &&& 0x7ff).toNat
  let fraction := (bits &&& 0xfffffffffffff).toNat
  if field = 2047 then if fraction = 0 then .infinite negative else .notANumber
  else if field = 0 then .finite negative fraction leastExponent
  else .finite negative (leastNormal + fraction) (field - 1075)

def toBits : Binary64 → UInt64
  | .finite negative significand exponent =>
    let sign := if negative then 0x8000000000000000 else 0
    if significand < leastNormal then UInt64.ofNat (sign + significand)
    else UInt64.ofNat (sign + (exponent + 1075).toNat * leastNormal + (significand - leastNormal))
  | .infinite negative => if negative then 0xfff0000000000000 else 0x7ff0000000000000
  | .notANumber => 0x7ff8000000000000

/-- The sum of two non-negative finite numbers. -/
def add : Binary64 → Binary64 → Binary64
  | .finite false m p, .finite false n q =>
    let (a, b) := toRatio m p
    let (c, d) := toRatio n q
    ofRatio false (a * d + c * b) (b * d)
  | _, _ => .notANumber

/-- The quotient of a non-negative and a positive finite number. -/
def div : Binary64 → Binary64 → Binary64
  | .finite false m p, .finite false n q =>
    let (a, b) := toRatio m p
    let (c, d) := toRatio n q
    if c = 0 then .notANumber else ofRatio false (a * d) (b * c)
  | _, _ => .notANumber

/-- The whole part of a non-negative number, and the greatest 64-bit number in place of one that is
    out of range. -/
def toUInt64 : Binary64 → UInt64
  | .finite false significand exponent =>
    let (a, b) := toRatio significand exponent
    UInt64.ofNat (min (a / b) (UInt64.size - 1))
  | .infinite false => UInt64.ofNat (UInt64.size - 1)
  | _ => 0

end Binary64

end NonceSearch.Decimal
