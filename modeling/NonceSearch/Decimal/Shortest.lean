import NonceSearch.Decimal.Fixed

/-!
# The shortest decimal that reads back

A double stands for every number that rounds to it: an interval around it, ends included when its
significand is even. The shortest text is found on decimal grids, from one significant digit upward:
on each, only the two points next to the double can lie in its interval, and the first grid with a
hit gives the digits. Of two hits the nearer one is taken, and of two equally near ones the greater.
-/

namespace NonceSearch.Decimal

/-- Digits and the power of ten that follows them: `digits · 10 ^ scale`. -/
structure Shortest where
  digits : Nat
  scale : Int
  deriving DecidableEq, Repr

/-- Compare `a · 2 ^ p` with `b · 10 ^ k`, exactly. -/
def compareBinaryDecimal (a : Nat) (p : Int) (b : Nat) (k : Int) : Ordering :=
  compare ((a <<< p.toNat) * tenPow (-k).toNat) ((b * tenPow k.toNat) <<< (-p).toNat)

/-- The numbers that round to one positive double, in units of a quarter of its last place: the
    double itself is four times its significand. -/
structure RoundingInterval where
  low : Nat
  middle : Nat
  high : Nat
  unit : Int
  closed : Bool

/-- The interval of a positive double. Below a power of two the doubles lie closer together. -/
def RoundingInterval.ofDouble (significand : Nat) (exponent : Int) : RoundingInterval where
  low := if significand = Binary64.leastNormal ∧ exponent > Binary64.leastExponent then 4 * significand - 1
    else 4 * significand - 2
  middle := 4 * significand
  high := 4 * significand + 2
  unit := exponent - 2
  closed := significand % 2 == 0

def RoundingInterval.contains (i : RoundingInterval) (digits : Nat) (scale : Int) : Bool :=
  match compareBinaryDecimal i.low i.unit digits scale,
      compareBinaryDecimal i.high i.unit digits scale with
  | .lt, .gt => true
  | .eq, .gt => i.closed
  | .lt, .eq => i.closed
  | _, _ => false

/-- The digits below the double on the grid of a power of ten. -/
def RoundingInterval.below (i : RoundingInterval) (scale : Int) : Nat :=
  ((i.middle <<< i.unit.toNat) * tenPow (-scale).toNat) / (tenPow scale.toNat <<< (-i.unit).toNat)

/-- The better of the two neighbours on one grid, if either reads back. -/
def RoundingInterval.hit? (i : RoundingInterval) (scale : Int) : Option Shortest :=
  let digits := i.below scale
  match i.contains digits scale, i.contains (digits + 1) scale with
  | false, false => none
  | true, false => some ⟨digits, scale⟩
  | false, true => some ⟨digits + 1, scale⟩
  | true, true =>
    -- The double lies at or above the middle of the two exactly when the upper one is at least as near.
    match compareBinaryDecimal (2 * i.middle) i.unit (2 * digits + 1) scale with
    | .lt => some ⟨digits, scale⟩
    | _ => some ⟨digits + 1, scale⟩

/-- The least power of ten above the double, among those that doubles reach. -/
def RoundingInterval.magnitude (i : RoundingInterval) : Int :=
  let offset := (List.range 640).find? fun (n : Nat) =>
    compareBinaryDecimal i.middle i.unit 1 (Int.ofNat n - 324) == .lt
  Int.ofNat (offset.getD 640) - 324

/-- The shortest decimal of a positive double: seventeen digits are always enough. -/
def shortest (significand : Nat) (exponent : Int) : Shortest :=
  let i := RoundingInterval.ofDouble significand exponent
  let top := i.magnitude
  let found := (List.range 17).findSome? fun (n : Nat) => i.hit? (top - Int.ofNat (n + 1))
  found.getD ⟨i.below (top - 17), top - 17⟩

/-- How a shortest decimal is laid out. -/
structure ShortestFormat where
  /-- From this power of ten on, with an exponent. -/
  greatestPositional : Int
  /-- Below this power of ten, with an exponent. -/
  leastPositional : Int
  /-- What a whole number ends in. -/
  wholeSuffix : String

/-- Digits, a point after the first of them if there are more, and the exponent. -/
def Shortest.exponentText (s : Shortest) : String :=
  match Nat.toDigits 10 s.digits with
  | [] => ""
  | first :: rest =>
    let fraction := (rest.reverse.dropWhile (· = '0')).reverse
    let power : Int := s.scale + rest.length
    String.ofList [first] ++ (if fraction.isEmpty then "" else "." ++ String.ofList fraction) ++
      "e" ++ toString power

/-- All digits in place, with zeros where the digits do not reach. -/
def Shortest.positionalText (format : ShortestFormat) (s : Shortest) : String :=
  if 0 ≤ s.scale then toString (s.digits * tenPow s.scale.toNat) ++ format.wholeSuffix
  else scaledText (-s.scale).toNat s.digits

def Shortest.trim (s : Shortest) : Shortest :=
  let zeros := (Nat.toDigits 10 s.digits).reverse.takeWhile (· = '0')
  ⟨s.digits / tenPow zeros.length, s.scale + zeros.length⟩

def Shortest.text (format : ShortestFormat) (s : Shortest) : String :=
  let s := s.trim
  -- The power of ten of the first digit.
  let power : Int := s.scale + (Nat.toDigits 10 s.digits).length - 1
  if format.leastPositional ≤ power ∧ power < format.greatestPositional then
    s.positionalText format
  else s.exponentText

/-- A number as the shortest decimal that reads back. -/
def Binary64.shortestText (format : ShortestFormat) : Binary64 → String
  | .finite negative significand exponent =>
    let text :=
      if significand = 0 then "0" ++ format.wholeSuffix
      else (shortest significand exponent).text format
    if negative then "-" ++ text else text
  | .infinite negative => if negative then "-inf" else "inf"
  | .notANumber => "NaN"

end NonceSearch.Decimal
