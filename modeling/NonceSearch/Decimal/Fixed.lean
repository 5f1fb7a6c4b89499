import NonceSearch.Decimal.Binary64

/-!
# Decimals with a fixed number of places

A number is shown with as many places as the format says. It is rounded from its exact value, and a
tie goes to the even last digit, so 0.125 with two places is 0.12. A sign is kept, also by zero and
by what rounds to zero.
-/

namespace NonceSearch.Decimal

def tenPow (exponent : Nat) : Nat := Nat.pow 10 exponent

/-- A natural in base ten, filled up with zeros on the left to a least number of digits. -/
def paddedDigits (width value : Nat) : String :=
  let digits := Nat.toDigits 10 value
  String.ofList (List.replicate (width - digits.length) '0' ++ digits)

/-- The quotient of `scaled` and a power of ten, written with all its places. -/
def scaledText (places scaled : Nat) : String :=
  let whole := toString (scaled / tenPow places)
  if places = 0 then whole
  else whole ++ "." ++ paddedDigits places (scaled % tenPow places)

namespace Binary64

def fixedText (places : Nat) : Binary64 → String
  | .finite negative significand exponent =>
    let (numerator, denominator) := toRatio significand exponent
    let text := scaledText places (roundHalfEven (numerator * tenPow places) denominator)
    if negative then "-" ++ text else text
  | .infinite negative => if negative then "-inf" else "inf"
  | .notANumber => "NaN"

end Binary64

end NonceSearch.Decimal
