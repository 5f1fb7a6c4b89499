import NonceSearch.Decimal.Fixed

/-!
# Reading decimals

A decimal is an optional sign followed by a number or by one of the words for infinity and for what
is not a number, in any mixture of cases. A number is digits with at most one point among, before or
after them, at least one digit, and an optional exponent, which is a letter, an optional sign and at
least one digit. Nothing may stand before or after it. The value is the nearest double.
-/

namespace NonceSearch.Decimal

def digitsValue (digits : List Char) : Nat :=
  digits.foldl (fun value digit => value * 10 + (digit.toNat - 48)) 0

/-- Split off a leading sign: whether the text is negative, and the rest of it. -/
def splitSign : List Char → Bool × List Char
  | '-' :: rest => (true, rest)
  | '+' :: rest => (false, rest)
  | text => (false, text)

/-- The exponent that ends a number: none at all, or a letter with a signed whole number. -/
def readExponent? : List Char → Option Int
  | [] => some 0
  | letter :: rest =>
    let (negative, digits) := splitSign rest
    if (letter = 'e' ∨ letter = 'E') ∧ digits ≠ [] ∧ digits.all Char.isDigit then
      some (if negative then -(digitsValue digits : Int) else digitsValue digits)
    else none

/-- The double nearest to `digits · 10 ^ scale`. Scales beyond every double are cut off before the
    power is formed. -/
def ofDecimal (negative : Bool) (digits : Nat) (scale : Int) : Binary64 :=
  let power : Int := scale + (Nat.toDigits 10 digits).length
  if digits = 0 then .ofRatio negative 0 1
  else if power > 400 then .infinite negative
  else if power < -400 then .ofRatio negative 0 1
  else .ofRatio negative (digits * tenPow scale.toNat) (tenPow (-scale).toNat)

/-- An unsigned number: digits, a point, digits, an exponent. -/
def readNumber? (negative : Bool) (text : List Char) : Option Binary64 :=
  let whole := text.takeWhile Char.isDigit
  let rest := text.dropWhile Char.isDigit
  let (fraction, rest) := match rest with
    | '.' :: rest => (rest.takeWhile Char.isDigit, rest.dropWhile Char.isDigit)
    | rest => ([], rest)
  if whole.isEmpty && fraction.isEmpty then none
  else (readExponent? rest).map fun exponent =>
    ofDecimal negative (digitsValue (whole ++ fraction)) (exponent - fraction.length)

def read? (text : String) : Option Binary64 :=
  let (negative, body) := splitSign text.toList
  let lower := String.ofList (body.map Char.toLower)
  if lower = "inf" ∨ lower = "infinity" then some (.infinite negative)
  else if lower = "nan" then some .notANumber
  else readNumber? negative body

end NonceSearch.Decimal
