import NonceSearch.Decimal.Fixed

/-!
# Hash rates

A rate is a whole number of hashes in a second. It is the quotient of two doubles, cut off to a
whole number, and it is shown with the largest unit that leaves at least one whole unit.
-/

namespace NonceSearch

open Decimal (Binary64)

structure Duration where
  seconds : Nat
  nanoseconds : Nat
  deriving DecidableEq, Repr

namespace Duration

def nanosPerSecond : Nat := 1000000000

/-- Seconds and any number of nanoseconds, of which every thousand million is one more second. -/
def ofParts (seconds nanoseconds : Nat) : Duration :=
  ⟨seconds + nanoseconds / nanosPerSecond, nanoseconds % nanosPerSecond⟩

def ofMillis (ms : Nat) : Duration := .ofParts 0 (ms * 1000000)

/-- The length in seconds as a double: both parts are rounded before they are added. -/
def toDouble (d : Duration) : Binary64 :=
  (Binary64.ofNat d.seconds).add (.ofRatio false d.nanoseconds nanosPerSecond)

end Duration

structure HashRate where
  perSecond : UInt64
  deriving DecidableEq, Repr

namespace HashRate

def zero : HashRate := ⟨0⟩

/-- The rate of `hashes` evaluations in a length of time; zero when no time passed. -/
def of (hashes : Nat) (elapsed : Duration) : HashRate :=
  if elapsed.seconds = 0 ∧ elapsed.nanoseconds = 0 then zero
  else ⟨((Binary64.ofNat hashes).div elapsed.toDouble).toUInt64⟩

def kilo (rate : HashRate) : Binary64 := (Binary64.ofNat rate.perSecond.toNat).div (.ofNat 1000)

def mega (rate : HashRate) : Binary64 := (Binary64.ofNat rate.perSecond.toNat).div (.ofNat 1000000)

/-- The rate with its unit: two places above a thousand, a whole number below. -/
def text (rate : HashRate) : String :=
  if rate.perSecond ≥ 1000000 then rate.mega.fixedText 2 ++ " MH/s"
  else if rate.perSecond ≥ 1000 then rate.kilo.fixedText 2 ++ " kH/s"
  else toString rate.perSecond.toNat ++ " H/s"

end HashRate

end NonceSearch
