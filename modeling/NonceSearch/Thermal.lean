import NonceSearch.Decimal.Read
import NonceSearch.Text.Blank
import NonceSearch.Text.Utf8

/-!
# Temperature sensor

The temperature is the first word of a text file. A sensor keeps the last good reading: a file that is
missing, not a text, empty, or whose first word is no finite number leaves it as it was.
-/

namespace NonceSearch

open Decimal (Binary64)

def defaultTemperaturePath : String := "/sys/devices/amba.0/f8007100.ps7-xadc/temp"

def parseTemperature? (text : String) : Option Binary64 :=
  (Text.firstWord? text).bind fun word =>
    (Decimal.read? word).filter Binary64.isFinite

structure ThermalSensor where
  last : Option Binary64 := none
  deriving DecidableEq, Repr

namespace ThermalSensor

def refresh (contents : Option (List UInt8)) (sensor : ThermalSensor) : ThermalSensor :=
  match (contents.bind Text.decode?).bind parseTemperature? with
  | some reading => ⟨some reading⟩
  | none => sensor

/-- A reading is never forgotten. -/
theorem isSome_last_refresh {sensor : ThermalSensor} (contents : Option (List UInt8))
    (h : sensor.last.isSome) : (sensor.refresh contents).last.isSome := by
  unfold refresh
  split
  · rfl
  · exact h

end ThermalSensor

end NonceSearch
