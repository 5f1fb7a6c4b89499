/-!
# Register layouts

Accelerator cores come with one of two register layouts. The older one lays every parameter out flat
and takes the difficulty as a one-byte count of leading zeros; the newer one reaches its parameters
through a banked data register, takes the difficulty as a full mask and has a clock register.
-/

namespace NonceSearch

inductive RegisterLayout where
  /-- Flat registers, difficulty as a count. -/
  | count
  /-- Banked registers, difficulty as a mask, with a clock. -/
  | mask
  deriving DecidableEq, Repr

namespace RegisterLayout

/-- The word that names a layout in a configuration. -/
def name : RegisterLayout → String
  | .count => "count"
  | .mask => "mask"

/-- The layout that a word names, exactly as it is written. -/
def ofName? (text : String) : Option RegisterLayout :=
  if text = "count" then some .count else if text = "mask" then some .mask else none

def unknownName : String := "Matching variant not found"

def describe : RegisterLayout → String
  | .count => "ZeroCount"
  | .mask => "Mask"

def hasClock : RegisterLayout → Bool
  | .count => false
  | .mask => true

theorem ofName?_name (layout : RegisterLayout) : ofName? layout.name = some layout := by
  cases layout <;> decide

end RegisterLayout

end NonceSearch
