import NonceSearch.Path
import NonceSearch.Protocol.Error
import NonceSearch.Text.Blank
import NonceSearch.Text.Quoted
import NonceSearch.Text.Utf8
import NonceSearch.Thermal

/-!
# Configuration

The program is configured by environment variables. A variable that is not set has a default; so has
one whose value is not text. A value is taken without the white space around it, and one that does
not have the form of its setting is an error that shows the value as it was given. The settings are
looked at in a fixed order, and the first error is reported.
-/

namespace NonceSearch

/-- The environment: the value of each variable that is set, as bytes. -/
abbrev Environment := List (String × List UInt8)

/-! ### Reading one setting -/

/-- A whole number from a text: an optional plus sign and at least one decimal digit, at most
    `greatest`. -/
def parseNatural? (greatest : Nat) (text : String) : Option Nat :=
  let digits := match text.toList with
    | '+' :: rest => rest
    | all => all
  if digits.isEmpty || !digits.all Char.isDigit then none
  else
    let value := Decimal.digitsValue digits
    if value ≤ greatest then some value else none

def greatest32 : Nat := UInt32.size - 1

def greatest64 : Nat := UInt64.size - 1

inductive ConfigError where
  /-- A value that does not have the form of its setting. -/
  | invalidValue (name value : String)
  /-- A wait of no time at all. -/
  | zeroTick
  /-- More leading zero bits than a digest has. -/
  | tooManyBits (bits : Nat)
  deriving DecidableEq, Repr

def ConfigError.message : ConfigError → String
  | .invalidValue name value => name ++ ": invalid value " ++ Text.quoted value
  | .zeroTick => "ACCEL_WAIT_TICK_MS must be positive"
  | .tooManyBits bits => "ACCEL_DIFFICULTY_BITS=" ++ toString bits ++ " exceeds 256"

def ConfigError.toSetupError (cause : ConfigError) : SetupError := .config cause.message

namespace Environment

def names : List String :=
  ["ACCEL_DEVICE", "ACCEL_SIM_DEVICES", "ACCEL_LAYOUT", "ACCEL_CLOCK", "ACCEL_WAIT_TICK_MS",
    "ACCEL_TEMP_FILE", "ACCEL_DIFFICULTY_BITS"]

def bytes? (env : Environment) (name : String) : Option (List UInt8) := env.lookup name

def text? (env : Environment) (name : String) : Option String := (env.bytes? name).bind Text.decode?

/-- A setting: its default if the variable has no text, and otherwise what the text says. -/
def setting {α : Type} (env : Environment) (name : String) (parse : String → Option α)
    (default : α) : Except ConfigError α :=
  match env.text? name with
  | none => .ok default
  | some value =>
    match parse (Text.trim value) with
    | some parsed => .ok parsed
    | none => .error (.invalidValue name value)

end Environment

/-! ### The configuration -/

structure Config where
  devicePath : Option Path := none
  /-- How many simulated accelerators there are. -/
  simulated : Nat := 1
  layout : RegisterLayout := .mask
  /-- The clock to program, in megahertz. -/
  clockSpeed : Nat := 110
  /-- The longest wait for a completion before anything else is looked at, in milliseconds. -/
  waitTick : Nat := 200
  temperaturePath : Path := .ofText defaultTemperaturePath
  /-- Leading zero bits that demonstration work asks for. -/
  difficultyBits : Nat := 20
  deriving DecidableEq, Repr

namespace Config

def standard : Config := {}

/-- Whether a configuration is the standard one, with its temperature file written in whatever way. -/
def isStandard (config : Config) : Bool :=
  config.temperaturePath.parts == standard.temperaturePath.parts &&
    decide ({ config with temperaturePath := standard.temperaturePath } = standard)

/-- The wait tick of an environment, which has to be positive. -/
def waitTick? (env : Environment) : Except ConfigError Nat := do
  let tick ← env.setting "ACCEL_WAIT_TICK_MS" (parseNatural? greatest64) standard.waitTick
  if tick = 0 then .error .zeroTick else .ok tick

/-- The difficulty of an environment, of at most all bits. -/
def difficultyBits? (env : Environment) : Except ConfigError Nat := do
  let bits ←
    env.setting "ACCEL_DIFFICULTY_BITS" (parseNatural? greatest32) standard.difficultyBits
  if bits > 256 then .error (.tooManyBits bits) else .ok bits

/-- The configuration of an environment. With a device node set there are no simulated accelerators
    unless they are asked for. -/
def ofEnvironment (env : Environment) : Except ConfigError Config := do
  let device := (env.bytes? "ACCEL_DEVICE").map Path.mk
  let tick ← waitTick? env
  let bits ← difficultyBits? env
  let simulated ← env.setting "ACCEL_SIM_DEVICES" (parseNatural? greatest64)
    (if device.isSome then 0 else 1)
  let layout ← env.setting "ACCEL_LAYOUT" RegisterLayout.ofName? standard.layout
  let clock ← env.setting "ACCEL_CLOCK" (parseNatural? greatest32) standard.clockSpeed
  return {
    devicePath := device
    simulated := simulated
    layout := layout
    clockSpeed := clock
    waitTick := tick
    temperaturePath := ((env.bytes? "ACCEL_TEMP_FILE").map Path.mk).getD standard.temperaturePath
    difficultyBits := bits }

def clockForLayout (config : Config) : Option UInt32 :=
  if config.layout.hasClock then some (UInt32.ofNat config.clockSpeed) else none

end Config

end NonceSearch
