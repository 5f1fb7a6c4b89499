import NonceSearch.Decimal.Shortest
import NonceSearch.Log.Event
import NonceSearch.Text.Quoted

/-!
# Log lines

The text that is written for an event, after the time of day: the level in its colour, the part of the
program that the event comes from, the message, and on a second line, if there are any, the fields.
Values that are recorded as diagnostics lose the wrapper of an optional value, all values and the
message lose the quotes around them. Events that were handed over from another logging system carry
their true origin in a field; such fields are not shown.
-/

namespace NonceSearch

/-- A recorded value: a plain text, or the diagnostic text of something else. -/
inductive RecordedValue where
  | plain (text : String)
  | diagnostic (text : String)
  deriving DecidableEq, Repr

namespace RecordedValue

/-- A text of which both ends have been taken off, if it has them. -/
def stripEnds? (front back : List Char) (text : List Char) : Option (List Char) :=
  if front.isPrefixOf text then
    let rest := text.drop front.length
    if back.isSuffixOf rest then some (rest.take (rest.length - back.length)) else none
  else none

def text : RecordedValue → String
  | .plain text => text
  | .diagnostic text =>
    match stripEnds? "Some(".toList [')'] text.toList with
    | some inner => String.ofList inner
    | none => text

/-- How numbers are recorded: shortest, positional from a ten-thousandth up to 10¹⁶. -/
def numberFormat : Decimal.ShortestFormat where
  greatestPositional := 16
  leastPositional := -4
  wholeSuffix := ".0"

def number (value : Decimal.Binary64) : RecordedValue := .diagnostic (value.shortestText numberFormat)

def optionalText : Option String → RecordedValue
  | some text => .diagnostic ("Some(" ++ Text.quoted text ++ ")")
  | none => .diagnostic "None"

end RecordedValue

/-- An event as it is handed to the writer. -/
structure LogRecord where
  level : LogLevel
  /-- Where the event comes from. -/
  target : String
  message : Option String := none
  fields : List (String × RecordedValue) := []
  deriving DecidableEq, Repr

namespace LogRecord

/-- The module path that all parts of the program have in common. -/
def programPath : String := "accel_miner::"

def handedOver : String := "log"

def originField : String := "log.target"

/-- The sequences that set a colour, and the one that sets it back. -/
def colour (code : String) : String := "\x1b[" ++ code ++ "m"

/-- The colour and the name of a level, filled up to five characters. -/
def levelText : LogLevel → String
  | .error => colour "31" ++ "ERROR"
  | .warn => colour "33" ++ "WARN "
  | .info => colour "32" ++ "INFO "
  | .debug => colour "34" ++ "DEBUG"
  | .trace => colour "35" ++ "TRACE"

def shownTarget (record : LogRecord) : String :=
  match RecordedValue.stripEnds? programPath.toList [] record.target.toList with
  | some rest => String.ofList rest
  | none =>
    if record.target = handedOver then
      match record.fields.lookup originField with
      | some origin => unquote origin.text
      | none => record.target
    else record.target

def shownFields (record : LogRecord) : List (String × String) :=
  (record.fields.filter fun field => !"log.".toList.isPrefixOf field.1.toList).map fun field =>
    (field.1, field.2.text)

/-- Everything that is written after the time of day. -/
def text (record : LogRecord) : String :=
  let fields := LogEvent.fieldText record.shownFields
  " " ++ levelText record.level ++ colour "0" ++ " " ++ record.shownTarget ++ ": " ++
    ((record.message.map unquote).getD "") ++
    (if fields = "" then ""
      else "\n" ++ colour "90" ++ String.ofList (List.replicate 15 ' ') ++ fields ++ colour "0") ++
    "\n"

/-- A record that was handed over, with its origin. -/
def handOver (level : LogLevel) (origin : String) (message : Option String) : LogRecord where
  level := level
  target := handedOver
  message := message
  fields := [(originField, .plain origin)]

def ofEvent (target : String) (event : LogEvent) : LogRecord where
  level := event.level
  target := target
  message := some event.message
  fields := event.fields.map fun field => (field.1, .plain field.2)

end LogRecord

end NonceSearch
