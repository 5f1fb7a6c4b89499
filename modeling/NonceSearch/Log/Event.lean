import NonceSearch.Text.Blank

/-!
# Log events

An event has a level, a message and named fields whose values are already texts. Wherever a value is
shown, the quotes at its ends are dropped.
-/

namespace NonceSearch

inductive LogLevel where
  | error
  | warn
  | info
  | debug
  | trace
  deriving DecidableEq, Repr

def LogLevel.name : LogLevel → String
  | .error => "ERROR"
  | .warn => "WARN"
  | .info => "INFO"
  | .debug => "DEBUG"
  | .trace => "TRACE"

structure LogEvent where
  level : LogLevel
  message : String
  fields : List (String × String) := []
  deriving DecidableEq, Repr

def unquote (text : String) : String := Text.trimBy (· == '"') text

def LogEvent.fieldText (fields : List (String × String)) : String :=
  String.intercalate ", " (fields.map fun field => field.1 ++ "=" ++ unquote field.2)

def LogEvent.text (event : LogEvent) : String :=
  event.level.name ++ " " ++ event.message ++ " [" ++ fieldText event.fields ++ "]"

end NonceSearch
