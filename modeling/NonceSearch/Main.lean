import NonceSearch.Daemon
import NonceSearch.Log.Line

/-!
# The command line

The program takes its settings from the environment and has no arguments. It drives its simulated
accelerators in turn and writes a line for whatever matters to a user, until it is stopped from
outside. It reaches no device nodes: to it every path leads nowhere.
-/

namespace NonceSearch.CommandLine

def reachable : Node := .directory []

def origin : String := LogRecord.programPath ++ "daemon"

def announce (event : LogEvent) : IO Unit := do
  IO.print (LogRecord.ofEvent origin event).text
  (← IO.getStdout).flush

def environment : IO Environment :=
  Environment.names.filterMapM fun name =>
    return (← IO.getEnv name).map fun value => (name, Text.encode value)

/-- Drive accelerators in turn, without an end. -/
partial def drive (shifts : List (Shift Board)) : IO Unit := do
  let shifts ← shifts.mapM fun shift => do
    let (headlines, shift) := shift.nextHeadlines
    headlines.forM announce
    return shift
  drive shifts

/-- Start the program and go on until it is stopped: the exit code. -/
def run : IO UInt32 := do
  match Daemon.start (Sha256.selfTest Sha256.knownAnswers) (probeNode reachable [reachable]) (← environment) with
  | .error cause =>
    IO.eprintln ("Error: " ++ cause.message)
    return 1
  | .ok daemon =>
    daemon.startEvents.forM announce
    drive (daemon.accelerators.zipIdx.map fun (accelerator, index) =>
      daemon.simulatedShift index accelerator)
    return 0

end NonceSearch.CommandLine

def main : IO UInt32 := NonceSearch.CommandLine.run
