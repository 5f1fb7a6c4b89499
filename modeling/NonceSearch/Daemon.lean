import NonceSearch.Config
import NonceSearch.Device.Board
import NonceSearch.Device.Node
import NonceSearch.Dispatch

/-!
# The program as a whole

At its start the program checks the hash, reads its configuration and looks for its accelerators: the
device node, if one is configured, and then the simulated ones. Each gets a worker and a dispatcher.
The program then runs until it is told to end.
-/

namespace NonceSearch

inductive Accelerator where
  | node (path : Path)
  /-- A simulated accelerator with a number. -/
  | simulated (index : Nat)
  deriving DecidableEq, Repr

def Accelerator.name : Accelerator → String
  | .node path => path.text
  | .simulated index => "sim" ++ toString index

inductive StartError where
  | setup (cause : SetupError)
  /-- The hash does not give its published answers. -/
  | selfTest (reason : String)
  | noAccelerators
  deriving DecidableEq, Repr

def StartError.message : StartError → String
  | .setup cause => cause.message
  | .selfTest reason => "SHA-256 self-test failed: " ++ (SetupError.selfTest reason).message
  | .noAccelerators => "No accelerators configured (set ACCEL_DEVICE or ACCEL_SIM_DEVICES)"

inductive EndSignal where
  | interrupt
  | terminate
  deriving DecidableEq, Repr

def EndSignal.name : EndSignal → String
  | .interrupt => "SIGINT"
  | .terminate => "SIGTERM"

structure Daemon where
  config : Config
  accelerators : List Accelerator
  deriving DecidableEq

namespace Daemon

/-- The accelerators of a configuration. The node is looked up by `probe`. -/
def findAccelerators (probe : Path → Except SetupError Path) (config : Config) :
    Except SetupError (List Accelerator) := do
  let nodes ← match config.devicePath with
    | some path => (probe path).map fun path => [Accelerator.node path]
    | none => .ok []
  return nodes ++ (List.range config.simulated).map .simulated

def start (selfTest : Except String Unit) (probe : Path → Except SetupError Path)
    (env : Environment) : Except StartError Daemon := do
  selfTest.mapError .selfTest
  let config ← (Config.ofEnvironment env).mapError fun cause => .setup cause.toSetupError
  let accelerators ← (findAccelerators probe config).mapError .setup
  if accelerators.isEmpty then .error .noAccelerators
  else return { config := config, accelerators := accelerators }

/-! ### What is announced -/

def startEvents (daemon : Daemon) : List LogEvent :=
  (daemon.accelerators.map fun accelerator =>
    ⟨.info, "Accelerator added",
      [("device", accelerator.name), ("layout", daemon.config.layout.name)]⟩) ++
  [⟨.info, "Started.", []⟩,
    ⟨.info, "For debugging, set RUST_LOG=accel_miner=debug or trace.", []⟩]

def endEvents (signal : EndSignal) : List LogEvent :=
  [⟨.info, "Received " ++ signal.name ++ ".", []⟩, ⟨.info, "Exiting.", []⟩]

/-! ### Workers -/

/-- How many batches a simulated core searches in a millisecond. -/
def simulationPace : Nat := 8

def scanConfig (daemon : Daemon) : ScanConfig :=
  { waitTick := daemon.config.waitTick, clockSpeed := daemon.config.clockForLayout }

/-- A worker on a device, with its dispatcher, before anything has happened. -/
def shift {δ : Type} (daemon : Daemon) (index : Nat) (device : Device δ) (state : δ) : Shift δ where
  place :=
    { bench := { device := device, state := state, sensor := some {} }
      config := daemon.scanConfig }
  dispatcher :=
    { worker := "accel" ++ toString index
      source := { target := targetWithLeadingZeros daemon.config.difficultyBits } }

/-- A worker on the node at a path. What stands behind the path is found by `find`. -/
def nodeShift (daemon : Daemon) (find : Path → Except Unreachable Node) (index : Nat)
    (path : Path) : Shift NodeStream :=
  daemon.shift index (NodeStream.device path daemon.config.layout 0) { found := find path }

def simulatedShift (daemon : Daemon) (index : Nat) (accelerator : Accelerator) : Shift Board :=
  daemon.shift index
    (Board.device (CoreConfig.standard daemon.config.layout) accelerator.name simulationPace) {}

/-- The first lines that the dispatcher of one accelerator logs. -/
def firstHeadlines (daemon : Daemon) (find : Path → Except Unreachable Node) (count index : Nat) :
    Accelerator → List LogEvent
  | .node path => (daemon.nodeShift find index path).firstHeadlines count
  | accelerator => (daemon.simulatedShift index accelerator).firstHeadlines count

def headlines (daemon : Daemon) (find : Path → Except Unreachable Node) (workers count : Nat) :
    List (List LogEvent) :=
  (daemon.accelerators.take workers).zipIdx.map fun (accelerator, index) =>
    daemon.firstHeadlines find count index accelerator

end Daemon

end NonceSearch
