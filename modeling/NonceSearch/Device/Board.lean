import NonceSearch.Core.Search
import NonceSearch.Core.Window
import NonceSearch.Device.Basic
import NonceSearch.Driver.Basic

/-!
# A simulated accelerator

A board is a core with a driver bound to it. Interrupts that the core has raised and the driver has
not serviced yet are the difference of their two counts. A schedule decides when the core's searcher
and the driver's interrupt service get to run: `settle` runs both to the end at once, and as a device a
board lets the searcher commit a fixed number of batches in each millisecond that passes.
-/

namespace NonceSearch

/-- A core and the driver bound to it. -/
structure Board where
  core : Core := Core.powered
  driver : DriverState := {}
  deriving DecidableEq

namespace Board

variable (config : CoreConfig)

def pendingInterrupts (board : Board) : Nat := board.core.raised - board.driver.interrupts

def serviceOne (now : Nat) (board : Board) : Board :=
  let (driver, core) :=
    board.driver.service (Core.registerFile config now) config.layout board.core
  ⟨core, driver⟩

def serviceMany (now : Nat) : Nat → Board → Board
  | 0, board => board
  | count + 1, board => serviceMany now count (board.serviceOne config now)

def serviceAll (now : Nat) (board : Board) : Board :=
  board.serviceMany config now board.pendingInterrupts

def settle (now : Nat) (board : Board) : Board :=
  { board with core := board.core.settle config }.serviceAll config now

/-- Let the searcher commit some batches and service what it raises. -/
def search (now batches : Nat) (board : Board) : Board :=
  { board with core := board.core.searchBatches config batches }.serviceAll config now

def request (now : Nat) (request : Request) (board : Board) : Except DeviceError Reply × Board :=
  let (reply, driver, core) := board.driver.request (Core.registerFile config now) config.layout
    request board.core
  (reply, ⟨core, driver⟩)

def withCore (f : Core → Core) (board : Board) : Board := { board with core := f board.core }

/-- Whether time alone can change the board. -/
def isBusy (board : Board) : Bool := board.core.isSearching || board.pendingInterrupts != 0

/-- A board as a device whose searcher commits `pace` batches in a millisecond. -/
def device (name : String) (pace : Nat) : Device Board where
  name := name
  layout := config.layout
  acquire := fun _ board =>
    let (result, driver) := board.driver.openHandle
    (result, { board with driver := driver })
  request := fun now request board => board.request config now request
  tryRead := fun _ room board =>
    let (result, driver) := board.driver.tryRead room
    (result, { board with driver := driver })
  poll := fun _ board => board.driver.queue.isReady
  readable? := fun _ board => (if board.driver.queue.isReady then some (.ok ()) else none, board)
  read? := fun _ room board =>
    let (result, driver) := board.driver.read? room
    (result, { board with driver := driver })
  nextChange? := fun now board => if board.isBusy then some (now + 1) else none
  elapse := fun now later board => board.search config later (pace * (later - now))
  release := fun _ board => { board with driver := board.driver.closeHandle }

end Board

end NonceSearch
