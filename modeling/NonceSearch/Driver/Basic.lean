import NonceSearch.Driver.Program
import NonceSearch.Queue.Basic

/-!
# A driver

What a driver keeps beside the registers: the completion queue, whether its one handle is out, and
two counts. A request and the service of an interrupt each run their register program first and touch
the queue last: a reset has cleared the core before it flushes, and a message is pushed after the
registers it reports were read. Both hold the driver's lock from the first access to the last effect,
so here each is one operation.
-/

namespace NonceSearch

/-- The state of a driver, apart from its registers. -/
structure DriverState where
  queue : CompletionQueue := {}
  /-- Whether a handle is open. -/
  held : Bool := false
  /-- Interrupts serviced, spurious ones included. -/
  interrupts : Nat := 0
  /-- Interrupts that carried no completion. -/
  spurious : Nat := 0
  deriving DecidableEq, Repr

namespace DriverState

/-! ### Handles -/

def openHandle (driver : DriverState) : Except DeviceError Unit × DriverState :=
  if driver.held then (.error .busy, driver) else (.ok (), { driver with held := true })

def closeHandle (driver : DriverState) : DriverState := { driver with held := false }

/-! ### The last effect of a register program -/

/-- What a request does to the queue once its accesses are done. -/
def finishRequest (request : Request) (driver : DriverState) : DriverState :=
  match request with
  | .reset => { driver with queue := driver.queue.flush.2 }
  | _ => driver

/-- What the service of an interrupt does once its accesses are done. -/
def finishService (message : Option CompletionMessage) (driver : DriverState) : DriverState :=
  match message with
  | some message =>
    { driver with queue := driver.queue.push message, interrupts := driver.interrupts + 1 }
  | none => { driver with interrupts := driver.interrupts + 1, spurious := driver.spurious + 1 }

/-! ### Operations -/

variable {σ : Type}

/-- Carry out a request. One that the layout lacks touches nothing. -/
def request (file : RegisterFile σ) (layout : RegisterLayout) (request : Request)
    (driver : DriverState) (registers : σ) :
    Except DeviceError Reply × DriverState × σ :=
  match Driver.program layout request with
  | .error cause => (.error cause, driver, registers)
  | .ok program =>
    let (reply, registers) := program.run file registers
    (.ok reply, driver.finishRequest request, registers)

def service (file : RegisterFile σ) (layout : RegisterLayout) (driver : DriverState)
    (registers : σ) : DriverState × σ :=
  let (message, registers) := (Driver.service layout).run file registers
  (driver.finishService message, registers)

/-- Leave the core stopped: the last access of a driver that goes away. -/
def unbind (file : RegisterFile σ) (layout : RegisterLayout) (driver : DriverState)
    (registers : σ) : DriverState × σ :=
  let (_, registers) := (Driver.command layout Control.reset).run file registers
  ({ driver with queue := driver.queue.drain.2 }, registers)

/-! ### Reading -/

/-- Take the oldest message into a buffer with room for so many bytes. Nothing is taken into an empty
    buffer; a buffer that is too short for the message still uses it up. -/
def tryRead (room : Nat) (driver : DriverState) : Except DeviceError (List UInt8) × DriverState :=
  if room = 0 then (.ok [], driver)
  else match driver.queue.take? with
    | none => (.error .wouldBlock, driver)
    | some (message, queue) => (.ok (message.copyOut room), { driver with queue := queue })

/-- Read if that needs no waiting. -/
def read? (room : Nat) (driver : DriverState) :
    Option (Except DeviceError (List UInt8)) × DriverState :=
  match driver.tryRead room with
  | (.error .wouldBlock, driver) => (none, driver)
  | (result, driver) => (some result, driver)

end DriverState

end NonceSearch
