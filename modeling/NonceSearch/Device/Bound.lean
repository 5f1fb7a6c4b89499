import NonceSearch.Device.Basic
import NonceSearch.Driver.Basic

/-!
# A driver bound to a register window

A driver works on any register window, whatever is behind it. Bound to one it is a device that never
changes by itself: messages come only with interrupts, and somebody has to have each of these
serviced.

A driver stays bound as long as anybody keeps it: its owner, the open handle, or the service of an
interrupt. Whichever lets go last unbinds it, and the last access of all leaves the core stopped.
-/

namespace NonceSearch

/-- A register window and the driver bound to it. -/
structure Bound (σ : Type) where
  registers : σ
  driver : DriverState := {}
  /-- Whether the driver's owner still has it. -/
  owned : Bool := true
  /-- Whether the service of an interrupt has begun and not ended. -/
  servicing : Bool := false

namespace Bound

variable {σ : Type} (file : RegisterFile σ) (layout : RegisterLayout)

/-! ### Operations -/

def request (request : Request) (bound : Bound σ) : Except DeviceError Reply × Bound σ :=
  let (reply, driver, registers) := bound.driver.request file layout request bound.registers
  (reply, { bound with registers := registers, driver := driver })

def service (bound : Bound σ) : Bound σ :=
  let (driver, registers) := bound.driver.service file layout bound.registers
  { bound with registers := registers, driver := driver }

def unbind (bound : Bound σ) : Bound σ :=
  let (driver, registers) := bound.driver.unbind file layout bound.registers
  { bound with registers := registers, driver := driver }

/-! ### Keeping and letting go -/

def isKept (bound : Bound σ) : Bool := bound.owned || bound.driver.held || bound.servicing

/-- Let go of the driver. If nobody else keeps it, that unbinds it. -/
def letGo (change : Bound σ → Bound σ) (bound : Bound σ) : Bound σ :=
  let after := change bound
  if bound.isKept && !after.isKept then after.unbind file layout else after

def disown (bound : Bound σ) : Bound σ :=
  bound.letGo file layout fun bound => { bound with owned := false }

def closeHandle (bound : Bound σ) : Bound σ :=
  bound.letGo file layout fun bound => { bound with driver := bound.driver.closeHandle }

def beginService (bound : Bound σ) : Bound σ := { bound with servicing := bound.isKept }

def endService (bound : Bound σ) : Bound σ :=
  if bound.servicing then
    bound.letGo file layout fun bound => { bound.service file layout with servicing := false }
  else bound

/-- As long as the owner keeps the driver, giving the handle back touches no register. -/
theorem closeHandle_of_owned {bound : Bound σ} (h : bound.owned = true) :
    bound.closeHandle file layout = { bound with driver := bound.driver.closeHandle } := by
  simp [closeHandle, letGo, isKept, h]

/-! ### Parts -/

def withRegisters {α : Type} (f : σ → α × σ) (bound : Bound σ) : α × Bound σ :=
  let (result, registers) := f bound.registers
  (result, { bound with registers := registers })

def withDriver {α : Type} (f : DriverState → α × DriverState) (bound : Bound σ) : α × Bound σ :=
  let (result, driver) := f bound.driver
  (result, { bound with driver := driver })

/-! ### The device -/

def device (name : String) : Device (Bound σ) where
  name := name
  layout := layout
  acquire := fun _ bound => bound.withDriver DriverState.openHandle
  request := fun _ asked bound => bound.request file layout asked
  tryRead := fun _ room bound => bound.withDriver fun driver => driver.tryRead room
  poll := fun _ bound => bound.driver.queue.isReady
  readable? := fun _ bound =>
    (if bound.driver.queue.isReady then some (.ok ()) else none, bound)
  read? := fun _ room bound => bound.withDriver fun driver => driver.read? room
  nextChange? := fun _ _ => none
  elapse := fun _ _ bound => bound
  release := fun _ bound => bound.closeHandle file layout

end Bound

end NonceSearch
