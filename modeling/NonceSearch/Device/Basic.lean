import NonceSearch.Protocol.Error

/-!
# Devices

A device can be opened, and while it is open it answers requests and hands out completion records.
This is all that sessions, scans and workers know about an accelerator: a simulated core behind its
driver, a device node and a scripted device are three values of this one type.

Nothing in here waits. A device says whether a wait would be over at a moment, when it may change next
if nobody touches it, and what the passing of time does to it; `await` makes a wait out of that. A wait
sees what is ready at its first moment and at its last, so what falls on the deadline is still in time.

To be ready for a wait may take more than to have something to read: a device may have to learn of it
first, which it does only while time passes. So `poll` and the attempts of a wait are kept apart.
-/

namespace NonceSearch

/-- How an accelerator with states in `δ` behaves. Every operation is given the present time, in
    milliseconds. -/
structure Device (δ : Type) where
  name : String
  layout : RegisterLayout
  acquire : (now : Nat) → δ → Except DeviceError Unit × δ
  request : (now : Nat) → Request → δ → Except DeviceError Reply × δ
  /-- Read into a buffer with room for so many bytes, without waiting. -/
  tryRead : (now room : Nat) → δ → Except DeviceError (List UInt8) × δ
  /-- Whether there is something to read at this moment. -/
  poll : (now : Nat) → δ → Bool
  /-- Whether a wait for something to read would be over, and how. -/
  readable? : (now : Nat) → δ → Option (Except DeviceError Unit) × δ
  /-- Whether a read that may wait would be over, and how. -/
  read? : (now room : Nat) → δ → Option (Except DeviceError (List UInt8)) × δ
  /-- When the device may next change by itself, if ever. -/
  nextChange? : (now : Nat) → δ → Option Nat
  /-- Let time pass from one moment to a later one. -/
  elapse : (now later : Nat) → δ → δ
  /-- Close the device. -/
  release : (now : Nat) → δ → δ

namespace Device

variable {δ : Type}

/-- The next moment at which a wait has to look again: the device's next change, or the deadline. -/
def nextLook (device : Device δ) (deadline now : Nat) (s : δ) : Nat :=
  match device.nextChange? now s with
  | some change => min (max change (now + 1)) deadline
  | none => deadline

theorem lt_nextLook (device : Device δ) {deadline now : Nat} (s : δ) (h : now < deadline) :
    now < device.nextLook deadline now s := by
  unfold nextLook
  split <;> omega

/-- Try something again and again until it is over, or until the deadline: the moment at which the
    wait ended, and how. -/
def await {α : Type} (device : Device δ) (attempt : (now : Nat) → δ → Option α × δ)
    (deadline now : Nat) (s : δ) : Nat × Option α × δ :=
  match attempt now s with
  | (some result, s) => (now, some result, s)
  | (none, s) =>
    if _h : now < deadline then
      let later := device.nextLook deadline now s
      device.await attempt deadline later (device.elapse now later s)
    else (now, none, s)
termination_by deadline - now
decreasing_by
  have := device.lt_nextLook s _h
  omega

/-- Let a length of time pass with nobody waiting, stopping wherever the device may change. -/
def pass (device : Device δ) (deadline now : Nat) (s : δ) : δ :=
  if _h : now < deadline then
    let later := device.nextLook deadline now s
    device.pass deadline later (device.elapse now later s)
  else s
termination_by deadline - now
decreasing_by
  have := device.lt_nextLook s _h
  omega

end Device

end NonceSearch
