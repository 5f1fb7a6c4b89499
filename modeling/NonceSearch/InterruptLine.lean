/-!
# The interrupt line

Interrupts go from any number of senders to one receiver and are counted while nobody has taken them.
Raising one tells whether there is a receiver at all. Waiting takes one; once the last sender has gone
and every interrupt is taken, the wait tells that none will come.
-/

namespace NonceSearch

structure InterruptLine where
  /-- Ends at which interrupts are raised. -/
  senders : Nat := 1
  /-- Whether somebody is at the other end. -/
  received : Bool := true
  /-- Interrupts raised and not taken. -/
  pending : Nat := 0
  deriving DecidableEq, Repr

namespace InterruptLine

/-- Raise an interrupt: whether it was delivered, or nothing if there is no sender. -/
def raise (line : InterruptLine) : Option Bool × InterruptLine :=
  if line.senders = 0 then (none, line)
  else if line.received then (some true, { line with pending := line.pending + 1 })
  else (some false, line)

/-- Wait for an interrupt: whether one was taken, or nothing if the wait would go on or cannot
    begin. -/
def wait (line : InterruptLine) : Option Bool × InterruptLine :=
  if ¬ line.received then (none, line)
  else if line.pending > 0 then (some true, { line with pending := line.pending - 1 })
  else if line.senders = 0 then (some false, line)
  else (none, line)

def cloneSender (line : InterruptLine) : InterruptLine :=
  if line.senders = 0 then line else { line with senders := line.senders + 1 }

def dropSender (line : InterruptLine) : InterruptLine := { line with senders := line.senders - 1 }

/-- The receiver goes, and with it whatever it has not taken. -/
def dropReceiver (line : InterruptLine) : InterruptLine :=
  { line with received := false, pending := 0 }

end InterruptLine

end NonceSearch
