import NonceSearch.Log.Event
import NonceSearch.Protocol.Completion
import NonceSearch.Work

/-!
# Scans

A scan takes one work item through an accelerator. This module has its vocabulary: how it is
configured, the states it goes through, how it can end, and what is logged at its end. The scan itself
is in `Scan.Machine`.
-/

namespace NonceSearch

/-- How a scan waits. All times are in milliseconds. -/
structure ScanConfig where
  /-- The longest wait for a completion before the token and the status are looked at. -/
  waitTick : Nat := 200
  /-- The pause between two looks at a device that is not ready yet. -/
  readyPoll : Nat := 1
  /-- How long a device may take to become ready. -/
  readyTimeout : Nat := 2000
  /-- How long a completion may take to arrive after the search has been seen to be over. -/
  stopGrace : Nat := 50
  clockSpeed : Option UInt32 := none
  deriving DecidableEq, Repr

inductive ScanState where
  | idle
  | configuring
  | ready
  | running
  | found
  | exhausted
  | noResult
  | restarted
  | faulted
  | closed
  deriving DecidableEq, Repr

def ScanState.name : ScanState → String
  | .idle => "Idle"
  | .configuring => "Configuring"
  | .ready => "Ready"
  | .running => "Running"
  | .found => "Found"
  | .exhausted => "Exhausted"
  | .noResult => "NoResult"
  | .restarted => "Restarted"
  | .faulted => "Faulted"
  | .closed => "Closed"

/-- A nonce that the accelerator reported, hashed again in software. -/
structure Candidate where
  nonce : UInt32
  hash : Bytes 32
  /-- Whether the hash is below the target. The comparator only knows a mask. -/
  meetsTarget : Bool
  deriving DecidableEq

inductive ScanFault where
  /-- The search stopped without a completion. -/
  | hardwareStopped
  /-- READY was not reported in time. -/
  | readyTimeout
  /-- A call failed, for the reason in the text. -/
  | protocol (reason : String)
  deriving DecidableEq, Repr

def ScanFault.message : ScanFault → String
  | .hardwareStopped => "hardware stopped unexpectedly"
  | .readyTimeout => "device never became ready"
  | .protocol reason => "protocol error: " ++ reason

def ScanFault.ofError (cause : DeviceError) : ScanFault := .protocol cause.message

inductive ScanOutcome where
  | found (candidate : Candidate)
  | exhausted
  /-- The completion record was cut short or said nothing. -/
  | noResult
  | restarted
  | faulted (fault : ScanFault)
  deriving DecidableEq

def ScanOutcome.state : ScanOutcome → ScanState
  | .found _ => .found
  | .exhausted => .exhausted
  | .noResult => .noResult
  | .restarted => .restarted
  | .faulted _ => .faulted

/-- What a scan that reached its device brings back. -/
structure ScanReport where
  outcome : ScanOutcome
  /-- The search counter at the end; zero if it could not be read. -/
  hashes : Nat
  deriving DecidableEq

/-- What a completion message means for a work item: a nonce counts before exhaustion. -/
def WorkItem.classify (work : WorkItem) (message : CompletionMessage) : ScanOutcome :=
  if message.flags.has .found then
    let hash := work.hash message.nonce
    .found ⟨message.nonce, hash, work.meetsTarget hash⟩
  else if message.flags.has .exhausted then .exhausted
  else .noResult

/-! ### Log events -/

def nonceText (nonce : UInt32) : String := "0x" ++ hexWord nonce

def ScanOutcome.event (device : String) : ScanOutcome → LogEvent
  | .found candidate =>
    if candidate.meetsTarget then
      ⟨.info, "Found nonce", [("device", device), ("nonce", nonceText candidate.nonce)]⟩
    else
      ⟨.warn, "False positive, hash above target",
        [("device", device), ("nonce", nonceText candidate.nonce),
          ("hash", displayHash candidate.hash)]⟩
  | .exhausted => ⟨.debug, "Nonce space exhausted", [("device", device)]⟩
  | .noResult => ⟨.debug, "Scan ended without a result", [("device", device)]⟩
  | .restarted => ⟨.info, "Dropping work, restart requested", [("device", device)]⟩
  | .faulted fault => ⟨.error, "Scan faulted", [("device", device), ("fault", fault.message)]⟩

end NonceSearch
