import NonceSearch.HashRate
import NonceSearch.Scan.Basic
import NonceSearch.Thermal

/-!
# Workers

A worker owns one accelerator. It is given work items, scans them one at a time and tells its owner
what comes of it. An item is used up by any scan that ends by itself: the accelerator always begins at
nonce zero, so scanning it again would only give the same answer. Work that arrives in the middle of a
scan has the scan broken off and takes the place of the old item, which goes back to whoever sent the
new one.

This module has the messages that go in and out. Two accepted items are told apart by their number,
even if they are equal as work.
-/

namespace NonceSearch

open Decimal (Binary64)

structure Assignment where
  /-- How many items the worker had accepted before. -/
  number : Nat
  work : WorkItem
  deriving DecidableEq

structure WorkerStatus where
  /-- The rate of the last scan. -/
  rate : HashRate := HashRate.zero
  /-- Candidates below their target. -/
  shares : Nat := 0
  /-- Candidates that the comparator accepted and that are not below their target. -/
  falsePositives : Nat := 0
  /-- Faulted scans and failed openings. -/
  errors : Nat := 0
  /-- Search counters of all scans together. -/
  totalHashes : Nat := 0
  temperature : Option Binary64 := none
  /-- Whether a scan is going on. -/
  active : Bool := false
  deriving DecidableEq, Repr

inductive WorkerEvent where
  | share (item : Assignment) (nonce : UInt32) (hash : Bytes 32)
  /-- A nonce that the comparator accepted and that is not below the target. -/
  | falsePositive (item : Assignment) (nonce : UInt32)
  /-- The item is used up, also when the device could not be opened. -/
  | complete (item : Assignment) (hashes : Nat)
  | fault (reason : String)
  | status (status : WorkerStatus)
  deriving DecidableEq

inductive WorkerOrder where
  /-- Scan this instead of whatever there is. -/
  | replace (work : WorkItem)
  /-- Stop scanning. -/
  | goIdle
  deriving DecidableEq

inductive WorkerError where
  /-- The worker is gone. -/
  | offline
  /-- The worker went before it answered. -/
  | noResponse
  deriving DecidableEq, Repr

def WorkerError.message : WorkerError → String
  | .offline => "Thread has been shut down"
  | .noResponse => "Channel closed: no response from thread"

/-- How many orders may wait for a worker. -/
def orderCapacity : Nat := 8

/-- How many events may wait for an owner. -/
def eventCapacity : Nat := 100

end NonceSearch
