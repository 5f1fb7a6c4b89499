import NonceSearch.Core.Basic

/-!
# Searching

A searcher works a job off in batches. It looks at the core to take the next batch, hashes it without
looking again, and comes back to commit what it found: two separate moments, between which the core
may be halted, stepped, stalled or reset. A commit counts only if the core is still in the searcher's
run and the job is where the batch began; a batch that a step command has overtaken is dropped and
taken again.
-/

namespace NonceSearch

namespace Job

/-- The first accepted nonce among `count` nonces from `start` on. -/
def firstHit (job : Job) : (count start : Nat) → Option UInt32
  | 0, _ => none
  | count + 1, start =>
    let nonce := UInt32.ofNat start
    if job.accepts nonce then some nonce else firstHit job count (start + 1)

end Job

def CoreConfig.batchEnd (config : CoreConfig) (start : Nat) : Nat :=
  min (start + max config.batch.toNat 1 - 1) config.lastNonce.toNat

/-- What a searcher finds when it looks for its next batch. -/
inductive Taken where
  /-- The core has moved on, or the search has ended. -/
  | retire
  /-- The core is halted. -/
  | wait
  /-- Work on the job from its next nonce on. -/
  | batch (job : Job)
  deriving DecidableEq

namespace Core

/-- A searcher of one run looks for its next batch. -/
def take (run : Nat) (core : Core) : Taken :=
  if core.run ≠ run then .retire
  else match core.job with
    | none => .retire
    | some job => if core.halted then .wait else .batch job

def hashBatch (config : CoreConfig) (job : Job) : Option UInt32 :=
  job.firstHit (config.batchEnd job.next + 1 - job.next) job.next

/-- A searcher of one run comes back with a batch that began at `start`. -/
def commit (config : CoreConfig) (run start : Nat) (hit : Option UInt32) (core : Core) : Core :=
  if core.run ≠ run ∨ core.job.map Job.next ≠ some start then core
  else match hit with
    | some nonce => core.conclude config nonce true
    | none => core.conclude config (UInt32.ofNat (config.batchEnd start)) false

/-- A searcher of the present run takes and commits batches, so many at most, with nothing in between. -/
def searchBatches (config : CoreConfig) : Nat → Core → Core
  | 0, core => core
  | count + 1, core =>
    match core.take core.run with
    | .batch job =>
      searchBatches config count (core.commit config core.run job.next (hashBatch config job))
    | _ => core

def isSearching (core : Core) : Bool := core.job.isSome && !core.halted

/-- Search to the end, unless the core is halted. Each batch tries at least one nonce, so as many
    batches as there are nonces are enough. -/
def settle (config : CoreConfig) (core : Core) : Core :=
  searchBatches config (config.lastNonce.toNat + 1) core

end Core

end NonceSearch
