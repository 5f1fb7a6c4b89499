import NonceSearch.Protocol.Layout
import NonceSearch.Protocol.Status
import NonceSearch.Registers.Window
import NonceSearch.Work

/-!
# An accelerator core

The state of a simulated core and the commands that change it. A reset takes a while until the core
reports READY; a start latches the parameters into a job; the job is worked off by a searcher (see
`Core.Search`) or, while the core is halted, nonce by nonce with step commands; and when a nonce is
accepted or the last one is rejected, the result is latched and the interrupt is raised.

Every reset and every stall moves the core to a new run. A searcher belongs to the run it was started
in and retires when the core has moved on, which is why old work can never touch new registers.

Times are milliseconds on a clock that the caller keeps.
-/

namespace NonceSearch

/-- What is fixed about a core when it is built. -/
structure CoreConfig where
  layout : RegisterLayout
  /-- The time from a reset to READY. -/
  latency : Nat
  /-- The last nonce searched before the search is exhausted. -/
  lastNonce : UInt32
  /-- How many nonces a searcher takes at a time; none counts as one. -/
  batch : UInt32
  deriving DecidableEq, Repr

def CoreConfig.standard (layout : RegisterLayout) : CoreConfig where
  layout := layout
  latency := 2
  lastNonce := 0xffffffff
  batch := 256

/-- The parameters of a search, latched when it started, and how far it is. -/
structure Job where
  midstate : Bytes 32
  tail : Bytes 12
  mask : Bytes 32
  /-- The next nonce to try; one past the greatest nonce when there is none left. -/
  next : Nat
  deriving DecidableEq

namespace Job

def hash (job : Job) (nonce : UInt32) : Bytes 32 := candidateHash job.midstate job.tail nonce

def accepts (job : Job) (nonce : UInt32) : Bool := digestClearUnder job.mask (job.hash nonce)

end Job

/-- The registers of a core, and what goes on behind them. -/
structure Core where
  stateIn : Bytes 32 := Bytes.zero 32
  tail : Bytes 12 := Bytes.zero 12
  mask : Bytes 32 := Bytes.zero 32
  zeroCount : UInt8 := 0
  clock : UInt32 := 0
  status : Status := .empty
  /-- When a reset in progress will be over. -/
  readyAt : Option Nat := none
  nonceCurrent : UInt32 := 0
  nonceCandidate : UInt32 := 0
  halted : Bool := false
  /-- How many resets and stalls there have been. -/
  run : Nat := 0
  job : Option Job := none
  /-- The selected bank of the mask layout, and the next word of it. -/
  bank : Option Bank := none
  cursor : Nat := 0
  /-- How many interrupts the core has raised. -/
  raised : Nat := 0
  deriving DecidableEq

namespace Core

/-- A core after power-on: nothing is loaded, and it is not ready before its first reset. -/
def powered : Core := {}

/-! ### Commands -/

/-- Notice that a reset is over. -/
def refresh (now : Nat) (core : Core) : Core :=
  match core.readyAt with
  | some due => if due ≤ now then { core with readyAt := none, status := .ready } else core
  | none => core

def awaitReady (core : Core) : Core :=
  match core.readyAt with
  | some due => core.refresh due
  | none => core

/-- Clear everything but the clock, and become ready after the latency. -/
def reset (config : CoreConfig) (now : Nat) (core : Core) : Core :=
  let cleared : Core := { clock := core.clock, run := core.run + 1, raised := core.raised }
  if config.latency = 0 then { cleared with status := .ready }
  else { cleared with readyAt := some (now + config.latency) }

/-- The mask that a start latches: the mask register, or the mask of the count register. -/
def comparator (config : CoreConfig) (core : Core) : Bytes 32 :=
  match config.layout with
  | .count => (DifficultyMask.ofLeadingZeros core.zeroCount.toNat).bytes
  | .mask => core.mask

/-- Latch the parameters and begin to search. A core that is not ready ignores the command. -/
def start (config : CoreConfig) (now : Nat) (core : Core) : Core :=
  let core := core.refresh now
  if core.status.isReady then
    { core with
      job := some
        { midstate := core.stateIn, tail := core.tail, mask := core.comparator config, next := 0 }
      status := .running
      nonceCurrent := 0 }
  else core

/-- End the search with a result and raise the interrupt. -/
def finish (outcome : Status) (core : Core) : Core :=
  { core with job := none, status := outcome, raised := core.raised + 1 }

/-- Note that a nonce, and every one before it, has been tried, and end the search if the nonce was
    accepted or was the last. -/
def conclude (config : CoreConfig) (nonce : UInt32) (accepted : Bool) (core : Core) : Core :=
  match core.job with
  | none => core
  | some job =>
    let next := nonce.toNat + 1
    let core := { core with
      job := some { job with next := next }
      nonceCurrent := UInt32.ofNat (min next 0xffffffff) }
    if accepted then { core with nonceCandidate := nonce }.finish .found
    else if nonce = config.lastNonce then core.finish .exhausted
    else core

/-- Try one nonce, if the core is halted in the middle of a search. -/
def step (config : CoreConfig) (core : Core) : Core :=
  match core.job with
  | none => core
  | some job =>
    if core.halted && core.status.isRunning then
      let nonce := UInt32.ofNat job.next
      core.conclude config nonce (job.accepts nonce)
    else core

/-- Carry out a control command; unknown ones do nothing. -/
def control (config : CoreConfig) (now : Nat) (word : UInt32) (core : Core) : Core :=
  if word = Control.reset then core.reset config now
  else if word = Control.start then core.start config now
  else if word = Control.step then core.step config
  else core

/-! ### Faults and hooks -/

/-- Stop without a result and without an interrupt, as a hung core would. -/
def stall (core : Core) : Core :=
  { core with run := core.run + 1, job := none, status := .empty }

def setHalted (halted : Bool) (core : Core) : Core := { core with halted := halted }

/-- Raise the interrupt with nothing to report. -/
def raiseSpurious (core : Core) : Core := { core with raised := core.raised + 1 }

end Core

end NonceSearch
