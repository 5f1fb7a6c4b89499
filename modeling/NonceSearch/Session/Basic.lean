import NonceSearch.Decimal.Fixed
import NonceSearch.Device.Basic
import NonceSearch.Protocol.Completion
import NonceSearch.Work

/-!
# The rules of a session

A session is the orderly use of an open device. Every call stands for one request. The session keeps
track of where the device is in its protocol and refuses calls that are out of turn: parameters and a
start only after READY has been seen since the last reset, the clock not while a search runs. A
refused call sends nothing. A call moves the state only when it succeeds, so a failed one, for
whatever reason, leaves it as it was.

Status lines are read past the session: they issue their two requests without looking at the state
and without moving it.
-/

namespace NonceSearch

open Decimal (Binary64)

inductive SessionCall where
  | reset
  | status
  | setStateIn (midstate : Bytes 32)
  | setTail (tail : Bytes 12)
  | setDifficulty (difficulty : Difficulty)
  | setClockSpeed (mhz : UInt32)
  | start
  | currentNonce
  | step
  | debugRegisters
  deriving DecidableEq

namespace SessionCall

def request : SessionCall → Request
  | .reset => .reset
  | .status => .getStatus
  | .setStateIn midstate => .setStateIn midstate
  | .setTail tail => .setTail tail
  | .setDifficulty difficulty => difficulty.request
  | .setClockSpeed mhz => .setClockSpeed mhz
  | .start => .start
  | .currentNonce => .getNonceCurrent
  | .step => .step
  | .debugRegisters => .getDebugRegisters

def allowed (state : SessionState) : SessionCall → Bool
  | .setStateIn _ | .setTail _ | .setDifficulty _ | .start => state == .ready
  | .setClockSpeed _ => state != .running
  | _ => true

def refusal (state : SessionState) (call : SessionCall) : DeviceError :=
  .violation (.outOfTurn call.request.code state)

/-- What a reply means to a call: calls that only have something done take any reply. -/
def answer (call : SessionCall) (reply : Reply) : Except DeviceError Reply :=
  match call with
  | .status | .currentNonce => reply.toWord.map .word
  | .debugRegisters => reply.toRegisters.map .registers
  | _ => .ok .done

def advance (state : SessionState) (call : SessionCall) (answer : Reply) : SessionState :=
  match call, answer with
  | .reset, _ => .resetting
  | .start, _ => .running
  | .status, .word bits =>
    if state = .resetting ∧ (Status.mk bits).isReady then .ready
    else if state = .running ∧ ¬ (Status.mk bits).isRunning then .stopped
    else state
  | _, _ => state

/-- What a call gives once the device has answered its request, and the state after it. -/
def settle (state : SessionState) (call : SessionCall) (result : Except DeviceError Reply) :
    Except DeviceError Reply × SessionState :=
  match result.bind call.answer with
  | .ok answer => (.ok answer, call.advance state answer)
  | .error cause => (.error cause, state)

/-- A call that fails leaves the state as it was. -/
theorem settle_error {state state' : SessionState} {call : SessionCall}
    {result : Except DeviceError Reply} {cause : DeviceError}
    (h : call.settle state result = (.error cause, state')) : state' = state := by
  unfold settle at h
  split at h
  · simp at h
  · exact (Prod.mk.inj h).2.symm

end SessionCall

/-! ### Completion records -/

/-- The message in what was read, and no message if there was nothing to read. -/
def completionOf (result : Except DeviceError (List UInt8)) :
    Except DeviceError (Option CompletionMessage) :=
  match result with
  | .ok bytes => (CompletionMessage.decode bytes).map some
  | .error .wouldBlock => .ok none
  | .error cause => .error cause

/-! ### Status lines -/

def temperatureText : Option Binary64 → String
  | some celsius => celsius.fixedText 1
  | none => "n/a"

def statusLineText (temperature : Option Binary64) (status nonce : Except DeviceError UInt32) :
    String :=
  "temperature=" ++ temperatureText temperature ++
    match status, nonce with
    | .ok status, .ok nonce => " status=" ++ hexWord status ++ " curnonce=" ++ hexWord nonce
    | _, _ => " status=unavailable"

def Device.statusLine {δ : Type} (device : Device δ) (now : Nat) (temperature : Option Binary64)
    (s : δ) : String × δ :=
  let (status, s) := device.request now .getStatus s
  let (nonce, s) := device.request now .getNonceCurrent s
  (statusLineText temperature (status.bind Reply.toWord) (nonce.bind Reply.toWord), s)

end NonceSearch
