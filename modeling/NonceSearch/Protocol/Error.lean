import NonceSearch.Protocol.Request

/-!
# What can go wrong between a program and an accelerator

Each failure is kept as its cause, and `message` gives its text. A device may also report a failure
of its own with a text that nobody here chose; those are the `reported` causes.
-/

namespace NonceSearch

/-- Where the user of an open accelerator is in its protocol. -/
inductive SessionState where
  /-- Opened, nothing known about the core. -/
  | unknown
  /-- Reset asked for, READY not seen yet. -/
  | resetting
  /-- READY seen: parameters may be written. -/
  | ready
  /-- Start asked for. -/
  | running
  /-- RUNNING seen clear after a start. -/
  | stopped
  deriving DecidableEq, Repr

def SessionState.name : SessionState → String
  | .unknown => "Unknown"
  | .resetting => "Resetting"
  | .ready => "Ready"
  | .running => "Running"
  | .stopped => "Stopped"

/-- What an operating system refuses to do with a path or a file. -/
inductive SystemError where
  | notPermitted
  | noSuchFile
  | notADirectory
  | isADirectory
  | noSuchRequest
  | nameTooLong
  deriving DecidableEq, Repr

namespace SystemError

def number : SystemError → Nat
  | .notPermitted => 1
  | .noSuchFile => 2
  | .notADirectory => 20
  | .isADirectory => 21
  | .noSuchRequest => 25
  | .nameTooLong => 36

def words : SystemError → String
  | .notPermitted => "Operation not permitted"
  | .noSuchFile => "No such file or directory"
  | .notADirectory => "Not a directory"
  | .isADirectory => "Is a directory"
  | .noSuchRequest => "Inappropriate ioctl for device"
  | .nameTooLong => "File name too long"

def message (e : SystemError) : String :=
  e.words ++ " (os error " ++ toString e.number ++ ")"

end SystemError

inductive Violation where
  /-- A request in a state that does not allow it. -/
  | outOfTurn (request : RequestCode) (state : SessionState)
  /-- A reply that is no word where a word is due. -/
  | notAWord (reply : Reply)
  /-- A reply that is no register dump where one is due. -/
  | notRegisters (reply : Reply)
  | reported (message : String)
  deriving DecidableEq, Repr

def Violation.message : Violation → String
  | .outOfTurn request state => request.name ++ " while " ++ state.name
  | .notAWord reply => "expected a word reply, got " ++ reply.describe
  | .notRegisters reply => "expected a register dump, got " ++ reply.describe
  | .reported message => message

inductive Missing where
  /-- A request that the register layout has no registers for. -/
  | onLayout (request : RequestCode) (layout : RegisterLayout)
  | reported (message : String)
  deriving DecidableEq, Repr

def Missing.message : Missing → String
  | .onLayout request layout => request.name ++ " on the " ++ layout.name ++ " layout"
  | .reported message => message

inductive Unreachable where
  | system (error : SystemError)
  /-- A path with a null byte, which no system takes. -/
  | nullInPath
  | reported (message : String)
  deriving DecidableEq, Repr

def Unreachable.message : Unreachable → String
  | .system error => error.message
  | .nullInPath => "file name contained an unexpected NUL byte"
  | .reported message => message

inductive DeviceError where
  /-- The device is open already. -/
  | busy
  | violation (cause : Violation)
  | unsupported (cause : Missing)
  /-- Nothing to read. -/
  | wouldBlock
  /-- The wait was called off. -/
  | interrupted
  /-- A record ended before its length. -/
  | shortRead (got expected : Nat)
  | unreachable (cause : Unreachable)
  deriving DecidableEq, Repr

def DeviceError.message : DeviceError → String
  | .busy => "Device busy"
  | .violation cause => "Protocol violation: " ++ cause.message
  | .unsupported cause => "Request not supported: " ++ cause.message
  | .wouldBlock => "No completion available"
  | .interrupted => "Wait interrupted"
  | .shortRead got expected =>
    "Short read: " ++ toString got ++ " of " ++ toString expected ++ " bytes"
  | .unreachable cause => "I/O error: " ++ cause.message

def Reply.toWord : Reply → Except DeviceError UInt32
  | .word value => .ok value
  | reply => .error (.violation (.notAWord reply))

/-- The words of a reply that should be a register dump. -/
def Reply.toRegisters : Reply → Except DeviceError (List UInt32)
  | .registers words => .ok words
  | reply => .error (.violation (.notRegisters reply))

/-- A failure that keeps the program from starting or from going on. -/
inductive SetupError where
  | config (message : String)
  | device (message : String)
  | selfTest (message : String)
  deriving DecidableEq, Repr

def SetupError.message : SetupError → String
  | .config message => "Configuration error: " ++ message
  | .device message => "Device error: " ++ message
  | .selfTest message => "Self-test failed: " ++ message

end NonceSearch
