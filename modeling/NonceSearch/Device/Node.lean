import NonceSearch.Device.Basic
import NonceSearch.Path

/-!
# Device nodes

An accelerator that an operating system drives is reached through a character device node. Before it
is opened, the node is looked up and has to be a character device. The system's number of a control
request packs the direction of the transfer, the size of what is passed, a letter and the request's
own number.

What stands behind a path is an input to this module: a tree of named nodes. Behind a pipe there is a
byte stream and no accelerator, so every request fails while reads deliver what was written. A read
that does not wait looks at the stream itself; one that waits goes by what its opening has been told.
-/

namespace NonceSearch

/-! ### Request numbers -/

inductive Transfer where
  | none
  | write
  | read
  | both
  deriving DecidableEq, Repr

def Transfer.bits : Transfer → Nat
  | .none => 0
  | .write => 1
  | .read => 2
  | .both => 3

/-- The direction of a request and the size of what it passes: a pointer, a number or nothing. -/
def RequestCode.transfer : RequestCode → Transfer × Nat
  | .reset | .start | .step => (.none, 0)
  | .setStateIn | .setTail | .setDifficultyMask => (.write, 8)
  | .setLeadingZeros => (.write, 1)
  | .setClockSpeed => (.write, 4)
  | .getNonceCurrent | .getStatus => (.read, 8)
  | .getDebugRegisters => (.both, 8)

def RequestCode.systemNumber (code : RequestCode) : Nat :=
  let (direction, size) := code.transfer
  direction.bits <<< 30 ||| size <<< 16 ||| 'S'.toNat <<< 8 ||| code.number

def debugRegisterCount : Nat := 20

/-- Where the system puts the node of an accelerator. -/
def defaultNodePath : String := "/dev/sha256"

/-! ### Nodes -/

/-- What a name stands for in a tree of nodes. -/
inductive Node where
  | directory (entries : List (String × Node))
  | characterDevice
  | file
  | pipe

namespace Node

def nameLimit : Nat := 255

def pathLimit : Nat := 4096

def entry? (entries : List (String × Node)) (name : List UInt8) : Option Node :=
  (Text.decode? name).bind fun name => entries.lookup name

/-- Follow names from a chain of directories, the innermost first. -/
def follow (chain : List Node) : List (List UInt8) → Except SystemError Node
  | [] =>
    match chain with
    | [] => .error .noSuchFile
    | node :: _ => .ok node
  | name :: names =>
    match chain with
    | .directory entries :: outer =>
      if name.length > nameLimit then .error .nameTooLong
      else if name = [Path.point] then follow chain names
      else if name = [Path.point, Path.point] then
        match outer with
        | [] => follow chain names
        | _ :: _ => follow outer names
      else match entry? entries name with
        | some node => follow (node :: chain) names
        | none => .error .noSuchFile
    | _ => .error .notADirectory

/-- The node that a path leads to. A path that starts with a slash starts at the root, any other at
    the present directory, which is given as its chain. A slash at the end asks for a directory. -/
def lookup (root : Node) (here : List Node) (path : Path) : Except Unreachable Node :=
  if path.bytes.contains 0 then .error .nullInPath
  else if path.bytes.isEmpty then .error (.system .noSuchFile)
  else if path.bytes.length ≥ pathLimit then .error (.system .nameTooLong)
  else
    let chain := if path.isAbsolute then [root] else here
    let names := path.names ++ if path.endsInSlash then [[Path.point]] else []
    (follow chain names).mapError .system

end Node

/-! ### Discovery -/

def probeNode (root : Node) (here : List Node) (path : Path) : Except SetupError Path :=
  match Node.lookup root here path with
  | .error cause => .error (.device (path.text ++ ": " ++ cause.message))
  | .ok .characterDevice => .ok path
  | .ok _ => .error (.device (path.text ++ ": not a character device"))

/-! ### Open nodes -/

/-- A node that has been opened as an accelerator, and the bytes that wait in it. A node may be open
    several times at once; its openings are numbered. -/
structure NodeStream where
  found : Except Unreachable Node
  waiting : List UInt8 := []
  /-- Whether an opening has been told that bytes have come in, and has not found them gone since. -/
  told : (opening : Nat) → Bool := fun _ => false

namespace NodeStream

/-- Open a node for reading and writing without waiting. Only a pipe can also be waited on. -/
def acquire (s : NodeStream) : Except DeviceError Unit :=
  match s.found with
  | .error cause => .error (.unreachable cause)
  | .ok (.directory _) => .error (.unreachable (.system .isADirectory))
  | .ok .pipe => .ok ()
  | .ok .characterDevice | .ok .file => .error (.unreachable (.system .notPermitted))

/-- Take bytes from the front of the stream. A read of nothing is never kept waiting. -/
def tryRead (room : Nat) (s : NodeStream) : Except DeviceError (List UInt8) × NodeStream :=
  if room = 0 then (.ok [], s)
  else if s.waiting.isEmpty then (.error .wouldBlock, s)
  else (.ok (s.waiting.take room), { s with waiting := s.waiting.drop room })

def write (bytes : List UInt8) (s : NodeStream) : NodeStream :=
  { s with waiting := s.waiting ++ bytes }

/-! #### Waiting

The system tells of bytes that have come in whenever time passes, and never in between. What an opening
has been told holds for it until a wait finds nothing there. So an opening may not know yet of bytes
that wait already, and may still expect some that another one has taken. -/

/-- Tell every opening if bytes wait. -/
def report (s : NodeStream) : NodeStream :=
  if s.waiting.isEmpty then s else { s with told := fun _ => true }

def forget (opening : Nat) (s : NodeStream) : NodeStream :=
  { s with told := fun other => other != opening && s.told other }

/-- Whether a wait for bytes is over: an opening that has been told of some looks whether they are
    still there. -/
def readable? (opening : Nat) (s : NodeStream) : Option (Except DeviceError Unit) × NodeStream :=
  if s.told opening then
    if s.waiting.isEmpty then (none, s.forget opening) else (some (.ok ()), s)
  else (none, s)

/-- Whether a read that may wait is over: an opening that has been told of bytes tries to take some. -/
def read? (opening room : Nat) (s : NodeStream) :
    Option (Except DeviceError (List UInt8)) × NodeStream :=
  if s.told opening then
    match s.tryRead room with
    | (.error .wouldBlock, s) => (none, s.forget opening)
    | (result, s) => (some result, s)
  else (none, s)

/-- One opening of a node as a device. Its name is its path. -/
def device (path : Path) (layout : RegisterLayout) (opening : Nat) : Device NodeStream where
  name := path.text
  layout := layout
  acquire := fun _ s => (s.acquire, s.forget opening)
  request := fun _ _ s => (.error (.unreachable (.system .noSuchRequest)), s)
  tryRead := fun _ => tryRead
  poll := fun _ s => !s.waiting.isEmpty
  readable? := fun _ => readable? opening
  read? := fun _ => read? opening
  nextChange? := fun now s => if s.waiting.isEmpty then none else some (now + 1)
  elapse := fun _ _ s => s.report
  release := fun _ s => s

end NodeStream

end NonceSearch
