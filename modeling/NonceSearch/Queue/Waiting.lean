import NonceSearch.Queue.Basic

/-!
# Waiting for the queue

Readers that find the queue empty wait to be notified, and every push notifies all who are enrolled at
that moment. A reader enrols *before* it looks, so a message pushed between its look and its wait
still wakes it. The state of the whole is the queue, the readers and the pushers, and each of their
atomic steps is a function: enrol, look, wake, leave, append, notify.

`runReaders` lets every reader go as far as it can; a crowd of readers is let run, given messages and
called off in this way.
-/

namespace NonceSearch

inductive ReaderKind where
  /-- To take a message. -/
  | receive
  /-- To learn that there is one. -/
  | watch
  deriving DecidableEq, Repr

inductive ReaderPhase where
  /-- About to enrol for the next notification. -/
  | arriving
  /-- Enrolled and about to look; perhaps notified already. -/
  | looking (notified : Bool)
  /-- Waiting, and not notified as long as it has not been. -/
  | parked (notified : Bool)
  /-- Gone with a message. -/
  | received (message : CompletionMessage)
  /-- Gone, having seen that there is a message. -/
  | saw
  /-- Gone without a message. -/
  | interrupted
  deriving DecidableEq, Repr

/-- A reader, and whether its wait may be called off by now. -/
structure Reader where
  kind : ReaderKind
  phase : ReaderPhase := .arriving
  cancelled : Bool := false
  deriving DecidableEq, Repr

inductive PusherPhase where
  /-- About to append its message. -/
  | appending (message : CompletionMessage)
  /-- Between its append and its notification. -/
  | notifying
  | gone
  deriving DecidableEq, Repr

structure WaitingRoom where
  queue : CompletionQueue := {}
  readers : List Reader := []
  pushers : List PusherPhase := []
  deriving DecidableEq, Repr

namespace Reader

/-- Notify a reader: it counts for those who have enrolled. -/
def notify (reader : Reader) : Reader :=
  match reader.phase with
  | .looking _ => { reader with phase := .looking true }
  | .parked _ => { reader with phase := .parked true }
  | _ => reader

/-- A reader that waits, and whose wait has been called off, goes without a message. It may do so even
    if it has been notified and has not looked again. -/
def leave? (reader : Reader) : Option Reader :=
  match reader.phase with
  | .parked _ => if reader.cancelled then some { reader with phase := .interrupted } else none
  | _ => none

/-- One step of a reader at a queue, if it can make one. One that has been notified looks again before
    it minds that its wait is off. -/
def step? (queue : CompletionQueue) (reader : Reader) : Option (Reader × CompletionQueue) :=
  match reader.phase with
  | .arriving => some ({ reader with phase := .looking false }, queue)
  | .looking notified =>
    match reader.kind with
    | .receive =>
      match queue.take? with
      | some (message, rest) => some ({ reader with phase := .received message }, rest)
      | none => some ({ reader with phase := .parked notified }, queue)
    | .watch =>
      if queue.isReady then some ({ reader with phase := .saw }, queue)
      else some ({ reader with phase := .parked notified }, queue)
  | .parked true => some ({ reader with phase := .arriving }, queue)
  | .parked false => reader.leave?.map fun reader => (reader, queue)
  | _ => none

/-- Let a reader go on until it is parked or gone. Without a notification that takes at most five
    steps: from waking to enrolling, looking, parking and being called off. -/
def settle : (fuel : Nat) → CompletionQueue → Reader → Reader × CompletionQueue
  | 0, queue, reader => (reader, queue)
  | fuel + 1, queue, reader =>
    match reader.step? queue with
    | some (reader, queue) => settle fuel queue reader
    | none => (reader, queue)

end Reader

namespace WaitingRoom

/-- Append a message, without notifying anyone yet. -/
def append (message : CompletionMessage) (room : WaitingRoom) : WaitingRoom :=
  { room with queue := room.queue.push message }

def notifyAll (room : WaitingRoom) : WaitingRoom :=
  { room with readers := room.readers.map Reader.notify }

def push (message : CompletionMessage) (room : WaitingRoom) : WaitingRoom :=
  (room.append message).notifyAll

/-- Let readers go on in turn, the first one first. -/
def settleAll (queue : CompletionQueue) : List Reader → List Reader × CompletionQueue
  | [] => ([], queue)
  | reader :: readers =>
    let (reader, queue) := reader.settle 5 queue
    let (readers, queue) := settleAll queue readers
    (reader :: readers, queue)

def runReaders (room : WaitingRoom) : WaitingRoom :=
  let (readers, queue) := settleAll room.queue room.readers
  { room with readers := readers, queue := queue }

def cancelAll (room : WaitingRoom) : WaitingRoom :=
  { room with readers := room.readers.map fun reader => { reader with cancelled := true } }

/-- The messages that readers left with. -/
def delivered (room : WaitingRoom) : List CompletionMessage :=
  room.readers.filterMap fun reader =>
    match reader.phase with
    | .received message => some message
    | _ => none

def interruptedCount (room : WaitingRoom) : Nat :=
  room.readers.countP fun reader => reader.phase == .interrupted

/-- A number of readers arrive, some messages are pushed, and whoever still waits is called off. -/
def crowd (readers : Nat) (messages : List CompletionMessage) (queue : CompletionQueue) :
    WaitingRoom :=
  let room : WaitingRoom := { queue := queue, readers := List.replicate readers { kind := .receive } }
  let room := messages.foldl (fun room message => room.push message) room.runReaders
  room.runReaders.cancelAll.runReaders

/-- A reader, chosen by number, goes because its wait has been called off. -/
def leave? (who : Nat) (room : WaitingRoom) : Option WaitingRoom := do
  let reader ← room.readers[who]?
  let reader ← reader.leave?
  return { room with readers := room.readers.set who reader }

/-- One atomic step of somebody, chosen by number: readers first, then pushers. -/
def step? (who : Nat) (room : WaitingRoom) : Option WaitingRoom :=
  if who < room.readers.length then do
    let reader ← room.readers[who]?
    let (reader, queue) ← reader.step? room.queue
    return { room with readers := room.readers.set who reader, queue := queue }
  else
    let index := who - room.readers.length
    match room.pushers[index]? with
    | some (.appending message) =>
      some { room.append message with pushers := room.pushers.set index .notifying }
    | some .notifying => some { room.notifyAll with pushers := room.pushers.set index .gone }
    | _ => none

end WaitingRoom

end NonceSearch
