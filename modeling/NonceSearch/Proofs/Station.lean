import NonceSearch.Driver.Basic
import NonceSearch.InterruptLine
import NonceSearch.Proofs.RegisterPrograms
import NonceSearch.Proofs.Wakeups

/-!
# A driver over any registers

A driver in the middle of everything, over a register file of which nothing is known: behind the
driver's back the registers may change in any way at any time. The driver is taken apart as far as
others can look in between. The service of an interrupt is its accesses, the append, the notification
of the readers that wait, and, with the lock free again, the count; a request is its accesses and its
last effect; a read that waits is a reader at the queue, and one that does not is a single moment.

`Step` says all that a move can do to the queue, the counts, the service and the reads.
-/

namespace NonceSearch

/-! ### Accesses made -/

namespace Bus

variable {α σ : Type}

/-- Some accesses of a program, with the words they brought, and what is left of it after them. -/
inductive Trace : Bus α → List Access → Bus α → Prop where
  | none {program : Bus α} : Trace program [] program
  | read {word : Nat} {next : UInt32 → Bus α} {value : UInt32} {last : Bus α}
    {accesses : List Access} (h : Trace (next value) accesses last) :
    Trace (.read word next) (.read word value :: accesses) last
  | write {word : Nat} {value : UInt32} {next last : Bus α} {accesses : List Access}
    (h : Trace next accesses last) :
    Trace (.write word value next) (.write word value :: accesses) last
  | writeByte {word : Nat} {value : UInt8} {next last : Bus α} {accesses : List Access}
    (h : Trace next accesses last) :
    Trace (.writeByte word value next) (.writeByte word value :: accesses) last

/-- The access that a program makes next, if it has one left. -/
def accesses (file : RegisterFile σ) (program : Bus α) (s : σ) : List Access :=
  (program.advance file.logged (s, [])).2.2

theorem trace_advance (file : RegisterFile σ) (program : Bus α) (s : σ) :
    Trace program (program.accesses file s) (program.advance file s).1 := by
  cases program with
  | done value => exact .none
  | read word next => exact .read .none
  | write word value next => exact .write .none
  | writeByte word value next => exact .writeByte .none

theorem Trace.trans {program rest last : Bus α} {before after : List Access}
    (h : Trace program before rest) (hrest : Trace rest after last) :
    Trace program (before ++ after) last := by
  induction h with
  | none => exact hrest
  | read _ ih => exact .read (ih hrest)
  | write _ ih => exact .write (ih hrest)
  | writeByte _ ih => exact .writeByte (ih hrest)

/-- Every program comes to an end. -/
theorem exists_trace_done (program : Bus α) : ∃ accesses value, Trace program accesses (.done value) := by
  induction program with
  | done value => exact ⟨[], value, .none⟩
  | read word next ih =>
    obtain ⟨accesses, value, h⟩ := ih 0
    exact ⟨.read word 0 :: accesses, value, .read h⟩
  | write word value next ih =>
    obtain ⟨accesses, result, h⟩ := ih
    exact ⟨.write word value :: accesses, result, .write h⟩
  | writeByte word value next ih =>
    obtain ⟨accesses, result, h⟩ := ih
    exact ⟨.writeByte word value :: accesses, result, .writeByte h⟩

end Bus

namespace DriverState

def takeReport (report : Option CompletionMessage) (driver : DriverState) : DriverState :=
  match report with
  | some message => { driver with queue := driver.queue.push message }
  | none => { driver with spurious := driver.spurious + 1 }

def countInterrupt (driver : DriverState) : DriverState :=
  { driver with interrupts := driver.interrupts + 1 }

/-- The report and the count together are the last effect of a service. -/
theorem countInterrupt_takeReport (report : Option CompletionMessage) (driver : DriverState) :
    (driver.takeReport report).countInterrupt = driver.finishService report := by
  cases report <;> rfl

end DriverState

/-! ### Reads -/

inductive ReadCall where
  /-- One that did not wait, and its result. -/
  | tried (room : Nat) (result : Except DeviceError (List UInt8))
  | waits (room : Nat) (reader : Reader)

namespace ReadCall

def room : ReadCall → Nat
  | .tried room _ => room
  | .waits room _ => room

def result? : ReadCall → Option (Except DeviceError (List UInt8))
  | .tried _ result => some result
  | .waits room reader =>
    if room = 0 then some (.ok [])
    else match reader.phase with
      | .received message => some (.ok (message.copyOut room))
      | .interrupted => some (.error .interrupted)
      | _ => none

def notify : ReadCall → ReadCall
  | .waits room reader => .waits room reader.notify
  | call => call

def callOff : ReadCall → ReadCall
  | .waits room reader => .waits room { reader with cancelled := true }
  | call => call

def step (queue : CompletionQueue) (call : ReadCall) : ReadCall × CompletionQueue :=
  match call with
  | .waits room reader =>
    if room = 0 then (call, queue)
    else match reader.step? queue with
      | some (reader, queue) => (.waits room reader, queue)
      | none => (call, queue)
  | call => (call, queue)

def leave (call : ReadCall) : ReadCall :=
  match call with
  | .waits room reader => .waits room (reader.leave?.getD reader)
  | call => call

end ReadCall

/-! ### A driver in motion -/

inductive ServiceStage where
  | waiting
  /-- It has taken an interrupt off the line and waits for the lock. -/
  | called
  | serving (rest : Bus (Option CompletionMessage))
  /-- Its message is in the queue, and nobody has been notified. -/
  | notifying
  /-- The lock is free again, and the interrupt is not counted. -/
  | counting

structure Station (σ : Type) where
  registers : σ
  driver : DriverState := {}
  line : InterruptLine := {}
  stage : ServiceStage := .waiting
  /-- The request that holds the lock, and what is left of it. -/
  asking : Option (Request × Bus Reply) := none
  calls : List ReadCall := []

namespace Station

inductive Move (σ : Type) where
  /-- The registers change by themselves. -/
  | disturb (change : σ → σ)
  | raise
  | openHandle
  | closeHandle
  /-- Whoever has the handle gets the lock for a request. -/
  | ask (asked : Request)
  /-- The request that holds the lock goes on. -/
  | proceed
  /-- The service thread goes on. -/
  | serve
  | tryRead (room : Nat)
  /-- A read begins that may wait. -/
  | read (room : Nat)
  | callOff (who : Nat)
  /-- A read that may wait goes on. -/
  | goOn (who : Nat)
  /-- A read whose wait is off goes. -/
  | leave (who : Nat)

inductive Event where
  | called
  | inspected (access : Access)
  | dismissed
  | pushed (message : CompletionMessage)
  | counted
  | flushed (messages : List CompletionMessage)
  /-- A read, by number, has taken a message. -/
  | took (who : Nat) (message : CompletionMessage)
  deriving DecidableEq

variable {σ : Type} (file : RegisterFile σ) (layout : RegisterLayout)

def isLocked (station : Station σ) : Bool :=
  station.asking.isSome || match station.stage with
    | .serving _ | .notifying => true
    | _ => false

def ask (asked : Request) (station : Station σ) : Station σ :=
  match station.driver.held, station.isLocked, Driver.program layout asked with
  | true, false, .ok program => { station with asking := some (asked, program) }
  | _, _, _ => station

def proceed (station : Station σ) : Station σ :=
  match station.asking with
  | none => station
  | some (asked, .done _) =>
    { station with asking := none, driver := station.driver.finishRequest asked }
  | some (asked, rest) =>
    { station with
      asking := some (asked, (rest.advance file station.registers).1)
      registers := (rest.advance file station.registers).2 }

def serve (station : Station σ) : Station σ :=
  match station.stage with
  | .waiting =>
    match station.line.wait with
    | (some true, line) => { station with line := line, stage := .called }
    | _ => station
  | .called =>
    if station.isLocked then station else { station with stage := .serving (Driver.service layout) }
  | .serving (.done report) =>
    { station with
      driver := station.driver.takeReport report
      stage := if report.isSome then .notifying else .counting }
  | .serving rest =>
    { station with
      stage := .serving (rest.advance file station.registers).1
      registers := (rest.advance file station.registers).2 }
  | .notifying => { station with calls := station.calls.map ReadCall.notify, stage := .counting }
  | .counting => { station with driver := station.driver.countInterrupt, stage := .waiting }

def setCall (who : Nat) (change : ReadCall → ReadCall) (station : Station σ) : Station σ :=
  match station.calls[who]? with
  | some call => { station with calls := station.calls.set who (change call) }
  | none => station

def goOn (who : Nat) (station : Station σ) : Station σ :=
  match station.calls[who]? with
  | some call =>
    { station with
      calls := station.calls.set who (call.step station.driver.queue).1
      driver := { station.driver with queue := (call.step station.driver.queue).2 } }
  | none => station

def act (station : Station σ) : Move σ → Station σ
  | .disturb change => { station with registers := change station.registers }
  | .raise => { station with line := station.line.raise.2 }
  | .openHandle => { station with driver := station.driver.openHandle.2 }
  | .closeHandle => { station with driver := station.driver.closeHandle }
  | .ask asked => station.ask layout asked
  | .proceed => station.proceed file
  | .serve => station.serve file layout
  | .tryRead room =>
    if station.driver.held then
      { station with
        driver := (station.driver.tryRead room).2
        calls := station.calls ++ [.tried room (station.driver.tryRead room).1] }
    else station
  | .read room =>
    if station.driver.held then
      { station with calls := station.calls ++ [.waits room { kind := .receive }] }
    else station
  | .callOff who => station.setCall who ReadCall.callOff
  | .goOn who => station.goOn who
  | .leave who => station.setCall who ReadCall.leave

/-- What has left a queue at its head. -/
def gone (before after : CompletionQueue) : List CompletionMessage :=
  before.messages.take (before.length - after.length)

def serviceEvents (station : Station σ) : List Event :=
  match station.stage with
  | .waiting =>
    match station.line.wait with
    | (some true, _) => [.called]
    | _ => []
  | .called => []
  | .serving (.done (some message)) => [.pushed message]
  | .serving (.done none) => [.dismissed]
  | .serving rest => (rest.accesses file station.registers).map .inspected
  | .notifying => []
  | .counting => [.counted]

def events (station : Station σ) (move : Move σ) : List Event :=
  match move with
  | .proceed =>
    match station.asking with
    | some (.reset, .done _) => [.flushed station.driver.queue.messages]
    | _ => []
  | .serve => station.serviceEvents file
  | .tryRead _ =>
    (gone station.driver.queue (station.act file layout move).driver.queue).map
      (.took station.calls.length)
  | .goOn who =>
    (gone station.driver.queue (station.act file layout move).driver.queue).map (.took who)
  | _ => []

/-- A station that can come about over registers in any state, with its history, oldest first. -/
inductive Reached : Station σ → List Event → Prop where
  | bound (registers : σ) : Reached { registers := registers } []
  | move {station : Station σ} {past : List Event} (move : Move σ) (h : Reached station past) :
    Reached (station.act file layout move) (past ++ station.events file layout move)

def follow : List (Move σ) → Station σ → List Event → Station σ × List Event
  | [], station, past => (station, past)
  | move :: moves, station, past =>
    follow moves (station.act file layout move) (past ++ station.events file layout move)

variable {file layout} in
theorem Reached.follow {station : Station σ} {past : List Event} (h : Reached file layout station past)
    (moves : List (Move σ)) :
    Reached file layout (follow file layout moves station past).1
      (follow file layout moves station past).2 := by
  induction moves generalizing station past with
  | nil => exact h
  | cons move moves ih => exact ih (.move move h)

/-! ### What a move can do -/

/-- A read as it is now can have taken just these messages. -/
inductive Pays : ReadCall → List CompletionMessage → Prop where
  | empty : Pays (.tried 0 (.ok [])) []
  | failed {room : Nat} {error : DeviceError} (h : 0 < room) : Pays (.tried room (.error error)) []
  | served {room : Nat} {message : CompletionMessage} (h : 0 < room) :
    Pays (.tried room (.ok (message.copyOut room))) [message]
  | waits {room : Nat} {reader : Reader} (h : room = 0 → reader.gains = []) :
    Pays (.waits room reader) reader.gains

/-- One move, by what it does to the service, the queue, the counts and the reads. -/
inductive Step (station : Station σ) : Station σ → List Event → Prop where
  | quiet {next : Station σ} (stage : next.stage = station.stage)
    (queue : next.driver.queue = station.driver.queue)
    (interrupts : next.driver.interrupts = station.driver.interrupts)
    (spurious : next.driver.spurious = station.driver.spurious)
    (calls : next.calls = station.calls) : Step station next []
  | calls (line : InterruptLine) (stage : station.stage = .waiting) :
    Step station { station with line := line, stage := .called } [.called]
  | begins (stage : station.stage = .called) :
    Step station { station with stage := .serving (Driver.service layout) } []
  | inspects {rest left : Bus (Option CompletionMessage)} {accesses : List Access} (registers : σ)
    (stage : station.stage = .serving rest) (trace : rest.Trace accesses left) :
    Step station { station with stage := .serving left, registers := registers }
      (accesses.map .inspected)
  | pushes {message : CompletionMessage} (stage : station.stage = .serving (.done (some message))) :
    Step station
      { station with driver := station.driver.takeReport (some message), stage := .notifying }
      [.pushed message]
  | dismisses (stage : station.stage = .serving (.done none)) :
    Step station { station with driver := station.driver.takeReport none, stage := .counting }
      [.dismissed]
  | notifies (stage : station.stage = .notifying) :
    Step station { station with calls := station.calls.map ReadCall.notify, stage := .counting } []
  | counts (stage : station.stage = .counting) :
    Step station { station with driver := station.driver.countInterrupt, stage := .waiting } [.counted]
  | flushes :
    Step station { station with asking := none, driver := station.driver.finishRequest .reset }
      [.flushed station.driver.queue.messages]
  | reads {call : ReadCall} {messages : List CompletionMessage} (queue : CompletionQueue)
    (queued : station.driver.queue.messages = messages ++ queue.messages)
    (pays : Pays call messages) :
    Step station
      { station with
        driver := { station.driver with queue := queue }
        calls := station.calls ++ [call] }
      (messages.map (.took station.calls.length))
  | goesOn {who : Nat} {call next : ReadCall} {messages : List CompletionMessage}
    (queue : CompletionQueue) (present : station.calls[who]? = some call)
    (queued : station.driver.queue.messages = messages ++ queue.messages)
    (pays : ∀ before, Pays call before → Pays next (before ++ messages)) :
    Step station
      { station with
        driver := { station.driver with queue := queue }
        calls := station.calls.set who next }
      (messages.map (.took who))

theorem gone_of_append {before after : CompletionQueue} {messages : List CompletionMessage}
    (h : before.messages = messages ++ after.messages) : gone before after = messages := by
  rw [gone, CompletionQueue.length, CompletionQueue.length, h, List.length_append,
    Nat.add_sub_cancel]
  exact List.take_left

theorem tryRead_pays (room : Nat) (driver : DriverState) :
    ∃ messages queue, driver.queue.messages = messages ++ queue.messages ∧
      (driver.tryRead room).2 = { driver with queue := queue } ∧
      Pays (.tried room (driver.tryRead room).1) messages := by
  unfold DriverState.tryRead
  by_cases hroom : room = 0
  · rw [if_pos hroom, hroom]
    exact ⟨[], driver.queue, rfl, rfl, .empty⟩
  · rw [if_neg hroom]
    cases htake : driver.queue.take? with
    | none => exact ⟨[], driver.queue, rfl, rfl, .failed (Nat.pos_of_ne_zero hroom)⟩
    | some taken =>
      obtain ⟨message, queue⟩ := taken
      exact ⟨[message], queue, CompletionQueue.messages_of_take? htake, rfl,
        .served (Nat.pos_of_ne_zero hroom)⟩

theorem notify_pays {call : ReadCall} {messages : List CompletionMessage} (h : Pays call messages) :
    Pays call.notify messages := by
  cases h with
  | empty => exact .empty
  | failed hroom => exact .failed hroom
  | served hroom => exact .served hroom
  | @waits room reader hroom =>
    rw [← reader.notify_gains] at hroom ⊢
    exact .waits hroom

theorem callOff_pays {call : ReadCall} {messages : List CompletionMessage} (h : Pays call messages) :
    Pays call.callOff messages := by
  cases h with
  | empty => exact .empty
  | failed hroom => exact .failed hroom
  | served hroom => exact .served hroom
  | @waits room reader hroom => exact .waits hroom

theorem leave_pays {call : ReadCall} {messages : List CompletionMessage} (h : Pays call messages) :
    Pays call.leave messages := by
  cases h with
  | empty => exact .empty
  | failed hroom => exact .failed hroom
  | served hroom => exact .served hroom
  | @waits room reader hroom =>
    cases hleave : reader.leave? with
    | none =>
      rw [ReadCall.leave, hleave]
      exact .waits hroom
    | some left =>
      rw [ReadCall.leave, hleave, Option.getD_some]
      obtain ⟨hphase, hgains⟩ := Reader.leave?_some hleave
      have hsame : left.gains = reader.gains := by
        rw [hgains]
        simp [Reader.gains, hphase]
      rw [← hsame] at hroom ⊢
      exact .waits hroom

/-- A waiting read goes on by taking nothing, or the oldest message. -/
theorem step_pays (queue : CompletionQueue) (call : ReadCall) :
    ∃ messages, queue.messages = messages ++ (call.step queue).2.messages ∧
      ∀ before, Pays call before → Pays (call.step queue).1 (before ++ messages) := by
  have hstays : ∃ messages, queue.messages = messages ++ queue.messages ∧
      ∀ before, Pays call before → Pays call (before ++ messages) :=
    ⟨[], rfl, fun before h => by rwa [List.append_nil]⟩
  cases call with
  | tried room result => exact hstays
  | waits room reader =>
    unfold ReadCall.step
    by_cases hroom : room = 0
    · simp only [if_pos hroom]
      exact hstays
    · simp only [if_neg hroom]
      cases hstep : reader.step? queue with
      | none => exact hstays
      | some after =>
        obtain ⟨next, rest⟩ := after
        obtain ⟨hgains, ⟨hrest, hnext, -⟩ | ⟨message, hqueued, hreceived⟩⟩ :=
          Reader.step?_cases hstep
        · refine ⟨[], by rw [hrest]; rfl, fun before h => ?_⟩
          cases h with
          | waits =>
            rw [List.append_nil, hgains, ← hnext]
            exact .waits fun _ => hnext
        · refine ⟨[message], hqueued, fun before h => ?_⟩
          cases h with
          | waits =>
            have hone : next.gains = [message] := by simp [Reader.gains, hreceived]
            rw [hgains, List.nil_append, ← hone]
            exact .waits fun h => absurd h hroom

theorem setCall_step {who : Nat} {change : ReadCall → ReadCall} (station : Station σ)
    (hpays : ∀ call messages, Pays call messages → Pays (change call) messages) :
    Step layout station (station.setCall who change) [] := by
  unfold setCall
  cases hcall : station.calls[who]? with
  | none => exact .quiet rfl rfl rfl rfl rfl
  | some call =>
    refine .goesOn station.driver.queue hcall (List.nil_append _).symm fun before h => ?_
    rw [List.append_nil]
    exact hpays call before h

theorem ask_step (asked : Request) (station : Station σ) :
    Step layout station (station.ask layout asked) [] := by
  unfold ask
  split
  · exact .quiet rfl rfl rfl rfl rfl
  · exact .quiet rfl rfl rfl rfl rfl

theorem proceed_step (station : Station σ) : Step layout station (station.proceed file)
    (station.events file layout .proceed) := by
  unfold proceed events
  cases hasking : station.asking with
  | none => exact .quiet rfl rfl rfl rfl rfl
  | some holder =>
    obtain ⟨asked, rest⟩ := holder
    cases rest with
    | done reply =>
      cases asked with
      | reset => exact .flushes
      | _ => exact .quiet rfl rfl rfl rfl rfl
    | _ => cases asked <;> exact .quiet rfl rfl rfl rfl rfl

theorem serve_step (station : Station σ) : Step layout station (station.serve file layout)
    (station.events file layout .serve) := by
  rw [events]
  unfold serve serviceEvents
  cases hstage : station.stage with
  | waiting =>
    dsimp only
    split
    · next line hwait => exact .calls line hstage
    · exact .quiet rfl rfl rfl rfl rfl
  | called =>
    dsimp only
    split
    · exact .quiet rfl rfl rfl rfl rfl
    · exact .begins hstage
  | serving rest =>
    cases rest with
    | done report =>
      cases report with
      | none => exact .dismisses hstage
      | some message => exact .pushes hstage
    | read word next => exact .inspects _ hstage (Bus.trace_advance file _ _)
    | write word value next => exact .inspects _ hstage (Bus.trace_advance file _ _)
    | writeByte word value next => exact .inspects _ hstage (Bus.trace_advance file _ _)
  | notifying => exact .notifies hstage
  | counting => exact .counts hstage

theorem act_step (station : Station σ) (move : Move σ) :
    Step layout station (station.act file layout move) (station.events file layout move) := by
  cases move with
  | disturb change => exact .quiet rfl rfl rfl rfl rfl
  | raise => exact .quiet rfl rfl rfl rfl rfl
  | openHandle =>
    rw [act, DriverState.openHandle]
    split
    · exact .quiet rfl rfl rfl rfl rfl
    · exact .quiet rfl rfl rfl rfl rfl
  | closeHandle => exact .quiet rfl rfl rfl rfl rfl
  | ask asked => exact station.ask_step layout asked
  | proceed => exact station.proceed_step file layout
  | serve => exact station.serve_step file layout
  | tryRead room =>
    obtain ⟨messages, queue, hqueued, hdriver, hpays⟩ := tryRead_pays room station.driver
    rw [events, act]
    by_cases hheld : station.driver.held
    · rw [if_pos hheld, hdriver, gone_of_append hqueued]
      exact .reads queue hqueued hpays
    · rw [if_neg hheld, gone_of_append (List.nil_append _).symm]
      exact .quiet rfl rfl rfl rfl rfl
  | read room =>
    rw [act]
    split
    · exact .reads station.driver.queue (List.nil_append _).symm (.waits fun _ => rfl)
    · exact .quiet rfl rfl rfl rfl rfl
  | callOff who => exact station.setCall_step layout fun _ _ => callOff_pays
  | goOn who =>
    rw [events, act, goOn]
    cases hcall : station.calls[who]? with
    | none =>
      rw [gone_of_append (List.nil_append _).symm]
      exact .quiet rfl rfl rfl rfl rfl
    | some call =>
      obtain ⟨messages, hqueued, hpays⟩ := step_pays station.driver.queue call
      dsimp only
      rw [gone_of_append hqueued]
      exact .goesOn _ hcall hqueued hpays
  | leave who => exact station.setCall_step layout fun _ _ => leave_pays

end Station

end NonceSearch
