import NonceSearch.Proofs.Station
import NonceSearch.Registers.Memory

/-!
# From interrupts to readers

What a driver does with its interrupts, whatever the registers say and whoever asks or reads in
between. The history of the service is a sequence of whole visits and a part of the next one, and each
visit is told by the two words it may read (`visit`). The queue is what replaying the history on an
empty queue leaves, so what is taken between two flushes is the head of what is pushed in that time.
And every message is, wherever it is by now, in the balance of the counts.
-/

namespace NonceSearch

namespace Station

variable {σ : Type} {file : RegisterFile σ} {layout : RegisterLayout}
variable {station next : Station σ} {past events : List Event}

/-! ### Parts of a history -/

def Event.isService : Event → Bool
  | .flushed _ | .took _ _ => false
  | _ => true

def pushed (past : List Event) : List CompletionMessage :=
  past.filterMap fun
    | .pushed message => some message
    | _ => none

def taken (past : List Event) : List CompletionMessage :=
  past.filterMap fun
    | .took _ message => some message
    | _ => none

def takenBy (who : Nat) (past : List Event) : List CompletionMessage :=
  past.filterMap fun
    | .took reader message => if reader = who then some message else none
    | _ => none

def dropped (past : List Event) : List CompletionMessage :=
  past.flatMap fun
    | .flushed messages => messages
    | _ => []

section Projections

variable (before after : List Event)

@[simp] theorem pushed_append : pushed (before ++ after) = pushed before ++ pushed after :=
  List.filterMap_append

@[simp] theorem taken_append : taken (before ++ after) = taken before ++ taken after :=
  List.filterMap_append

@[simp] theorem takenBy_append (who : Nat) :
    takenBy who (before ++ after) = takenBy who before ++ takenBy who after :=
  List.filterMap_append

@[simp] theorem dropped_append : dropped (before ++ after) = dropped before ++ dropped after :=
  List.flatMap_append

end Projections

section Reads

variable (who : Nat) (messages : List CompletionMessage)

@[simp] theorem taken_took : taken (messages.map (.took who)) = messages := by
  induction messages with
  | nil => rfl
  | cons message messages ih => exact congrArg (message :: ·) ih

@[simp] theorem dropped_took : dropped (messages.map (.took who)) = [] := by
  induction messages with
  | nil => rfl
  | cons message messages ih => exact ih

theorem takenBy_took (other : Nat) :
    takenBy other (messages.map (.took who)) = if who = other then messages else [] := by
  induction messages with
  | nil => exact (ite_self []).symm
  | cons message messages ih =>
    by_cases hwho : who = other
    · rw [if_pos hwho] at ih ⊢
      simp only [takenBy, List.map_cons, List.filterMap_cons, if_pos hwho]
      exact congrArg (message :: ·) ih
    · rw [if_neg hwho] at ih ⊢
      simp only [takenBy, List.map_cons, List.filterMap_cons, if_neg hwho]
      exact ih

end Reads

section Inspections

variable (accesses : List Access)

theorem taken_inspected : taken (accesses.map .inspected) = [] := by
  induction accesses with
  | nil => rfl
  | cons access accesses ih => exact ih

theorem takenBy_inspected (who : Nat) : takenBy who (accesses.map .inspected) = [] := by
  induction accesses with
  | nil => rfl
  | cons access accesses ih => exact ih

theorem dropped_inspected : dropped (accesses.map .inspected) = [] := by
  induction accesses with
  | nil => rfl
  | cons access accesses ih => exact ih

end Inspections

/-! ### Visits -/

/-- The accesses of a service after it has read a completion: the candidate is read, and the core is
    let run. -/
def candidateAccesses (nonce : UInt32) : RegisterLayout → List Access
  | .count => [.read CountWindow.nonceCandidate nonce, .write CountWindow.debugEnable 1]
  | .mask =>
    [.write MaskWindow.command Bank.nonceCandidate.select, .read MaskWindow.data nonce,
      .write MaskWindow.command Bank.debugEnable.select, .write MaskWindow.data 1]

def visit (layout : RegisterLayout) (status nonce : UInt32) : List Event :=
  .called :: .inspected (.read (Driver.statusWord layout) status) ::
    if (Status.mk status).isCompletion then
      (candidateAccesses nonce layout).map .inspected ++ [.pushed ⟨status, nonce⟩, .counted]
    else [.dismissed, .counted]

def reported : Option CompletionMessage → Event
  | some message => .pushed message
  | none => .dismissed

theorem trace_afterStatus {status : UInt32} {accesses : List Access}
    {report : Option CompletionMessage} (hcompletion : (Status.mk status).isCompletion)
    (h : (Driver.afterStatus layout status).Trace accesses (.done report)) :
    ∃ nonce, accesses = candidateAccesses nonce layout ∧ report = some ⟨status, nonce⟩ := by
  rw [Driver.afterStatus, if_pos hcompletion] at h
  cases layout with
  | count =>
    obtain _ | @⟨_, _, nonce, _, _, h⟩ := h
    obtain _ | _ | h := h
    cases h
    exact ⟨nonce, rfl, rfl⟩
  | mask =>
    obtain _ | _ | h := h
    obtain _ | @⟨_, _, nonce, _, _, h⟩ := h
    obtain _ | _ | h := h
    obtain _ | _ | h := h
    cases h
    exact ⟨nonce, rfl, rfl⟩

/-- A whole service has made the accesses of a visit, and reports accordingly. -/
theorem trace_service {accesses : List Access} {report : Option CompletionMessage}
    (h : (Driver.service layout).Trace accesses (.done report)) :
    ∃ status nonce, visit layout status nonce =
      (.called :: accesses.map .inspected) ++ [reported report, .counted] := by
  rw [Driver.service_eq] at h
  cases h with
  | @read _ _ status _ accesses h =>
    by_cases hcompletion : (Status.mk status).isCompletion
    · obtain ⟨nonce, rfl, rfl⟩ := trace_afterStatus hcompletion h
      refine ⟨status, nonce, ?_⟩
      rw [visit, if_pos hcompletion]
      rfl
    · rw [Driver.afterStatus, if_neg hcompletion] at h
      cases h
      refine ⟨status, 0, ?_⟩
      rw [visit, if_neg hcompletion]
      rfl

/-- The part of a visit that has been done when the service thread is at a stage. -/
inductive Under (layout : RegisterLayout) : ServiceStage → List Event → Prop where
  | waiting : Under layout .waiting []
  | called : Under layout .called [.called]
  | serving {rest : Bus (Option CompletionMessage)} {accesses : List Access}
    (trace : (Driver.service layout).Trace accesses rest) :
    Under layout (.serving rest) (.called :: accesses.map .inspected)
  | notifying {part : List Event} {status nonce : UInt32}
    (h : visit layout status nonce = part ++ [.counted]) : Under layout .notifying part
  | counting {part : List Event} {status nonce : UInt32}
    (h : visit layout status nonce = part ++ [.counted]) : Under layout .counting part

/-- A visit goes on from wherever it is. -/
theorem Under.exists_visit {stage : ServiceStage} {part : List Event} (h : Under layout stage part) :
    ∃ status nonce rest, visit layout status nonce = part ++ rest ∧ rest ≠ [] := by
  cases h with
  | waiting => exact ⟨0, 0, _, rfl, nofun⟩
  | called => exact ⟨0, 0, _, rfl, nofun⟩
  | @serving rest accesses trace =>
    obtain ⟨more, report, hrest⟩ := rest.exists_trace_done
    obtain ⟨status, nonce, hvisit⟩ := trace_service (trace.trans hrest)
    refine ⟨status, nonce, more.map .inspected ++ [reported report, .counted], ?_, by simp⟩
    rw [hvisit, List.map_append, ← List.cons_append, List.append_assoc]
  | @notifying part status nonce h => exact ⟨status, nonce, _, h, nofun⟩
  | @counting part status nonce h => exact ⟨status, nonce, _, h, nofun⟩

/-- The service thread has made whole visits, and a part of one. -/
def Visited (layout : RegisterLayout) (station : Station σ) (past : List Event) : Prop :=
  ∃ (visits : List (UInt32 × UInt32)) (part : List Event),
    past.filter Event.isService = visits.flatMap (fun words => visit layout words.1 words.2) ++ part ∧
      Under layout station.stage part

theorem filter_isService_took (who : Nat) (messages : List CompletionMessage) :
    (messages.map (Event.took who)).filter Event.isService = [] := by
  refine List.filter_eq_nil_iff.mpr fun event hevent => ?_
  obtain ⟨message, -, rfl⟩ := List.mem_map.mp hevent
  simp [Event.isService]

theorem Visited.quiet (h : Visited layout station past) (hstage : next.stage = station.stage)
    (hevents : events.filter Event.isService = []) : Visited layout next (past ++ events) := by
  obtain ⟨visits, part, hpast, hunder⟩ := h
  refine ⟨visits, part, ?_, hstage ▸ hunder⟩
  rw [List.filter_append, hevents, List.append_nil, hpast]

/-- The service thread goes on with its visit. -/
theorem Visited.advance (h : Visited layout station past)
    (hservice : events.filter Event.isService = events)
    (hunder : ∀ part, Under layout station.stage part → Under layout next.stage (part ++ events)) :
    Visited layout next (past ++ events) := by
  obtain ⟨visits, part, hpast, hpart⟩ := h
  refine ⟨visits, part ++ events, ?_, hunder part hpart⟩
  rw [List.filter_append, hservice, hpast, List.append_assoc]

theorem Visited.step (h : Visited layout station past) (hstep : Step layout station next events) :
    Visited layout next (past ++ events) := by
  cases hstep with
  | quiet stage => exact h.quiet stage rfl
  | calls line stage =>
    refine h.advance rfl fun part hpart => ?_
    rw [stage] at hpart
    cases hpart
    exact .called
  | begins stage =>
    refine h.advance rfl fun part hpart => ?_
    rw [stage] at hpart
    cases hpart
    exact .serving .none
  | @inspects rest left accesses registers stage trace =>
    refine h.advance (List.filter_eq_self.mpr ?_) fun part hpart => ?_
    · intro event hevent
      obtain ⟨access, -, rfl⟩ := List.mem_map.mp hevent
      rfl
    · rw [stage] at hpart
      cases hpart with
      | serving before =>
        rw [List.cons_append, ← List.map_append]
        exact .serving (before.trans trace)
  | @pushes message stage =>
    refine h.advance rfl fun part hpart => ?_
    rw [stage] at hpart
    cases hpart with
    | serving trace =>
      obtain ⟨status, nonce, hvisit⟩ := trace_service trace
      refine .notifying (hvisit.trans ?_)
      rw [List.append_assoc]
      rfl
  | dismisses stage =>
    refine h.advance rfl fun part hpart => ?_
    rw [stage] at hpart
    cases hpart with
    | serving trace =>
      obtain ⟨status, nonce, hvisit⟩ := trace_service trace
      refine .counting (hvisit.trans ?_)
      rw [List.append_assoc]
      rfl
  | notifies stage =>
    refine h.advance rfl fun part hpart => ?_
    rw [stage] at hpart
    cases hpart with
    | notifying hvisit =>
      rw [List.append_nil]
      exact .counting hvisit
  | counts stage =>
    -- With the count the visit is whole, and the next one has not begun.
    obtain ⟨visits, part, hpast, hpart⟩ := h
    rw [stage] at hpart
    cases hpart with
    | @counting part status nonce hvisit =>
      refine ⟨visits ++ [(status, nonce)], [], ?_, .waiting⟩
      rw [List.filter_append, hpast, List.flatMap_append, List.append_assoc]
      simp [hvisit, Event.isService]
  | flushes => exact h.quiet rfl rfl
  | reads queue queued pays => exact h.quiet rfl (filter_isService_took _ _)
  | goesOn queue present queued pays => exact h.quiet rfl (filter_isService_took _ _)

/-! ### The queue by replay -/

/-- What an event does to the messages in a queue, if it can happen there. -/
def deal (queue : List CompletionMessage) : Event → Option (List CompletionMessage)
  | .pushed message => some (queue ++ [message])
  | .took _ message =>
    match queue with
    | [] => none
    | first :: rest => if first = message then some rest else none
  | .flushed messages => if messages = queue then some [] else none
  | _ => some queue

theorem deal_took (who : Nat) (messages queue : List CompletionMessage) :
    (messages.map (Event.took who)).foldlM deal (messages ++ queue) = some queue := by
  induction messages with
  | nil => rfl
  | cons message messages ih => simpa [deal] using ih

theorem deal_inspected (accesses : List Access) (queue : List CompletionMessage) :
    (accesses.map Event.inspected).foldlM deal queue = some queue := by
  induction accesses with
  | nil => rfl
  | cons access accesses ih => exact ih

/-- Without a flush, what goes in comes out in order, and the rest stays. -/
theorem pushed_of_replay {queue left : List CompletionMessage}
    (h : events.foldlM deal queue = some left) (hflush : ∀ messages, .flushed messages ∉ events) :
    queue ++ pushed events = taken events ++ left := by
  induction events generalizing queue with
  | nil =>
    obtain rfl : queue = left := by simpa using h
    simp [pushed, taken]
  | cons event events ih =>
    simp only [List.foldlM_cons, Option.bind_eq_bind, Option.bind_eq_some_iff] at h
    obtain ⟨middle, hdeal, hrest⟩ := h
    have hlater := ih hrest fun messages hmember => hflush messages (List.mem_cons_of_mem _ hmember)
    cases event with
    | pushed message =>
      obtain rfl : queue ++ [message] = middle := by simpa [deal] using hdeal
      simpa [pushed, taken] using hlater
    | took who message =>
      cases queue with
      | nil => simp [deal] at hdeal
      | cons first rest =>
        obtain ⟨rfl, rfl⟩ : first = message ∧ rest = middle := by simpa [deal] using hdeal
        simpa [pushed, taken] using hlater
    | flushed messages => exact absurd List.mem_cons_self (hflush messages)
    | called | dismissed | counted | inspected =>
      obtain rfl : queue = middle := by simpa [deal] using hdeal
      simpa [pushed, taken] using hlater

/-- Replaying the history gives the queue. -/
def Replayed (station : Station σ) (past : List Event) : Prop :=
  past.foldlM deal [] = some station.driver.queue.messages

theorem Replayed.step (h : Replayed station past) (hstep : Step layout station next events) :
    Replayed next (past ++ events) := by
  have happend : ∀ left, events.foldlM deal station.driver.queue.messages = some left →
      (past ++ events).foldlM deal [] = some left := by
    intro left hleft
    rw [List.foldlM_append, h]
    exact hleft
  apply happend
  cases hstep with
  | quiet stage queue =>
    rw [queue]
    rfl
  | inspects registers stage trace => exact deal_inspected _ _
  | flushes => simp [deal, DriverState.finishRequest, CompletionQueue.flush, CompletionQueue.empty]
  | reads queue queued pays =>
    rw [queued]
    exact deal_took _ _ _
  | goesOn queue present queued pays =>
    rw [queued]
    exact deal_took _ _ _
  | _ => rfl

/-! ### The balance -/

/-- Interrupts whose report has been given and that are not counted yet. -/
def uncounted : ServiceStage → Nat
  | .notifying | .counting => 1
  | _ => 0

/-- Every interrupt was spurious, or its message is in the queue or has left it. -/
def Balanced (station : Station σ) (past : List Event) : Prop :=
  station.driver.interrupts + uncounted station.stage =
    station.driver.spurious + (taken past).length + (dropped past).length +
      station.driver.queue.length

theorem Balanced.step (h : Balanced station past) (hstep : Step layout station next events) :
    Balanced next (past ++ events) := by
  unfold Balanced at h ⊢
  simp only [CompletionQueue.length, taken_append, dropped_append, List.length_append] at h ⊢
  cases hstep with
  | quiet stage queue interrupts spurious calls =>
    rw [stage, queue, interrupts, spurious]
    exact h
  | calls line stage =>
    rw [stage] at h
    exact h
  | begins stage =>
    rw [stage] at h
    exact h
  | @inspects rest left accesses registers stage trace =>
    rw [stage] at h
    rw [taken_inspected, dropped_inspected]
    exact h
  | pushes stage =>
    rw [stage] at h
    simp only [DriverState.takeReport, CompletionQueue.messages_push, List.length_append, uncounted,
      taken, dropped] at h ⊢
    simp at h ⊢
    omega
  | dismisses stage =>
    rw [stage] at h
    simp only [DriverState.takeReport, uncounted, taken, dropped] at h ⊢
    simp at h ⊢
    omega
  | notifies stage =>
    rw [stage] at h
    exact h
  | counts stage =>
    rw [stage] at h
    exact h
  | flushes =>
    simp only [DriverState.finishRequest, CompletionQueue.flush, CompletionQueue.empty] at h ⊢
    simp [taken, dropped] at h ⊢
    omega
  | reads queue queued pays =>
    rw [queued, List.length_append] at h
    rw [taken_took, dropped_took, List.length_nil]
    dsimp only
    omega
  | goesOn queue present queued pays =>
    rw [queued, List.length_append] at h
    rw [taken_took, dropped_took, List.length_nil]
    dsimp only
    omega

/-! ### What reads take -/

/-- Every message taken was taken by a read that there is, and the reads can have taken just these. -/
structure Paid (station : Station σ) (past : List Event) : Prop where
  calls : ∀ who call, station.calls[who]? = some call → Pays call (takenBy who past)
  nobody : ∀ who, station.calls.length ≤ who → takenBy who past = []

theorem Paid.quiet (h : Paid station past) (hcalls : next.calls = station.calls)
    (hevents : ∀ who, takenBy who events = []) : Paid next (past ++ events) := by
  constructor
  · intro who call hcall
    rw [takenBy_append, hevents, List.append_nil]
    exact h.calls who call (hcalls ▸ hcall)
  · intro who hwho
    rw [takenBy_append, hevents, List.append_nil]
    exact h.nobody who (hcalls ▸ hwho)

theorem Paid.step (h : Paid station past) (hstep : Step layout station next events) :
    Paid next (past ++ events) := by
  cases hstep with
  | quiet stage queue interrupts spurious calls => exact h.quiet calls fun _ => rfl
  | @inspects rest left accesses => exact h.quiet rfl fun who => takenBy_inspected accesses who
  | notifies stage =>
    rw [List.append_nil]
    constructor
    · intro who call hcall
      simp only [List.getElem?_map, Option.map_eq_some_iff] at hcall
      obtain ⟨before, hbefore, rfl⟩ := hcall
      exact notify_pays (h.calls who before hbefore)
    · intro who hwho
      exact h.nobody who (by simpa using hwho)
  | @reads call messages queue queued pays =>
    constructor
    · intro who other hother
      rw [takenBy_append, takenBy_took]
      by_cases hold : who < station.calls.length
      · rw [if_neg (Nat.ne_of_gt hold), List.append_nil]
        rw [List.getElem?_append_left hold] at hother
        exact h.calls who other hother
      · rw [h.nobody who (Nat.le_of_not_lt hold), List.nil_append]
        rw [List.getElem?_append_right (Nat.le_of_not_lt hold)] at hother
        rw [List.getElem?_singleton] at hother
        split at hother
        · cases hother
          rw [if_pos (by omega)]
          exact pays
        · cases hother
    · intro who hwho
      simp only [List.length_append, List.length_singleton] at hwho
      rw [takenBy_append, takenBy_took, if_neg (by omega), h.nobody who (by omega)]
      rfl
  | @goesOn who call after messages queue present queued pays =>
    have hlength := (List.getElem?_eq_some_iff.mp present).1
    constructor
    · intro other other' hother
      rw [takenBy_append, takenBy_took]
      by_cases hwho : who = other
      · subst hwho
        rw [List.getElem?_set_self hlength] at hother
        obtain rfl := Option.some.inj hother
        rw [if_pos rfl]
        exact pays _ (h.calls who call present)
      · rw [List.getElem?_set_ne hwho] at hother
        rw [if_neg hwho, List.append_nil]
        exact h.calls other other' hother
    · intro other hother
      rw [List.length_set] at hother
      rw [takenBy_append, takenBy_took, if_neg (by omega), h.nobody other hother]
      rfl
  | _ => exact h.quiet rfl fun _ => rfl

/-! ### Every run -/

/-- What holds of a station with its history. -/
structure Sound (layout : RegisterLayout) (station : Station σ) (past : List Event) : Prop where
  visited : Visited layout station past
  replayed : Replayed station past
  balanced : Balanced station past
  paid : Paid station past

theorem Reached.sound (h : Reached file layout station past) : Sound layout station past := by
  induction h with
  | bound registers =>
    exact ⟨⟨[], [], rfl, .waiting⟩, rfl, rfl, ⟨fun who call hcall => absurd hcall nofun, fun _ _ => rfl⟩⟩
  | @move station past move _ ih =>
    have hstep := station.act_step file layout move
    exact ⟨ih.visited.step hstep, ih.replayed.step hstep, ih.balanced.step hstep, ih.paid.step hstep⟩

/-- What is taken after the start or a flush, and before the next one, is the head of what is pushed in
    that time. -/
theorem Replayed.taken_prefix {earlier middle later : List Event} (h : Replayed station past)
    (hpast : past = earlier ++ middle ++ later)
    (hearlier : earlier = [] ∨ ∃ before messages, earlier = before ++ [.flushed messages])
    (hmiddle : ∀ messages, .flushed messages ∉ middle) :
    ∃ left, pushed middle = taken middle ++ left ∧
      (later = [] → left = station.driver.queue.messages) := by
  rw [Replayed, hpast, List.append_assoc, List.foldlM_append, Option.bind_eq_bind,
    Option.bind_eq_some_iff] at h
  obtain ⟨queue, hbefore, hafter⟩ := h
  have hqueue : queue = [] := by
    rcases hearlier with rfl | ⟨before, messages, rfl⟩
    · exact (Option.some.inj hbefore).symm
    · rw [List.foldlM_append, Option.bind_eq_bind, Option.bind_eq_some_iff] at hbefore
      obtain ⟨dropped, -, hflush⟩ := hbefore
      simp only [List.foldlM_cons, List.foldlM_nil, Option.bind_eq_bind, Option.bind_eq_some_iff,
        deal] at hflush
      obtain ⟨emptied, hemptied, hlast⟩ := hflush
      split at hemptied
      · cases hemptied
        exact (Option.some.inj hlast).symm
      · cases hemptied
  rw [hqueue, List.foldlM_append, Option.bind_eq_bind, Option.bind_eq_some_iff] at hafter
  obtain ⟨left, hleft, hrest⟩ := hafter
  refine ⟨left, by simpa using pushed_of_replay hleft hmiddle, fun hlater => ?_⟩
  subst hlater
  exact Option.some.inj hrest

/-- What a read has returned tells what it has taken. -/
theorem Pays.read {call : ReadCall} {messages : List CompletionMessage} (h : Pays call messages) :
    (call.room = 0 → call.result? = some (.ok []) ∧ messages = []) ∧
    (∀ error, call.result? = some (.error error) → messages = []) ∧
    (call.result? = none → messages = []) ∧
    (∀ bytes, 0 < call.room → call.result? = some (.ok bytes) →
      ∃ message, messages = [message] ∧ bytes = message.toBytes.take (min call.room 8)) := by
  have hcopy : ∀ (message : CompletionMessage) (room : Nat),
      message.copyOut room = message.toBytes.take (min room 8) := by
    intro message room
    rw [← List.take_take]
    exact congrArg (List.take room) (List.take_of_length_le (Nat.le_of_eq rfl)).symm
  by_cases hzero : call.room = 0
  · have hnothing : call.result? = some (.ok []) ∧ messages = [] := by
      cases h with
      | empty => exact ⟨rfl, rfl⟩
      | failed hroom => exact absurd hzero (Nat.ne_of_gt hroom)
      | served hroom => exact absurd hzero (Nat.ne_of_gt hroom)
      | waits hroom => exact ⟨if_pos hzero, hroom hzero⟩
    exact ⟨fun _ => hnothing, fun _ _ => hnothing.2, fun _ => hnothing.2,
      fun _ hpos => absurd hzero (Nat.ne_of_gt hpos)⟩
  · refine ⟨fun h => absurd h hzero, ?_⟩
    cases h with
    | empty => exact absurd rfl hzero
    | failed hroom =>
      refine ⟨fun _ _ => rfl, fun _ => rfl, fun bytes _ hbytes => ?_⟩
      cases hbytes
    | @served room message hroom =>
      refine ⟨fun error herror => ?_, fun hnone => ?_, fun bytes _ hbytes => ?_⟩
      · cases herror
      · cases hnone
      · cases hbytes
        exact ⟨message, rfl, hcopy message room⟩
    | @waits room reader hroom =>
      have hroom' : room ≠ 0 := hzero
      simp only [ReadCall.result?, if_neg hroom', Reader.gains]
      -- only a reader that has received its message has taken one
      cases reader.phase with
      | received message =>
        refine ⟨fun error herror => ?_, fun hnone => ?_, fun bytes _ hbytes => ?_⟩
        · cases herror
        · cases hnone
        · cases hbytes
          exact ⟨message, rfl, hcopy message room⟩
      | _ =>
        refine ⟨fun _ _ => rfl, fun _ => rfl, fun bytes _ hbytes => ?_⟩
        cases hbytes

/-- **Interrupts become messages, and messages are read in order.** -/
theorem interrupts_reach_readers (h : Reached file layout station past) :
    (∃ (visits : List (UInt32 × UInt32)) (part rest : List Event) (status nonce : UInt32),
      past.filter Event.isService =
        visits.flatMap (fun words => visit layout words.1 words.2) ++ part ∧
      visit layout status nonce = part ++ rest ∧ rest ≠ [] ∧
      (station.stage = .waiting → part = [])) ∧
    (∀ earlier middle later, past = earlier ++ middle ++ later →
      (earlier = [] ∨ ∃ before messages, earlier = before ++ [.flushed messages]) →
      (∀ messages, .flushed messages ∉ middle) →
      ∃ left, pushed middle = taken middle ++ left ∧
        (later = [] → left = station.driver.queue.messages)) ∧
    (∀ who call, station.calls[who]? = some call →
      (call.room = 0 → call.result? = some (.ok []) ∧ takenBy who past = []) ∧
      (∀ error, call.result? = some (.error error) → takenBy who past = []) ∧
      (call.result? = none → takenBy who past = []) ∧
      (∀ bytes, 0 < call.room → call.result? = some (.ok bytes) →
        ∃ message, takenBy who past = [message] ∧
          bytes = message.toBytes.take (min call.room 8))) ∧
    (∀ who, station.calls.length ≤ who → takenBy who past = []) ∧
    (station.stage = .waiting → station.driver.interrupts =
      station.driver.spurious + (taken past).length + (dropped past).length +
        station.driver.queue.length) := by
  obtain ⟨⟨visits, part, hpast, hunder⟩, hreplayed, hbalanced, hpaid⟩ := h.sound
  refine ⟨?_, fun earlier middle later => hreplayed.taken_prefix, fun who call hcall =>
    (hpaid.calls who call hcall).read, hpaid.nobody, fun hstage => ?_⟩
  · obtain ⟨status, nonce, rest, hvisit, hrest⟩ := hunder.exists_visit
    refine ⟨visits, part, rest, status, nonce, hpast, hvisit, hrest, fun hstage => ?_⟩
    rw [hstage] at hunder
    cases hunder
    rfl
  · rw [Balanced, hstage] at hbalanced
    exact hbalanced

/-! Over plain memory: an interrupt that finds nothing; a completion for a read of three bytes that has
waited for it, while a look with an empty buffer takes nothing; and one that a reset drops. A second
read that waits is called off. -/

def busyLine : Station Memory × List Event :=
  let report (status nonce : UInt32) : Move Memory := .disturb fun memory =>
    (memory.poke CountWindow.status status).poke CountWindow.nonceCandidate nonce
  let serviced (steps : Nat) : List (Move Memory) := .raise :: List.replicate steps .serve
  follow Memory.registerFile .count
    ([.openHandle] ++ serviced 5 ++ [.read 3, .goOn 0, .goOn 0, report 0x10 5] ++ serviced 8 ++
      [.tryRead 0, .goOn 0, .goOn 0, .goOn 0, .read 8, .goOn 2, .goOn 2, .callOff 2, report 0x20 7] ++
      serviced 5 ++ [.leave 2] ++ List.replicate 3 .serve ++ [.ask .reset, .proceed, .proceed])
    { registers := Memory.zeroed CountWindow.size } []

theorem busy_line_is_accounted_for :
    Reached Memory.registerFile .count busyLine.1 busyLine.2 ∧
    busyLine.1.calls.map ReadCall.result? =
      [some (.ok [0x10, 0, 0]), some (.ok []), some (.error .interrupted)] ∧
    pushed busyLine.2 = [⟨0x10, 5⟩, ⟨0x20, 7⟩] ∧ dropped busyLine.2 = [⟨0x20, 7⟩] ∧
    takenBy 0 busyLine.2 = [⟨0x10, 5⟩] ∧ takenBy 2 busyLine.2 = [] ∧
    busyLine.1.driver.interrupts = 3 ∧ busyLine.1.driver.spurious = 1 ∧
    busyLine.1.driver.interrupts = busyLine.1.driver.spurious + (taken busyLine.2).length +
      (dropped busyLine.2).length + busyLine.1.driver.queue.length := by
  have hreached : Reached Memory.registerFile .count busyLine.1 busyLine.2 :=
    (Reached.bound (Memory.zeroed CountWindow.size)).follow _
  obtain ⟨-, -, hreads, -, hbalance⟩ := interrupts_reach_readers hreached
  have hthird := (hreads 2 (.waits 8 ⟨.receive, .interrupted, true⟩) rfl).2.1 _ rfl
  exact ⟨hreached, rfl, by decide +kernel, by decide +kernel, by decide +kernel, hthird,
    by decide +kernel, by decide +kernel, hbalance rfl⟩

end Station

end NonceSearch
