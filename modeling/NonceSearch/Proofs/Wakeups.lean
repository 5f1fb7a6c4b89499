import NonceSearch.Queue.Waiting

/-!
# Every message to one reader, and no reader left asleep

A waiting room in motion: readers and pushers come, each goes on by one atomic step at a time, waits
are called off, and messages are taken out without waiting, flushed or drained. `Reached` gathers the
rooms that can come about, with what has gone into the queue and out of it so far, oldest first.

Two things hold of all of them. What went out, in order, and then what is still queued, is what went
in (`delivers_once_and_wakes`), and what went out to a reader is what that reader left with. And a
reader that is parked and not notified found the queue empty *after* it had enrolled, so as long as it
stays so, either the queue is empty or a pusher is still to notify.
-/

namespace NonceSearch

namespace Reader

def gains (reader : Reader) : List CompletionMessage :=
  match reader.phase with
  | .received message => [message]
  | _ => []

theorem notify_gains (reader : Reader) : reader.notify.gains = reader.gains := by
  obtain ⟨kind, phase, cancelled⟩ := reader
  cases phase <;> rfl

theorem notify_phase_ne (reader : Reader) : reader.notify.phase ≠ .parked false := by
  obtain ⟨kind, phase, cancelled⟩ := reader
  cases phase <;> simp [notify]

/-- A wait that is called off takes nothing. -/
theorem leave?_some {reader next : Reader} (h : reader.leave? = some next) :
    next.phase = .interrupted ∧ reader.gains = [] := by
  unfold leave? at h
  split at h
  · rename_i notified hphase
    split at h
    · simp only [Option.some.injEq] at h
      subst h
      exact ⟨rfl, by simp [gains, hphase]⟩
    · simp at h
  · simp at h

/-- What a reader's step can do to the queue: nothing, or take its oldest message. A reader parks only
    at an empty queue. -/
theorem step?_cases {queue rest : CompletionQueue} {reader next : Reader}
    (h : reader.step? queue = some (next, rest)) : reader.gains = [] ∧
    (rest = queue ∧ next.gains = [] ∧ (next.phase = .parked false → queue.messages = []) ∨
      ∃ message, queue.messages = message :: rest.messages ∧ next.phase = .received message) := by
  unfold step? at h
  split at h
  case h_1 hphase =>
    simp only [Option.some.injEq, Prod.mk.injEq] at h
    obtain ⟨rfl, rfl⟩ := h
    exact ⟨by simp [gains, hphase], .inl ⟨rfl, rfl, fun hparks => by cases hparks⟩⟩
  case h_2 notified hphase =>
    refine ⟨by simp [gains, hphase], ?_⟩
    split at h
    · split at h
      · rename_i message left htake
        simp only [Option.some.injEq, Prod.mk.injEq] at h
        obtain ⟨rfl, rfl⟩ := h
        exact .inr ⟨message, CompletionQueue.messages_of_take? htake, rfl⟩
      · rename_i htake
        simp only [Option.some.injEq, Prod.mk.injEq] at h
        obtain ⟨rfl, rfl⟩ := h
        rw [CompletionQueue.take?_eq_none_iff] at htake
        exact .inl ⟨rfl, rfl, fun _ => by simpa [CompletionQueue.isReady] using htake⟩
    · split at h
      · simp only [Option.some.injEq, Prod.mk.injEq] at h
        obtain ⟨rfl, rfl⟩ := h
        exact .inl ⟨rfl, rfl, fun hparks => by cases hparks⟩
      · rename_i hready
        simp only [Option.some.injEq, Prod.mk.injEq] at h
        obtain ⟨rfl, rfl⟩ := h
        exact .inl ⟨rfl, rfl, fun _ => by simpa [CompletionQueue.isReady] using hready⟩
  case h_3 hphase =>
    simp only [Option.some.injEq, Prod.mk.injEq] at h
    obtain ⟨rfl, rfl⟩ := h
    exact ⟨by simp [gains, hphase], .inl ⟨rfl, rfl, fun hparks => by cases hparks⟩⟩
  case h_4 hphase =>
    simp only [Option.map_eq_some_iff, Prod.mk.injEq] at h
    obtain ⟨left, hleave, rfl, rfl⟩ := h
    obtain ⟨hleft, hgains⟩ := leave?_some hleave
    exact ⟨hgains, .inl ⟨rfl, by simp [gains, hleft], by simp [hleft]⟩⟩
  case h_5 => simp at h

end Reader

namespace WaitingRoom

/-! ### A waiting room in motion -/

inductive Move where
  /-- A reader comes. -/
  | enter (kind : ReaderKind)
  /-- A pusher comes with its message. -/
  | bring (message : CompletionMessage)
  /-- A reader's wait is called off. -/
  | callOff (who : Nat)
  /-- Somebody makes one atomic step. -/
  | step (who : Nat)
  /-- A reader whose wait is called off goes. -/
  | leave (who : Nat)
  | tryTake
  | flush
  | drain
  deriving DecidableEq, Repr

inductive Remover where
  | reader (who : Nat)
  | tryTake
  | flush
  | drain
  deriving DecidableEq, Repr

inductive Event where
  | pushed (message : CompletionMessage)
  | removed (remover : Remover) (messages : List CompletionMessage)
  deriving DecidableEq, Repr

/-- The room after a move. A step that cannot be made leaves everything as it is. -/
def act (room : WaitingRoom) : Move → WaitingRoom
  | .enter kind => { room with readers := room.readers ++ [{ kind := kind }] }
  | .bring message => { room with pushers := room.pushers ++ [.appending message] }
  | .callOff who =>
    match room.readers[who]? with
    | some reader =>
      { room with readers := room.readers.set who { reader with cancelled := true } }
    | none => room
  | .step who => (room.step? who).getD room
  | .leave who => (room.leave? who).getD room
  | .tryTake =>
    match room.queue.take? with
    | some (_, queue) => { room with queue := queue }
    | none => room
  | .flush => { room with queue := room.queue.flush.2 }
  | .drain => { room with queue := room.queue.drain.2 }

def events (room : WaitingRoom) : Move → List Event
  | .step who =>
    match room.step? who with
    | none => []
    | some next =>
      match next.readers[who]?, room.pushers[who - room.readers.length]? with
      | some reader, _ => reader.gains.map fun message => .removed (.reader who) [message]
      | none, some (.appending message) => [.pushed message]
      | none, _ => []
  | .tryTake =>
    match room.queue.take? with
    | some (message, _) => [.removed .tryTake [message]]
    | none => []
  | .flush => [.removed .flush room.queue.messages]
  | .drain => [.removed .drain room.queue.drain.1]
  | _ => []

inductive Reached : WaitingRoom → List Event → Prop where
  | opened : Reached {} []
  | move {room : WaitingRoom} {past : List Event} (move : Move) (h : Reached room past) :
    Reached (room.act move) (past ++ room.events move)

def follow : List Move → WaitingRoom → List Event → WaitingRoom × List Event
  | [], room, past => (room, past)
  | move :: moves, room, past => follow moves (room.act move) (past ++ room.events move)

theorem Reached.follow {room : WaitingRoom} {past : List Event} (h : Reached room past)
    (moves : List Move) : Reached (follow moves room past).1 (follow moves room past).2 := by
  induction moves generalizing room past with
  | nil => exact h
  | cons move moves ih => exact ih (.move move h)

def pushes (past : List Event) : List CompletionMessage :=
  past.filterMap fun
    | .pushed message => some message
    | .removed .. => none

def removals (past : List Event) : List CompletionMessage :=
  past.flatMap fun
    | .pushed _ => []
    | .removed _ messages => messages

def removalsBy (who : Remover) (past : List Event) : List CompletionMessage :=
  past.flatMap fun
    | .pushed _ => []
    | .removed remover messages => if remover = who then messages else []

/-! ### What a move can do -/

/-- One move, by what it does to the queue and to those who wait. -/
inductive Step (room : WaitingRoom) : WaitingRoom → List Event → Prop where
  | stands : Step room room []
  | enters (kind : ReaderKind) :
    Step room { room with readers := room.readers ++ [{ kind := kind }] } []
  | brings (message : CompletionMessage) :
    Step room { room with pushers := room.pushers ++ [.appending message] } []
  | moves (who : Nat) (reader next : Reader) (present : room.readers[who]? = some reader)
    (gains : next.gains = reader.gains)
    (parks : next.phase = .parked false → reader.phase = .parked false ∨ room.queue.messages = []) :
    Step room { room with readers := room.readers.set who next } []
  | receives (who : Nat) (reader next : Reader) (message : CompletionMessage)
    (rest : CompletionQueue) (present : room.readers[who]? = some reader)
    (gains : reader.gains = []) (received : next.phase = .received message)
    (queued : room.queue.messages = message :: rest.messages) :
    Step room { room with readers := room.readers.set who next, queue := rest }
      [.removed (.reader who) [message]]
  | appends (index : Nat) (message : CompletionMessage)
    (present : room.pushers[index]? = some (.appending message)) :
    Step room { room.append message with pushers := room.pushers.set index .notifying }
      [.pushed message]
  | notifies (index : Nat) (present : room.pushers[index]? = some .notifying) :
    Step room { room.notifyAll with pushers := room.pushers.set index .gone } []
  | removes (remover : Remover) (messages : List CompletionMessage) (rest : CompletionQueue)
    (aside : ∀ who, remover ≠ .reader who) (queued : room.queue.messages = messages ++ rest.messages) :
    Step room { room with queue := rest } [.removed remover messages]

theorem step_of_reader {room next : WaitingRoom} {who : Nat} (hwho : who < room.readers.length)
    (h : room.step? who = some next) : Step room next (room.events (.step who)) := by
  have hevents : room.events (.step who) =
      (next.readers[who]?.map fun reader =>
        reader.gains.map fun message => Event.removed (.reader who) [message]).getD [] := by
    have hlength : next.readers.length = room.readers.length := by
      rw [step?, if_pos hwho] at h
      simp only [Option.bind_eq_bind, Option.bind_eq_some_iff, Option.pure_def,
        Option.some.injEq] at h
      obtain ⟨reader, hreader, ⟨after, rest⟩, hstep, rfl⟩ := h
      simp
    rw [events, h]
    simp [List.getElem?_eq_getElem (hlength ▸ hwho)]
  rw [step?, if_pos hwho] at h
  simp only [Option.bind_eq_bind, Option.bind_eq_some_iff, Option.pure_def, Option.some.injEq] at h
  obtain ⟨reader, hreader, ⟨after, rest⟩, hstep, rfl⟩ := h
  simp only [List.getElem?_set_self hwho, Option.map_some, Option.getD_some] at hevents
  rw [hevents]
  obtain ⟨hgains, ⟨hrest, hafter, hparks⟩ | ⟨message, hqueued, hreceived⟩⟩ := Reader.step?_cases hstep
  · subst hrest
    rw [hafter]
    exact .moves who reader after hreader (hafter.trans hgains.symm) fun hphase => .inr (hparks hphase)
  · have hone : after.gains = [message] := by simp [Reader.gains, hreceived]
    rw [hone]
    exact .receives who reader after message rest hreader hgains hreceived hqueued

theorem step?_of_pusher {room next : WaitingRoom} {who : Nat} (hwho : ¬ who < room.readers.length)
    (h : room.step? who = some next) :
    (∃ message, room.pushers[who - room.readers.length]? = some (.appending message) ∧
      next = { room.append message with
        pushers := room.pushers.set (who - room.readers.length) .notifying }) ∨
    room.pushers[who - room.readers.length]? = some .notifying ∧
      next = { room.notifyAll with
        pushers := room.pushers.set (who - room.readers.length) .gone } := by
  rw [step?, if_neg hwho] at h
  cases hpusher : room.pushers[who - room.readers.length]? with
  | none => simp [hpusher] at h
  | some phase =>
    cases phase with
    | appending message =>
      simp only [hpusher, Option.some.injEq] at h
      exact .inl ⟨message, rfl, h.symm⟩
    | notifying =>
      simp only [hpusher, Option.some.injEq] at h
      exact .inr ⟨rfl, h.symm⟩
    | gone => simp [hpusher] at h

theorem step_of_pusher {room next : WaitingRoom} {who : Nat} (hwho : ¬ who < room.readers.length)
    (h : room.step? who = some next) : Step room next (room.events (.step who)) := by
  have hnobody : room.readers.length ≤ who := Nat.le_of_not_lt hwho
  rw [events, h]
  rcases step?_of_pusher hwho h with ⟨message, hpusher, rfl⟩ | ⟨hpusher, rfl⟩
  · simp only [append, List.getElem?_eq_none hnobody, hpusher]
    exact .appends _ message hpusher
  · simp only [notifyAll, List.getElem?_map, List.getElem?_eq_none hnobody, Option.map_none, hpusher]
    exact .notifies _ hpusher

theorem act_step (room : WaitingRoom) (move : Move) :
    Step room (room.act move) (room.events move) := by
  cases move with
  | enter kind => exact .enters kind
  | bring message => exact .brings message
  | callOff who =>
    cases hreader : room.readers[who]? with
    | none =>
      simp only [act, events, hreader]
      exact .stands
    | some reader =>
      simp only [act, events, hreader]
      exact .moves who reader { reader with cancelled := true } hreader rfl .inl
  | step who =>
    cases hstep : room.step? who with
    | none =>
      rw [act, events, hstep]
      exact .stands
    | some next =>
      rw [act, hstep, Option.getD_some]
      by_cases hwho : who < room.readers.length
      · exact step_of_reader hwho hstep
      · exact step_of_pusher hwho hstep
  | leave who =>
    cases hleave : room.leave? who with
    | none =>
      rw [act, hleave]
      exact .stands
    | some next =>
      rw [act, hleave, Option.getD_some]
      simp only [leave?, Option.bind_eq_bind, Option.bind_eq_some_iff, Option.pure_def,
        Option.some.injEq] at hleave
      obtain ⟨reader, hreader, left, hleft, rfl⟩ := hleave
      obtain ⟨hphase, hgains⟩ := Reader.leave?_some hleft
      refine .moves who reader left hreader ?_ (by simp [hphase])
      rw [hgains]
      simp [Reader.gains, hphase]
  | tryTake =>
    cases htake : room.queue.take? with
    | none =>
      simp only [act, events, htake]
      exact .stands
    | some taken =>
      obtain ⟨message, rest⟩ := taken
      simp only [act, events, htake]
      exact .removes .tryTake [message] rest nofun (CompletionQueue.messages_of_take? htake)
  | flush => exact .removes .flush _ _ nofun (List.append_nil _).symm
  | drain => exact .removes .drain _ _ nofun (List.append_nil _).symm

/-! ### Once each, and in order -/

/-- What the queue and the readers hold is what the history says. -/
structure Accounted (room : WaitingRoom) (past : List Event) : Prop where
  order : pushes past = removals past ++ room.queue.messages
  readers : ∀ who, removalsBy (.reader who) past = (room.readers[who]?.map Reader.gains).getD []

theorem Accounted.step {room next : WaitingRoom} {past events : List Event}
    (h : Accounted room past) (hstep : Step room next events) : Accounted next (past ++ events) := by
  obtain ⟨horder, hreaders⟩ := h
  cases hstep with
  | stands => exact ⟨by simpa using horder, by simpa using hreaders⟩
  | enters kind =>
    refine ⟨by simpa using horder, fun who => ?_⟩
    have hwho := hreaders who
    by_cases hold : who < room.readers.length
    · simpa [List.getElem?_append_left hold] using hwho
    · rw [List.getElem?_eq_none (Nat.le_of_not_lt hold)] at hwho
      rw [List.append_nil, hwho, List.getElem?_append_right (Nat.le_of_not_lt hold)]
      rcases who - room.readers.length with _ | _ <;> rfl
  | brings message => exact ⟨by simpa using horder, by simpa using hreaders⟩
  | moves who reader after present gains parks =>
    refine ⟨by simpa using horder, fun other => ?_⟩
    rw [List.append_nil, hreaders other, List.getElem?_set]
    by_cases hother : who = other
    · subst hother
      have hlength := (List.getElem?_eq_some_iff.mp present).1
      rw [present, if_pos rfl, if_pos hlength]
      simp [gains]
    · simp [hother]
  | receives who reader after message rest present gains received queued =>
    constructor
    · rw [queued] at horder
      simpa [pushes, removals] using horder
    · intro other
      rw [List.getElem?_set]
      by_cases hother : who = other
      · subst hother
        have hlength := (List.getElem?_eq_some_iff.mp present).1
        have hnothing := hreaders who
        rw [present, Option.map_some, Option.getD_some, gains] at hnothing
        rw [removalsBy, List.flatMap_append, ← removalsBy, hnothing]
        simp [hlength, Reader.gains, received]
      · have hsame := hreaders other
        rw [removalsBy, List.flatMap_append, ← removalsBy, hsame]
        simp [hother]
  | appends index message present =>
    constructor
    · rw [pushes, List.filterMap_append, ← pushes, horder]
      simp [removals, append]
    · intro who
      simpa [removalsBy, append] using hreaders who
  | notifies index present =>
    refine ⟨by simpa [notifyAll] using horder, fun who => ?_⟩
    rw [List.append_nil, hreaders who]
    simp only [notifyAll, List.getElem?_map, Option.map_map]
    congr 2
    funext reader
    exact reader.notify_gains.symm
  | removes remover messages rest aside queued =>
    constructor
    · rw [queued] at horder
      simpa [pushes, removals] using horder
    · intro who
      rw [removalsBy, List.flatMap_append, ← removalsBy, hreaders who]
      simp [aside who]

theorem Reached.accounted {room : WaitingRoom} {past : List Event} (h : Reached room past) :
    Accounted room past := by
  induction h with
  | opened => exact ⟨rfl, fun _ => rfl⟩
  | move move _ ih => exact ih.step (act_step _ move)

/-! ### Nobody sleeps beside a message -/

/-- Whoever is parked and not notified has nothing to take, or is going to be notified. -/
def Roused (room : WaitingRoom) : Prop :=
  ∀ reader ∈ room.readers, reader.phase = .parked false →
    room.queue.messages = [] ∨ .notifying ∈ room.pushers

theorem Roused.step {room next : WaitingRoom} {events : List Event} (h : Roused room)
    (hstep : Step room next events) : Roused next := by
  intro reader hreader hphase
  cases hstep with
  | stands => exact h reader hreader hphase
  | enters kind =>
    rcases List.mem_append.mp hreader with hold | hnew
    · exact h reader hold hphase
    · rw [List.mem_singleton.mp hnew] at hphase
      exact absurd hphase nofun
  | brings message =>
    rcases h reader hreader hphase with hempty | hnotifying
    · exact .inl hempty
    · exact .inr (List.mem_append_left _ hnotifying)
  | moves who old new present gains parks =>
    rcases List.mem_or_eq_of_mem_set hreader with hold | hnew
    · exact h reader hold hphase
    · subst hnew
      -- A reader parks only at an empty queue, and one that was parked already is covered by `h`.
      rcases parks hphase with hparked | hempty
      · exact h old (List.mem_of_getElem? present) hparked
      · exact .inl hempty
  | receives who old new message rest present gains received queued =>
    rcases List.mem_or_eq_of_mem_set hreader with hold | hnew
    · rcases h reader hold hphase with hempty | hnotifying
      · rw [queued] at hempty
        cases hempty
      · exact .inr hnotifying
    · subst hnew
      rw [received] at hphase
      cases hphase
  | appends index message present =>
    -- Whoever has put a message in is going to notify.
    have hlength := (List.getElem?_eq_some_iff.mp present).1
    exact .inr (List.mem_set hlength .notifying)
  | notifies index present =>
    obtain ⟨old, -, rfl⟩ := List.mem_map.mp hreader
    exact absurd hphase old.notify_phase_ne
  | removes remover messages rest aside queued =>
    rcases h reader hreader hphase with hempty | hnotifying
    · rw [queued] at hempty
      exact .inl (List.append_eq_nil_iff.mp hempty).2
    · exact .inr hnotifying

theorem Reached.roused {room : WaitingRoom} {past : List Event} (h : Reached room past) :
    Roused room := by
  induction h with
  | opened => exact fun reader hreader => absurd hreader List.not_mem_nil
  | move move _ ih => exact ih.step (act_step _ move)

/-- **Every message goes to one place, in push order, and no reader sleeps beside a message.** -/
theorem delivers_once_and_wakes {room : WaitingRoom} {past : List Event} (h : Reached room past) :
    pushes past = removals past ++ room.queue.messages ∧
    (∀ (who : Nat) (reader : Reader), room.readers[who]? = some reader →
      (∀ message, reader.phase = .received message → removalsBy (.reader who) past = [message]) ∧
      ((∀ message, reader.phase ≠ .received message) → removalsBy (.reader who) past = [])) ∧
    (∀ who, room.readers.length ≤ who → removalsBy (.reader who) past = []) ∧
    (room.queue.isReady → .notifying ∉ room.pushers →
      ∀ reader ∈ room.readers, reader.phase ≠ .parked false) := by
  obtain ⟨horder, hreaders⟩ := h.accounted
  refine ⟨horder, fun who reader hreader => ⟨fun message hphase => ?_, fun hphase => ?_⟩, ?_, ?_⟩
  · rw [hreaders who, hreader]
    simp [Reader.gains, hphase]
  · rw [hreaders who, hreader]
    simp only [Option.map_some, Option.getD_some, Reader.gains]
  · intro who hwho
    rw [hreaders who, List.getElem?_eq_none hwho]
    rfl
  · intro hready hquiet reader hreader hphase
    rcases h.roused reader hreader hphase with hempty | hnotifying
    · simp [CompletionQueue.isReady, hempty] at hready
    · exact hquiet hnotifying

/-! A reader and a watcher have parked. Another reader comes, finds a message that has been appended
without a notification so far, and leaves with it; the first one wakes for nothing, parks again and is
called off, and what comes next is flushed. -/

def race : WaitingRoom × List Event :=
  follow [.enter .receive, .step 0, .step 0, .enter .watch, .step 1, .step 1,
    .bring ⟨0x10, 5⟩, .step 2, .enter .receive, .step 2, .step 2, .step 3,
    .step 0, .step 0, .step 0, .callOff 0, .leave 0,
    .bring ⟨0x20, 9⟩, .step 4, .flush, .step 4] {} []

theorem late_reader_wins_the_race :
    Reached race.1 race.2 ∧ pushes race.2 = [⟨0x10, 5⟩, ⟨0x20, 9⟩] ∧
      pushes race.2 = removals race.2 ++ race.1.queue.messages ∧
      removalsBy (.reader 2) race.2 = [⟨0x10, 5⟩] ∧ removalsBy (.reader 0) race.2 = [] ∧
      (race.1.readers.map Reader.phase = [.interrupted, .parked true, .received ⟨0x10, 5⟩]) := by
  have hreached : Reached race.1 race.2 := Reached.opened.follow _
  obtain ⟨horder, hreaders, -, -⟩ := delivers_once_and_wakes hreached
  have hfirst := (hreaders 0 ⟨.receive, .interrupted, true⟩ (by decide +kernel)).2 nofun
  have hlast := (hreaders 2 ⟨.receive, .received ⟨0x10, 5⟩, false⟩ (by decide +kernel)).1 _ rfl
  exact ⟨hreached, by decide +kernel, horder, hlast, hfirst, by decide +kernel⟩

end WaitingRoom

end NonceSearch
