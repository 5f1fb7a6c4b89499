import NonceSearch.Proofs.Shifts

/-!
# How a worker ends

A worker looks for the end where it decides and where it waits for orders, but not in the middle of a
report: there it goes on emitting, and waits for room as at any other time. Once the end has been called and
no scan is going on, every move of the worker brings it nearer to its end (`Workplace.WindingUp.nears`), it
makes at most seven of them, and it can always make the next one, except when it has an event to emit
that finds no room (`Workplace.HeldUp`). So it stops by itself if its owner has left room for the rest of
the report, or does not listen any more, and otherwise only after events have been taken.
-/

namespace NonceSearch

/-! ### The rest of a report -/

namespace Worker

variable {worker next : Worker} {shutdown owned : Bool} {entries : List Entry}

/-- How many moves are left to a worker that has been called to its end and does not scan. -/
def stepsBeforeEnd (worker : Worker) : Nat :=
  if worker.phase = .waiting then 2 else worker.stepsBeforeOrders

theorem stepsBeforeEnd_act {left : List Deed} (temperature : Option Decimal.Binary64)
    (hphase : worker.phase = .acting left) :
    (worker.act temperature).2.stepsBeforeEnd < worker.stepsBeforeEnd := by
  have hbefore : worker.stepsBeforeEnd = worker.stepsBeforeOrders := by simp [stepsBeforeEnd, hphase]
  have hafter : (worker.act temperature).2.phase ≠ .waiting := by
    obtain ⟨-, -, hdeciding | ⟨rest, hrest, -⟩⟩ := act_cases temperature hphase
    · simp [hdeciding]
    · simp [hrest]
  rw [hbefore, stepsBeforeEnd, if_neg hafter]
  exact stepsBeforeOrders_act temperature hphase

def Brief (worker : Worker) : Prop := (worker.deeds.map Deed.steps).sum ≤ 5

theorem Brief.of_deeds (h : worker.Brief) (hdeeds : next.deeds = worker.deeds) : next.Brief := by
  rw [Brief, hdeeds]
  exact h

theorem Brief.of_nil (hdeeds : worker.deeds = []) : worker.Brief := by
  rw [Brief, hdeeds]
  exact Nat.zero_le 5

theorem scanned_brief (worker : Worker) (item : Assignment) (result : Except DeviceError ScanReport)
    (elapsed : Duration) : (worker.scanned item result elapsed).Brief := by
  cases result with
  | error cause => exact (by decide : 3 ≤ 5)
  | ok report =>
    obtain ⟨outcome, hashes⟩ := report
    cases outcome with
    | found candidate =>
      cases hmeets : candidate.meetsTarget <;>
        simp [Brief, scanned, reported, account, hmeets, deeds, closingDeeds, Deed.steps]
    | faulted | exhausted | noResult | restarted =>
      simp [Brief, scanned, reported, account, deeds, closingDeeds, Deed.steps]

theorem Brief.act {left : List Deed} (h : worker.Brief) (temperature : Option Decimal.Binary64)
    (hphase : worker.phase = .acting left) : (worker.act temperature).2.Brief := by
  have hdeeds : worker.deeds = left := by simp [deeds, hphase]
  rw [Brief, hdeeds] at h
  cases left with
  | nil => exact .of_nil (by simp [Worker.act, hphase, deeds])
  | cons deed rest =>
    rw [List.map_cons, List.sum_cons] at h
    cases deed with
    | emit | forget =>
      have hrest : (rest.map Deed.steps).sum ≤ 5 := (Nat.le_add_left _ _).trans h
      simpa [Brief, Worker.act, hphase, deeds] using hrest
    | sumUp hashes elapsed =>
      -- the status that is left to emit was counted with the summing up
      have hrest : 1 + (rest.map Deed.steps).sum ≤ 5 := (Nat.add_le_add_right one_le_two _).trans h
      simpa [Brief, Worker.act, hphase, deeds, Deed.steps] using hrest

theorem Brief.stepsBeforeEnd_le (h : worker.Brief) : worker.stepsBeforeEnd ≤ 7 := by
  unfold stepsBeforeEnd stepsBeforeOrders
  split
  · decide
  · split
    · next left hphase =>
      have hdeeds : worker.deeds = left := by simp [deeds, hphase]
      rw [Brief, hdeeds] at h
      omega
    · decide
    · decide
    · decide
    · decide

theorem interrupt_of_waiting (hphase : worker.phase = .waiting) : worker.interrupt.phase = .deciding := by
  simp [interrupt, hphase]

end Worker

namespace Workplace

variable {δ : Type} {start place next last : Workplace δ} {ledger : List Entry} {news : List Happening}

theorem Turn.brief {worker next : Worker} {shutdown owned : Bool} {entries : List Entry}
    (hturn : Turn worker shutdown owned entries next) (h : worker.Brief) : next.Brief := by
  cases hturn with
  | quiet _ hnext => exact hnext ▸ h
  | rests _ hphase =>
    rcases hphase with ⟨hphase, -⟩ | hphase
    · exact .of_nil (by simp [Worker.deeds, hphase])
    · exact .of_nil (by simp [Worker.deeds, hphase])
  | begins _ _ _ hphase => exact .of_nil (by simp [Worker.deeds, hphase])
  | obeys sender order => exact h.of_deeds (Worker.obey_deeds order worker)
  | orphaned => exact h.of_deeds (Worker.interrupt_deeds _)
  | ends => exact worker.scanned_brief _ _ _
  | acts temperature hphase => exact h.act temperature hphase

/-! ### The event channel -/

/-- There are never more events than the channel holds. -/
theorem Airs.events_length_le (hairs : Airs place next news)
    (h : place.events.length ≤ eventCapacity) : next.events.length ≤ eventCapacity := by
  cases hairs with
  | quiet _ _ hevents => exact hevents ▸ h
  | emits event hroom _ hevents =>
    rw [hevents, deliver]
    split
    · exact h
    · next hreader =>
      have hbelow : place.events.length < eventCapacity := by simpa [hasRoom, hreader] using hroom
      rw [List.length_append]
      exact hbelow
  | taken _ hevents =>
    rw [hevents, List.length_tail]
    exact (Nat.sub_le _ _).trans h
  | deafened _ hevents =>
    rw [hevents]
    exact Nat.zero_le _

/-- A worker in a history: no report is long, and no more events wait than there is room for. -/
structure Bounded (place : Workplace δ) : Prop where
  brief : place.worker.Brief
  events : place.events.length ≤ eventCapacity

theorem Records.bounded {bench : Bench δ} {config : ScanConfig}
    (h : (fresh bench config).Records place ledger) : place.Bounded := by
  induction h with
  | start => exact ⟨.of_nil rfl, Nat.zero_le _⟩
  | move move hrecords hmove ih =>
    exact ⟨(hrecords.heeds.turn hmove).brief ih.brief, (perform?_airs hmove).events_length_le ih.events⟩

/-! ### Winding up -/

/-- The end has been called, and no scan is going on. -/
structure WindingUp (place : Workplace δ) : Prop where
  called : place.shutdown = true
  idle : place.worker.scanning? = none
  tended : place.Tended

/-- The next event to be told finds no room, and there is somebody who could take the others. -/
structure HeldUp (place : Workplace δ) : Prop where
  wants : place.worker.wantsToEmit = true
  reader : place.reader = .listening
  full : eventCapacity ≤ place.events.length

/-- What a worker does itself. -/
def Move.isWorkers : Move δ → Bool
  | .decide | .stopWaiting | .takeOrder | .orphan | .advanceScan | .finishScan | .act => true
  | .send _ | .takeEvent | .callEnd | .abandon | .deafen | .around _ => false

theorem Move.isOwn_of_isWorkers {move : Move δ} (h : move.isWorkers = true) : move.isOwn = true := by
  cases move with
  | send | takeEvent | callEnd | abandon | deafen | around => cases h
  | _ => rfl

/-- So many moves of a worker lead on from here, and nobody has taken an event meanwhile. -/
structure Nears (count : Nat) (place next : Workplace δ) : Prop where
  windingUp : next.WindingUp
  reader : next.reader = place.reader
  asks : place.reader = .listening → next.asks = place.asks
  steps : next.worker.stepsBeforeEnd + count ≤ place.worker.stepsBeforeEnd

theorem Nears.trans {first second : Nat} (h : place.Nears first next) (hnext : next.Nears second last) :
    place.Nears (first + second) last := by
  refine ⟨hnext.windingUp, hnext.reader.trans h.reader, fun hreader => ?_, ?_⟩
  · exact (hnext.asks (h.reader.trans hreader)).trans (h.asks hreader)
  · have hfirst := h.steps
    have hsecond := hnext.steps
    omega

/-- Room for the rest of a report is left for it. -/
theorem Nears.room {count : Nat} (h : place.Nears count next)
    (hroom : place.reader = .gone ∨ place.asks.length ≤ eventCapacity) :
    next.reader = .gone ∨ next.asks.length ≤ eventCapacity := by
  rcases hroom with hgone | hroom
  · exact .inl (h.reader.trans hgone)
  · cases hreader : place.reader with
    | gone => exact .inl (h.reader.trans hreader)
    | listening => exact .inr (h.asks hreader ▸ hroom)

/-- Each move of a worker brings it nearer to its end. -/
theorem WindingUp.nears {move : Move δ} (h : place.WindingUp) (hworkers : move.isWorkers = true)
    (hmove : place.perform? move = some (news, next)) : place.Nears 1 next := by
  have hcalled : next.shutdown = true := (perform?_keeps hmove).shutdown h.called
  have htended : next.Tended := h.tended.perform hmove
  cases move with
  | send | takeEvent | callEnd | abandon | deafen | around => cases hworkers
  | decide =>
    obtain ⟨after, hafter, hnews⟩ := Option.map_eq_some_iff.mp hmove
    obtain ⟨-, rfl⟩ := Prod.mk.inj hnews
    obtain ⟨hdeciding, scan, rfl⟩ := decide?_eq hafter
    have hstops : (place.worker.decide place.shutdown place.now).phase = .stopped := by
      simp [Worker.decide, h.called]
    refine ⟨⟨hcalled, ?_, htended⟩, rfl, fun _ => ?_, ?_⟩
    · simp [Worker.scanning?, hstops]
    · simp [asks, Worker.deeds, hstops, hdeciding]
    · simp [Worker.stepsBeforeEnd, Worker.stepsBeforeOrders, hstops, hdeciding]
  | stopWaiting =>
    obtain ⟨after, hafter, hnews⟩ := Option.map_eq_some_iff.mp hmove
    obtain ⟨-, rfl⟩ := Prod.mk.inj hnews
    simp only [stopWaiting?, Option.ite_none_right_eq_some, Option.some.injEq] at hafter
    obtain ⟨⟨hwaiting, -⟩, rfl⟩ := hafter
    refine ⟨⟨hcalled, rfl, htended⟩, rfl, fun _ => ?_, ?_⟩
    · simp [asks, Worker.deeds, Worker.decide, hwaiting]
    · simp [Worker.stepsBeforeEnd, Worker.stepsBeforeOrders, Worker.decide, hwaiting]
  | takeOrder =>
    obtain ⟨after, hafter, hnews⟩ := Option.map_eq_some_iff.mp hmove
    obtain ⟨-, rfl⟩ := Prod.mk.inj hnews
    obtain ⟨htakes, sender, order, orders, scan, horders, rfl⟩ := takeOrder?_eq hafter
    have hwaiting := (Worker.scanning_or_waiting htakes).resolve_right (by simp [h.idle])
    have hdeciding : (place.worker.obey order).2.phase = .deciding := by
      cases order <;> exact Worker.interrupt_of_waiting hwaiting
    refine ⟨⟨hcalled, ?_, htended⟩, rfl, fun _ => ?_, ?_⟩
    · simp [Worker.scanning?, hdeciding]
    · simp [asks, Worker.deeds, hdeciding, hwaiting]
    · simp [Worker.stepsBeforeEnd, Worker.stepsBeforeOrders, hdeciding, hwaiting]
  | orphan =>
    obtain ⟨after, hafter, hnews⟩ := Option.map_eq_some_iff.mp hmove
    obtain ⟨-, rfl⟩ := Prod.mk.inj hnews
    obtain ⟨htakes, -, -, scan, rfl⟩ := orphan?_eq hafter
    have hwaiting := (Worker.scanning_or_waiting htakes).resolve_right (by simp [h.idle])
    have hdeciding : place.worker.orphan.phase = .deciding := Worker.interrupt_of_waiting hwaiting
    refine ⟨⟨hcalled, ?_, htended⟩, rfl, fun _ => ?_, ?_⟩
    · simp [Worker.scanning?, hdeciding]
    · simp [asks, Worker.deeds, hdeciding, hwaiting]
    · simp [Worker.stepsBeforeEnd, Worker.stepsBeforeOrders, hdeciding, hwaiting]
  | advanceScan =>
    obtain ⟨after, hafter, -⟩ := Option.map_eq_some_iff.mp hmove
    simp [advanceScan?, h.tended h.idle] at hafter
  | finishScan =>
    obtain ⟨after, hafter, -⟩ := Option.map_eq_some_iff.mp hmove
    obtain ⟨item, began, restarted, run, result, hphase, -, -, -⟩ := finishScan?_eq hafter
    have hidle := h.idle
    simp [Worker.scanning?, hphase] at hidle
  | act =>
    obtain ⟨after, hafter, hnews⟩ := Option.map_eq_some_iff.mp hmove
    obtain ⟨-, rfl⟩ := Prod.mk.inj hnews
    have hasks := fun hreader => act?_asks hreader hafter
    obtain ⟨left, events, hphase, rfl⟩ := act?_eq hafter
    have hacts := Worker.act_acts place.bench.temperature hphase
    exact ⟨⟨hcalled, hacts.scanning?, htended⟩, rfl, hasks,
      Worker.stepsBeforeEnd_act place.bench.temperature hphase⟩

/-- What the accelerator does meanwhile makes no difference. -/
theorem WindingUp.around (h : place.WindingUp) (change : Bench δ → Bench δ) :
    place.Nears 0 (place.around change) := by
  have hscan := h.tended h.idle
  have haround : place.around change = { place with bench := change place.bench } := by
    simp [Workplace.around, hscan]
  rw [haround]
  exact ⟨⟨h.called, h.idle, fun _ => hscan⟩, rfl, fun _ => rfl, le_rfl⟩

/-- Without its owner a worker only gets nearer to its end. -/
theorem WindingUp.record {moves : List (Move δ)} {reached : Workplace δ × List Entry}
    (h : place.WindingUp) (hown : ∀ move ∈ moves, move.isOwn = true)
    (hrecord : place.record moves ledger = some reached) :
    place.Nears (moves.countP Move.isWorkers) reached.1 := by
  induction moves generalizing place ledger with
  | nil =>
    obtain rfl := Option.some.inj hrecord
    exact ⟨h, rfl, fun _ => rfl, le_rfl⟩
  | cons move moves ih =>
    obtain ⟨hfirst, hrest⟩ := List.forall_mem_cons.mp hown
    obtain ⟨⟨news, next⟩, hmove, hgoes⟩ := Option.bind_eq_some_iff.mp hrecord
    cases hworkers : move.isWorkers with
    | true =>
      have hnears := h.nears hworkers hmove
      rw [List.countP_cons_of_pos hworkers, Nat.add_comm]
      exact hnears.trans (ih hnears.windingUp hrest hgoes)
    | false =>
      cases move with
      | around change =>
        obtain ⟨-, rfl⟩ := Prod.mk.inj (Option.some.inj hmove)
        have hnears := h.around change
        rw [List.countP_cons_of_neg (by simp [hworkers]), ← Nat.zero_add (moves.countP _)]
        exact hnears.trans (ih hnears.windingUp hrest hgoes)
      | send | takeEvent | callEnd | abandon | deafen => cases hfirst
      | _ => cases hworkers

/-- A worker can go on until it has stopped, unless it is held up. -/
theorem WindingUp.goes_on (h : place.WindingUp) : place.isStopped = true ∨ place.HeldUp ∨
    ∃ move news next, move.isWorkers = true ∧ place.perform? move = some (news, next) := by
  cases hphase : place.worker.phase with
  | stopped => exact .inl (by simp [isStopped, hphase])
  | scanning =>
    have hidle := h.idle
    simp [Worker.scanning?, hphase] at hidle
  | deciding =>
    have hdecide : ∃ next, place.decide? = some next := by
      simp [decide?, hphase, h.called, Worker.decide]
    obtain ⟨next, hnext⟩ := hdecide
    exact .inr (.inr ⟨.decide, _, next, rfl, by rw [perform?, hnext]; rfl⟩)
  | waiting =>
    have hstops : ∃ next, place.stopWaiting? = some next := by simp [stopWaiting?, hphase, h.called]
    obtain ⟨next, hnext⟩ := hstops
    exact .inr (.inr ⟨.stopWaiting, _, next, rfl, by rw [perform?, hnext]; rfl⟩)
  | acting left =>
    by_cases hable : (place.worker.wantsToEmit && !place.hasRoom) = true
    · obtain ⟨hwants, hroom⟩ := Bool.and_eq_true_iff.mp hable
      simp only [hasRoom, Bool.not_eq_true', Bool.or_eq_false_iff, decide_eq_false_iff_not,
        Nat.not_lt] at hroom
      obtain ⟨hreader, hfull⟩ := hroom
      refine .inr (.inl ⟨hwants, ?_, hfull⟩)
      cases hlistens : place.reader with
      | listening => rfl
      | gone => simp [hlistens] at hreader
    · have hact : ∃ next, place.act? = some next := by simp [act?, hphase, hable]
      obtain ⟨next, hnext⟩ := hact
      exact .inr (.inr ⟨.act, _, next, rfl, by rw [perform?, hnext]; rfl⟩)

theorem HeldUp.not_room (h : place.HeldUp) :
    ¬ (place.reader = .gone ∨ place.asks.length ≤ eventCapacity) := by
  rintro (hgone | hroom)
  · cases h.reader.symm.trans hgone
  · have hwants := h.wants
    unfold Worker.wantsToEmit at hwants
    split at hwants
    · next event left hphase =>
      have hfull := h.full
      simp [asks, Worker.deeds, hphase, Deed.asks?] at hroom
      omega
    · cases hwants

/-- A worker that is held up can do nothing. -/
theorem HeldUp.perform?_eq_none (h : place.HeldUp) (htended : place.Tended) {move : Move δ}
    (hworkers : move.isWorkers = true) : place.perform? move = none := by
  have hwants := h.wants
  unfold Worker.wantsToEmit at hwants
  split at hwants
  · next event left hphase =>
    have hscan : place.scan = none := htended (by simp [Worker.scanning?, hphase])
    have hroom : place.hasRoom = false := by simp [hasRoom, h.reader, h.full]
    cases move with
    | send | takeEvent | callEnd | abandon | deafen | around => cases hworkers
    | decide => simp [perform?, decide?, hphase]
    | stopWaiting => simp [perform?, stopWaiting?, hphase]
    | takeOrder => simp [perform?, takeOrder?, Worker.takesOrders, hphase]
    | orphan => simp [perform?, orphan?, Worker.takesOrders, hphase]
    | advanceScan => simp [perform?, advanceScan?, hscan]
    | finishScan => simp [perform?, finishScan?, hphase]
    | act => simp [perform?, act?, hphase, h.wants, hroom]
  · cases hwants

/-- A worker that has room for the rest of its report stops. -/
theorem WindingUp.stops (h : place.WindingUp)
    (hroom : place.reader = .gone ∨ place.asks.length ≤ eventCapacity) (ledger : List Entry) :
    ∃ moves reached, (∀ move ∈ moves, move.isOwn = true) ∧
      place.record moves ledger = some reached ∧ reached.1.isStopped = true := by
  induction hsteps : place.worker.stepsBeforeEnd using Nat.strong_induction_on generalizing place ledger with
  | _ steps ih =>
    rcases h.goes_on with hstopped | hheld | ⟨move, news, next, hworkers, hmove⟩
    · exact ⟨[], _, List.forall_mem_nil _, rfl, hstopped⟩
    · exact absurd hroom hheld.not_room
    · have hnears := h.nears hworkers hmove
      obtain ⟨moves, reached, hown, hrecord, hstopped⟩ :=
        ih _ (hsteps ▸ hnears.steps) hnears.windingUp (hnears.room hroom)
          (place.entries move news ++ ledger) rfl
      refine ⟨move :: moves, reached, ?_, ?_, hstopped⟩
      · exact List.forall_mem_cons.mpr ⟨Move.isOwn_of_isWorkers hworkers, hown⟩
      · simp [Workplace.record, hmove, hrecord]

/-- **Only unread events hold up the end.** Once the end has been called and no scan is going on, a worker
    has stopped, or is held up, or can go on. Without its owner it makes at most seven more moves, and it
    can stop if and only if nobody listens any more or there is room for all events that wait and that are
    still to come. -/
theorem only_unread_events_hold_up_the_end {bench : Bench δ} {config : ScanConfig}
    (h : (fresh bench config).Records place ledger) (hend : place.shutdown = true)
    (hidle : place.worker.scanning? = none) :
    (place.isStopped = true ∨ place.HeldUp ∨
      ∃ move news next, move.isWorkers = true ∧ place.perform? move = some (news, next)) ∧
    (∀ moves reached, (∀ move ∈ moves, move.isOwn = true) → place.record moves ledger = some reached →
      moves.countP Move.isWorkers ≤ 7) ∧
    ((∃ moves reached, (∀ move ∈ moves, move.isOwn = true) ∧
        place.record moves ledger = some reached ∧ reached.1.isStopped = true) ↔
      place.reader = .gone ∨ place.asks.length ≤ eventCapacity) := by
  have hwinding : place.WindingUp := ⟨hend, hidle, h.tended⟩
  refine ⟨hwinding.goes_on, ?_, ?_, fun hroom => hwinding.stops hroom ledger⟩
  · intro moves reached hown hrecord
    have hsteps := (hwinding.record hown hrecord).steps
    have hbrief := h.bounded.brief.stepsBeforeEnd_le
    omega
  · rintro ⟨moves, ⟨last, whole⟩, hown, hrecord, hstopped⟩
    cases hreader : place.reader with
    | gone => exact .inl rfl
    | listening =>
      refine .inr ?_
      have hphase : last.worker.phase = .stopped := eq_of_beq hstopped
      have hdeeds : last.worker.deeds = [] := by simp [Worker.deeds, hphase]
      rw [← (hwinding.record hown hrecord).asks hreader, asks, hdeeds, List.filterMap_nil,
        List.append_nil, List.length_map]
      exact (h.record hrecord).bounded.events

/-! A device that can never be opened: each item leads to three events. -/

def lockedBench : Bench ScriptedDevice where
  device := ScriptedDevice.device "locked" .mask
  state := { scripts := [{ openFailure := some .wouldBlock }] }

def failedOpening : List (Move ScriptedDevice) :=
  [.send (.replace ⟨Bytes.zero 32, Bytes.zero 12, 0⟩), .decide, .takeOrder, .decide, .advanceScan,
    .finishScan]

/-- So many items are reported on to nobody, and the end is called in the report on another one, after
    its first event. -/
def unreadReports (count : Nat) : List (Move ScriptedDevice) :=
  (List.replicate count (failedOpening ++ List.replicate 4 .act)).flatten ++ failedOpening ++
    [.act, .callEnd]

/-- With room for two more events the worker stops. -/
theorem room_for_last_report :
    ∃ (place : Workplace ScriptedDevice) (ledger : List Entry),
      (fresh lockedBench {}).Records place ledger ∧ place.shutdown = true ∧
      place.worker.scanning? = none ∧ place.worker.deeds ≠ [] ∧ place.events.length = 97 ∧
      ∃ moves reached, (∀ move ∈ moves, move.isOwn = true) ∧
        place.record moves ledger = some reached ∧ reached.1.isStopped = true := by
  have hrun : ((fresh lockedBench {}).record (unreadReports 32) []).any (fun reached =>
      reached.1.shutdown && reached.1.worker.scanning?.isNone && !reached.1.worker.deeds.isEmpty &&
        reached.1.events.length == 97 && decide (reached.1.asks.length ≤ eventCapacity)) = true := by
    decide +kernel
  obtain ⟨⟨place, ledger⟩, hrecord, hseen⟩ := (Option.any_eq_true _ _).mp hrun
  simp only [Bool.and_eq_true, Option.isNone_iff_eq_none, Bool.not_eq_true', List.isEmpty_eq_false_iff,
    beq_iff_eq, decide_eq_true_eq] at hseen
  obtain ⟨⟨⟨⟨hend, hidle⟩, hdeeds⟩, hevents⟩, hroom⟩ := hseen
  have hrecords := Records.start.record hrecord
  obtain ⟨-, -, hstops⟩ := only_unread_events_hold_up_the_end hrecords hend hidle
  exact ⟨place, ledger, hrecords, hend, hidle, hdeeds, hevents, hstops.mpr (.inr hroom)⟩

/-- Without room for the second of three events it does not, and only its owner can change that. -/
theorem full_channel_holds_up_the_end :
    ¬ ∀ (place : Workplace ScriptedDevice) (ledger : List Entry),
      (fresh lockedBench {}).Records place ledger → place.shutdown = true →
      place.worker.scanning? = none → place.isStopped = true ∨
        ∃ move news next, move.isWorkers = true ∧ place.perform? move = some (news, next) := by
  intro h
  have hrun : ((fresh lockedBench {}).record (unreadReports 33) []).any (fun reached =>
      reached.1.shutdown && reached.1.worker.scanning?.isNone && !reached.1.isStopped &&
        reached.1.worker.wantsToEmit && decide (reached.1.reader = .listening) &&
        decide (eventCapacity ≤ reached.1.events.length)) = true := by
    decide +kernel
  obtain ⟨⟨place, ledger⟩, hrecord, hseen⟩ := (Option.any_eq_true _ _).mp hrun
  simp only [Bool.and_eq_true, Option.isNone_iff_eq_none, Bool.not_eq_true', decide_eq_true_eq] at hseen
  obtain ⟨⟨⟨⟨⟨hend, hidle⟩, hgoing⟩, hwants⟩, hreader⟩, hfull⟩ := hseen
  have hrecords := Records.start.record hrecord
  have hheld : place.HeldUp := ⟨hwants, hreader, hfull⟩
  rcases h place ledger hrecords hend hidle with hstopped | ⟨move, news, next, hworkers, hmove⟩
  · exact absurd (hgoing.symm.trans hstopped) nofun
  · exact absurd (hheld.perform?_eq_none hrecords.tended hworkers) (by simp [hmove])

end Workplace

end NonceSearch
