import NonceSearch.Proofs.SuppliedWork

/-!
# Shifts

In a shift a dispatcher and its worker take turns: the worker goes on until everything waits, then the
dispatcher does one thing, and time passes only when neither can do anything. An order is at most four
steps from being taken, so an assignment is always answered before the dispatcher looks. A shift is thus
one of the ways in which the two can run side by side, and goes only through states that are reached so
(`Feeding.Reached.goUntil`).
-/

namespace NonceSearch

/-! ### How soon an order is taken -/

def Deed.steps : Deed → Nat
  | .sumUp _ _ => 2
  | .emit _ | .forget _ => 1

namespace Worker

/-- How many steps a worker without work makes before it waits for orders. -/
def stepsBeforeOrders (worker : Worker) : Nat :=
  match worker.phase with
  | .acting deeds => (deeds.map Deed.steps).sum + 2
  | .deciding => 1
  | .waiting | .scanning .. | .stopped => 0

theorem stepsBeforeOrders_act {worker : Worker} {left : List Deed}
    (temperature : Option Decimal.Binary64) (hphase : worker.phase = .acting left) :
    (worker.act temperature).2.stepsBeforeOrders < worker.stepsBeforeOrders := by
  cases left with
  | nil => simp [act, stepsBeforeOrders, hphase]
  | cons deed rest => cases deed <;> simp [act, stepsBeforeOrders, Deed.steps, hphase]

end Worker

/-- Where no completion is to be told, there is nothing to forget either. -/
theorem Deed.Tidy.steps_le {deeds : List Deed} (h : Tidy deeds)
    (hcalm : true ∉ deeds.filterMap Deed.asks?) :
    (deeds.map Deed.steps).sum ≤ 2 * (deeds.filterMap Deed.asks?).length := by
  induction deeds with
  | nil => exact Nat.zero_le _
  | cons deed rest ih =>
    cases deed with
    | forget item => exact absurd (h.asks List.mem_cons_self) hcalm
    | emit event =>
      have hrest := ih h fun htrue => hcalm (List.mem_cons_of_mem _ htrue)
      simp only [List.map_cons, List.sum_cons, Deed.steps, List.filterMap_cons, Deed.asks?,
        List.length_cons]
      omega
    | sumUp hashes elapsed =>
      have hrest := ih h fun htrue => hcalm (List.mem_cons_of_mem _ htrue)
      simp only [List.map_cons, List.sum_cons, Deed.steps, List.filterMap_cons, Deed.asks?,
        List.length_cons]
      omega

namespace Workplace

variable {δ : Type} {place next : Workplace δ}

/-- A scan is there only while its worker waits for it. -/
def Tended (place : Workplace δ) : Prop := place.worker.scanning? = none → place.scan = none

theorem breakOff_scan_eq_none : place.breakOff.scan = none ↔ place.scan = none := by
  unfold breakOff
  split
  · split
    · exact Option.map_eq_none_iff
    · exact Iff.rfl
  · exact Iff.rfl

theorem Tended.breakOff (h : place.Tended) : place.breakOff.Tended := by
  intro hidle
  rw [breakOff_worker] at hidle
  exact breakOff_scan_eq_none.mpr (h hidle)

/-- The scan begins with the worker's decision to scan, and is gone when the worker hears of its end. -/
theorem Tended.perform {move : Move δ} {news : List Happening} (h : place.Tended)
    (hmove : place.perform? move = some (news, next)) : next.Tended := by
  cases move with
  | send order =>
    simp only [perform?] at hmove
    split at hmove
    · cases hmove
    · obtain ⟨-, rfl⟩ := Prod.mk.inj (Option.some.inj hmove)
      exact h
  | decide =>
    obtain ⟨after, hafter, hnews⟩ := Option.map_eq_some_iff.mp hmove
    obtain ⟨-, rfl⟩ := Prod.mk.inj hnews
    unfold decide? at hafter
    split at hafter
    · next hdeciding =>
      have hnone := h (by simp [Worker.scanning?, hdeciding])
      dsimp only at hafter
      split at hafter
      · next item began restarted hphase =>
        obtain rfl := Option.some.inj hafter
        intro hidle
        simp [Worker.scanning?, hphase] at hidle
      · obtain rfl := Option.some.inj hafter
        exact fun _ => hnone
    · cases hafter
  | stopWaiting =>
    obtain ⟨after, hafter, hnews⟩ := Option.map_eq_some_iff.mp hmove
    obtain ⟨-, rfl⟩ := Prod.mk.inj hnews
    simp only [stopWaiting?, Option.ite_none_right_eq_some, Option.some.injEq] at hafter
    obtain ⟨⟨hwaiting, -⟩, rfl⟩ := hafter
    exact fun _ => h (by simp [Worker.scanning?, hwaiting])
  | takeOrder =>
    obtain ⟨after, hafter, hnews⟩ := Option.map_eq_some_iff.mp hmove
    obtain ⟨-, rfl⟩ := Prod.mk.inj hnews
    unfold takeOrder? at hafter
    split at hafter
    · split at hafter
      · cases hafter
      · next sender order orders _ =>
        obtain rfl := Option.some.inj hafter
        apply Tended.breakOff
        intro hidle
        exact h ((Worker.obey_scanning? order place.worker).symm.trans hidle)
    · cases hafter
  | orphan =>
    obtain ⟨after, hafter, hnews⟩ := Option.map_eq_some_iff.mp hmove
    obtain ⟨-, rfl⟩ := Prod.mk.inj hnews
    simp only [orphan?, Option.ite_none_right_eq_some, Option.some.injEq] at hafter
    obtain ⟨-, rfl⟩ := hafter
    have hsame : place.worker.orphan.scanning? = place.worker.scanning? :=
      Worker.interrupt_scanning? _
    apply Tended.breakOff
    intro hidle
    exact h (hsame.symm.trans hidle)
  | advanceScan =>
    obtain ⟨after, hafter, hnews⟩ := Option.map_eq_some_iff.mp hmove
    obtain ⟨-, rfl⟩ := Prod.mk.inj hnews
    unfold advanceScan? at hafter
    split at hafter
    · next run hrun =>
      obtain rfl := Option.some.inj hafter
      intro hidle
      simp [h hidle] at hrun
    · cases hafter
  | finishScan =>
    obtain ⟨after, hafter, hnews⟩ := Option.map_eq_some_iff.mp hmove
    obtain ⟨-, rfl⟩ := Prod.mk.inj hnews
    obtain ⟨item, began, restarted, run, result, -, -, -, rfl⟩ := finishScan?_eq hafter
    exact fun _ => rfl
  | act =>
    obtain ⟨after, hafter, hnews⟩ := Option.map_eq_some_iff.mp hmove
    obtain ⟨-, rfl⟩ := Prod.mk.inj hnews
    obtain ⟨deeds, events, hphase, rfl⟩ := act?_eq hafter
    exact fun _ => h (by simp [Worker.scanning?, hphase])
  | callEnd =>
    obtain ⟨-, rfl⟩ := Prod.mk.inj (Option.some.inj hmove)
    apply Tended.breakOff
    exact h
  | takeEvent | abandon | deafen =>
    obtain ⟨-, rfl⟩ := Prod.mk.inj (Option.some.inj hmove)
    exact h
  | around change =>
    obtain ⟨-, rfl⟩ := Prod.mk.inj (Option.some.inj hmove)
    unfold Workplace.around
    split
    · next run hrun =>
      intro hidle
      cases hrun.symm.trans (h hidle)
    · exact h

theorem Records.tended {bench : Bench δ} {config : ScanConfig} {ledger : List Entry}
    (h : (fresh bench config).Records place ledger) : place.Tended := by
  induction h with
  | start => exact fun _ => rfl
  | move move _ hmove ih => exact ih.perform hmove

/-- An order that has not been answered waits for a worker without work. -/
theorem Stage.sent_of_unanswered {sender : Nat} (h : place.Stage (.awaiting sender))
    (hwaits : place.answers.lookup sender ≠ some none) :
    (∃ work, place.orders = [(sender, .replace work)]) ∧ place.worker.current = none ∧
      place.worker.scanning? = none ∧ Calm place.asks := by
  cases h with
  | sent hsent _ hcurrent hidle hcalm => exact ⟨⟨_, hsent⟩, hcurrent, hidle, hcalm⟩
  | working hheard => exact absurd hheard.lookup hwaits
  | finished hheard => exact absurd hheard.lookup hwaits

/-- A worker that is sent an order gets nearer to it with each step, until it takes it. -/
theorem Fed.step?_of_sent {sender : Nat} (h : place.Fed (.awaiting sender)) (htended : place.Tended)
    (hwaits : place.answers.lookup sender ≠ some none) :
    ∃ next, place.step? = some next ∧ (next.answers.lookup sender = some none ∨
      next.worker.stepsBeforeOrders < place.worker.stepsBeforeOrders) := by
  have hshutdown := h.steady.shutdown
  obtain ⟨⟨work, hsent⟩, hcurrent, hidle, -⟩ := h.stage.sent_of_unanswered hwaits
  cases hphase : place.worker.phase with
  | deciding =>
    have hidles := Worker.decide_of_none hcurrent h.steady.ordersOpen place.now
    have hstep : place.step? = some { place with
        worker := { place.worker with phase := .waiting } } := by
      simp [step?, decide?, hphase, hshutdown, hidles]
    exact ⟨_, hstep, .inr (by simp [Worker.stepsBeforeOrders, hphase])⟩
  | waiting =>
    have hwaits : place.decide? = none ∧ place.stopWaiting? = none := by
      simp [decide?, stopWaiting?, hphase, hshutdown]
    obtain ⟨next, htakes⟩ : ∃ next, place.takeOrder? = some next := by
      simp [takeOrder?, Worker.takesOrders, hphase, hsent]
    refine ⟨next, by simp [step?, hwaits, htakes], .inl ?_⟩
    obtain ⟨-, sender', order, orders, scan, horders, rfl⟩ := takeOrder?_eq htakes
    obtain ⟨hfirst, -⟩ := List.cons.inj (horders.symm.trans hsent)
    obtain ⟨rfl, -⟩ := Prod.mk.inj hfirst
    simp [hcurrent]
  | scanning => simp [Worker.scanning?, hphase] at hidle
  | stopped => exact absurd hphase h.steady.going
  | acting deeds =>
    obtain ⟨next, hact⟩ := h.can_act hphase
    have hnothing : place.decide? = none ∧ place.stopWaiting? = none ∧ place.takeOrder? = none ∧
        place.orphan? = none ∧ place.finishScan? = none ∧ place.advanceScan? = none := by
      simp [decide?, stopWaiting?, takeOrder?, orphan?, finishScan?, advanceScan?,
        Worker.takesOrders, hphase, htended hidle]
    refine ⟨next, by simp [step?, hnothing, hact], .inr ?_⟩
    obtain ⟨left, events, hleft, rfl⟩ := act?_eq hact
    exact Worker.stepsBeforeOrders_act place.bench.temperature hleft

/-- An order that waits is at most four steps from being taken. -/
theorem Fed.stepsBeforeOrders_le {sender : Nat} (h : place.Fed (.awaiting sender))
    (hwaits : place.answers.lookup sender ≠ some none) : place.worker.stepsBeforeOrders ≤ 4 := by
  obtain ⟨-, -, -, hcalm⟩ := h.stage.sent_of_unanswered hwaits
  cases hphase : place.worker.phase with
  | acting deeds =>
    have hdeeds : place.worker.deeds = deeds := by simp [Worker.deeds, hphase]
    have htidy := h.steady.tidy
    obtain ⟨count, hcount, hasks⟩ := hcalm
    rw [hdeeds] at htidy
    rw [asks, hdeeds] at hasks
    have htrue : true ∉ deeds.filterMap Deed.asks? := by
      intro htrue
      have hmem := List.mem_append_right (place.events.map Dispatcher.asksForWork) htrue
      rw [hasks] at hmem
      simp at hmem
    have hlength := congrArg List.length hasks
    rw [List.length_append, List.length_replicate] at hlength
    have hsteps := htidy.steps_le htrue
    simp only [Worker.stepsBeforeOrders, hphase]
    omega
  | _ => simp [Worker.stepsBeforeOrders, hphase]

/-- Nothing that the worker does takes an answer back. -/
theorem Fed.still_answered {sender : Nat} {move : Move δ} {news : List Happening}
    (h : place.Fed (.awaiting sender)) (hanswered : place.answers.lookup sender = some none)
    (hown : move.isOwn = true) (hmove : place.perform? move = some (news, next)) :
    next.answers.lookup sender = some none := by
  have hempty : place.orders = [] := by
    cases h.stage with
    | sent _ hlookup => exact absurd (hanswered.symm.trans hlookup) nofun
    | working _ hempty => exact hempty
    | finished _ hempty => exact hempty
  have hunsent : Ledger.sent (place.entries move news) = [] := sent_entries hown
  obtain ⟨hposts, -, -⟩ := perform?_keeps hmove
  generalize place.entries move news = entries at hposts hunsent
  cases hposts with
  | quiet _ _ hanswers =>
    rw [hanswers]
    exact hanswered
  | sends => cases hunsent
  | obeys _ _ horders => exact absurd (hempty.symm.trans horders) nofun

theorem passTo_eq_around (later : Nat) (place : Workplace δ) :
    place.passTo later = place.around (Bench.passTo · later) := by
  cases hscan : place.scan with
  | none => simp only [passTo, around, hscan]
  | some run =>
    simp only [passTo, around, hscan]
    rfl

/-- Whoever gives a command sends an order, lets the worker go on, and finds the answer. -/
theorem command_eq_ok {place : Workplace δ} (order : WorkerOrder) (hgoing : place.isStopped = false)
    (howned : place.owned = true) :
    ∃ next, place.perform? (.send order) = some ([], next) ∧
      ∀ displaced, next.run.answers.lookup place.sent = some displaced →
        place.command order = (.ok displaced, next.run) := by
  refine ⟨{ place with orders := place.orders ++ [(place.sent, order)], sent := place.sent + 1 }, ?_, ?_⟩
  · simp [perform?, hgoing, howned]
  · intro displaced hlookup
    simp [command, hgoing, hlookup]

end Workplace

/-! ### Taking turns -/

/-- A shift is in the middle of nothing but its first order. -/
def Shift.feeding {δ : Type} (shift : Shift δ) : Feeding δ :=
  ⟨shift.place, shift.dispatcher, if shift.dispatcher.phase = .starting then .ordering else .free⟩

namespace Feeding

section Shifts

variable {δ : Type} {bench : Bench δ} {config : ScanConfig} {name : String} {source : DemoSource}
  {start feeding : Feeding δ} {shift next : Shift δ} {ledger : List Entry}

/-- The step of a worker that comes first is one of the moves. -/
theorem perform?_of_step? {place : Workplace δ} (hstep : feeding.place.step? = some place) :
    ∃ move news, move.isOwn = true ∧ feeding.place.perform? move = some (news, place) ∧
      feeding.perform? (.worker move) =
        some (feeding.place.entries move news, { feeding with place := place }) := by
  obtain ⟨move, news, hown, hmove⟩ := Workplace.perform?_of_step? hstep
  exact ⟨move, news, hown, hmove, by simp [perform?, hown, hmove]⟩

/-- A worker that goes on until everything waits makes moves of its own. -/
theorem Reached.runFor (h : start.Reached feeding ledger) (fuel : Nat) :
    ∃ ledger, start.Reached { feeding with place := feeding.place.runFor fuel } ledger := by
  induction fuel generalizing feeding ledger with
  | zero => exact ⟨ledger, h⟩
  | succ fuel ih =>
    cases hstep : feeding.place.step? with
    | none => exact ⟨ledger, by simpa [Workplace.runFor, hstep] using h⟩
    | some place =>
      obtain ⟨move, news, -, -, hnext⟩ := perform?_of_step? hstep
      simpa only [Workplace.runFor, hstep] using ih (h.move _ hnext)

/-- The order that was sent last is answered when the worker has gone on for a while. -/
theorem Reached.answered (h : (opening bench config name source).Reached feeding ledger) {sender : Nat}
    (herrand : feeding.errand = .awaiting sender) {fuel : Nat}
    (hfuel : feeding.place.answers.lookup sender = some none ∨
      feeding.place.worker.stepsBeforeOrders < fuel) :
    (feeding.place.runFor fuel).answers.lookup sender = some none := by
  induction fuel generalizing feeding ledger with
  | zero => exact hfuel.resolve_right (Nat.not_lt_zero _)
  | succ fuel ih =>
    obtain ⟨hrecords, hfed, -⟩ := h.sound
    rw [herrand] at hfed
    have hstays : feeding.place.answers.lookup sender = some none → ∀ next,
        feeding.place.step? = some next → next.answers.lookup sender = some none := by
      intro hanswered next hstep
      obtain ⟨move, news, hown, hmove, -⟩ := perform?_of_step? hstep
      exact hfed.still_answered hanswered hown hmove
    cases hstep : feeding.place.step? with
    | none =>
      simp only [Workplace.runFor, hstep]
      by_contra hwaits
      obtain ⟨next, hnext, -⟩ := hfed.step?_of_sent hrecords.tended hwaits
      cases hstep.symm.trans hnext
    | some next =>
      have hnearer : next.answers.lookup sender = some none ∨
          next.worker.stepsBeforeOrders < fuel := by
        by_cases hanswered : feeding.place.answers.lookup sender = some none
        · exact .inl (hstays hanswered next hstep)
        · obtain ⟨next', hnext, hnearer⟩ := hfed.step?_of_sent hrecords.tended hanswered
          obtain rfl := Option.some.inj (hstep.symm.trans hnext)
          have hbefore := hfuel.resolve_left hanswered
          exact hnearer.imp_right fun hfewer => by omega
      obtain ⟨move, news, -, -, hworks⟩ := perform?_of_step? hstep
      simpa only [Workplace.runFor, hstep] using ih (h.move _ hworks) herrand hnearer

/-- An assignment is an order, what the worker makes of it, and its answer. -/
theorem Reached.assign
    (h : (opening bench config name source).Reached ⟨shift.place, shift.dispatcher, .ordering⟩ ledger) :
    ∃ ledger, (opening bench config name source).Reached shift.assign.feeding ledger := by
  obtain ⟨-, hfed, -⟩ := h.sound
  have hgoing : shift.place.isStopped = false := by
    simpa [Workplace.isStopped] using hfed.steady.going
  obtain ⟨place, hsend, hcommand⟩ :=
    Workplace.command_eq_ok (.replace shift.dispatcher.source.item) hgoing hfed.steady.owned
  have horder : perform? ⟨shift.place, shift.dispatcher, .ordering⟩ .order =
      some ([.sent shift.place.sent (.replace shift.dispatcher.source.item)],
        ⟨place, { shift.dispatcher with source := shift.dispatcher.source.advance },
          .awaiting shift.place.sent⟩) := by
    simp [perform?, order?, DemoSource.next, hsend, Workplace.entries]
  have hsent := h.move .order horder
  have hsteps : place.answers.lookup shift.place.sent = some none ∨
      place.worker.stepsBeforeOrders < ScanRun.patience := by
    by_cases hanswered : place.answers.lookup shift.place.sent = some none
    · exact .inl hanswered
    · obtain ⟨-, hfed, -⟩ := hsent.sound
      exact .inr ((hfed.stepsBeforeOrders_le hanswered).trans_lt (by decide))
  have hlookup : place.run.answers.lookup shift.place.sent = some none := hsent.answered rfl hsteps
  obtain ⟨ledger', hran⟩ := hsent.runFor ScanRun.patience
  have hlearn : perform? ⟨place.run, { shift.dispatcher with source := shift.dispatcher.source.advance },
      .awaiting shift.place.sent⟩ .learn =
      some ([], ⟨place.run, Dispatcher.assigned (.ok none)
        { shift.dispatcher with source := shift.dispatcher.source.advance }, .free⟩) := by
    simp [perform?, learn?, hlookup]
  simp only [Shift.assign, DemoSource.next, hcommand none hlookup]
  exact ⟨_, hran.move .learn hlearn⟩

/-- Whatever the dispatcher of a shift does next is made of moves. -/
theorem Reached.dispatch? (h : (opening bench config name source).Reached shift.feeding ledger)
    (hstep : shift.dispatch? = some next) :
    ∃ ledger, (opening bench config name source).Reached next.feeding ledger := by
  cases hphase : shift.dispatcher.phase with
  | starting =>
    have hfeeding : shift.feeding = ⟨shift.place, shift.dispatcher, .ordering⟩ := by
      simp [Shift.feeding, hphase]
    simp only [Shift.dispatch?, hphase, Option.some.injEq] at hstep
    subst hstep
    exact (hfeeding ▸ h).assign
  | resting wakes =>
    simp only [Shift.dispatch?, hphase, Option.ite_none_right_eq_some, Option.some.injEq] at hstep
    obtain ⟨hwakes, rfl⟩ := hstep
    have hwake : shift.feeding.perform? .wake = some ([], Shift.feeding { shift with
        dispatcher := { shift.dispatcher with phase := .listening } }) := by
      simp [perform?, wake?, Shift.feeding, hphase, hwakes]
    exact ⟨_, h.move .wake hwake⟩
  | listening =>
    simp only [Shift.dispatch?, hphase, Shift.hear?] at hstep
    cases hevents : shift.place.events with
    | nil => simp [hevents] at hstep
    | cons event events =>
      simp only [hevents, Option.some.injEq] at hstep
      have hhear : shift.feeding.perform? .hear = some ([], ⟨{ shift.place with events := events },
          shift.dispatcher.heard shift.place.now event,
          if Dispatcher.asksForWork event then .ordering else .free⟩) := by
        simp [perform?, hear?, Shift.feeding, hphase, hevents]
      have hheard := h.move .hear hhear
      split at hstep
      · next hask =>
        subst hstep
        rw [if_pos hask] at hheard
        exact Reached.assign hheard
      · next hask =>
        subst hstep
        rw [if_neg hask] at hheard
        have hlistens : (shift.dispatcher.heard shift.place.now event).phase ≠ .starting := by
          rcases Dispatcher.heard_phase shift.place.now event shift.dispatcher with hsame | hrests
          · simp [hsame, hphase]
          · simp [hrests]
        exact ⟨[] ++ ledger, by simpa [Shift.feeding, hlistens] using hheard⟩
  | gone => simp [Shift.dispatch?, hphase] at hstep

/-- A shift goes only through states that a dispatcher and its worker can reach in any case. -/
theorem Reached.goUntil (h : (opening bench config name source).Reached shift.feeding ledger)
    (stop : Shift δ → Bool) (fuel : Nat) :
    ∃ ledger, (opening bench config name source).Reached (shift.goUntil stop fuel).feeding ledger := by
  induction fuel generalizing shift ledger with
  | zero => exact ⟨ledger, h⟩
  | succ fuel ih =>
    simp only [Shift.goUntil]
    split
    · exact ⟨ledger, h⟩
    obtain ⟨ledger', hran⟩ := h.runFor ScanRun.patience
    change (opening bench config name source).Reached
      (Shift.feeding { shift with place := shift.place.run }) ledger' at hran
    split
    · next next hstep =>
      obtain ⟨ledger'', hnext⟩ := hran.dispatch? hstep
      exact ih hnext
    · split
      · next moment _ =>
        have hpass : (Shift.feeding { shift with place := shift.place.run }).perform?
            (.worker (.around (Bench.passTo · moment))) = some ([], Shift.feeding
              { shift with place := shift.place.run.passTo moment }) := by
          rw [Workplace.passTo_eq_around]
          rfl
        exact ih (hran.move _ hpass)
      · exact ⟨ledger', hran⟩

/-- However long a shift goes on, its dispatcher stays and at most four events wait. -/
theorem goUntil_keeps_dispatcher (bench : Bench δ) (config : ScanConfig) (name : String)
    (source : DemoSource) (stop : Shift δ → Bool) (fuel : Nat) :
    let shift := Shift.goUntil stop fuel
      ⟨.fresh bench config, { worker := name, source := source }⟩
    shift.dispatcher.phase ≠ .gone ∧ shift.place.events.length ≤ 4 := by
  have hstart : (opening bench config name source).Reached
      (Shift.feeding ⟨.fresh bench config, { worker := name, source := source }⟩) [] := .start
  obtain ⟨ledger, hreached⟩ := hstart.goUntil stop fuel
  obtain ⟨-, hfed, hpresent⟩ := hreached.sound
  exact ⟨hpresent, hfed.stage.events_length_le⟩

end Shifts

end Feeding

end NonceSearch
