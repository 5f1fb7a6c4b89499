import NonceSearch.Proofs.ScanSteps
import NonceSearch.Proofs.WorkerSteps

/-!
# A worker's ledger

What is seen of a worker does not tell which orders were carried out, so a ledger is kept beside it:
everything that is seen, and every order when it is sent and when it is obeyed, with what it displaced.
The latest entry comes first, and every history has a ledger (`Workplace.Reaches.records`).

One thing that a ledger cannot show is why a scan was broken off. A scan ends as restarted only after its
token has fired, and the token fires only by an order or at the end (`Workplace.Heeds`). With that,
whatever happens to a worker is one of a few turns (`Workplace.Heeds.turn`), and the accounts of a worker
need not look at its moves again.
-/

namespace NonceSearch

/-! ### What a step changes -/

theorem Worker.obey_displaced (order : WorkerOrder) (worker : Worker) :
    (worker.obey order).1 = worker.current := by
  cases order <;> rfl

namespace Workplace

variable {δ : Type} {place next : Workplace δ}

theorem breakOff_eq (place : Workplace δ) : ∃ scan, place.breakOff = { place with scan := scan } := by
  unfold breakOff
  split
  · split
    · exact ⟨_, rfl⟩
    · exact ⟨place.scan, rfl⟩
  · exact ⟨place.scan, rfl⟩

theorem decide?_eq (hmove : place.decide? = some next) :
    place.worker.phase = .deciding ∧
      ∃ scan, next = { place with worker := place.worker.decide place.shutdown place.now, scan := scan } := by
  simp only [decide?, Option.ite_none_right_eq_some] at hmove
  obtain ⟨hphase, hmove⟩ := hmove
  refine ⟨hphase, ?_⟩
  split at hmove
  · obtain rfl := Option.some.inj hmove
    exact ⟨_, rfl⟩
  · obtain rfl := Option.some.inj hmove
    exact ⟨place.scan, rfl⟩

theorem takeOrder?_eq (hmove : place.takeOrder? = some next) :
    place.worker.takesOrders = true ∧ ∃ sender order orders scan,
      place.orders = (sender, order) :: orders ∧
      next = { place with
        worker := (place.worker.obey order).2
        orders := orders
        answers := (sender, place.worker.current) :: place.answers
        scan := scan } := by
  simp only [takeOrder?, Option.ite_none_right_eq_some] at hmove
  obtain ⟨htakes, hmove⟩ := hmove
  refine ⟨htakes, ?_⟩
  split at hmove
  · cases hmove
  · next sender order orders horders =>
    rw [Worker.obey_displaced] at hmove
    obtain ⟨scan, hscan⟩ := breakOff_eq { place with
      worker := (place.worker.obey order).2
      orders := orders
      answers := (sender, place.worker.current) :: place.answers }
    exact ⟨sender, order, orders, scan, horders, (Option.some.inj hmove).symm.trans hscan⟩

theorem orphan?_eq (hmove : place.orphan? = some next) :
    place.worker.takesOrders = true ∧ place.orders = [] ∧ place.owned = false ∧
      ∃ scan, next = { place with worker := place.worker.orphan, scan := scan } := by
  simp only [orphan?, Option.ite_none_right_eq_some] at hmove
  obtain ⟨⟨htakes, horders, howned⟩, hmove⟩ := hmove
  obtain ⟨scan, hscan⟩ := breakOff_eq { place with worker := place.worker.orphan }
  exact ⟨htakes, List.isEmpty_iff.mp horders, by simpa using howned, scan,
    (Option.some.inj hmove).symm.trans hscan⟩

theorem finishScan?_eq (hmove : place.finishScan? = some next) :
    ∃ item began restarted run result, place.worker.phase = .scanning item began restarted ∧
      place.scan = some run ∧ run.scan.phase = .ended result ∧
      next = { place with
        worker := place.worker.scanned item result (Duration.ofMillis (run.bench.now - began))
        bench := run.bench
        scan := none } := by
  unfold finishScan? at hmove
  split at hmove
  · next item began restarted run hphase hrun =>
    split at hmove
    · next result hresult =>
      refine ⟨item, began, restarted, run, result, hphase, hrun, ?_, (Option.some.inj hmove).symm⟩
      unfold Scan.result? at hresult
      split at hresult
      · next hended => rw [hended, Option.some.inj hresult]
      · cases hresult
    · cases hmove
  · cases hmove

theorem act?_eq (hmove : place.act? = some next) :
    ∃ deeds events, place.worker.phase = .acting deeds ∧
      next = { place with
        worker := (place.worker.act place.bench.temperature).2, events := events } := by
  unfold act? at hmove
  split at hmove
  · next deeds hphase =>
    split at hmove
    · cases hmove
    · refine ⟨deeds, next.events, hphase, ?_⟩
      obtain rfl := Option.some.inj hmove
      split
      · unfold deliver
        split <;> rfl
      · rfl
  · cases hmove

theorem act?_events (hreader : place.reader = .listening) (hmove : place.act? = some next) :
    next.events = place.events ++ (place.worker.act place.bench.temperature).1.toList := by
  unfold act? at hmove
  split at hmove
  · split at hmove
    · cases hmove
    · generalize place.worker.act place.bench.temperature = acted at hmove ⊢
      obtain ⟨event, worker⟩ := acted
      obtain rfl := Option.some.inj hmove
      cases event with
      | none => exact (List.append_nil _).symm
      | some event => simp [deliver, hreader]
  · cases hmove

theorem emission_eq (place : Workplace δ) :
    place.emission = (place.worker.act place.bench.temperature).1.toList.map .emitted := by
  unfold emission
  split
  · next event hevent => simp [hevent]
  · next hnone => simp [hnone]

end Workplace

/-! ### Entries -/

inductive Entry where
  | seen (happening : Happening)
  | sent (sender : Nat) (order : WorkerOrder)
  | obeyed (sender : Nat) (order : WorkerOrder) (displaced : Option Assignment)

/-- What is seen of an order when it is obeyed, after so many items. -/
def WorkerOrder.acceptance (accepted : Nat) : WorkerOrder → List Happening
  | .replace work => [.accepted ⟨accepted, work⟩]
  | .goIdle => []

namespace Workplace

variable {δ : Type}

def entries (place : Workplace δ) (move : Move δ) (news : List Happening) : List Entry :=
  match move with
  | .send order => [.sent place.sent order]
  | .takeOrder =>
    match place.orders with
    | (sender, order) :: _ =>
      .obeyed sender order (place.worker.obey order).1 :: news.map .seen
    | [] => []
  | _ => news.map .seen

/-- A workplace can be reached from another one, with a ledger of what happened on the way. -/
inductive Records (start : Workplace δ) : Workplace δ → List Entry → Prop where
  | start : Records start start []
  | move {place next : Workplace δ} {ledger : List Entry} {news : List Happening} (move : Move δ) :
    Records start place ledger → place.perform? move = some (news, next) →
    Records start next (place.entries move news ++ ledger)

variable {start place next : Workplace δ} {past news : List Happening} {ledger : List Entry}

theorem Records.trans {last : Workplace δ} {more : List Entry} (h : start.Records place ledger)
    (hmore : place.Records last more) : start.Records last (more ++ ledger) := by
  induction hmore with
  | start => exact h
  | move move _ hmove ih =>
    rw [List.append_assoc]
    exact .move move ih hmove

def record : List (Move δ) → Workplace δ → List Entry → Option (Workplace δ × List Entry)
  | [], place, ledger => some (place, ledger)
  | move :: moves, place, ledger =>
    (place.perform? move).bind fun made => record moves made.2 (place.entries move made.1 ++ ledger)

theorem Records.record {moves : List (Move δ)} {last : Workplace δ × List Entry}
    (h : start.Records place ledger) (hrecord : place.record moves ledger = some last) :
    start.Records last.1 last.2 := by
  induction moves generalizing place ledger with
  | nil =>
    obtain rfl := Option.some.inj hrecord
    exact h
  | cons move moves ih =>
    obtain ⟨⟨news, next⟩, hmove, hrest⟩ := Option.bind_eq_some_iff.mp hrecord
    exact ih (.move move h hmove) hrest

theorem Reaches.records (h : start.Reaches place past) : ∃ ledger, start.Records place ledger := by
  induction h with
  | start => exact ⟨[], .start⟩
  | move move _ hmove ih =>
    obtain ⟨ledger, hledger⟩ := ih
    exact ⟨_, .move move hledger hmove⟩

/-- A ledger has all that is seen. -/
theorem seen_mem_entries {move : Move δ} {seen : Happening}
    (hmove : place.perform? move = some (news, next)) (hseen : seen ∈ news) :
    .seen seen ∈ place.entries move news := by
  have hmem : .seen seen ∈ news.map Entry.seen := List.mem_map_of_mem hseen
  cases move with
  | send order =>
    simp only [perform?] at hmove
    split at hmove
    · cases hmove
    · obtain ⟨rfl, -⟩ := Prod.mk.inj (Option.some.inj hmove)
      cases hseen
  | takeOrder =>
    obtain ⟨after, hafter, -⟩ := Option.map_eq_some_iff.mp hmove
    obtain ⟨-, sender, order, orders, scan, horders, -⟩ := takeOrder?_eq hafter
    simp only [entries, horders]
    exact List.mem_cons_of_mem _ hmem
  | _ => exact hmem

end Workplace

/-! ### What a worker is told, its scan is told -/

/-- A scan of which it is known why it is broken off. -/
structure ScanRun.Heeds {δ : Type} (told : Prop) (run : ScanRun δ) : Prop where
  inTurn : run.scan.InTurn
  token : run.fires ≠ none → told
  restarted : run.scan.phase.outcome? = some .restarted → run.fires ≠ none

namespace ScanRun

variable {δ : Type} {told : Prop} {run next : ScanRun δ}

theorem Heeds.mono {more : Prop} (h : run.Heeds told) (himp : told → more) : run.Heeds more :=
  ⟨h.inTurn, fun hfires => himp (h.token hfires), h.restarted⟩

theorem Heeds.launch (bench : Bench δ) (config : ScanConfig) (work : WorkItem) :
    (ScanRun.launch bench config work none).Heeds told :=
  ⟨rfl, fun h => absurd rfl h, nofun⟩

theorem Heeds.restart (h : run.Heeds told) (htold : told) : run.restart.Heeds told :=
  ⟨h.inTurn, fun _ => htold, fun _ => nofun⟩

theorem Heeds.step (h : run.Heeds told) (hstep : run.step? = some next) : next.Heeds told := by
  obtain ⟨hturn, -, news, -, hgoes⟩ := step?_goes h.inTurn hstep
  have hfires : next.fires = run.fires := by
    unfold step? at hstep
    split at hstep
    · cases hstep
    · obtain rfl := Option.some.inj hstep
      rfl
  refine ⟨hturn, fun hfired => h.token (hfires ▸ hfired), fun hrestarted => ?_⟩
  rw [hfires]
  rcases hgoes.cancelled_of_restarted hrestarted with hbefore | hcancelled
  · exact h.restarted hbefore
  · intro hnone
    simp [cancelled, hnone] at hcancelled

end ScanRun

namespace Workplace

variable {δ : Type} {start place next : Workplace δ} {past news : List Happening}
  {ledger : List Entry}

/-- The scan of an item is broken off by an order that the worker has obeyed, or at the end. -/
def Heeds (place : Workplace δ) : Prop :=
  ∀ item began restarted, place.worker.phase = .scanning item began restarted →
    ∃ run, place.scan = some run ∧ run.Heeds (restarted = true ∨ place.shutdown = true)

theorem Heeds.of_eq (h : place.Heeds) (hphase : next.worker.phase = place.worker.phase)
    (hscan : ∀ told, ∀ run, place.scan = some run → run.Heeds told →
      ∃ run', next.scan = some run' ∧ run'.Heeds told)
    (hshutdown : place.shutdown = true → next.shutdown = true) : next.Heeds := by
  intro item began restarted hscanning
  obtain ⟨run, hrun, hheeds⟩ := h item began restarted (hphase ▸ hscanning)
  exact hscan _ run hrun (hheeds.mono (Or.imp_right hshutdown))

theorem Heeds.of_phase (h : ∀ item began restarted, place.worker.phase ≠ .scanning item began restarted) :
    place.Heeds := fun item began restarted hphase => absurd hphase (h item began restarted)

theorem Heeds.breakOff (h : place.Heeds) : place.breakOff.Heeds := by
  unfold Workplace.breakOff
  split
  · next item began restarted hphase =>
    split
    · next htold =>
      intro item' began' restarted' hphase'
      obtain ⟨run, hrun, hheeds⟩ := h item' began' restarted' hphase'
      obtain ⟨rfl, rfl, rfl⟩ := WorkerPhase.scanning.inj (hphase.symm.trans hphase')
      refine ⟨run.restart, by simp [hrun], hheeds.restart ?_⟩
      simpa using htold
    · exact h
  · exact h

/-- Whoever interrupts a worker has told its scan. -/
theorem Heeds.interrupt (h : place.Heeds) {worker : Worker}
    (hphase : worker.phase = place.worker.phase) :
    { place with worker := worker.interrupt }.Heeds := by
  intro item began restarted hscanning
  simp only [Worker.interrupt] at hscanning
  split at hscanning
  · next old since told hold =>
    obtain ⟨rfl, rfl, rfl⟩ := WorkerPhase.scanning.inj hscanning
    obtain ⟨run, hrun, hheeds⟩ := h old since told (hphase ▸ hold)
    exact ⟨run, hrun, hheeds.mono fun _ => .inl rfl⟩
  · cases hscanning
  · exact h item began restarted (hphase ▸ hscanning)

theorem Heeds.of_decide (hmove : place.decide? = some next) : next.Heeds := by
  unfold decide? at hmove
  split at hmove
  · rcases place.worker.decide_phase place.shutdown place.now with hphase | hphase | ⟨item, -, hphase⟩
    · simp only [hphase, Option.some.injEq] at hmove
      subst hmove
      exact .of_phase (by simp [hphase])
    · simp only [hphase, Option.some.injEq] at hmove
      subst hmove
      exact .of_phase (by simp [hphase])
    · simp only [hphase, Option.some.injEq] at hmove
      subst hmove
      intro scanned began restarted _
      exact ⟨_, rfl, .launch place.bench place.config item.work⟩
  · cases hmove

theorem Heeds.takeOrder (h : place.Heeds) (hmove : place.takeOrder? = some next) : next.Heeds := by
  unfold takeOrder? at hmove
  split at hmove
  · split at hmove
    · cases hmove
    · next sender order orders _ =>
      obtain rfl := Option.some.inj hmove
      apply Heeds.breakOff
      cases order with
      | replace work =>
        exact (h.interrupt (show (place.worker.accept work).phase = _ from rfl)).of_eq rfl
          (fun _ run hrun hheeds => ⟨run, hrun, hheeds⟩) id
      | goIdle =>
        exact (h.interrupt (show { place.worker with current := none }.phase = _ from rfl)).of_eq rfl
          (fun _ run hrun hheeds => ⟨run, hrun, hheeds⟩) id
  · cases hmove

theorem Heeds.around (h : place.Heeds) (change : Bench δ → Bench δ) :
    (place.around change).Heeds := by
  unfold Workplace.around
  split
  · next run hrun =>
    refine h.of_eq rfl (fun told before hbefore hheeds => ?_) id
    obtain rfl := Option.some.inj (hrun.symm.trans hbefore)
    exact ⟨_, rfl, hheeds.inTurn, hheeds.token, hheeds.restarted⟩
  · exact h.of_eq rfl (fun _ run hrun hheeds => ⟨run, hrun, hheeds⟩) id

/-- Every move leaves it so that scans are broken off only when they should. -/
theorem Heeds.perform {move : Move δ} (h : place.Heeds)
    (hmove : place.perform? move = some (news, next)) : next.Heeds := by
  have hsame : ∀ told, ∀ run, place.scan = some run → run.Heeds told →
      ∃ run', place.scan = some run' ∧ run'.Heeds told :=
    fun _ run hrun hheeds => ⟨run, hrun, hheeds⟩
  cases move with
  | send order =>
    simp only [perform?] at hmove
    split at hmove
    · cases hmove
    · obtain ⟨-, rfl⟩ := Prod.mk.inj (Option.some.inj hmove)
      exact h.of_eq rfl hsame id
  | decide =>
    obtain ⟨after, hafter, hnews⟩ := Option.map_eq_some_iff.mp hmove
    obtain ⟨-, rfl⟩ := Prod.mk.inj hnews
    exact .of_decide hafter
  | stopWaiting =>
    obtain ⟨after, hafter, hnews⟩ := Option.map_eq_some_iff.mp hmove
    obtain ⟨-, rfl⟩ := Prod.mk.inj hnews
    simp only [stopWaiting?, Option.ite_none_right_eq_some, Option.some.injEq] at hafter
    obtain ⟨-, rfl⟩ := hafter
    exact .of_phase (by simp [Worker.decide])
  | takeOrder =>
    obtain ⟨after, hafter, hnews⟩ := Option.map_eq_some_iff.mp hmove
    obtain ⟨-, rfl⟩ := Prod.mk.inj hnews
    exact h.takeOrder hafter
  | orphan =>
    obtain ⟨after, hafter, hnews⟩ := Option.map_eq_some_iff.mp hmove
    obtain ⟨-, rfl⟩ := Prod.mk.inj hnews
    simp only [orphan?, Option.ite_none_right_eq_some, Option.some.injEq] at hafter
    obtain ⟨-, rfl⟩ := hafter
    apply Heeds.breakOff
    exact h.interrupt rfl
  | advanceScan =>
    obtain ⟨after, hafter, hnews⟩ := Option.map_eq_some_iff.mp hmove
    obtain ⟨-, rfl⟩ := Prod.mk.inj hnews
    unfold advanceScan? at hafter
    split at hafter
    · next run hrun =>
      obtain rfl := Option.some.inj hafter
      obtain ⟨before, hbefore, hstep⟩ := Option.bind_eq_some_iff.mp hrun
      refine h.of_eq rfl (fun told run' hrun' hheeds => ⟨run, rfl, ?_⟩) id
      obtain rfl := Option.some.inj (hbefore.symm.trans hrun')
      exact hheeds.step hstep
    · cases hafter
  | finishScan =>
    obtain ⟨after, hafter, hnews⟩ := Option.map_eq_some_iff.mp hmove
    obtain ⟨-, rfl⟩ := Prod.mk.inj hnews
    obtain ⟨item, began, restarted, run, result, -, -, -, rfl⟩ := finishScan?_eq hafter
    obtain ⟨-, deeds, hdeeds⟩ :=
      place.worker.scanned_cases item result (Duration.ofMillis (run.bench.now - began))
    exact .of_phase (by simp [hdeeds])
  | act =>
    obtain ⟨after, hafter, hnews⟩ := Option.map_eq_some_iff.mp hmove
    obtain ⟨-, rfl⟩ := Prod.mk.inj hnews
    obtain ⟨deeds, events, hphase, rfl⟩ := act?_eq hafter
    obtain ⟨-, -, hdone | ⟨rest, hrest, -⟩⟩ := Worker.act_cases place.bench.temperature hphase
    · exact .of_phase (by simp [hdone])
    · exact .of_phase (by simp [hrest])
  | takeEvent =>
    obtain ⟨-, rfl⟩ := Prod.mk.inj (Option.some.inj hmove)
    exact h.of_eq rfl hsame id
  | callEnd =>
    obtain ⟨-, rfl⟩ := Prod.mk.inj (Option.some.inj hmove)
    apply Heeds.breakOff
    exact h.of_eq rfl hsame (fun _ => rfl)
  | abandon =>
    obtain ⟨-, rfl⟩ := Prod.mk.inj (Option.some.inj hmove)
    exact h.of_eq rfl hsame id
  | deafen =>
    obtain ⟨-, rfl⟩ := Prod.mk.inj (Option.some.inj hmove)
    exact h.of_eq rfl hsame id
  | around change =>
    obtain ⟨-, rfl⟩ := Prod.mk.inj (Option.some.inj hmove)
    exact h.around change

/-! ### Turns -/

/-- What becomes of a worker, and what the ledger says of it. -/
inductive Turn (worker : Worker) (shutdown owned : Bool) : List Entry → Worker → Prop where
  | quiet {entries : List Entry} {next : Worker} :
    (∀ entry ∈ entries, ∃ sender order, entry = .sent sender order) →
    next = worker → Turn worker shutdown owned entries next
  | rests {next : Worker} :
    worker.phase = .deciding ∨ worker.phase = .waiting →
    next.phase = .waiting ∧ worker.current = none ∨ next.phase = .stopped →
    next.current = worker.current →
    next.accepted = worker.accepted → next.ordersOpen = worker.ordersOpen →
    Turn worker shutdown owned [] next
  | begins {item : Assignment} {now : Nat} {next : Worker} :
    shutdown = false → worker.phase = .deciding → worker.current = some item →
    next.phase = .scanning item now false → next.current = worker.current →
    next.accepted = worker.accepted → next.ordersOpen = worker.ordersOpen →
    Turn worker shutdown owned [.seen (.began item)] next
  | obeys (sender : Nat) (order : WorkerOrder) : worker.takesOrders = true →
    Turn worker shutdown owned
      (.obeyed sender order worker.current :: (order.acceptance worker.accepted).map .seen)
      (worker.obey order).2
  | orphaned : worker.takesOrders = true → owned = false → Turn worker shutdown owned [] worker.orphan
  | ends {item : Assignment} {began : Nat} {restarted : Bool}
    {result : Except DeviceError ScanReport} (elapsed : Duration) :
    worker.phase = .scanning item began restarted →
    (∀ hashes, result = .ok ⟨.restarted, hashes⟩ → restarted = true ∨ shutdown = true) →
    Turn worker shutdown owned [.seen (.ended item result)] (worker.scanned item result elapsed)
  | acts {deeds : List Deed} (temperature : Option Decimal.Binary64) : worker.phase = .acting deeds →
    Turn worker shutdown owned ((worker.act temperature).1.toList.map fun event => .seen (.emitted event))
      (worker.act temperature).2

theorem Turn.of_decide (place : Workplace δ) (now : Nat) {scan : Option (ScanRun δ)}
    (hdeciding : place.worker.phase = .deciding) :
    Turn place.worker place.shutdown place.owned
      ({ place with worker := place.worker.decide place.shutdown now, scan := scan }.beginning.map .seen)
      (place.worker.decide place.shutdown now) := by
  cases hshutdown : place.shutdown with
  | true => exact .rests (.inl hdeciding) (.inr rfl) rfl rfl rfl
  | false =>
    cases hcurrent : place.worker.current with
    | some item =>
      rw [Worker.decide_of_some hcurrent]
      exact .begins rfl hdeciding hcurrent rfl rfl rfl rfl
    | none =>
      cases hopen : place.worker.ordersOpen with
      | true =>
        rw [Worker.decide_of_none hcurrent hopen]
        exact .rests (.inl hdeciding) (.inl ⟨rfl, hcurrent⟩) rfl rfl rfl
      | false =>
        have hdecide : place.worker.decide false now = { place.worker with
            phase := .stopped, status := { place.worker.status with active := false } } := by
          simp [Worker.decide, hcurrent, hopen]
        rw [hdecide]
        exact .rests (.inl hdeciding) (.inr rfl) rfl rfl rfl

/-- Whatever is done to a workplace, its worker makes one of its turns. -/
theorem Heeds.turn {move : Move δ} (h : place.Heeds)
    (hmove : place.perform? move = some (news, next)) :
    Turn place.worker place.shutdown place.owned (place.entries move news) next.worker := by
  cases move with
  | send order =>
    simp only [perform?] at hmove
    split at hmove
    · cases hmove
    · obtain ⟨rfl, rfl⟩ := Prod.mk.inj (Option.some.inj hmove)
      exact .quiet (by simp [entries]) rfl
  | decide =>
    obtain ⟨after, hafter, hnews⟩ := Option.map_eq_some_iff.mp hmove
    obtain ⟨rfl, rfl⟩ := Prod.mk.inj hnews
    obtain ⟨hdeciding, scan, rfl⟩ := decide?_eq hafter
    exact .of_decide _ _ hdeciding
  | stopWaiting =>
    obtain ⟨after, hafter, hnews⟩ := Option.map_eq_some_iff.mp hmove
    obtain ⟨rfl, rfl⟩ := Prod.mk.inj hnews
    simp only [stopWaiting?, Option.ite_none_right_eq_some, Option.some.injEq] at hafter
    obtain ⟨⟨hwaiting, -⟩, rfl⟩ := hafter
    exact .rests (.inr hwaiting) (.inr rfl) rfl rfl rfl
  | takeOrder =>
    obtain ⟨after, hafter, hnews⟩ := Option.map_eq_some_iff.mp hmove
    obtain ⟨rfl, rfl⟩ := Prod.mk.inj hnews
    obtain ⟨htakes, sender, order, orders, scan, horders, rfl⟩ := takeOrder?_eq hafter
    have hacceptance : place.acceptance = order.acceptance place.worker.accepted := by
      simp only [acceptance, horders]
      cases order <;> rfl
    simp only [entries, horders, hacceptance, Worker.obey_displaced]
    exact .obeys sender order htakes
  | orphan =>
    obtain ⟨after, hafter, hnews⟩ := Option.map_eq_some_iff.mp hmove
    obtain ⟨rfl, rfl⟩ := Prod.mk.inj hnews
    obtain ⟨htakes, -, howned, scan, rfl⟩ := orphan?_eq hafter
    exact .orphaned htakes howned
  | advanceScan =>
    obtain ⟨after, hafter, hnews⟩ := Option.map_eq_some_iff.mp hmove
    obtain ⟨rfl, rfl⟩ := Prod.mk.inj hnews
    unfold advanceScan? at hafter
    split at hafter
    · obtain rfl := Option.some.inj hafter
      exact .quiet (List.forall_mem_nil _) rfl
    · cases hafter
  | finishScan =>
    obtain ⟨after, hafter, hnews⟩ := Option.map_eq_some_iff.mp hmove
    obtain ⟨rfl, rfl⟩ := Prod.mk.inj hnews
    obtain ⟨item, began, restarted, run, result, hphase, hrun, hended, rfl⟩ := finishScan?_eq hafter
    have hending : place.ending = [.ended item result] := by
      simp [ending, hphase, hrun, Scan.result?, hended]
    simp only [entries, hending]
    refine .ends _ hphase fun hashes hresult => ?_
    obtain ⟨run', hrun', hheeds⟩ := h item began restarted hphase
    obtain rfl := Option.some.inj (hrun.symm.trans hrun')
    apply hheeds.token
    apply hheeds.restarted
    simp [hended, hresult, ScanPhase.outcome?]
  | act =>
    obtain ⟨after, hafter, hnews⟩ := Option.map_eq_some_iff.mp hmove
    obtain ⟨rfl, rfl⟩ := Prod.mk.inj hnews
    obtain ⟨deeds, events, hphase, rfl⟩ := act?_eq hafter
    simp only [entries, emission_eq, List.map_map]
    exact .acts _ hphase
  | takeEvent =>
    obtain ⟨rfl, rfl⟩ := Prod.mk.inj (Option.some.inj hmove)
    exact .quiet (List.forall_mem_nil _) rfl
  | callEnd =>
    obtain ⟨rfl, rfl⟩ := Prod.mk.inj (Option.some.inj hmove)
    exact .quiet (List.forall_mem_nil _) (breakOff_worker _)
  | abandon =>
    obtain ⟨rfl, rfl⟩ := Prod.mk.inj (Option.some.inj hmove)
    exact .quiet (List.forall_mem_nil _) rfl
  | deafen =>
    obtain ⟨rfl, rfl⟩ := Prod.mk.inj (Option.some.inj hmove)
    exact .quiet (List.forall_mem_nil _) rfl
  | around change =>
    obtain ⟨rfl, rfl⟩ := Prod.mk.inj (Option.some.inj hmove)
    refine .quiet (List.forall_mem_nil _) ?_
    unfold Workplace.around
    split <;> rfl

/-! ### Orders and answers -/

/-- What becomes of the orders that wait and of the answers, and what the ledger says of it. -/
inductive Posts (place next : Workplace δ) : List Entry → Prop where
  | quiet {entries : List Entry} : (∀ entry ∈ entries, ∃ happening, entry = .seen happening) →
    next.orders = place.orders → next.answers = place.answers → next.sent = place.sent →
    Posts place next entries
  | sends (order : WorkerOrder) : place.isStopped = false →
    next.orders = place.orders ++ [(place.sent, order)] → next.answers = place.answers →
    next.sent = place.sent + 1 → Posts place next [.sent place.sent order]
  | obeys {sender : Nat} {order : WorkerOrder} (news : List Happening) : place.isStopped = false →
    place.orders = (sender, order) :: next.orders →
    next.answers = (sender, place.worker.current) :: place.answers → next.sent = place.sent →
    Posts place next (.obeyed sender order place.worker.current :: news.map .seen)

theorem isStopped_of_takesOrders (h : place.worker.takesOrders = true) : place.isStopped = false := by
  unfold Worker.takesOrders at h
  unfold isStopped
  split at h
  · next hphase =>
    rw [hphase]
    rfl
  · next hphase =>
    rw [hphase]
    rfl
  · cases h

/-- What a move does to the desk: orders come at the end and are taken from the front, and neither the
    end nor the owner's going is ever taken back. -/
structure Keeps (place next : Workplace δ) (entries : List Entry) : Prop where
  posts : Posts place next entries
  shutdown : place.shutdown = true → next.shutdown = true
  owned : place.owned = false → next.owned = false

theorem perform?_keeps {move : Move δ} (hmove : place.perform? move = some (news, next)) :
    Keeps place next (place.entries move news) := by
  have hseen : ∀ news : List Happening, ∀ entry ∈ news.map Entry.seen, ∃ seen, entry = .seen seen := by
    intro news entry hentry
    obtain ⟨seen, -, rfl⟩ := List.mem_map.mp hentry
    exact ⟨seen, rfl⟩
  cases move with
  | send order =>
    simp only [perform?] at hmove
    split at hmove
    · cases hmove
    · next hable =>
      obtain ⟨rfl, rfl⟩ := Prod.mk.inj (Option.some.inj hmove)
      refine ⟨.sends order ?_ rfl rfl rfl, id, id⟩
      simp_all
  | decide =>
    obtain ⟨after, hafter, hnews⟩ := Option.map_eq_some_iff.mp hmove
    obtain ⟨rfl, rfl⟩ := Prod.mk.inj hnews
    obtain ⟨-, scan, rfl⟩ := decide?_eq hafter
    exact ⟨.quiet (hseen _) rfl rfl rfl, id, id⟩
  | stopWaiting =>
    obtain ⟨after, hafter, hnews⟩ := Option.map_eq_some_iff.mp hmove
    obtain ⟨rfl, rfl⟩ := Prod.mk.inj hnews
    simp only [stopWaiting?, Option.ite_none_right_eq_some, Option.some.injEq] at hafter
    obtain ⟨-, rfl⟩ := hafter
    exact ⟨.quiet (hseen _) rfl rfl rfl, id, id⟩
  | takeOrder =>
    obtain ⟨after, hafter, hnews⟩ := Option.map_eq_some_iff.mp hmove
    obtain ⟨rfl, rfl⟩ := Prod.mk.inj hnews
    obtain ⟨htakes, sender, order, orders, scan, horders, rfl⟩ := takeOrder?_eq hafter
    simp only [entries, horders, Worker.obey_displaced]
    exact ⟨.obeys _ (isStopped_of_takesOrders htakes) horders rfl rfl, id, id⟩
  | orphan =>
    obtain ⟨after, hafter, hnews⟩ := Option.map_eq_some_iff.mp hmove
    obtain ⟨rfl, rfl⟩ := Prod.mk.inj hnews
    obtain ⟨-, -, -, scan, rfl⟩ := orphan?_eq hafter
    exact ⟨.quiet (hseen _) rfl rfl rfl, id, id⟩
  | advanceScan =>
    obtain ⟨after, hafter, hnews⟩ := Option.map_eq_some_iff.mp hmove
    obtain ⟨rfl, rfl⟩ := Prod.mk.inj hnews
    unfold advanceScan? at hafter
    split at hafter
    · obtain rfl := Option.some.inj hafter
      exact ⟨.quiet (hseen _) rfl rfl rfl, id, id⟩
    · cases hafter
  | finishScan =>
    obtain ⟨after, hafter, hnews⟩ := Option.map_eq_some_iff.mp hmove
    obtain ⟨rfl, rfl⟩ := Prod.mk.inj hnews
    obtain ⟨item, began, restarted, run, result, -, -, -, rfl⟩ := finishScan?_eq hafter
    exact ⟨.quiet (hseen _) rfl rfl rfl, id, id⟩
  | act =>
    obtain ⟨after, hafter, hnews⟩ := Option.map_eq_some_iff.mp hmove
    obtain ⟨rfl, rfl⟩ := Prod.mk.inj hnews
    obtain ⟨deeds, events, -, rfl⟩ := act?_eq hafter
    exact ⟨.quiet (hseen _) rfl rfl rfl, id, id⟩
  | takeEvent =>
    obtain ⟨rfl, rfl⟩ := Prod.mk.inj (Option.some.inj hmove)
    exact ⟨.quiet (hseen _) rfl rfl rfl, id, id⟩
  | callEnd =>
    obtain ⟨rfl, hnext⟩ := Prod.mk.inj (Option.some.inj hmove)
    obtain ⟨scan, hscan⟩ := breakOff_eq { place with shutdown := true }
    obtain rfl := hnext.symm.trans hscan
    exact ⟨.quiet (hseen _) rfl rfl rfl, fun _ => rfl, id⟩
  | abandon =>
    obtain ⟨rfl, rfl⟩ := Prod.mk.inj (Option.some.inj hmove)
    exact ⟨.quiet (hseen _) rfl rfl rfl, id, fun _ => rfl⟩
  | deafen =>
    obtain ⟨rfl, rfl⟩ := Prod.mk.inj (Option.some.inj hmove)
    exact ⟨.quiet (hseen _) rfl rfl rfl, id, id⟩
  | around change =>
    obtain ⟨rfl, rfl⟩ := Prod.mk.inj (Option.some.inj hmove)
    unfold Workplace.around
    split
    · exact ⟨.quiet (hseen _) rfl rfl rfl, id, id⟩
    · exact ⟨.quiet (hseen _) rfl rfl rfl, id, id⟩

/-! ### Events -/

/-- What becomes of the events that wait and of their reader, and what is seen of it. -/
inductive Airs (place next : Workplace δ) : List Happening → Prop where
  | quiet {news : List Happening} : (∀ event, .emitted event ∉ news) → next.reader = place.reader →
    next.events = place.events → Airs place next news
  | emits (event : WorkerEvent) : place.hasRoom = true → next.reader = place.reader →
    next.events = (place.deliver event).events → Airs place next [.emitted event]
  | taken : next.reader = place.reader → next.events = place.events.tail → Airs place next []
  | deafened : next.reader = .gone → next.events = [] → Airs place next []

theorem not_emitted_beginning (place : Workplace δ) (event : WorkerEvent) :
    .emitted event ∉ place.beginning := by
  unfold beginning
  split <;> simp

theorem not_emitted_acceptance (place : Workplace δ) (event : WorkerEvent) :
    .emitted event ∉ place.acceptance := by
  unfold acceptance
  split <;> simp

theorem not_emitted_ending (place : Workplace δ) (event : WorkerEvent) :
    .emitted event ∉ place.ending := by
  unfold ending
  split <;> simp

/-- A deed is put off that has an event to emit and no room for it. -/
theorem act?_airs (hmove : place.act? = some next) : Airs place next place.emission := by
  unfold act? at hmove
  split at hmove
  · split at hmove
    · cases hmove
    · next hable =>
      have hroom : ∀ event, (place.worker.act place.bench.temperature).1 = some event →
          place.hasRoom = true := by
        intro event hevent
        simpa [Worker.wantsToEmit_of_act hevent] using hable
      rw [emission_eq]
      generalize place.worker.act place.bench.temperature = acted at hmove hroom ⊢
      obtain ⟨event, worker⟩ := acted
      obtain rfl := Option.some.inj hmove
      cases event with
      | none => exact .quiet nofun rfl rfl
      | some event =>
        refine .emits event (hroom event rfl) ?_ ?_
        · simp only [deliver]
          split <;> rfl
        · simp only [deliver]
          split <;> rfl
  · cases hmove

/-- Events are put behind those that wait, where there is room, and taken from the front. -/
theorem perform?_airs {move : Move δ} (hmove : place.perform? move = some (news, next)) :
    Airs place next news := by
  cases move with
  | send order =>
    simp only [perform?] at hmove
    split at hmove
    · cases hmove
    · obtain ⟨rfl, rfl⟩ := Prod.mk.inj (Option.some.inj hmove)
      exact .quiet (by simp) rfl rfl
  | decide =>
    obtain ⟨after, hafter, hnews⟩ := Option.map_eq_some_iff.mp hmove
    obtain ⟨rfl, rfl⟩ := Prod.mk.inj hnews
    obtain ⟨-, scan, rfl⟩ := decide?_eq hafter
    exact .quiet (not_emitted_beginning _) rfl rfl
  | stopWaiting =>
    obtain ⟨after, hafter, hnews⟩ := Option.map_eq_some_iff.mp hmove
    obtain ⟨rfl, rfl⟩ := Prod.mk.inj hnews
    simp only [stopWaiting?, Option.ite_none_right_eq_some, Option.some.injEq] at hafter
    obtain ⟨-, rfl⟩ := hafter
    exact .quiet (by simp) rfl rfl
  | takeOrder =>
    obtain ⟨after, hafter, hnews⟩ := Option.map_eq_some_iff.mp hmove
    obtain ⟨rfl, rfl⟩ := Prod.mk.inj hnews
    obtain ⟨-, sender, order, orders, scan, -, rfl⟩ := takeOrder?_eq hafter
    exact .quiet (not_emitted_acceptance _) rfl rfl
  | orphan =>
    obtain ⟨after, hafter, hnews⟩ := Option.map_eq_some_iff.mp hmove
    obtain ⟨rfl, rfl⟩ := Prod.mk.inj hnews
    obtain ⟨-, -, -, scan, rfl⟩ := orphan?_eq hafter
    exact .quiet (by simp) rfl rfl
  | advanceScan =>
    obtain ⟨after, hafter, hnews⟩ := Option.map_eq_some_iff.mp hmove
    obtain ⟨rfl, rfl⟩ := Prod.mk.inj hnews
    unfold advanceScan? at hafter
    split at hafter
    · obtain rfl := Option.some.inj hafter
      exact .quiet (by simp) rfl rfl
    · cases hafter
  | finishScan =>
    obtain ⟨after, hafter, hnews⟩ := Option.map_eq_some_iff.mp hmove
    obtain ⟨rfl, rfl⟩ := Prod.mk.inj hnews
    obtain ⟨item, began, restarted, run, result, -, -, -, rfl⟩ := finishScan?_eq hafter
    exact .quiet (not_emitted_ending _) rfl rfl
  | act =>
    obtain ⟨after, hafter, hnews⟩ := Option.map_eq_some_iff.mp hmove
    obtain ⟨rfl, rfl⟩ := Prod.mk.inj hnews
    exact act?_airs hafter
  | takeEvent =>
    obtain ⟨rfl, rfl⟩ := Prod.mk.inj (Option.some.inj hmove)
    exact .taken rfl rfl
  | callEnd =>
    obtain ⟨rfl, hnext⟩ := Prod.mk.inj (Option.some.inj hmove)
    obtain ⟨scan, hscan⟩ := breakOff_eq { place with shutdown := true }
    obtain rfl := hnext.symm.trans hscan
    exact .quiet (by simp) rfl rfl
  | abandon =>
    obtain ⟨rfl, rfl⟩ := Prod.mk.inj (Option.some.inj hmove)
    exact .quiet (by simp) rfl rfl
  | deafen =>
    obtain ⟨rfl, rfl⟩ := Prod.mk.inj (Option.some.inj hmove)
    exact .deafened rfl rfl
  | around change =>
    obtain ⟨rfl, rfl⟩ := Prod.mk.inj (Option.some.inj hmove)
    unfold Workplace.around
    split
    · exact .quiet (by simp) rfl rfl
    · exact .quiet (by simp) rfl rfl

/-- In every history of a worker, scans are broken off only when they should. -/
theorem Records.heeds {bench : Bench δ} {config : ScanConfig}
    (h : (fresh bench config).Records place ledger) : place.Heeds := by
  induction h with
  | start => exact .of_phase nofun
  | move move _ hmove ih => exact ih.perform hmove

/-! ### Runs -/

/-- What a worker and its accelerator do without anybody. -/
def Move.isOwn : Move δ → Bool
  | .decide | .stopWaiting | .takeOrder | .orphan | .advanceScan | .finishScan | .act | .around _ => true
  | .send _ | .takeEvent | .callEnd | .abandon | .deafen => false

/-- The step that comes first is one of the worker's own moves. -/
theorem perform?_of_step? (hstep : place.step? = some next) :
    ∃ move news, move.isOwn = true ∧ place.perform? move = some (news, next) := by
  have heither : ∀ {first second : Option (Workplace δ)}, (first <|> second) = some next →
      first = some next ∨ second = some next := by
    intro first second h
    cases first with
    | some after => exact .inl h
    | none => exact .inr h
  have hmap : ∀ {step : Option (Workplace δ)} (news : Workplace δ → List Happening),
      step = some next → step.map (fun next => (news next, next)) = some (news next, next) := by
    rintro _ news rfl
    rfl
  unfold step? at hstep
  rcases heither hstep with h | hstep
  · exact ⟨.decide, _, rfl, hmap beginning h⟩
  rcases heither hstep with h | hstep
  · exact ⟨.stopWaiting, _, rfl, hmap (fun _ => []) h⟩
  rcases heither hstep with h | hstep
  · exact ⟨.takeOrder, _, rfl, hmap (fun _ => place.acceptance) h⟩
  rcases heither hstep with h | hstep
  · exact ⟨.orphan, _, rfl, hmap (fun _ => []) h⟩
  rcases heither hstep with h | hstep
  · exact ⟨.finishScan, _, rfl, hmap (fun _ => place.ending) h⟩
  rcases heither hstep with h | h
  · exact ⟨.advanceScan, _, rfl, hmap (fun _ => []) h⟩
  · exact ⟨.act, _, rfl, hmap (fun _ => place.emission) h⟩

/-- A worker that goes on until everything waits makes a history. -/
theorem Records.runFor (fuel : Nat) (place : Workplace δ) :
    ∃ ledger, place.Records (place.runFor fuel) ledger := by
  induction fuel generalizing place with
  | zero => exact ⟨[], .start⟩
  | succ fuel ih =>
    rcases hstep : place.step? with _ | next
    · exact ⟨[], by simpa [Workplace.runFor, hstep] using Records.start⟩
    · obtain ⟨move, news, -, hmove⟩ := perform?_of_step? hstep
      obtain ⟨ledger, hledger⟩ := ih next
      have hwhole := (Records.move move .start hmove).trans hledger
      simp only [Workplace.runFor, hstep]
      exact ⟨_, hwhole⟩

end Workplace

end NonceSearch
