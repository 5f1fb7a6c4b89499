import NonceSearch.Dispatch
import NonceSearch.Proofs.WorkAccounts

/-!
# A dispatcher and its worker

A dispatcher and the worker that it feeds run side by side: between any two steps of the one the other may
make as many as it can. The dispatcher decides to give out an item, sends the order, waits for the answer,
takes events, and rests after a fault; the worker makes its own moves, and anything may happen around it.
This goes on until the end is called, which no move here does.

There is one piece of work about at any time. It is an order to be sent, an order that waits, an item that
is scanned, or a completion that has not been heard yet (`Workplace.Stage`). So there are never more than
four events to be heard, no order displaces anything, and no scan is broken off.
-/

namespace NonceSearch

open Ledger

inductive DispatchErrand where
  | free
  /-- It is going to give out the next item. -/
  | ordering
  /-- It has sent an order and waits for the answer. -/
  | awaiting (sender : Nat)

structure Feeding (δ : Type) where
  place : Workplace δ
  dispatcher : Dispatcher
  errand : DispatchErrand := .ordering

namespace Feeding

variable {δ : Type}

inductive Move (δ : Type) where
  | order
  | learn
  | hear
  | wake
  | worker (move : Workplace.Move δ)

/-- Send the next item. An order cannot be sent to a worker that has stopped. -/
def order? (feeding : Feeding δ) : Option (List Entry × Feeding δ) :=
  match feeding.errand with
  | .ordering =>
    let (work, source) := feeding.dispatcher.source.next
    let dispatcher := { feeding.dispatcher with source := source }
    match feeding.place.perform? (.send (.replace work)) with
    | some (news, place) =>
      some (feeding.place.entries (.send (.replace work)) news,
        ⟨place, dispatcher, .awaiting feeding.place.sent⟩)
    | none => some ([], ⟨feeding.place, dispatcher.assigned (.error .offline), .free⟩)
  | _ => none

/-- Learn what became of the order. There is no answer any more once the worker has stopped. -/
def learn? (feeding : Feeding δ) : Option (List Entry × Feeding δ) :=
  match feeding.errand with
  | .awaiting sender =>
    match feeding.place.answers.lookup sender with
    | some displaced =>
      some ([], ⟨feeding.place, feeding.dispatcher.assigned (.ok displaced), .free⟩)
    | none =>
      if feeding.place.isStopped then
        some ([], ⟨feeding.place, feeding.dispatcher.assigned (.error .noResponse), .free⟩)
      else none
  | _ => none

/-- Take the event that waits longest, or leave when there will be none. -/
def hear? (feeding : Feeding δ) : Option (List Entry × Feeding δ) :=
  match feeding.errand, feeding.dispatcher.phase, feeding.place.events with
  | .free, .listening, event :: events =>
    some ([], ⟨{ feeding.place with events := events },
      feeding.dispatcher.heard feeding.place.now event,
      if Dispatcher.asksForWork event then .ordering else .free⟩)
  | .free, .listening, [] =>
    if feeding.place.isStopped then
      some ([], ⟨feeding.place, { feeding.dispatcher with phase := .gone }, .free⟩)
    else none
  | _, _, _ => none

def wake? (feeding : Feeding δ) : Option (List Entry × Feeding δ) :=
  match feeding.dispatcher.phase with
  | .resting wakes =>
    if wakes ≤ feeding.place.now then
      some ([], { feeding with dispatcher := { feeding.dispatcher with phase := .listening } })
    else none
  | _ => none

/-- Make a move: the entries for the worker's ledger, and what comes of it. -/
def perform? (feeding : Feeding δ) : Move δ → Option (List Entry × Feeding δ)
  | .order => feeding.order?
  | .learn => feeding.learn?
  | .hear => feeding.hear?
  | .wake => feeding.wake?
  | .worker move =>
    if move.isOwn then
      (feeding.place.perform? move).map fun made =>
        (feeding.place.entries move made.1, { feeding with place := made.2 })
    else none

inductive Reached (start : Feeding δ) : Feeding δ → List Entry → Prop where
  | start : Reached start start []
  | move {feeding next : Feeding δ} {ledger entries : List Entry} (move : Move δ) :
    Reached start feeding ledger → feeding.perform? move = some (entries, next) →
    Reached start next (entries ++ ledger)

def opening (bench : Bench δ) (config : ScanConfig) (name : String) (source : DemoSource) : Feeding δ where
  place := .fresh bench config
  dispatcher := { worker := name, source := source }

end Feeding

/-- Only a scan that was broken off uses nothing up. -/
theorem broken_off_of_completionHashes? {result : Except DeviceError ScanReport}
    (h : completionHashes? result = none) : ∃ hashes, result = .ok ⟨.restarted, hashes⟩ := by
  cases result with
  | error cause => cases h
  | ok report =>
    obtain ⟨outcome, hashes⟩ := report
    cases outcome with
    | restarted => exact ⟨hashes, rfl⟩
    | _ => cases h

/-! ### What is still to be heard -/

/-- Whether the event of a deed asks for work, if the deed makes one. -/
def Deed.asks? : Deed → Option Bool
  | .emit event => some (Dispatcher.asksForWork event)
  | .sumUp _ _ => some false
  | .forget _ => none

/-- An item is forgotten right before its completion is announced. -/
def Deed.Tidy : List Deed → Prop
  | [] => True
  | .forget item :: rest => (∃ hashes left, rest = .emit (.complete item hashes) :: left) ∧ Tidy rest
  | _ :: rest => Tidy rest

/-- What is yet to be forgotten is yet to be announced. -/
theorem Deed.Tidy.asks {deeds : List Deed} {item : Assignment} (h : Tidy deeds)
    (hforget : .forget item ∈ deeds) : true ∈ deeds.filterMap Deed.asks? := by
  induction deeds with
  | nil => cases hforget
  | cons deed rest ih =>
    cases deed with
    | forget other =>
      obtain ⟨⟨hashes, left, rfl⟩, -⟩ := h
      exact List.mem_cons_self
    | emit event =>
      obtain hforget | hforget := List.mem_cons.mp hforget
      · cases hforget
      · exact List.mem_cons_of_mem _ (ih h hforget)
    | sumUp hashes elapsed =>
      obtain hforget | hforget := List.mem_cons.mp hforget
      · cases hforget
      · exact List.mem_cons_of_mem _ (ih h hforget)

/-- At most a status is to be heard. -/
def Calm (asks : List Bool) : Prop := ∃ count ≤ 1, asks = List.replicate count false

/-- A completion is to be heard, after at most two other events and before at most one. -/
def Due (asks : List Bool) : Prop :=
  ∃ early ≤ 2, ∃ late ≤ 1, asks = List.replicate early false ++ true :: List.replicate late false

section Asks

variable {ask : Bool} {asks : List Bool}

theorem Calm.heard (h : Calm (ask :: asks)) : ask = false ∧ Calm asks := by
  obtain ⟨count, hcount, hasks⟩ := h
  cases count with
  | zero => cases hasks
  | succ count =>
    obtain ⟨rfl, rfl⟩ := List.cons.inj hasks
    exact ⟨rfl, count, by omega, rfl⟩

/-- The event that is heard first is the completion, or a completion is still to be heard. -/
theorem Due.heard (h : Due (ask :: asks)) : ask = true ∧ Calm asks ∨ ask = false ∧ Due asks := by
  obtain ⟨early, hearly, late, hlate, hasks⟩ := h
  cases early with
  | zero =>
    obtain ⟨rfl, rfl⟩ := List.cons.inj hasks
    exact .inl ⟨rfl, late, hlate, rfl⟩
  | succ early =>
    obtain ⟨rfl, rfl⟩ := List.cons.inj hasks
    exact .inr ⟨rfl, early, by omega, late, hlate, rfl⟩

/-- What a scan leaves to be told comes after what has not been heard of the scan before. -/
theorem Calm.due {early : Nat} (h : Calm asks) (hearly : early ≤ 1) :
    Due (asks ++ (List.replicate early false ++ [true, false])) := by
  obtain ⟨count, hcount, rfl⟩ := h
  refine ⟨count + early, by omega, 1, le_rfl, ?_⟩
  rw [← List.append_assoc, List.replicate_append_replicate]
  rfl

theorem Calm.true_not_mem (h : Calm asks) : true ∉ asks := by
  obtain ⟨count, -, rfl⟩ := h
  simp

theorem Calm.length_le (h : Calm asks) : asks.length ≤ 4 := by
  obtain ⟨count, hcount, rfl⟩ := h
  rw [List.length_replicate]
  omega

theorem Due.length_le (h : Due asks) : asks.length ≤ 4 := by
  obtain ⟨early, hearly, late, hlate, rfl⟩ := h
  simp only [List.length_append, List.length_cons, List.length_replicate]
  omega

theorem Due.true_mem (h : Due asks) : true ∈ asks := by
  obtain ⟨early, -, late, -, rfl⟩ := h
  exact List.mem_append_right _ List.mem_cons_self

end Asks

namespace Worker

variable {worker : Worker}

theorem phase_of_scanning? {item : Assignment} (h : worker.scanning? = some item) :
    ∃ began restarted, worker.phase = .scanning item began restarted := by
  unfold scanning? at h
  split at h
  · next began restarted hphase =>
    obtain rfl := Option.some.inj h
    exact ⟨began, restarted, hphase⟩
  · cases h

/-- A scan that was not broken off leaves its completion to be told, after at most one other event and
    before the status. -/
theorem scanned_asks (worker : Worker) (item : Assignment) {result : Except DeviceError ScanReport}
    (elapsed : Duration) (hwhole : completionHashes? result ≠ none) :
    Deed.Tidy (worker.scanned item result elapsed).deeds ∧
      ∃ early ≤ 1, (worker.scanned item result elapsed).deeds.filterMap Deed.asks? =
        List.replicate early false ++ [true, false] := by
  cases result with
  | error cause => exact ⟨trivial, 1, le_rfl, rfl⟩
  | ok report =>
    obtain ⟨outcome, hashes⟩ := report
    cases outcome with
    | found candidate =>
      cases hmeets : candidate.meetsTarget with
      | true =>
        simp only [scanned, reported, account, hmeets, deeds]
        exact ⟨⟨⟨hashes, _, rfl⟩, trivial⟩, 1, le_rfl, rfl⟩
      | false =>
        simp only [scanned, reported, account, hmeets, deeds]
        exact ⟨⟨⟨hashes, _, rfl⟩, trivial⟩, 1, le_rfl, rfl⟩
    | faulted fault => exact ⟨⟨⟨hashes, _, rfl⟩, trivial⟩, 1, le_rfl, rfl⟩
    | exhausted | noResult => exact ⟨⟨⟨hashes, _, rfl⟩, trivial⟩, 0, Nat.zero_le 1, rfl⟩
    | restarted => exact absurd rfl hwhole

theorem act_tidy {left : List Deed} (temperature : Option Decimal.Binary64)
    (hphase : worker.phase = .acting left) (htidy : Deed.Tidy worker.deeds) :
    Deed.Tidy (worker.act temperature).2.deeds := by
  have hdeeds : worker.deeds = left := by simp [deeds, hphase]
  rw [hdeeds] at htidy
  cases left with
  | nil =>
    simp only [act, hphase]
    exact trivial
  | cons deed rest =>
    cases deed with
    | forget item =>
      simp only [act, hphase]
      exact htidy.2
    | emit | sumUp =>
      simp only [act, hphase]
      exact htidy

/-- A deed that emits moves its event from what is to be told to what has been told. -/
theorem act_asks {left : List Deed} (temperature : Option Decimal.Binary64)
    (hphase : worker.phase = .acting left) :
    worker.deeds.filterMap Deed.asks? =
      (worker.act temperature).1.toList.map Dispatcher.asksForWork ++
        (worker.act temperature).2.deeds.filterMap Deed.asks? := by
  have hdeeds : worker.deeds = left := by simp [deeds, hphase]
  rw [hdeeds]
  cases left with
  | nil => simp only [act, hphase]; rfl
  | cons deed rest => cases deed <;> simp only [act, hphase] <;> rfl

end Worker

/-! ### Where the work is -/

namespace Workplace

variable {δ : Type}

/-- For each event that waits or is still to come after the last scan, whether it asks for work. -/
def asks (place : Workplace δ) : List Bool :=
  place.events.map Dispatcher.asksForWork ++ place.worker.deeds.filterMap Deed.asks?

/-- A worker that nobody stops, whose owner stays and listens. -/
structure Steady (place : Workplace δ) : Prop where
  shutdown : place.shutdown = false
  owned : place.owned = true
  reader : place.reader = .listening
  ordersOpen : place.worker.ordersOpen = true
  going : place.worker.phase ≠ .stopped
  answers : ∀ entry ∈ place.answers, entry.2 = none
  tidy : Deed.Tidy place.worker.deeds

def Answered (place : Workplace δ) (errand : DispatchErrand) : Prop :=
  errand = .free ∨ ∃ sender, errand = .awaiting sender ∧ place.answers.lookup sender = some none

inductive Stage (place : Workplace δ) : DispatchErrand → Prop where
  | ordering : place.orders = [] → place.worker.current = none → place.worker.scanning? = none →
    Calm place.asks → Stage place .ordering
  | sent {sender : Nat} {work : WorkItem} : place.orders = [(sender, .replace work)] →
    place.answers.lookup sender = none → place.worker.current = none →
    place.worker.scanning? = none → Calm place.asks → Stage place (.awaiting sender)
  | working {errand : DispatchErrand} {item : Assignment} : place.Answered errand → place.orders = [] →
    place.worker.current = some item →
    place.worker.phase = .deciding ∨ (∃ began, place.worker.phase = .scanning item began false) →
    Calm place.asks → Stage place errand
  | finished {errand : DispatchErrand} : place.Answered errand → place.orders = [] →
    place.worker.scanning? = none →
    (∀ held, place.worker.current = some held → .forget held ∈ place.worker.deeds) →
    Due place.asks → Stage place errand

/-- A worker that is fed by a dispatcher in the middle of an errand. -/
structure Fed (place : Workplace δ) (errand : DispatchErrand) : Prop where
  steady : place.Steady
  stage : place.Stage errand

variable {place next : Workplace δ} {errand : DispatchErrand}

theorem Answered.lookup {sender : Nat} (h : place.Answered (.awaiting sender)) :
    place.answers.lookup sender = some none := by
  rcases h with hfree | ⟨sender', hsame, hlookup⟩
  · cases hfree
  · exact DispatchErrand.awaiting.inj hsame ▸ hlookup

theorem not_answered_ordering : ¬ place.Answered .ordering := by
  rintro (hfree | ⟨sender, hsame, -⟩)
  · cases hfree
  · cases hsame

/-- Where the work is can be seen from the worker, its desk and the dispatcher's errand. -/
theorem Stage.of_eq (h : place.Stage errand) (hworker : next.worker = place.worker)
    (horders : next.orders = place.orders) (hanswers : next.answers = place.answers)
    (hevents : next.events = place.events) : next.Stage errand := by
  have hasks : next.asks = place.asks := by rw [asks, asks, hevents, hworker]
  have hanswered : ∀ errand, place.Answered errand → next.Answered errand := by
    intro errand hanswered
    rw [Answered, hanswers]
    exact hanswered
  cases h with
  | ordering hnone hcurrent hscan hcalm =>
    exact .ordering (horders.trans hnone) (hworker ▸ hcurrent) (hworker ▸ hscan) (hasks ▸ hcalm)
  | sent hsent hlookup hcurrent hscan hcalm =>
    exact .sent (horders.trans hsent) (hanswers ▸ hlookup) (hworker ▸ hcurrent) (hworker ▸ hscan)
      (hasks ▸ hcalm)
  | working hheard hnone hcurrent hphase hcalm =>
    exact .working (hanswered _ hheard) (horders.trans hnone) (hworker ▸ hcurrent) (hworker ▸ hphase)
      (hasks ▸ hcalm)
  | finished hheard hnone hscan hforget hdue =>
    exact .finished (hanswered _ hheard) (horders.trans hnone) (hworker ▸ hscan) (hworker ▸ hforget)
      (hasks ▸ hdue)

/-- No order brings a second piece of work while a scan goes on. -/
theorem Stage.scanning (h : place.Stage errand) {item : Assignment} {began : Nat} {restarted : Bool}
    (hphase : place.worker.phase = .scanning item began restarted) :
    restarted = false ∧ place.Answered errand ∧ place.orders = [] ∧
      place.worker.current = some item ∧ Calm place.asks := by
  have hscanning : place.worker.scanning? = some item := by simp [Worker.scanning?, hphase]
  cases h with
  | ordering _ _ hidle => cases hscanning.symm.trans hidle
  | sent _ _ _ hidle => cases hscanning.symm.trans hidle
  | finished _ _ hidle => cases hscanning.symm.trans hidle
  | working hheard hnone hcurrent hworking hcalm =>
    rcases hworking with hdeciding | ⟨began', hsame⟩
    · cases hphase.symm.trans hdeciding
    · obtain ⟨rfl, -, rfl⟩ := WorkerPhase.scanning.inj (hphase.symm.trans hsame)
      exact ⟨rfl, hheard, hnone, hcurrent, hcalm⟩

theorem Stage.asks_length_le (h : place.Stage errand) : place.asks.length ≤ 4 := by
  cases h with
  | ordering _ _ _ hcalm => exact hcalm.length_le
  | sent _ _ _ _ hcalm => exact hcalm.length_le
  | working _ _ _ _ hcalm => exact hcalm.length_le
  | finished _ _ _ _ hdue => exact hdue.length_le

theorem Stage.events_length_le (h : place.Stage errand) : place.events.length ≤ 4 := by
  have hasks := h.asks_length_le
  rw [asks, List.length_append, List.length_map] at hasks
  omega

/-- A scan that is over was not broken off, if neither an order nor the end has told it to. -/
theorem Heeds.whole {item : Assignment} {began : Nat} {run : ScanRun δ}
    {result : Except DeviceError ScanReport} (h : place.Heeds) (hshutdown : place.shutdown = false)
    (hphase : place.worker.phase = .scanning item began false) (hrun : place.scan = some run)
    (hended : run.scan.phase = .ended result) : completionHashes? result ≠ none := by
  obtain ⟨run', hrun', hheeds⟩ := h item began false hphase
  obtain rfl := Option.some.inj (hrun.symm.trans hrun')
  intro hnone
  obtain ⟨hashes, rfl⟩ := broken_off_of_completionHashes? hnone
  have hrestarted : run.scan.phase.outcome? = some .restarted := by rw [hended]; rfl
  rcases hheeds.token (hheeds.restarted hrestarted) with htold | hend
  · cases htold
  · exact absurd (hend.symm.trans hshutdown) nofun

/-! ### What the worker does meanwhile -/

/-- What a worker still has to forget it does not scan again. -/
theorem Stage.carry (h : place.Stage errand)
    (hforget : ∀ held, place.worker.current = some held → .forget held ∈ place.worker.deeds)
    (hkept : ∀ held, next.worker.current = some held →
      place.worker.current = some held ∧ .forget held ∈ next.worker.deeds)
    (hidle : next.worker.scanning? = none) (horders : next.orders = place.orders)
    (hanswers : next.answers = place.answers) (hasks : next.asks = place.asks) :
    next.Stage errand := by
  have hnone : place.worker.current = none → next.worker.current = none := by
    intro hcurrent
    by_contra hsome
    obtain ⟨held, hheld⟩ := Option.ne_none_iff_exists'.mp hsome
    exact absurd (hcurrent.symm.trans (hkept held hheld).1) nofun
  cases h with
  | ordering hempty hcurrent _ hcalm =>
    exact .ordering (horders.trans hempty) (hnone hcurrent) hidle (hasks ▸ hcalm)
  | sent hsent hlookup hcurrent _ hcalm =>
    exact .sent (horders.trans hsent) (hanswers ▸ hlookup) (hnone hcurrent) hidle (hasks ▸ hcalm)
  | working _ _ hcurrent hphase =>
    have hdeeds : place.worker.deeds = [] := by
      rcases hphase with hphase | ⟨began, hphase⟩ <;> simp [Worker.deeds, hphase]
    exact absurd (hdeeds ▸ hforget _ hcurrent) List.not_mem_nil
  | finished hheard hempty _ _ hdue =>
    refine .finished ?_ (horders.trans hempty) hidle (fun held hheld => (hkept held hheld).2)
      (hasks ▸ hdue)
    rw [Answered, hanswers]
    exact hheard

theorem Fed.decide (h : place.Fed errand) (hmove : place.decide? = some next) : next.Fed errand := by
  obtain ⟨hdeciding, scan, rfl⟩ := decide?_eq hmove
  obtain ⟨hshutdown, howned, hreader, hopen, -, hanswers, -⟩ := h.steady
  have hdeeds : place.worker.deeds = [] := by simp [Worker.deeds, hdeciding]
  cases hcurrent : place.worker.current with
  | none =>
    rw [hshutdown, Worker.decide_of_none hcurrent hopen]
    refine ⟨⟨rfl, howned, hreader, hopen, by simp, hanswers, trivial⟩, ?_⟩
    refine h.stage.carry ?_ ?_ rfl rfl rfl ?_
    · simp [hcurrent]
    · simp [hcurrent]
    · simp [asks, Worker.deeds, hdeciding]
  | some item =>
    rw [hshutdown, Worker.decide_of_some hcurrent]
    refine ⟨⟨rfl, howned, hreader, hopen, by simp, hanswers, trivial⟩, ?_⟩
    cases h.stage with
    | ordering _ hnone => cases hcurrent.symm.trans hnone
    | sent _ _ hnone => cases hcurrent.symm.trans hnone
    | working hheard hempty _ _ hcalm =>
      refine .working hheard hempty hcurrent (.inr ⟨_, rfl⟩) ?_
      simpa [asks, Worker.deeds, hdeciding] using hcalm
    | finished _ _ _ hforget => exact absurd (hdeeds ▸ hforget item hcurrent) List.not_mem_nil

/-- An order finds a worker that has nothing to do. -/
theorem Fed.takeOrder (h : place.Fed errand) (hmove : place.takeOrder? = some next) :
    next.Fed errand := by
  obtain ⟨htakes, sender, order, orders, scan, horders, rfl⟩ := takeOrder?_eq hmove
  obtain ⟨hshutdown, howned, hreader, hopen, -, hanswers, -⟩ := h.steady
  cases h.stage with
  | ordering hempty => cases horders.symm.trans hempty
  | working _ hempty => cases horders.symm.trans hempty
  | finished _ hempty => cases horders.symm.trans hempty
  | @sent _ work hsent _ hcurrent hidle hcalm =>
    obtain ⟨hfirst, rfl⟩ := List.cons.inj (horders.symm.trans hsent)
    obtain ⟨rfl, rfl⟩ := Prod.mk.inj hfirst
    have hphase := (Worker.scanning_or_waiting htakes).resolve_right (by simp [hidle])
    have hworker : (place.worker.obey (.replace work)).2 =
        { place.worker.accept work with phase := .deciding } := by
      simp [Worker.obey, Worker.interrupt, Worker.accept, hphase]
    rw [hworker, hcurrent]
    refine ⟨⟨hshutdown, howned, hreader, hopen, by simp, ?_, trivial⟩, ?_⟩
    · intro entry hentry
      rcases List.mem_cons.mp hentry with rfl | hentry
      · rfl
      · exact hanswers entry hentry
    · refine .working (.inr ⟨_, rfl, by simp⟩) rfl rfl (.inl rfl) ?_
      simpa [asks, Worker.deeds, hphase] using hcalm

theorem Fed.finishScan (h : place.Fed errand) (hheeds : place.Heeds)
    (hmove : place.finishScan? = some next) : next.Fed errand := by
  obtain ⟨item, began, restarted, run, result, hphase, hrun, hended, rfl⟩ := finishScan?_eq hmove
  obtain ⟨hshutdown, howned, hreader, hopen, -, hanswers, -⟩ := h.steady
  obtain ⟨rfl, hheard, hempty, hcurrent, hcalm⟩ := h.stage.scanning hphase
  have hwhole := hheeds.whole hshutdown hphase hrun hended
  have hconcludes := place.worker.scanned_concludes item result (Duration.ofMillis (run.bench.now - began))
  obtain ⟨htidy, early, hearly, hdeeds⟩ :=
    place.worker.scanned_asks item (Duration.ofMillis (run.bench.now - began)) hwhole
  obtain ⟨-, left, hacting⟩ :=
    place.worker.scanned_cases item result (Duration.ofMillis (run.bench.now - began))
  refine ⟨⟨hshutdown, howned, hreader, hconcludes.ordersOpen.trans hopen, by simp [hacting], hanswers,
    htidy⟩, ?_⟩
  refine .finished hheard hempty hconcludes.scanning? ?_ ?_
  · intro held hheld
    obtain rfl := Option.some.inj (hcurrent.symm.trans (hconcludes.kept held hheld))
    rcases hconcludes.again hheld with hforget | ⟨hashes, rfl⟩
    · exact hforget
    · exact absurd rfl hwhole
  · have hold : place.worker.deeds = [] := by simp [Worker.deeds, hphase]
    have hevents : place.asks = place.events.map Dispatcher.asksForWork := by simp [asks, hold]
    rw [asks, hdeeds]
    exact (hevents ▸ hcalm).due hearly

/-- Nothing that is to be heard gets lost while the worker tells it. -/
theorem act?_asks (hreader : place.reader = .listening) (hmove : place.act? = some next) :
    next.asks = place.asks := by
  have hevents := act?_events hreader hmove
  obtain ⟨left, events, hphase, rfl⟩ := act?_eq hmove
  change events = _ at hevents
  rw [asks, asks, Worker.act_asks place.bench.temperature hphase, hevents, List.map_append,
    List.append_assoc]

theorem Fed.act (h : place.Fed errand) (hmove : place.act? = some next) : next.Fed errand := by
  have hasks := act?_asks h.steady.reader hmove
  obtain ⟨left, events, hphase, rfl⟩ := act?_eq hmove
  obtain ⟨hshutdown, howned, hreader, hopen, -, hanswers, htidy⟩ := h.steady
  have hacts := Worker.act_acts place.bench.temperature hphase
  have htidy := Worker.act_tidy place.bench.temperature hphase htidy
  obtain ⟨-, -, hgoing⟩ := Worker.act_cases place.bench.temperature hphase
  have hforget : ∀ held, place.worker.current = some held → .forget held ∈ place.worker.deeds := by
    cases h.stage with
    | ordering _ hnone => simp [hnone]
    | sent _ _ hnone => simp [hnone]
    | working _ _ _ hworking =>
      rcases hworking with hworking | ⟨began, hworking⟩ <;> exact absurd (hphase.symm.trans hworking) nofun
    | finished _ _ _ hforget => exact hforget
  refine ⟨⟨hshutdown, howned, hreader, hacts.ordersOpen.trans hopen, ?_, hanswers, htidy⟩, ?_⟩
  · rcases hgoing with hdeciding | ⟨rest, hrest, -⟩
    · simp [hdeciding]
    · simp [hrest]
  · refine h.stage.carry hforget (fun held hheld => ?_) hacts.scanning? rfl rfl hasks
    obtain ⟨hbefore, hstill⟩ := hacts.kept held hheld
    exact ⟨hbefore, hstill (hforget held hbefore)⟩

/-- Whatever a worker does by itself leaves it with at most one piece of work. -/
theorem Fed.perform {move : Move δ} {news : List Happening} (h : place.Fed errand)
    (hheeds : place.Heeds) (hown : move.isOwn = true)
    (hmove : place.perform? move = some (news, next)) : next.Fed errand := by
  cases move with
  | decide =>
    obtain ⟨after, hafter, hnews⟩ := Option.map_eq_some_iff.mp hmove
    obtain ⟨-, rfl⟩ := Prod.mk.inj hnews
    exact h.decide hafter
  | stopWaiting =>
    obtain ⟨after, hafter, -⟩ := Option.map_eq_some_iff.mp hmove
    simp [stopWaiting?, h.steady.shutdown] at hafter
  | takeOrder =>
    obtain ⟨after, hafter, hnews⟩ := Option.map_eq_some_iff.mp hmove
    obtain ⟨-, rfl⟩ := Prod.mk.inj hnews
    exact h.takeOrder hafter
  | orphan =>
    obtain ⟨after, hafter, -⟩ := Option.map_eq_some_iff.mp hmove
    obtain ⟨-, -, howned, -⟩ := orphan?_eq hafter
    cases h.steady.owned.symm.trans howned
  | advanceScan =>
    obtain ⟨after, hafter, hnews⟩ := Option.map_eq_some_iff.mp hmove
    obtain ⟨-, rfl⟩ := Prod.mk.inj hnews
    unfold advanceScan? at hafter
    split at hafter
    · obtain rfl := Option.some.inj hafter
      obtain ⟨hshutdown, howned, hreader, hopen, hgoing, hanswers, htidy⟩ := h.steady
      exact ⟨⟨hshutdown, howned, hreader, hopen, hgoing, hanswers, htidy⟩,
        h.stage.of_eq rfl rfl rfl rfl⟩
    · cases hafter
  | finishScan =>
    obtain ⟨after, hafter, hnews⟩ := Option.map_eq_some_iff.mp hmove
    obtain ⟨-, rfl⟩ := Prod.mk.inj hnews
    exact h.finishScan hheeds hafter
  | act =>
    obtain ⟨after, hafter, hnews⟩ := Option.map_eq_some_iff.mp hmove
    obtain ⟨-, rfl⟩ := Prod.mk.inj hnews
    exact h.act hafter
  | around change =>
    obtain ⟨-, rfl⟩ := Prod.mk.inj (Option.some.inj hmove)
    obtain ⟨hshutdown, howned, hreader, hopen, hgoing, hanswers, htidy⟩ := h.steady
    unfold Workplace.around
    split
    · exact ⟨⟨hshutdown, howned, hreader, hopen, hgoing, hanswers, htidy⟩,
        h.stage.of_eq rfl rfl rfl rfl⟩
    · exact ⟨⟨hshutdown, howned, hreader, hopen, hgoing, hanswers, htidy⟩,
        h.stage.of_eq rfl rfl rfl rfl⟩
  | send | takeEvent | callEnd | abandon | deafen => cases hown

/-- A worker that waits has not been forgotten. -/
theorem Fed.work_on_its_way (h : place.Fed errand) (hphase : place.worker.phase = .waiting) :
    errand = .ordering ∨ place.orders ≠ [] ∨
      ∃ event ∈ place.events, Dispatcher.asksForWork event = true := by
  cases h.stage with
  | ordering => exact .inl rfl
  | sent hsent => exact .inr (.inl (by simp [hsent]))
  | working _ _ _ hworking =>
    rcases hworking with hworking | ⟨began, hworking⟩ <;> exact absurd (hphase.symm.trans hworking) nofun
  | finished _ _ _ _ hdue =>
    have hasks : place.asks = place.events.map Dispatcher.asksForWork := by
      simp [asks, Worker.deeds, hphase]
    exact .inr (.inr (List.mem_map.mp (hasks ▸ hdue.true_mem)))

/-- There is always room for the next event. -/
theorem Fed.can_act (h : place.Fed errand) {deeds : List Deed}
    (hphase : place.worker.phase = .acting deeds) : ∃ after, place.act? = some after := by
  have hroom : place.hasRoom = true := by
    have hevents := h.stage.events_length_le
    have hbelow : place.events.length < eventCapacity := hevents.trans_lt (by decide)
    simp [hasRoom, hbelow]
  unfold act?
  rw [hphase]
  simp [hroom]

/-- The dispatcher sends an order that nobody else has sent. -/
theorem Posted.lookup_sent {ledger : List Entry} (h : Posted place ledger) :
    place.answers.lookup place.sent = none := by
  apply List.lookup_eq_none_iff.mpr
  intro entry hentry
  rw [h.answers] at hentry
  obtain ⟨obeyed, hobeyed, rfl⟩ := List.mem_map.mp hentry
  have hsender : obeyed.1 ∈ List.range place.sent := by
    rw [h.range_eq]
    exact List.mem_append_left _ (List.mem_reverse.mpr (List.mem_map_of_mem hobeyed))
  simpa using (List.mem_range.mp hsender).ne'

end Workplace

/-! ### Moves -/

namespace Dispatcher

variable {dispatcher : Dispatcher}

theorem heard_source (now : Nat) (event : WorkerEvent) (dispatcher : Dispatcher) :
    (dispatcher.heard now event).source = dispatcher.source := by
  cases event <;> rfl

/-- No event makes a dispatcher go. -/
theorem heard_phase (now : Nat) (event : WorkerEvent) (dispatcher : Dispatcher) :
    (dispatcher.heard now event).phase = dispatcher.phase ∨
      (dispatcher.heard now event).phase = .resting (now + restAfterFault) := by
  cases event with
  | fault reason => exact .inr rfl
  | _ => exact .inl rfl

end Dispatcher

namespace Feeding

variable {δ : Type} {feeding next : Feeding δ} {entries ledger : List Entry}

/-- What a move comes to where no order is refused. -/
inductive Goes (feeding : Feeding δ) : List Entry → Feeding δ → Prop where
  | orders {place : Workplace δ} : feeding.errand = .ordering →
    feeding.place.perform? (.send (.replace feeding.dispatcher.source.item)) = some ([], place) →
    Goes feeding [.sent feeding.place.sent (.replace feeding.dispatcher.source.item)]
      ⟨place, { feeding.dispatcher with source := feeding.dispatcher.source.advance },
        .awaiting feeding.place.sent⟩
  | learns {sender : Nat} : feeding.errand = .awaiting sender →
    feeding.place.answers.lookup sender = some none →
    Goes feeding [] ⟨feeding.place, feeding.dispatcher.assigned (.ok none), .free⟩
  | hears {event : WorkerEvent} {events : List WorkerEvent} : feeding.errand = .free →
    feeding.place.events = event :: events →
    Goes feeding [] ⟨{ feeding.place with events := events },
      feeding.dispatcher.heard feeding.place.now event,
      if Dispatcher.asksForWork event then .ordering else .free⟩
  | wakes : Goes feeding []
      { feeding with dispatcher := { feeding.dispatcher with phase := .listening } }
  | works {move : Workplace.Move δ} {news : List Happening} {place : Workplace δ} :
    move.isOwn = true → feeding.place.perform? move = some (news, place) →
    Goes feeding (feeding.place.entries move news) { feeding with place := place }

/-- As long as a worker is fed its dispatcher is never refused anything. -/
theorem perform?_goes {move : Move δ} (hfed : feeding.place.Fed feeding.errand)
    (hmove : feeding.perform? move = some (entries, next)) : feeding.Goes entries next := by
  have hgoing : feeding.place.isStopped = false := by
    simpa [Workplace.isStopped] using hfed.steady.going
  cases move with
  | order =>
    simp only [perform?, order?] at hmove
    split at hmove
    · next herrand =>
      have hsend : feeding.place.perform? (.send (.replace feeding.dispatcher.source.item)) =
          some ([], { feeding.place with
            orders := feeding.place.orders ++
              [(feeding.place.sent, .replace feeding.dispatcher.source.item)]
            sent := feeding.place.sent + 1 }) := by
        simp [Workplace.perform?, hgoing, hfed.steady.owned]
      simp only [DemoSource.next, hsend, Option.some.injEq] at hmove
      obtain ⟨rfl, rfl⟩ := Prod.mk.inj hmove
      exact .orders herrand hsend
    · cases hmove
  | learn =>
    simp only [perform?, learn?] at hmove
    split at hmove
    · next sender herrand =>
      have hstage := hfed.stage
      rw [herrand] at hstage
      have hanswered : feeding.place.answers.lookup sender = some none ∨
          feeding.place.answers.lookup sender = none := by
        cases hstage with
        | sent _ hlookup => exact .inr hlookup
        | working hheard => exact .inl hheard.lookup
        | finished hheard => exact .inl hheard.lookup
      rcases hanswered with hlookup | hnone
      · simp only [hlookup, Option.some.injEq] at hmove
        obtain ⟨rfl, rfl⟩ := Prod.mk.inj hmove
        exact .learns herrand hlookup
      · simp [hnone, hgoing] at hmove
    · cases hmove
  | hear =>
    simp only [perform?, hear?] at hmove
    split at hmove
    · next event events herrand _ hevents =>
      obtain ⟨rfl, rfl⟩ := Prod.mk.inj (Option.some.inj hmove)
      exact .hears herrand hevents
    · simp [hgoing] at hmove
    · cases hmove
  | wake =>
    simp only [perform?, wake?] at hmove
    split at hmove
    · split at hmove
      · obtain ⟨rfl, rfl⟩ := Prod.mk.inj (Option.some.inj hmove)
        exact .wakes
      · cases hmove
    · cases hmove
  | worker move =>
    simp only [perform?] at hmove
    split at hmove
    · next hown =>
      obtain ⟨⟨news, place⟩, hplace, hmade⟩ := Option.map_eq_some_iff.mp hmove
      obtain ⟨rfl, rfl⟩ := Prod.mk.inj hmade
      exact .works hown hplace
    · cases hmove

/-- What is done between a dispatcher and its worker is a history of the worker. -/
theorem Goes.records {start : Workplace δ} (h : feeding.Goes entries next)
    (hrecords : start.Records feeding.place ledger) :
    start.Records next.place (entries ++ ledger) := by
  cases h with
  | orders _ hsend => exact .move (.send _) hrecords hsend
  | learns => exact hrecords
  | @hears event events _ hevents =>
    have htake : feeding.place.perform? .takeEvent =
        some ([], { feeding.place with events := events }) := by
      simp [Workplace.perform?, hevents]
    exact .move .takeEvent hrecords htake
  | wakes => exact hrecords
  | works _ hmove => exact .move _ hrecords hmove

/-- There is still one piece of work about after every move. -/
theorem Goes.fed (h : feeding.Goes entries next) (hheeds : feeding.place.Heeds)
    (hposted : Workplace.Posted feeding.place ledger) (hfed : feeding.place.Fed feeding.errand) :
    next.place.Fed next.errand := by
  have hsteady := hfed.steady
  obtain ⟨hshutdown, howned, hreader, hopen, hgoing, hanswers, htidy⟩ := hsteady
  cases h with
  | orders herrand hsend =>
    have hstage := hfed.stage
    rw [herrand] at hstage
    simp only [Workplace.perform?] at hsend
    split at hsend
    · cases hsend
    · obtain ⟨-, rfl⟩ := Prod.mk.inj (Option.some.inj hsend)
      refine ⟨⟨hshutdown, howned, hreader, hopen, hgoing, hanswers, htidy⟩, ?_⟩
      cases hstage with
      | ordering hempty hcurrent hidle hcalm =>
        exact .sent (congrArg (· ++ [_]) hempty) hposted.lookup_sent hcurrent hidle hcalm
      | working hheard => exact absurd hheard Workplace.not_answered_ordering
      | finished hheard => exact absurd hheard Workplace.not_answered_ordering
  | learns herrand hlookup =>
    have hstage := hfed.stage
    rw [herrand] at hstage
    refine ⟨hfed.steady, ?_⟩
    cases hstage with
    | sent _ hnone => cases hlookup.symm.trans hnone
    | working _ hempty hcurrent hphase hcalm => exact .working (.inl rfl) hempty hcurrent hphase hcalm
    | finished _ hempty hidle hforget hdue => exact .finished (.inl rfl) hempty hidle hforget hdue
  | @hears event events herrand hevents =>
    have hasks : feeding.place.asks = Dispatcher.asksForWork event ::
        { feeding.place with events := events }.asks := by
      simp [Workplace.asks, hevents]
    have hstage := hfed.stage
    rw [herrand] at hstage
    refine ⟨⟨hshutdown, howned, hreader, hopen, hgoing, hanswers, htidy⟩, ?_⟩
    cases hstage with
    | working _ hempty hcurrent hphase hcalm =>
      obtain ⟨hask, hcalm⟩ := (hasks ▸ hcalm).heard
      rw [if_neg (by simp [hask])]
      exact .working (.inl rfl) hempty hcurrent hphase hcalm
    | finished _ hempty hidle hforget hdue =>
      rcases (hasks ▸ hdue).heard with ⟨hask, hcalm⟩ | ⟨hask, hdue⟩
      · rw [if_pos hask]
        refine .ordering hempty ?_ hidle hcalm
        -- the completion is heard only after the item has been forgotten
        by_contra hsome
        obtain ⟨held, hheld⟩ := Option.ne_none_iff_exists'.mp hsome
        have htrue := htidy.asks (hforget held hheld)
        exact hcalm.true_not_mem (List.mem_append_right _ htrue)
      · rw [if_neg (by simp [hask])]
        exact .finished (.inl rfl) hempty hidle hforget hdue
  | wakes => exact hfed
  | works hown hmove => exact hfed.perform hheeds hown hmove

theorem Goes.present (h : feeding.Goes entries next) (hpresent : feeding.dispatcher.phase ≠ .gone) :
    next.dispatcher.phase ≠ .gone := by
  cases h with
  | orders => exact hpresent
  | learns => nofun
  | hears =>
    rcases Dispatcher.heard_phase _ _ feeding.dispatcher with hphase | hphase
    · rw [hphase]
      exact hpresent
    · rw [hphase]
      nofun
  | wakes => nofun
  | works => exact hpresent

/-! ### Histories -/

section Histories

variable {bench : Bench δ} {config : ScanConfig} {name : String} {source : DemoSource}

/-- A dispatcher that is at its post, and a worker whose accounts are right. -/
structure Sound (bench : Bench δ) (config : ScanConfig) (feeding : Feeding δ) (ledger : List Entry) :
    Prop where
  records : (Workplace.fresh bench config).Records feeding.place ledger
  fed : feeding.place.Fed feeding.errand
  present : feeding.dispatcher.phase ≠ .gone

theorem Sound.opening : Sound bench config (opening bench config name source) [] := by
  refine ⟨.start, ⟨⟨rfl, rfl, rfl, rfl, nofun, nofun, trivial⟩, ?_⟩, nofun⟩
  exact .ordering rfl rfl rfl ⟨0, Nat.zero_le 1, rfl⟩

theorem Sound.goes (h : Sound bench config feeding ledger) (hgoes : feeding.Goes entries next) :
    Sound bench config next (entries ++ ledger) :=
  ⟨hgoes.records h.records, hgoes.fed h.records.heeds h.records.accounts.posted h.fed,
    hgoes.present h.present⟩

theorem Reached.sound (h : (Feeding.opening bench config name source).Reached feeding ledger) :
    Sound bench config feeding ledger := by
  induction h with
  | start => exact .opening
  | move move _ hmove ih => exact ih.goes (perform?_goes ih.fed hmove)

end Histories

end Feeding

end NonceSearch
