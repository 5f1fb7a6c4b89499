import NonceSearch.Proofs.WorkerHistory

/-!
# What the steps of a worker do

One statement for each function of a worker and of its workplace, for whoever follows a worker through
its history: what becomes of the present item, which phase comes next, which deeds are left, and what
is seen of a move.
-/

namespace NonceSearch

namespace Worker

/-- A decision leaves the present item alone. -/
theorem decide_current (worker : Worker) (shutdown : Bool) (now : Nat) :
    (worker.decide shutdown now).current = worker.current := by
  unfold decide
  split
  · rfl
  · split
    · rfl
    · split <;> rfl

theorem decide_of_some {worker : Worker} {item : Assignment} (hcurrent : worker.current = some item)
    (now : Nat) : worker.decide false now = { worker with
      phase := .scanning item now false
      status := { worker.status with active := true } } := by
  simp [decide, hcurrent]

theorem decide_of_none {worker : Worker} (hcurrent : worker.current = none)
    (hopen : worker.ordersOpen = true) (now : Nat) :
    worker.decide false now = { worker with phase := .waiting } := by
  simp [decide, hcurrent, hopen]

/-- A decision is to stop, to wait, or to scan the present item. -/
theorem decide_phase (worker : Worker) (shutdown : Bool) (now : Nat) :
    (worker.decide shutdown now).phase = .stopped ∨ (worker.decide shutdown now).phase = .waiting ∨
      ∃ item, worker.current = some item ∧
        (worker.decide shutdown now).phase = .scanning item now false := by
  unfold decide
  split
  · exact .inl rfl
  · split
    · next item hitem => exact .inr (.inr ⟨item, hitem, rfl⟩)
    · split
      · exact .inr (.inl rfl)
      · exact .inl rfl

theorem account_current (worker : Worker) (item : Assignment) (outcome : ScanOutcome) :
    (worker.account item outcome).1.current = worker.current := by
  unfold account
  split
  · split <;> rfl
  · rfl
  · rfl

theorem current_of_forget {worker : Worker} {item held : Assignment}
    (h : (worker.forget item).current = some held) : worker.current = some held := by
  unfold forget at h
  split at h
  · exact absurd h nofun
  · exact h

/-- After a scan a worker has deeds to do, and it holds no item that it did not hold before. -/
theorem scanned_cases (worker : Worker) (item : Assignment) (result : Except DeviceError ScanReport)
    (elapsed : Duration) :
    (∀ held, (worker.scanned item result elapsed).current = some held → worker.current = some held) ∧
      ∃ deeds, (worker.scanned item result elapsed).phase = .acting deeds := by
  cases result with
  | ok report =>
    refine ⟨fun held hheld => ?_, _, rfl⟩
    rw [← hheld, scanned, reported, account_current]
  | error cause =>
    refine ⟨fun held hheld => ?_, _, rfl⟩
    exact current_of_forget hheld

/-- A deed gives no item to a worker, what it emits was to be emitted, and the deeds that are left emit
    nothing new but a status. -/
theorem act_cases {worker : Worker} {deeds : List Deed} (temperature : Option Decimal.Binary64)
    (h : worker.phase = .acting deeds) :
    (∀ held, (worker.act temperature).2.current = some held → worker.current = some held) ∧
      (∀ event, (worker.act temperature).1 = some event → .emit event ∈ deeds) ∧
      ((worker.act temperature).2.phase = .deciding ∨
        ∃ rest, (worker.act temperature).2.phase = .acting rest ∧
          ∀ event, .emit event ∈ rest → .emit event ∈ deeds ∨ ∃ status, event = .status status) := by
  rcases deeds with _ | ⟨deed, rest⟩
  · simp [act, h]
  · cases deed with
    | emit event => simp [act, h]; grind
    | forget item =>
      simp only [act, h]
      exact ⟨fun held hheld => current_of_forget hheld, nofun,
        .inr ⟨rest, rfl, fun event hevent => .inl (List.mem_cons_of_mem _ hevent)⟩⟩
    | sumUp hashes elapsed => simp [act, h]; grind

/-- Only a deed that needs room emits something. -/
theorem wantsToEmit_of_act {worker : Worker} {event : WorkerEvent} {temperature : Option Decimal.Binary64}
    (hevent : (worker.act temperature).1 = some event) : worker.wantsToEmit = true := by
  unfold act at hevent
  split at hevent
  · cases hevent
  · next hphase => simp [wantsToEmit, hphase]
  · cases hevent
  · cases hevent
  · cases hevent

end Worker

namespace Workplace

variable {δ : Type} {place next : Workplace δ}

theorem breakOff_worker (place : Workplace δ) : place.breakOff.worker = place.worker := by
  unfold breakOff
  split
  · split <;> rfl
  · rfl

theorem breakOff_scan (place : Workplace δ) {run : ScanRun δ} (h : place.scan = some run) :
    ∃ run', place.breakOff.scan = some run' ∧ run'.scan = run.scan := by
  unfold breakOff
  split
  · split
    · exact ⟨run.restart, by simp [h], rfl⟩
    · exact ⟨run, h, rfl⟩
  · exact ⟨run, h, rfl⟩

theorem deliver_worker (event : WorkerEvent) (place : Workplace δ) :
    (place.deliver event).worker = place.worker := by
  unfold deliver
  split <;> rfl

/-- At most one thing is seen of a move, and an event only where the worker's next deed emits it. -/
theorem perform?_news {move : Move δ} {news : List Happening}
    (hmove : place.perform? move = some (news, next)) :
    news = [] ∨ ∃ seen, news = [seen] ∧ ∀ event, seen = .emitted event → seen ∈ place.emission := by
  cases move with
  | send order =>
    simp only [perform?] at hmove
    split at hmove
    · exact absurd hmove nofun
    · exact .inl (Prod.mk.inj (Option.some.inj hmove)).1.symm
  | decide =>
    obtain ⟨after, -, hnews⟩ := Option.map_eq_some_iff.mp hmove
    obtain ⟨rfl, -⟩ := Prod.mk.inj hnews
    unfold beginning
    split
    · exact .inr ⟨_, rfl, nofun⟩
    · exact .inl rfl
  | takeOrder =>
    obtain ⟨after, -, hnews⟩ := Option.map_eq_some_iff.mp hmove
    obtain ⟨rfl, -⟩ := Prod.mk.inj hnews
    unfold acceptance
    split
    · exact .inr ⟨_, rfl, nofun⟩
    · exact .inl rfl
  | finishScan =>
    obtain ⟨after, -, hnews⟩ := Option.map_eq_some_iff.mp hmove
    obtain ⟨rfl, -⟩ := Prod.mk.inj hnews
    unfold ending
    split
    · exact .inr ⟨_, rfl, nofun⟩
    · exact .inl rfl
  | act =>
    obtain ⟨after, -, hnews⟩ := Option.map_eq_some_iff.mp hmove
    obtain ⟨rfl, -⟩ := Prod.mk.inj hnews
    rcases hseen : place.emission with _ | ⟨seen, rest⟩
    · exact .inl rfl
    · have hrest : rest = [] := by
        unfold emission at hseen
        split at hseen <;> simp_all
      exact .inr ⟨seen, by rw [hrest], fun event _ => List.mem_cons_self⟩
  | stopWaiting | orphan | advanceScan =>
    obtain ⟨after, -, hnews⟩ := Option.map_eq_some_iff.mp hmove
    exact .inl (Prod.mk.inj hnews).1.symm
  | takeEvent | callEnd | abandon | deafen | around =>
    exact .inl (Prod.mk.inj (Option.some.inj hmove)).1.symm

end Workplace

end NonceSearch
