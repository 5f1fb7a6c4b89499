import NonceSearch.Device.Script
import NonceSearch.Proofs.WorkerLedger

/-!
# Every item is accounted for

A worker's ledger balances (`Balance`): whatever has been completed, or is about to be, has been used up
by a scan that ended by itself or by a failed opening, and the other way round. Items are scanned in the
order in which they are accepted and never twice (`Scanned`), and none gets lost while the worker has an
owner (`Kept`). On the other side, every order that has been answered was carried out once, and one whose
sender has heard of a failure never is.
-/

namespace NonceSearch

/-! ### Reading a ledger -/

def WorkerEvent.completion? : WorkerEvent → Option (Assignment × Nat)
  | .complete item hashes => some (item, hashes)
  | _ => none

namespace Entry

def accepted? : Entry → Option Assignment
  | .seen (.accepted item) => some item
  | _ => none

def begun? : Entry → Option Assignment
  | .seen (.began item) => some item
  | _ => none

def ended? : Entry → Option (Assignment × Except DeviceError ScanReport)
  | .seen (.ended item result) => some (item, result)
  | _ => none

def completed? : Entry → Option (Assignment × Nat)
  | .seen (.emitted event) => event.completion?
  | _ => none

def sent? : Entry → Option (Nat × WorkerOrder)
  | .sent sender order => some (sender, order)
  | _ => none

def obeyed? : Entry → Option (Nat × WorkerOrder × Option Assignment)
  | .obeyed sender order displaced => some (sender, order, displaced)
  | _ => none

end Entry

/-- The hashes that go with a completion, if the end of a scan makes one: a scan that was broken off uses
    nothing up, and a failed opening uses the item up without a hash. -/
def completionHashes? : Except DeviceError ScanReport → Option Nat
  | .error _ => some 0
  | .ok ⟨.restarted, _⟩ => none
  | .ok report => some report.hashes

namespace Ledger

def accepted (ledger : List Entry) : List Assignment := ledger.filterMap Entry.accepted?

def begun (ledger : List Entry) : List Assignment := ledger.filterMap Entry.begun?

def ended (ledger : List Entry) : List (Assignment × Except DeviceError ScanReport) :=
  ledger.filterMap Entry.ended?

def completed (ledger : List Entry) : List (Assignment × Nat) := ledger.filterMap Entry.completed?

/-- The items that have been used up, with the hashes that went into them. -/
def usedUp (ledger : List Entry) : List (Assignment × Nat) :=
  (ended ledger).filterMap fun entry => (completionHashes? entry.2).map (entry.1, ·)

def sent (ledger : List Entry) : List (Nat × WorkerOrder) := ledger.filterMap Entry.sent?

def obeyed (ledger : List Entry) : List (Nat × WorkerOrder × Option Assignment) :=
  ledger.filterMap Entry.obeyed?

def timesObeyed (sender : Nat) (ledger : List Entry) : Nat :=
  ((obeyed ledger).map Prod.fst).count sender

section Append

variable (entries ledger : List Entry)

@[simp] theorem accepted_append : accepted (entries ++ ledger) = accepted entries ++ accepted ledger :=
  List.filterMap_append

@[simp] theorem begun_append : begun (entries ++ ledger) = begun entries ++ begun ledger :=
  List.filterMap_append

@[simp] theorem ended_append : ended (entries ++ ledger) = ended entries ++ ended ledger :=
  List.filterMap_append

@[simp] theorem completed_append :
    completed (entries ++ ledger) = completed entries ++ completed ledger :=
  List.filterMap_append

@[simp] theorem usedUp_append : usedUp (entries ++ ledger) = usedUp entries ++ usedUp ledger := by
  simp [usedUp]

@[simp] theorem sent_append : sent (entries ++ ledger) = sent entries ++ sent ledger :=
  List.filterMap_append

@[simp] theorem obeyed_append : obeyed (entries ++ ledger) = obeyed entries ++ obeyed ledger :=
  List.filterMap_append

end Append

variable {entries : List Entry}

/-- What is only seen says nothing of orders. -/
theorem silent_of_seen (h : ∀ entry ∈ entries, ∃ happening, entry = .seen happening) :
    sent entries = [] ∧ obeyed entries = [] := by
  constructor <;>
    · apply List.filterMap_eq_nil_iff.mpr
      intro entry hentry
      obtain ⟨seen, rfl⟩ := h entry hentry
      rfl

theorem silent_seen (news : List Happening) :
    sent (news.map Entry.seen) = [] ∧ obeyed (news.map Entry.seen) = [] := by
  apply silent_of_seen
  intro entry hentry
  obtain ⟨seen, -, rfl⟩ := List.mem_map.mp hentry
  exact ⟨seen, rfl⟩

/-- What happened before is not found among newer entries of another kind. -/
theorem suffix_of_not_mem {entry : Entry} {older ledger : List Entry} (hentry : entry ∉ entries)
    (h : (entry :: older) <:+ entries ++ ledger) : (entry :: older) <:+ ledger := by
  obtain ⟨front, hfront⟩ := h
  rcases List.append_eq_append_iff.mp hfront with ⟨rest, hentries, hrest⟩ | ⟨rest, hrest, hledger⟩
  · rcases rest with _ | ⟨first, rest⟩
    · exact ⟨[], hrest⟩
    · obtain ⟨rfl, -⟩ := List.cons.inj hrest
      exact absurd (by simp [*]) hentry
  · exact ⟨rest, hledger.symm⟩

theorem obeyed_of_sent (h : ∀ entry ∈ entries, ∃ sender order, entry = .sent sender order) :
    obeyed entries = [] := by
  apply List.filterMap_eq_nil_iff.mpr
  intro entry hentry
  obtain ⟨sender, order, rfl⟩ := h entry hentry
  rfl

end Ledger

open Ledger

/-! ### What a worker has in hand -/

def Deed.completion? : Deed → Option (Assignment × Nat)
  | .emit event => event.completion?
  | _ => none

namespace Worker

def scanning? (worker : Worker) : Option Assignment :=
  match worker.phase with
  | .scanning item _ _ => some item
  | _ => none

def deeds (worker : Worker) : List Deed :=
  match worker.phase with
  | .acting deeds => deeds
  | _ => []

/-- The completions that are still to be announced. -/
def owed (worker : Worker) : List (Assignment × Nat) := worker.deeds.filterMap Deed.completion?

variable {worker : Worker} {item : Assignment}

@[simp] theorem interrupt_current (worker : Worker) : worker.interrupt.current = worker.current := by
  unfold interrupt
  split <;> rfl

@[simp] theorem interrupt_accepted (worker : Worker) :
    worker.interrupt.accepted = worker.accepted := by
  unfold interrupt
  split <;> rfl

@[simp] theorem interrupt_ordersOpen (worker : Worker) :
    worker.interrupt.ordersOpen = worker.ordersOpen := by
  unfold interrupt
  split <;> rfl

@[simp] theorem interrupt_scanning? (worker : Worker) :
    worker.interrupt.scanning? = worker.scanning? := by
  unfold interrupt
  split
  · next hphase => simp [scanning?, hphase]
  · next hphase => simp [scanning?, hphase]
  · rfl

@[simp] theorem interrupt_deeds (worker : Worker) : worker.interrupt.deeds = worker.deeds := by
  unfold interrupt
  split
  · next hphase => simp [deeds, hphase]
  · next hphase => simp [deeds, hphase]
  · rfl

theorem deeds_of_takesOrders (h : worker.takesOrders = true) : worker.deeds = [] := by
  unfold takesOrders at h
  unfold deeds
  split at h
  · next hphase => simp [hphase]
  · next hphase => simp [hphase]
  · cases h

theorem scanning_or_waiting (h : worker.takesOrders = true) :
    worker.phase = .waiting ∨ ∃ item, worker.scanning? = some item := by
  unfold takesOrders at h
  split at h
  · next hphase => exact .inl hphase
  · next item _ _ hphase => exact .inr ⟨item, by simp [scanning?, hphase]⟩
  · cases h

theorem obey_scanning? (order : WorkerOrder) (worker : Worker) :
    (worker.obey order).2.scanning? = worker.scanning? := by
  cases order <;> exact interrupt_scanning? _

theorem obey_deeds (order : WorkerOrder) (worker : Worker) :
    (worker.obey order).2.deeds = worker.deeds := by
  cases order <;> exact interrupt_deeds _

theorem forget_eq_some {held : Assignment} (worker : Worker) (item : Assignment) :
    (worker.forget item).current = some held ↔ worker.current = some held ∧ held ≠ item := by
  unfold forget
  split
  · next hcurrent =>
    simp only [hcurrent, Option.some.injEq, reduceCtorEq, false_iff, not_and, not_not]
    exact Eq.symm
  · next hcurrent =>
    constructor
    · rintro hheld
      refine ⟨hheld, ?_⟩
      rintro rfl
      exact hcurrent hheld
    · exact And.left

@[simp] theorem forget_accepted (worker : Worker) (item : Assignment) :
    (worker.forget item).accepted = worker.accepted := by
  unfold forget
  split <;> rfl

@[simp] theorem forget_ordersOpen (worker : Worker) (item : Assignment) :
    (worker.forget item).ordersOpen = worker.ordersOpen := by
  unfold forget
  split <;> rfl

/-- What is counted about an outcome leaves the item alone, and what is told first is no completion. -/
theorem account_spec (worker : Worker) (item : Assignment) (outcome : ScanOutcome) :
    (worker.account item outcome).1.current = worker.current ∧
      (worker.account item outcome).1.accepted = worker.accepted ∧
      (worker.account item outcome).1.ordersOpen = worker.ordersOpen ∧
      ∀ deed ∈ (worker.account item outcome).2,
        deed.completion? = none ∧ ∃ event, deed = .emit event := by
  cases outcome with
  | found candidate =>
    cases hmeets : candidate.meetsTarget <;> simp [account, hmeets, count, Deed.completion?, WorkerEvent.completion?]
  | faulted fault => simp [account, count, Deed.completion?, WorkerEvent.completion?]
  | exhausted | noResult | restarted => simp [account]

theorem closingDeeds_cases (item : Assignment) (outcome : ScanOutcome) (hashes : Nat)
    (elapsed : Duration) :
    (outcome = .restarted ∧ completionHashes? (.ok ⟨outcome, hashes⟩) = none ∧
      closingDeeds item ⟨outcome, hashes⟩ elapsed = [.sumUp hashes elapsed]) ∨
    (completionHashes? (.ok ⟨outcome, hashes⟩) = some hashes ∧
      closingDeeds item ⟨outcome, hashes⟩ elapsed =
        [.forget item, .emit (.complete item hashes), .sumUp hashes elapsed]) := by
  cases outcome with
  | restarted => exact .inl ⟨rfl, rfl, rfl⟩
  | _ => exact .inr ⟨rfl, rfl⟩

/-- What a worker is about to do once a scan is over. -/
structure Concludes (item : Assignment) (result : Except DeviceError ScanReport)
    (worker next : Worker) : Prop where
  scanning? : next.scanning? = none
  accepted : next.accepted = worker.accepted
  ordersOpen : next.ordersOpen = worker.ordersOpen
  owed : next.owed = (completionHashes? result).toList.map (item, ·)
  forgets : ∀ other, .forget other ∈ next.deeds → other = item ∧ (completionHashes? result).isSome
  kept : ∀ held, next.current = some held → worker.current = some held
  given : ∀ held, worker.current = some held → next.current = some held ∨
    held = item ∧ (completionHashes? result).isSome
  again : next.current = some item → .forget item ∈ next.deeds ∨
    ∃ hashes, result = .ok ⟨.restarted, hashes⟩

theorem unopened_concludes (worker : Worker) (item : Assignment) (cause : DeviceError) :
    worker.Concludes item (.error cause) (worker.unopened item cause) := by
  have hcurrent : ∀ held, (worker.unopened item cause).current = some held ↔
      worker.current = some held ∧ held ≠ item := fun held => forget_eq_some worker item
  refine ⟨rfl, forget_accepted worker item, forget_ordersOpen worker item, rfl, ?_, ?_, ?_, ?_⟩
  · simp [unopened, deeds]
  · exact fun held hheld => ((hcurrent held).mp hheld).1
  · intro held hheld
    by_cases hsame : held = item
    · exact .inr ⟨hsame, rfl⟩
    · exact .inl ((hcurrent held).mpr ⟨hheld, hsame⟩)
  · exact fun hitem => absurd rfl ((hcurrent item).mp hitem).2

theorem reported_concludes (worker : Worker) (item : Assignment) (report : ScanReport)
    (elapsed : Duration) :
    worker.Concludes item (.ok report) (worker.reported item report elapsed) := by
  obtain ⟨outcome, hashes⟩ := report
  obtain ⟨hcurrent, haccepted, hopen, htold⟩ := worker.account_spec item outcome
  have hdeeds : (worker.reported item ⟨outcome, hashes⟩ elapsed).deeds =
      (worker.account item outcome).2 ++ closingDeeds item ⟨outcome, hashes⟩ elapsed := rfl
  have howed : (worker.account item outcome).2.filterMap Deed.completion? = [] :=
    List.filterMap_eq_nil_iff.mpr fun deed hdeed => (htold deed hdeed).1
  have hforgets : ∀ other, .forget other ∉ (worker.account item outcome).2 := by
    intro other hother
    obtain ⟨-, event, hevent⟩ := htold _ hother
    cases hevent
  have hsame : (worker.reported item ⟨outcome, hashes⟩ elapsed).current = worker.current := hcurrent
  refine ⟨rfl, haccepted, hopen, ?_, ?_, fun held hheld => hsame ▸ hheld,
    fun held hheld => .inl (hsame.trans hheld), ?_⟩
  · rw [owed, hdeeds, List.filterMap_append, howed]
    rcases closingDeeds_cases item outcome hashes elapsed with ⟨-, hnone, hclosing⟩ | ⟨hsome, hclosing⟩
    · rw [hclosing, hnone]
      rfl
    · rw [hclosing, hsome]
      rfl
  · intro other hother
    rw [hdeeds] at hother
    rcases List.mem_append.mp hother with hother | hother
    · exact absurd hother (hforgets other)
    · rcases closingDeeds_cases item outcome hashes elapsed with ⟨-, -, hclosing⟩ | ⟨hsome, hclosing⟩
      · simp [hclosing] at hother
      · simp only [hclosing, List.mem_cons, Deed.forget.injEq, reduceCtorEq, List.not_mem_nil,
          or_false] at hother
        exact ⟨hother, by simp [hsome]⟩
  · intro _
    rcases closingDeeds_cases item outcome hashes elapsed with ⟨rfl, -, -⟩ | ⟨-, hclosing⟩
    · exact .inr ⟨hashes, rfl⟩
    · exact .inl (by simp [hdeeds, hclosing])

theorem scanned_concludes (worker : Worker) (item : Assignment)
    (result : Except DeviceError ScanReport) (elapsed : Duration) :
    worker.Concludes item result (worker.scanned item result elapsed) := by
  cases result with
  | error cause => exact worker.unopened_concludes item cause
  | ok report => exact worker.reported_concludes item report elapsed

/-- What a worker has done by its next deed. -/
structure Acts (worker : Worker) (event : Option WorkerEvent) (next : Worker) : Prop where
  scanning? : next.scanning? = none
  accepted : next.accepted = worker.accepted
  ordersOpen : next.ordersOpen = worker.ordersOpen
  owed : worker.owed = (event.bind WorkerEvent.completion?).toList ++ next.owed
  forgets : ∀ other, .forget other ∈ next.deeds → .forget other ∈ worker.deeds
  kept : ∀ held, next.current = some held → worker.current = some held ∧
    (.forget held ∈ worker.deeds → .forget held ∈ next.deeds)
  given : ∀ held, worker.current = some held → next.current = some held ∨ .forget held ∈ worker.deeds

theorem act_acts {left : List Deed} (temperature : Option Decimal.Binary64)
    (hphase : worker.phase = .acting left) :
    worker.Acts (worker.act temperature).1 (worker.act temperature).2 := by
  have hdeeds : worker.deeds = left := by simp [deeds, hphase]
  rcases left with _ | ⟨deed, rest⟩
  · have hact : worker.act temperature = (none, { worker with phase := .deciding }) := by
      simp [act, hphase]
    rw [hact]
    refine ⟨rfl, rfl, rfl, ?_, by simp [deeds], fun held hheld => ⟨hheld, by simp [hdeeds]⟩, fun held => .inl⟩
    rw [owed, hdeeds]
    rfl
  · cases deed with
    | emit event =>
      have hact : worker.act temperature = (some event, { worker with phase := .acting rest }) := by
        simp [act, hphase]
      rw [hact]
      refine ⟨rfl, rfl, rfl, ?_, ?_, fun held hheld => ⟨hheld, ?_⟩, fun held => .inl⟩
      · rw [owed, hdeeds, List.filterMap_cons, Deed.completion?]
        cases hcompletion : event.completion? <;> simp [hcompletion, owed, deeds]
      · intro other hother
        rw [hdeeds]
        exact List.mem_cons_of_mem _ hother
      · rw [hdeeds]
        simp [deeds]
    | forget item =>
      have hact : worker.act temperature =
          (none, { worker.forget item with phase := .acting rest }) := by
        simp [act, hphase]
      rw [hact]
      refine ⟨rfl, forget_accepted worker item, forget_ordersOpen worker item, ?_, ?_, ?_, ?_⟩
      · rw [owed, hdeeds]
        rfl
      · intro other hother
        rw [hdeeds]
        exact List.mem_cons_of_mem _ hother
      · intro held hheld
        obtain ⟨hbefore, hother⟩ := (forget_eq_some worker item).mp hheld
        refine ⟨hbefore, ?_⟩
        rw [hdeeds]
        simp [deeds, hother]
      · intro held hheld
        by_cases hsame : held = item
        · exact .inr (by simp [hdeeds, hsame])
        · exact .inl ((forget_eq_some worker item).mpr ⟨hheld, hsame⟩)
    | sumUp hashes elapsed =>
      have hact : worker.act temperature = (none, { worker with
          status := sumUp hashes elapsed temperature worker.status
          phase := .acting (.emit (.status (sumUp hashes elapsed temperature worker.status)) :: rest) }) := by
        simp [act, hphase]
      rw [hact]
      refine ⟨rfl, rfl, rfl, ?_, ?_, fun held hheld => ⟨hheld, ?_⟩, fun held => .inl⟩
      · rw [owed, hdeeds]
        rfl
      · intro other hother
        rw [hdeeds]
        simpa [deeds] using hother
      · rw [hdeeds]
        simp [deeds]

end Worker

/-! ### What the accounts say -/

namespace Workplace

open Ledger

/-- Items are numbered as they are accepted, and a worker only ever holds the latest. -/
structure Numbered (worker : Worker) (ledger : List Entry) : Prop where
  numbers : (accepted ledger).map Assignment.number = (List.range worker.accepted).reverse
  latest : ∀ item, worker.current = some item → (accepted ledger).head? = some item

/-- Items are scanned in the order in which they are accepted. While the end has not been called, an item
    that has been begun is held only by its scan, or until it is forgotten. -/
structure Scanned (worker : Worker) (shutdown : Bool) (ledger : List Entry) : Prop where
  sublist : (begun ledger).Sublist (accepted ledger)
  scans : begun ledger = worker.scanning?.toList ++ (ended ledger).map Prod.fst
  held : shutdown = false → ∀ item, worker.current = some item → item ∈ begun ledger →
    (∃ began, worker.phase = .scanning item began false) ∨ .forget item ∈ worker.deeds

/-- What has been completed, and what is about to be, is what has been used up. -/
structure Balance (worker : Worker) (ledger : List Entry) : Prop where
  completions : worker.owed.reverse ++ completed ledger = usedUp ledger
  forgets : ∀ item, .forget item ∈ worker.deeds → item ∈ (usedUp ledger).map Prod.fst

/-- An accepted item is held, or has been handed back, or has been used up. -/
structure Kept (worker : Worker) (shutdown owned : Bool) (ledger : List Entry) : Prop where
  orphaned : worker.ordersOpen = false → owned = false
  kept : shutdown = false → owned = true → ∀ item ∈ accepted ledger, worker.current = some item ∨
    (∃ sender order, .obeyed sender order (some item) ∈ ledger) ∨
    item ∈ (usedUp ledger).map Prod.fst

variable {worker next : Worker} {shutdown owned : Bool} {entries ledger : List Entry}

structure Unremarkable (entries : List Entry) : Prop where
  accepted : accepted entries = []
  begun : begun entries = []
  ended : ended entries = []
  completed : completed entries = []

theorem Unremarkable.usedUp (h : Unremarkable entries) : usedUp entries = [] := by
  simp [Ledger.usedUp, h.ended]

theorem unremarkable_of_sent (h : ∀ entry ∈ entries, ∃ sender order, entry = .sent sender order) :
    Unremarkable entries := by
  refine ⟨?_, ?_, ?_, ?_⟩ <;>
    · apply List.filterMap_eq_nil_iff.mpr
      intro entry hentry
      obtain ⟨sender, order, rfl⟩ := h entry hentry
      rfl

/-- What is seen of a deed is a completion, or nothing about items. -/
theorem emitted_entries (event : Option WorkerEvent) :
    accepted (event.toList.map fun event => .seen (.emitted event)) = [] ∧
      begun (event.toList.map fun event => .seen (.emitted event)) = [] ∧
      ended (event.toList.map fun event => .seen (.emitted event)) = [] ∧
      completed (event.toList.map fun event => .seen (.emitted event)) =
        (event.bind WorkerEvent.completion?).toList := by
  cases event with
  | none => exact ⟨rfl, rfl, rfl, rfl⟩
  | some event =>
    refine ⟨rfl, rfl, rfl, ?_⟩
    cases hcompletion : event.completion? <;>
      simp [Ledger.completed, Entry.completed?, hcompletion]

theorem usedUp_ended (item : Assignment) (result : Except DeviceError ScanReport) :
    usedUp [.seen (.ended item result)] = (completionHashes? result).toList.map (item, ·) := by
  cases hhashes : completionHashes? result <;>
    simp [Ledger.usedUp, Ledger.ended, Entry.ended?, hhashes]

/-- Only an order to replace brings an item. -/
theorem Turn.numbered (h : Numbered worker ledger) (hturn : Turn worker shutdown owned entries next) :
    Numbered next (entries ++ ledger) := by
  have hkeeps : accepted entries = [] → next.accepted = worker.accepted →
      (∀ item, next.current = some item → worker.current = some item) →
      Numbered next (entries ++ ledger) := by
    intro hnone haccepted hcurrent
    refine ⟨?_, fun item hitem => ?_⟩
    · rw [accepted_append, hnone, haccepted]
      exact h.numbers
    · rw [accepted_append, hnone]
      exact h.latest item (hcurrent item hitem)
  cases hturn with
  | quiet hsent hnext =>
    subst hnext
    exact hkeeps (unremarkable_of_sent hsent).accepted rfl fun _ => id
  | rests _ _ hcurrent haccepted => exact hkeeps rfl haccepted fun item hitem => hcurrent ▸ hitem
  | begins _ _ _ _ hcurrent haccepted => exact hkeeps rfl haccepted fun item hitem => hcurrent ▸ hitem
  | obeys sender order _ =>
    cases order with
    | replace work =>
      have haccepted : accepted ((.obeyed sender (.replace work) worker.current ::
          (WorkerOrder.acceptance worker.accepted (.replace work)).map .seen) ++ ledger) =
          ⟨worker.accepted, work⟩ :: accepted ledger := rfl
      refine ⟨?_, fun item hitem => ?_⟩
      · rw [haccepted, List.map_cons, h.numbers]
        simp [Worker.obey, Worker.accept, List.range_succ]
      · rw [haccepted]
        simpa [Worker.obey, Worker.accept] using hitem
    | goIdle =>
      exact hkeeps rfl (Worker.interrupt_accepted _) (by simp [Worker.obey])
  | orphaned =>
    exact hkeeps rfl (Worker.interrupt_accepted _) (by simp [Worker.orphan])
  | @ends item _ _ result elapsed =>
    have hconcludes := worker.scanned_concludes item result elapsed
    exact hkeeps rfl hconcludes.accepted hconcludes.kept
  | acts temperature hphase =>
    have hacts := Worker.act_acts temperature hphase
    exact hkeeps (emitted_entries _).1 hacts.accepted fun item hitem => (hacts.kept item hitem).1

theorem Numbered.nodup (h : Numbered worker ledger) : (accepted ledger).Nodup := by
  apply List.Nodup.of_map Assignment.number
  rw [h.numbers]
  exact List.nodup_reverse.mpr List.nodup_range

theorem Numbered.number_lt (h : Numbered worker ledger) {item : Assignment}
    (hitem : item ∈ accepted ledger) : item.number < worker.accepted := by
  have hnumber : item.number ∈ (accepted ledger).map Assignment.number := List.mem_map_of_mem hitem
  rw [h.numbers] at hnumber
  simpa using hnumber

/-- Scans begin in order, because a worker begins the item that it holds and has not begun before. -/
theorem Turn.scanned (hnumbered : Numbered worker ledger) (h : Scanned worker shutdown ledger)
    (hturn : Turn worker shutdown owned entries next) : Scanned next shutdown (entries ++ ledger) := by
  cases hturn with
  | quiet hsent hnext =>
    subst hnext
    obtain ⟨haccepted, hbegun, hended, -⟩ := unremarkable_of_sent hsent
    exact ⟨by simpa [haccepted, hbegun] using h.sublist, by simpa [hbegun, hended] using h.scans,
      by simpa [hbegun] using h.held⟩
  | rests hbefore hafter hcurrent =>
    have hidle : worker.scanning? = none ∧ worker.deeds = [] := by
      rcases hbefore with hphase | hphase <;> simp [Worker.scanning?, Worker.deeds, hphase]
    have hnext : next.scanning? = none := by
      rcases hafter with ⟨hphase, -⟩ | hphase <;> simp [Worker.scanning?, hphase]
    refine ⟨h.sublist, ?_, fun hshutdown item hitem hbegun => ?_⟩
    · simpa [hidle.1, hnext] using h.scans
    · rcases h.held hshutdown item (hcurrent ▸ hitem) hbegun with ⟨began, hphase⟩ | hforget
      · rcases hbefore with hidle | hidle <;> exact absurd (hidle.symm.trans hphase) nofun
      · simp [hidle.2] at hforget
  | @begins item now _ hshutdown hdeciding hitem hphase hcurrent =>
    have hidle : worker.scanning? = none ∧ worker.deeds = [] := by
      simp [Worker.scanning?, Worker.deeds, hdeciding]
    have hscans := h.scans
    rw [hidle.1] at hscans
    refine ⟨?_, ?_, fun _ held hheld _ => ?_⟩
    · -- the item is the latest that was accepted, and its scan is the first of it
      have hfresh : item ∉ begun ledger := by
        intro hbegun
        rcases h.held hshutdown item hitem hbegun with ⟨began, hscanning⟩ | hforget
        · exact absurd (hdeciding.symm.trans hscanning) nofun
        · simp [hidle.2] at hforget
      obtain ⟨earlier, hearlier⟩ := List.head?_eq_some_iff.mp (hnumbered.latest item hitem)
      have hwhole : (item :: begun ledger).Sublist (item :: earlier) := by
        rcases List.sublist_cons_iff.mp (hearlier ▸ h.sublist) with hsublist | ⟨rest, hrest, -⟩
        · exact hsublist.cons_cons item
        · exact absurd (hrest ▸ List.mem_cons_self) hfresh
      rw [accepted_append, begun_append, hearlier]
      exact hwhole
    · have hnext : next.scanning? = some item := by simp [Worker.scanning?, hphase]
      rw [begun_append, hscans, hnext]
      rfl
    · obtain rfl := Option.some.inj (hheld.symm.trans (hcurrent.trans hitem))
      exact .inl ⟨now, hphase⟩
  | obeys sender order htakes =>
    have hentries : begun ((.obeyed sender order worker.current ::
        (order.acceptance worker.accepted).map .seen) ++ ledger) = begun ledger ∧
        ended ((.obeyed sender order worker.current ::
        (order.acceptance worker.accepted).map .seen) ++ ledger) = ended ledger := by
      cases order <;> exact ⟨rfl, rfl⟩
    refine ⟨?_, ?_, fun _ item hitem hbegun => ?_⟩
    · rw [hentries.1, accepted_append]
      exact h.sublist.trans (List.sublist_append_right _ _)
    · rw [hentries.1, hentries.2, Worker.obey_scanning?]
      exact h.scans
    · -- what an order brings has a number that no item had before
      rw [hentries.1] at hbegun
      have hnumber := hnumbered.number_lt (h.sublist.subset hbegun)
      cases order with
      | replace work =>
        obtain rfl : ⟨worker.accepted, work⟩ = item := by
          simpa [Worker.obey, Worker.accept] using hitem
        exact absurd hnumber (Nat.lt_irrefl _)
      | goIdle => simp [Worker.obey] at hitem
  | orphaned htakes =>
    refine ⟨h.sublist, ?_, fun _ item hitem => ?_⟩
    · have hsame : worker.orphan.scanning? = worker.scanning? := Worker.interrupt_scanning? _
      rw [hsame]
      exact h.scans
    · simp [Worker.orphan] at hitem
  | @ends item began restarted result elapsed hphase hrestarted =>
    have hconcludes := worker.scanned_concludes item result elapsed
    have hscanning : worker.scanning? = some item := by simp [Worker.scanning?, hphase]
    refine ⟨h.sublist, ?_, fun hshutdown held hheld hbegun => .inr ?_⟩
    · rw [begun_append, ended_append, hconcludes.scanning?, h.scans, hscanning]
      rfl
    · rcases h.held hshutdown held (hconcludes.kept held hheld) hbegun with
        ⟨began', hsame⟩ | hforget
      · obtain ⟨rfl, -, hflag⟩ := WorkerPhase.scanning.inj (hphase.symm.trans hsame)
        rcases hconcludes.again hheld with hforget | ⟨hashes, hresult⟩
        · exact hforget
        · rcases hrestarted hashes hresult with htold | hend
          · exact absurd (htold.symm.trans hflag) nofun
          · exact absurd (hend.symm.trans hshutdown) nofun
      · simp [Worker.deeds, hphase] at hforget
  | acts temperature hphase =>
    have hacts := Worker.act_acts temperature hphase
    obtain ⟨haccepted, hbegun, hended, -⟩ := emitted_entries (worker.act temperature).1
    have hscanning : worker.scanning? = none := by simp [Worker.scanning?, hphase]
    refine ⟨?_, ?_, fun hshutdown held hheld hheldBegun => .inr ?_⟩
    · simpa [haccepted, hbegun] using h.sublist
    · simpa [hbegun, hended, hacts.scanning?, hscanning] using h.scans
    · obtain ⟨hbefore, hforget⟩ := hacts.kept held hheld
      rcases h.held hshutdown held hbefore (by simpa [hbegun] using hheldBegun) with
        ⟨began, hsame⟩ | hdue
      · exact absurd (hphase.symm.trans hsame) nofun
      · exact hforget hdue

theorem Turn.balance (h : Balance worker ledger) (hturn : Turn worker shutdown owned entries next) :
    Balance next (entries ++ ledger) := by
  have hkeeps : completed entries = [] → usedUp entries = [] → next.deeds = worker.deeds →
      Balance next (entries ++ ledger) := by
    intro hcompleted husedUp hdeeds
    refine ⟨?_, fun item hitem => ?_⟩
    · rw [completed_append, usedUp_append, hcompleted, husedUp, Worker.owed, hdeeds]
      exact h.completions
    · rw [usedUp_append, husedUp]
      exact h.forgets item (hdeeds ▸ hitem)
  cases hturn with
  | quiet hsent hnext =>
    subst hnext
    have hsilent := unremarkable_of_sent hsent
    exact hkeeps hsilent.completed hsilent.usedUp rfl
  | rests hbefore hafter =>
    apply hkeeps rfl rfl
    rcases hbefore with hbefore | hbefore <;> rcases hafter with ⟨hafter, -⟩ | hafter <;>
      simp [Worker.deeds, hbefore, hafter]
  | begins _ hdeciding _ hphase =>
    apply hkeeps rfl rfl
    simp [Worker.deeds, hdeciding, hphase]
  | obeys sender order htakes =>
    cases order <;> exact hkeeps rfl rfl (Worker.obey_deeds _ _)
  | orphaned htakes => exact hkeeps rfl rfl (Worker.interrupt_deeds _)
  | @ends item began restarted result elapsed hphase =>
    have hconcludes := worker.scanned_concludes item result elapsed
    have hidle : worker.owed = [] := by simp [Worker.owed, Worker.deeds, hphase]
    have hcompletions := h.completions
    rw [hidle] at hcompletions
    refine ⟨?_, fun other hother => ?_⟩
    · rw [usedUp_append, usedUp_ended, ← hcompletions, hconcludes.owed]
      cases completionHashes? result <;> rfl
    · obtain ⟨rfl, hsome⟩ := hconcludes.forgets other hother
      obtain ⟨hashes, hhashes⟩ := Option.isSome_iff_exists.mp hsome
      rw [usedUp_append, usedUp_ended, hhashes]
      exact List.mem_cons_self
  | acts temperature hphase =>
    have hacts := Worker.act_acts temperature hphase
    obtain ⟨-, -, hended, hcompleted⟩ := emitted_entries (worker.act temperature).1
    have husedUp : usedUp ((worker.act temperature).1.toList.map fun event =>
        .seen (.emitted event)) = [] := by
      simp [Ledger.usedUp, hended]
    have hcompletions := h.completions
    rw [hacts.owed] at hcompletions
    refine ⟨?_, fun other hother => ?_⟩
    · rw [completed_append, usedUp_append, husedUp, hcompleted]
      cases hcompletion : (worker.act temperature).1.bind WorkerEvent.completion? <;>
        simpa [hcompletion] using hcompletions
    · rw [usedUp_append, husedUp]
      exact h.forgets other (hacts.forgets other hother)

/-- Whoever loses an item is told of it, or has used it up. -/
theorem Turn.kept (hbalance : Balance worker ledger) (h : Kept worker shutdown owned ledger)
    (hturn : Turn worker shutdown owned entries next) :
    Kept next shutdown owned (entries ++ ledger) := by
  have hkeeps : (∀ item ∈ accepted entries, next.current = some item) →
      (next.ordersOpen = false → owned = false) →
      (∀ item, worker.current = some item → next.current = some item ∨
        (∃ sender order, .obeyed sender order (some item) ∈ entries) ∨
        item ∈ (usedUp (entries ++ ledger)).map Prod.fst) →
      Kept next shutdown owned (entries ++ ledger) := by
    intro haccepted hopen hcurrent
    refine ⟨hopen, fun hshutdown howned item hitem => ?_⟩
    rw [accepted_append] at hitem
    rcases List.mem_append.mp hitem with hnew | hitem
    · exact .inl (haccepted item hnew)
    · rcases h.kept hshutdown howned item hitem with hheld | ⟨sender, order, hobeyed⟩ | husedUp
      · rcases hcurrent item hheld with hheld | ⟨sender, order, hobeyed⟩ | husedUp
        · exact .inl hheld
        · exact .inr (.inl ⟨sender, order, List.mem_append_left _ hobeyed⟩)
        · exact .inr (.inr husedUp)
      · exact .inr (.inl ⟨sender, order, List.mem_append_right _ hobeyed⟩)
      · refine .inr (.inr ?_)
        rw [usedUp_append, List.map_append]
        exact List.mem_append_right _ husedUp
  cases hturn with
  | quiet hsent hnext =>
    subst hnext
    exact hkeeps (by simp [(unremarkable_of_sent hsent).accepted]) h.orphaned fun _ => .inl
  | rests _ _ hcurrent _ hopen =>
    exact hkeeps (by simp [Ledger.accepted]) (fun hclosed => h.orphaned (hopen ▸ hclosed))
      fun item hitem => .inl (hcurrent.trans hitem)
  | begins _ _ _ _ hcurrent _ hopen =>
    exact hkeeps (by simp [Ledger.accepted, Entry.accepted?]) (fun hclosed => h.orphaned (hopen ▸ hclosed))
      fun item hitem => .inl (hcurrent.trans hitem)
  | obeys sender order htakes =>
    have hdisplaced : ∀ item, worker.current = some item → ∃ sender' order',
        Entry.obeyed sender' order' (some item) ∈ .obeyed sender order worker.current ::
          (order.acceptance worker.accepted).map .seen := by
      intro item hitem
      exact ⟨sender, order, by simp [hitem]⟩
    refine hkeeps ?_ ?_ fun item hitem => .inr (.inl (hdisplaced item hitem))
    · cases order <;>
        simp [WorkerOrder.acceptance, Ledger.accepted, Entry.accepted?, Worker.obey, Worker.accept]
    · cases order <;> simpa [Worker.obey, Worker.accept] using h.orphaned
  | orphaned htakes howned =>
    refine ⟨fun _ => howned, fun _ hstill => ?_⟩
    cases hstill.symm.trans howned
  | @ends item began restarted result elapsed hphase =>
    have hconcludes := worker.scanned_concludes item result elapsed
    refine hkeeps (by simp [Ledger.accepted, Entry.accepted?]) (fun hclosed => h.orphaned (hconcludes.ordersOpen ▸ hclosed)) ?_
    intro held hheld
    rcases hconcludes.given held hheld with hkept | ⟨rfl, hsome⟩
    · exact .inl hkept
    · obtain ⟨hashes, hhashes⟩ := Option.isSome_iff_exists.mp hsome
      rw [usedUp_append, usedUp_ended, hhashes]
      exact .inr (.inr List.mem_cons_self)
  | acts temperature hphase =>
    have hacts := Worker.act_acts temperature hphase
    refine hkeeps ?_ (fun hclosed => h.orphaned (hacts.ordersOpen ▸ hclosed)) ?_
    · simp [(emitted_entries _).1]
    · intro held hheld
      rcases hacts.given held hheld with hkept | hforget
      · exact .inl hkept
      · rw [usedUp_append, List.map_append]
        exact .inr (.inr (List.mem_append_right _ (hbalance.forgets held hforget)))

/-! ### Orders -/

section Orders

variable {δ : Type} {place after : Workplace δ}

/-- Orders are obeyed in the order in which they were sent, and each is answered with what it has
    displaced. -/
structure Posted (place : Workplace δ) (ledger : List Entry) : Prop where
  answers : place.answers = (obeyed ledger).map fun entry => (entry.1, entry.2.2)
  orders : (Ledger.sent ledger).reverse =
    (obeyed ledger).reverse.map (fun entry => (entry.1, entry.2.1)) ++ place.orders
  senders : (Ledger.sent ledger).reverse.map Prod.fst = List.range place.sent

theorem Posts.posted (h : Posted place ledger) (hposts : Posts place after entries) :
    Posted after (entries ++ ledger) := by
  cases hposts with
  | quiet hseen horders hanswers hsent =>
    obtain ⟨hsentNone, hobeyedNone⟩ := silent_of_seen hseen
    refine ⟨?_, ?_, ?_⟩
    · simpa [hobeyedNone, hanswers] using h.answers
    · simpa [hobeyedNone, hsentNone, horders] using h.orders
    · simpa [hsentNone, hsent] using h.senders
  | sends order _ horders hanswers hsent =>
    have hledger : Ledger.sent ([.sent place.sent order] ++ ledger) =
        (place.sent, order) :: Ledger.sent ledger := rfl
    refine ⟨hanswers.trans h.answers, ?_, ?_⟩
    · rw [hledger, List.reverse_cons, h.orders, horders, List.append_assoc]
      rfl
    · rw [hledger, List.reverse_cons, List.map_append, h.senders, hsent, List.range_succ]
      rfl
  | @obeys sender order news _ horders hanswers hsent =>
    have hsilent := silent_seen news
    have hsentNone : Ledger.sent ((.obeyed sender order place.worker.current :: news.map .seen) ++ ledger) =
        Ledger.sent ledger := by
      rw [sent_append]
      exact congrArg (· ++ _) hsilent.1
    have hobeyed : obeyed ((.obeyed sender order place.worker.current :: news.map .seen) ++ ledger) =
        (sender, order, place.worker.current) :: obeyed ledger := by
      rw [obeyed_append]
      exact congrArg (_ :: · ++ _) hsilent.2
    refine ⟨?_, ?_, ?_⟩
    · rw [hanswers, hobeyed, h.answers]
      rfl
    · rw [hsentNone, h.orders, hobeyed, horders]
      simp
    · rw [hsentNone, h.senders, hsent]

/-- What whoever has sent an order hears of it. An order that is still in the channel when the worker
    stops gets no response; one that still waits for room, or comes later, is refused. -/
inductive Returned (place : Workplace δ) (sender : Nat) :
    Except WorkerError (Option Assignment) → Prop where
  | answered {displaced : Option Assignment} : (sender, displaced) ∈ place.answers →
    Returned place sender (.ok displaced)
  | unanswered : place.isStopped = true →
    sender ∈ (place.orders.take orderCapacity).map Prod.fst →
    Returned place sender (.error .noResponse)
  | refused : place.isStopped = true →
    sender ∈ (place.orders.drop orderCapacity).map Prod.fst ∨ place.sent ≤ sender →
    Returned place sender (.error .offline)

theorem Posted.range_eq (h : Posted place ledger) :
    List.range place.sent = ((obeyed ledger).map Prod.fst).reverse ++ place.orders.map Prod.fst := by
  rw [← h.senders, h.orders, List.map_append, List.map_map, ← List.map_reverse]
  rfl

/-- No order is obeyed twice, or obeyed and still waiting. -/
theorem Posted.nodup (h : Posted place ledger) :
    (((obeyed ledger).map Prod.fst).reverse ++ place.orders.map Prod.fst).Nodup := by
  rw [← h.range_eq]
  exact List.nodup_range

theorem Posted.timesObeyed_eq_one (h : Posted place ledger) {sender : Nat}
    {displaced : Option Assignment} (hanswered : (sender, displaced) ∈ place.answers) :
    timesObeyed sender ledger = 1 := by
  have hobeyed : ((obeyed ledger).map Prod.fst).Nodup :=
    List.nodup_reverse.mp (List.nodup_append.mp h.nodup).1
  apply List.count_eq_one_of_mem hobeyed
  rw [h.answers] at hanswered
  obtain ⟨entry, hentry, hsame⟩ := List.mem_map.mp hanswered
  exact List.mem_map.mpr ⟨entry, hentry, congrArg Prod.fst hsame⟩

theorem Posted.timesObeyed_eq_zero (h : Posted place ledger) {sender : Nat}
    (hopen : sender ∈ place.orders.map Prod.fst ∨ place.sent ≤ sender) :
    timesObeyed sender ledger = 0 := by
  apply List.count_eq_zero.mpr
  intro hobeyed
  rcases hopen with hwaiting | hlater
  · exact (List.nodup_append.mp h.nodup).2.2 sender (List.mem_reverse.mpr hobeyed) sender hwaiting rfl
  · have hrange : sender ∈ List.range place.sent := by
      rw [h.range_eq]
      exact List.mem_append_left _ (List.mem_reverse.mpr hobeyed)
    exact absurd (List.mem_range.mp hrange) (Nat.not_lt.mpr hlater)

theorem Turn.of_stopped (hphase : worker.phase = .stopped)
    (hturn : Turn worker shutdown owned entries next) : next = worker ∧ obeyed entries = [] := by
  have hclosed : worker.takesOrders = false := by simp [Worker.takesOrders, hphase]
  cases hturn with
  | quiet hsent hnext => exact ⟨hnext, obeyed_of_sent hsent⟩
  | rests hbefore =>
    rcases hbefore with hbefore | hbefore <;> exact absurd (hphase.symm.trans hbefore) nofun
  | begins _ hdeciding => exact absurd (hphase.symm.trans hdeciding) nofun
  | obeys _ _ htakes => exact absurd (htakes.symm.trans hclosed) nofun
  | orphaned htakes => exact absurd (htakes.symm.trans hclosed) nofun
  | ends _ hscanning => exact absurd (hphase.symm.trans hscanning) nofun
  | acts _ hacting => exact absurd (hphase.symm.trans hacting) nofun

/-- A worker that has stopped stays so, and obeys no more orders. -/
theorem Records.stopped {more : List Entry} (h : place.Records after more)
    (hstopped : place.isStopped = true) : after.isStopped = true ∧ obeyed more = [] := by
  induction h with
  | start => exact ⟨hstopped, rfl⟩
  | @move before after more news move _ hmove ih =>
    obtain ⟨hbefore, hobeyed⟩ := ih
    have hphase : before.worker.phase = .stopped := by simpa [isStopped] using hbefore
    have hheeds : before.Heeds := .of_phase (by simp [hphase])
    obtain ⟨hworker, hnone⟩ := (hheeds.turn hmove).of_stopped hphase
    refine ⟨?_, by rw [obeyed_append, hnone, hobeyed, List.append_nil]⟩
    rw [isStopped, hworker]
    exact hbefore

end Orders

/-! ### Histories -/

section Histories

variable {δ : Type} {bench : Bench δ} {config : ScanConfig} {place : Workplace δ}

/-- All accounts of a worker, kept together. -/
structure Accounts (place : Workplace δ) (ledger : List Entry) : Prop where
  numbered : Numbered place.worker ledger
  scanned : Scanned place.worker place.shutdown ledger
  balance : Balance place.worker ledger
  kept : Kept place.worker place.shutdown place.owned ledger
  posted : Posted place ledger

theorem Records.accounts (h : (fresh bench config).Records place ledger) :
    place.Accounts ledger := by
  induction h with
  | start =>
    refine ⟨⟨rfl, nofun⟩, ⟨.slnil, rfl, fun _ => nofun⟩, ⟨rfl, nofun⟩, ⟨nofun, fun _ _ => nofun⟩, ⟨rfl, rfl, rfl⟩⟩
  | @move before after ledger news move hrecords hmove ih =>
    have hturn := hrecords.heeds.turn hmove
    obtain ⟨hposts, hshutdown, howned⟩ := perform?_keeps hmove
    have hscanned := hturn.scanned ih.numbered ih.scanned
    have hkept := hturn.kept ih.balance ih.kept
    have hrunning : after.shutdown = false → before.shutdown = false := by
      intro hafter
      by_contra hbefore
      exact absurd (hafter.symm.trans (hshutdown (by simpa using hbefore))) nofun
    have hstill : after.owned = true → before.owned = true := by
      intro hafter
      by_contra hbefore
      exact absurd (hafter.symm.trans (howned (by simpa using hbefore))) nofun
    exact ⟨hturn.numbered ih.numbered,
      ⟨hscanned.sublist, hscanned.scans, fun hafter => hscanned.held (hrunning hafter)⟩,
      hturn.balance ih.balance,
      ⟨fun hclosed => howned (hkept.orphaned hclosed),
        fun hafter howned => hkept.kept (hrunning hafter) (hstill howned)⟩,
      hposts.posted ih.posted⟩

/-- Nothing is used up that has not been scanned to its end. -/
theorem usedUp_sublist (ledger : List Entry) :
    ((usedUp ledger).map Prod.fst).Sublist ((ended ledger).map Prod.fst) := by
  unfold usedUp
  induction ended ledger with
  | nil => exact .slnil
  | cons entry rest ih =>
    cases hhashes : completionHashes? entry.2 with
    | none => simpa [hhashes] using ih.cons _
    | some hashes => simpa [hhashes] using ih.cons_cons entry.1

theorem Accounts.begun_nodup (h : place.Accounts ledger) : (begun ledger).Nodup :=
  h.scanned.sublist.nodup h.numbered.nodup

theorem Accounts.completed_nodup (h : place.Accounts ledger) :
    ((place.worker.owed.reverse ++ completed ledger).map Prod.fst).Nodup := by
  have hbegun := h.begun_nodup
  rw [h.scanned.scans] at hbegun
  rw [h.balance.completions]
  exact (usedUp_sublist ledger).nodup (List.nodup_append.mp hbegun).2.1

theorem Accounts.answers_of_obeyed (h : place.Accounts ledger) {sender : Nat} {order : WorkerOrder}
    {displaced : Option Assignment} (hobeyed : .obeyed sender order displaced ∈ ledger) :
    (sender, displaced) ∈ place.answers := by
  rw [h.posted.answers]
  exact List.mem_map.mpr ⟨(sender, order, displaced), List.mem_filterMap.mpr ⟨_, hobeyed, rfl⟩, rfl⟩

theorem Accounts.handed_on (h : place.Accounts ledger) (hshutdown : place.shutdown = false)
    (howned : place.owned = true) {item : Assignment} (hitem : item ∈ accepted ledger) :
    place.worker.current = some item ∨ (∃ sender, (sender, some item) ∈ place.answers) ∨
      item ∈ (place.worker.owed.reverse ++ completed ledger).map Prod.fst := by
  rcases h.kept.kept hshutdown howned item hitem with hheld | ⟨sender, order, hobeyed⟩ | husedUp
  · exact .inl hheld
  · exact .inr (.inl ⟨sender, h.answers_of_obeyed hobeyed⟩)
  · rw [h.balance.completions]
    exact .inr (.inr husedUp)

/-- The books of a worker, on any device and in any order of events. Every accepted item is scanned at
    most once and completed at most once; what has been completed or is about to be is what was used up,
    by a scan that was not broken off or by a failed opening. As long as the worker goes on and has its
    owner, an accepted item is its present one, or has been handed back, or is completed. An order whose
    sender has an answer was obeyed once, and one whose sender has heard of a failure is never obeyed. -/
theorem work_is_accounted_for (h : (fresh bench config).Records place ledger) :
    ((accepted ledger).Nodup ∧ (begun ledger).Nodup ∧ (begun ledger).Sublist (accepted ledger) ∧
      ((place.worker.owed.reverse ++ completed ledger).map Prod.fst).Nodup) ∧
    (begun ledger = place.worker.scanning?.toList ++ (ended ledger).map Prod.fst ∧
      place.worker.owed.reverse ++ completed ledger = usedUp ledger) ∧
    (place.shutdown = false → place.owned = true → ∀ item ∈ accepted ledger,
      place.worker.current = some item ∨ (∃ sender, (sender, some item) ∈ place.answers) ∨
        item ∈ (place.worker.owed.reverse ++ completed ledger).map Prod.fst) ∧
    (∀ sender displaced, Returned place sender (.ok displaced) →
      (∃ order, (sender, order) ∈ Ledger.sent ledger ∧ (sender, order, displaced) ∈ obeyed ledger) ∧
        ∀ later more, place.Records later more → timesObeyed sender (more ++ ledger) = 1) ∧
    (∀ sender failure, Returned place sender (.error failure) →
      ∀ later more, place.Records later more → timesObeyed sender (more ++ ledger) = 0) := by
  have haccounts := h.accounts
  refine ⟨⟨haccounts.numbered.nodup, haccounts.begun_nodup, haccounts.scanned.sublist,
    haccounts.completed_nodup⟩, ⟨haccounts.scanned.scans, haccounts.balance.completions⟩,
    fun hshutdown howned item hitem => haccounts.handed_on hshutdown howned hitem, ?_, ?_⟩
  · intro sender displaced hreturned
    obtain ⟨hanswered⟩ := hreturned
    have hobeyed := hanswered
    rw [haccounts.posted.answers] at hobeyed
    obtain ⟨⟨_, order, _⟩, hentry, hsame⟩ := List.mem_map.mp hobeyed
    obtain ⟨rfl, rfl⟩ := Prod.mk.inj hsame
    refine ⟨⟨order, ?_, hentry⟩, fun later more hmore => ?_⟩
    · apply List.mem_reverse.mp
      rw [haccounts.posted.orders]
      exact List.mem_append_left _ (List.mem_map.mpr ⟨_, List.mem_reverse.mpr hentry, rfl⟩)
    · have hlater := (h.trans hmore).accounts.posted
      apply hlater.timesObeyed_eq_one
      rw [hlater.answers, obeyed_append, List.map_append, ← haccounts.posted.answers]
      exact List.mem_append_right _ hanswered
  · intro sender failure hreturned later more hmore
    have hnever : timesObeyed sender ledger = 0 ∧ place.isStopped = true := by
      cases hreturned with
      | unanswered hstopped hwaiting =>
        refine ⟨haccounts.posted.timesObeyed_eq_zero (.inl ?_), hstopped⟩
        exact List.map_subset _ (List.take_subset _ _) hwaiting
      | refused hstopped hopen =>
        refine ⟨haccounts.posted.timesObeyed_eq_zero (hopen.imp_left fun hwaiting => ?_), hstopped⟩
        exact List.map_subset _ (List.drop_subset _ _) hwaiting
    obtain ⟨-, hnone⟩ := hmore.stopped hnever.2
    rw [timesObeyed, obeyed_append, hnone]
    exact hnever.1

end Histories

/-! A device that has a result as soon as it is asked. The first item is scanned to its end; the second is
replaced before its scan has begun to look at the device, and goes back. -/

def punctualBench : Bench ScriptedDevice where
  device := ScriptedDevice.device "punctual" .mask
  state := { scripts := [{ records := [(0, .bytes (CompletionMessage.toBytes ⟨0x20, 0⟩))] }] }

def twoItems : List (Move ScriptedDevice) :=
  List.flatten [[.send (.replace ⟨Bytes.zero 32, Bytes.zero 12, 0⟩), .decide, .takeOrder, .decide],
    List.replicate 11 .advanceScan, [.finishScan], List.replicate 5 .act,
    [.send (.replace ⟨Bytes.zero 32, Bytes.zero 12, 0⟩), .decide, .takeOrder, .decide,
      .send (.replace ⟨Bytes.zero 32, Bytes.zero 12, 0⟩), .takeOrder]]

theorem second_item_is_handed_back :
    ∃ (place : Workplace ScriptedDevice) (ledger : List Entry),
      (fresh punctualBench {}).Records place ledger ∧ place.shutdown = false ∧ place.owned = true ∧
      (accepted ledger).length = 3 ∧ (completed ledger).length = 1 ∧
      (∀ item ∈ accepted ledger,
        place.worker.current = some item ∨ (∃ sender, (sender, some item) ∈ place.answers) ∨
          item ∈ (place.worker.owed.reverse ++ completed ledger).map Prod.fst) ∧
      timesObeyed 2 ledger = 1 := by
  have hrun : ((fresh punctualBench {}).record twoItems []).any (fun reached =>
      !reached.1.shutdown && reached.1.owned && (accepted reached.2).length == 3 &&
        (completed reached.2).length == 1 && (reached.1.answers.map Prod.fst).contains 2) = true := by
    decide +kernel
  obtain ⟨⟨place, ledger⟩, hrecord, hseen⟩ := (Option.any_eq_true _ _).mp hrun
  simp only [Bool.and_eq_true, Bool.not_eq_true', beq_iff_eq, List.contains_iff_mem] at hseen
  obtain ⟨⟨⟨⟨hshutdown, howned⟩, haccepted⟩, hcompleted⟩, hanswered⟩ := hseen
  have hrecords := Records.start.record hrecord
  obtain ⟨-, -, hkept, hanswers, -⟩ := work_is_accounted_for hrecords
  obtain ⟨⟨sender, displaced⟩, hanswer, rfl⟩ := List.mem_map.mp hanswered
  obtain ⟨-, honce⟩ := hanswers 2 displaced (.answered hanswer)
  exact ⟨place, ledger, hrecords, hshutdown, howned, haccepted, hcompleted, hkept hshutdown howned,
    honce place [] .start⟩

end Workplace

end NonceSearch
