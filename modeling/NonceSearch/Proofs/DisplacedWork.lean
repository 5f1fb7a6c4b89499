import NonceSearch.Proofs.WorkAccounts

/-!
# What becomes of displaced work

An order that replaces an item hands the old one back, but the scan of the old one goes on until it looks
at its token. It may end by itself before that, and then the item is completed although it has been handed
back, while the worker holds the new one (`Workplace.displaced_item_may_be_completed`).

That is all that can go wrong. An item that was handed back is completed only if its scan was going on at
the time and has ended by itself since, and once at most; and a worker that announces a completion holds
no item but one that has come in the middle of the very scan that is over
(`Workplace.displaced_items_complete_by_running_scans`).
-/

namespace NonceSearch

open Ledger

/-- Whoever does these deeds holds no item any more when its completion is announced. -/
def Deed.Orderly (current : Option Assignment) : List Deed → Prop
  | [] => True
  | .forget item :: rest => Orderly (if current = some item then none else current) rest
  | .emit event :: rest =>
    (∀ item hashes, event.completion? = some (item, hashes) → current ≠ some item) ∧
      Orderly current rest
  | .sumUp _ _ :: rest => Orderly current rest

/-- An item has been accepted, but not begun, in the middle of the scan of another one. -/
def Ledger.Newcomer (item other : Assignment) (ledger : List Entry) : Prop :=
  other ∉ begun ledger ∧ ∃ sender displaced older,
    (.obeyed sender (.replace other.work) displaced :: .seen (.accepted other) :: older) <:+ ledger ∧
      item ∈ begun older ∧ item ∉ (ended older).map Prod.fst

namespace Worker

variable {worker : Worker} {item : Assignment}

theorem interrupt_phase_ne_waiting (worker : Worker) : worker.interrupt.phase ≠ .waiting := by
  unfold interrupt
  split
  · exact nofun
  · exact nofun
  · next hwaiting => exact hwaiting

theorem orderly_of_told {told rest : List Deed} {current : Option Assignment}
    (htold : ∀ deed ∈ told, deed.completion? = none ∧ ∃ event, deed = .emit event)
    (hrest : Deed.Orderly current rest) : Deed.Orderly current (told ++ rest) := by
  induction told with
  | nil => exact hrest
  | cons deed told ih =>
    obtain ⟨hnone, event, rfl⟩ := htold _ List.mem_cons_self
    refine ⟨fun item hashes hcompletion => ?_, ih fun other hother => htold other (List.mem_cons_of_mem _ hother)⟩
    exact absurd (hnone.symm.trans hcompletion) nofun

theorem scanned_orderly (worker : Worker) (item : Assignment)
    (result : Except DeviceError ScanReport) (elapsed : Duration) :
    Deed.Orderly (worker.scanned item result elapsed).current
      (worker.scanned item result elapsed).deeds := by
  cases result with
  | error cause =>
    have hforgotten : (worker.unopened item cause).current ≠ some item := by
      intro hheld
      exact ((forget_eq_some worker item).mp hheld).2 rfl
    refine ⟨nofun, ?_, nofun, trivial⟩
    rintro other hashes hcompletion
    obtain ⟨rfl, -⟩ := Prod.mk.inj (Option.some.inj hcompletion)
    exact hforgotten
  | ok report =>
    obtain ⟨outcome, hashes⟩ := report
    obtain ⟨-, -, -, htold⟩ := worker.account_spec item outcome
    apply orderly_of_told htold
    rcases closingDeeds_cases item outcome hashes elapsed with ⟨-, -, hclosing⟩ | ⟨-, hclosing⟩
    · rw [hclosing]
      trivial
    · rw [hclosing]
      refine ⟨?_, trivial⟩
      rintro other _ hcompletion
      obtain ⟨rfl, -⟩ := Prod.mk.inj (Option.some.inj hcompletion)
      split
      · exact nofun
      · assumption

theorem act_orderly {left : List Deed} (temperature : Option Decimal.Binary64)
    (hphase : worker.phase = .acting left) (h : Deed.Orderly worker.current worker.deeds) :
    Deed.Orderly (worker.act temperature).2.current (worker.act temperature).2.deeds ∧
      ∀ event, (worker.act temperature).1 = some event → ∀ item hashes,
        event.completion? = some (item, hashes) → worker.current ≠ some item := by
  have hdeeds : worker.deeds = left := by simp [deeds, hphase]
  rw [hdeeds] at h
  rcases left with _ | ⟨deed, rest⟩
  · simp [act, hphase, deeds, Deed.Orderly]
  · cases deed with
    | emit event =>
      have hact : worker.act temperature = (some event, { worker with phase := .acting rest }) := by
        simp [act, hphase]
      rw [hact]
      refine ⟨h.2, ?_⟩
      rintro told htold
      obtain rfl := Option.some.inj htold
      exact h.1
    | forget item =>
      have hcurrent : (worker.forget item).current =
          if worker.current = some item then none else worker.current := by
        unfold forget
        split <;> rfl
      simp only [act, hphase]
      refine ⟨?_, by simp⟩
      rw [hcurrent]
      exact h
    | sumUp hashes elapsed =>
      simp only [act, hphase]
      exact ⟨⟨by simp [WorkerEvent.completion?], h⟩, by simp⟩

theorem act_current_of_emits {left : List Deed} {temperature : Option Decimal.Binary64}
    {event : WorkerEvent} (hphase : worker.phase = .acting left)
    (hemits : (worker.act temperature).1 = some event) :
    (worker.act temperature).2.current = worker.current := by
  rcases left with _ | ⟨deed, rest⟩
  · simp [act, hphase] at hemits
  · cases deed with
    | emit told => simp [act, hphase]
    | forget item => simp [act, hphase] at hemits
    | sumUp hashes elapsed => simp [act, hphase] at hemits

end Worker

/-! ### Orders in the middle of a scan -/

namespace Ledger

variable {item other : Assignment} {entries ledger : List Entry}

/-- A newcomer stays one until it is begun itself. -/
theorem Newcomer.append (h : Newcomer item other ledger) (hbegun : other ∉ begun entries) :
    Newcomer item other (entries ++ ledger) := by
  obtain ⟨hfresh, sender, displaced, older, hsuffix, hscanned⟩ := h
  refine ⟨?_, sender, displaced, older, hsuffix.trans (List.suffix_append _ _), hscanned⟩
  simp [hbegun, hfresh]

end Ledger

namespace Workplace

/-- How the item that a worker holds, the scan that goes on or is over, and the items that were handed
    back are related. -/
structure Overtaken (worker : Worker) (ledger : List Entry) : Prop where
  waiting : worker.phase = .waiting → worker.current = none
  scanning : ∀ item other, worker.scanning? = some item → worker.current = some other →
    other = item ∨ Newcomer item other ledger
  owed : ∀ item hashes other, (item, hashes) ∈ worker.owed → worker.current = some other →
    other = item ∨ Newcomer item other ledger
  orderly : Deed.Orderly worker.current worker.deeds
  displaced : ∀ sender order item older, (.obeyed sender order (some item) :: older) <:+ ledger →
    worker.current ≠ some item ∧ item ∈ accepted ledger ∧
      (item ∈ begun ledger → item ∈ begun older ∧ item ∉ (ended older).map Prod.fst)

variable {worker next : Worker} {shutdown owned : Bool} {entries ledger : List Entry}

/-- Only an order that is being obeyed hands an item back. -/
theorem Overtaken.displaced_append (h : Overtaken worker ledger)
    (hobeyed : ∀ sender order displaced, .obeyed sender order displaced ∉ entries)
    (hcurrent : ∀ item, next.current = some item → worker.current = some item)
    (hbegun : ∀ item ∈ begun entries, worker.current = some item) :
    ∀ sender order item older, (.obeyed sender order (some item) :: older) <:+ entries ++ ledger →
      next.current ≠ some item ∧ item ∈ accepted (entries ++ ledger) ∧
        (item ∈ begun (entries ++ ledger) → item ∈ begun older ∧ item ∉ (ended older).map Prod.fst) := by
  intro sender order item older hsuffix
  obtain ⟨hgone, haccepted, hscanned⟩ :=
    h.displaced sender order item older (suffix_of_not_mem (hobeyed sender order _) hsuffix)
  refine ⟨fun hheld => hgone (hcurrent item hheld), ?_, fun hitem => hscanned ?_⟩
  · rw [accepted_append]
    exact List.mem_append_right _ haccepted
  rw [begun_append] at hitem
  rcases List.mem_append.mp hitem with hnew | hitem
  · exact absurd (hbegun item hnew) hgone
  · exact hitem

/-- The item of the scan that goes on has been begun, and its scan has not ended. -/
theorem Scanned.going_on (hnumbered : Numbered worker ledger) (h : Scanned worker shutdown ledger)
    {item : Assignment} (hitem : worker.scanning? = some item) :
    item ∈ begun ledger ∧ item ∉ (ended ledger).map Prod.fst := by
  have hscans := h.scans
  have hnodup := h.sublist.nodup hnumbered.nodup
  rw [hitem] at hscans
  rw [hscans] at hnodup
  refine ⟨?_, (List.nodup_cons.mp hnodup).1⟩
  rw [hscans]
  exact List.mem_cons_self

theorem Overtaken.obeys (h : Overtaken worker ledger) (hnumbered : Numbered worker ledger)
    (hscanned : Scanned worker shutdown ledger) (sender : Nat) (order : WorkerOrder)
    (htakes : worker.takesOrders = true) :
    Overtaken (worker.obey order).2
      ((.obeyed sender order worker.current :: (order.acceptance worker.accepted).map .seen) ++ ledger) := by
  have hdeeds : (worker.obey order).2.deeds = [] :=
    (Worker.obey_deeds order worker).trans (Worker.deeds_of_takesOrders htakes)
  have hbegun : begun ((.obeyed sender order worker.current ::
      (order.acceptance worker.accepted).map .seen) ++ ledger) = begun ledger := by
    cases order <;> rfl
  -- a new item has a number that no item had before
  have hfresh : ∀ item ∈ accepted ledger, (worker.obey order).2.current ≠ some item := by
    intro item hitem hheld
    have hnumber := hnumbered.number_lt hitem
    cases order with
    | replace work =>
      obtain rfl : ⟨worker.accepted, work⟩ = item := by
        simpa [Worker.obey, Worker.accept] using hheld
      exact absurd hnumber (Nat.lt_irrefl _)
    | goIdle => simp [Worker.obey] at hheld
  refine ⟨?_, ?_, by simp [Worker.owed, hdeeds], by simp [hdeeds, Deed.Orderly], ?_⟩
  · intro hwaiting
    cases order <;> exact absurd hwaiting (Worker.interrupt_phase_ne_waiting _)
  · intro item other hscan hheld
    rw [Worker.obey_scanning?] at hscan
    cases order with
    | replace work =>
      obtain rfl : ⟨worker.accepted, work⟩ = other := by
        simpa [Worker.obey, Worker.accept] using hheld
      refine .inr ⟨?_, sender, worker.current, ledger, List.suffix_rfl, hscanned.going_on hnumbered hscan⟩
      rw [hbegun]
      exact fun hother => hfresh _ (hscanned.sublist.subset hother) hheld
    | goIdle => simp [Worker.obey] at hheld
  · intro sender' order' item older hsuffix
    rcases List.suffix_cons_iff.mp hsuffix with hfirst | hlater
    · -- the item that this very order hands back
      obtain ⟨hentry, htail⟩ := List.cons.inj hfirst
      have holder : older = (order.acceptance worker.accepted).map .seen ++ ledger := htail
      obtain ⟨-, -, hcurrent⟩ := Entry.obeyed.inj hentry
      have haccepted : item ∈ accepted ledger :=
        List.mem_of_mem_head? (hnumbered.latest item hcurrent.symm)
      refine ⟨hfresh item haccepted, ?_, fun hitem => ?_⟩
      · rw [accepted_append]
        exact List.mem_append_right _ haccepted
      · have hended : ended ((order.acceptance worker.accepted).map .seen ++ ledger) = ended ledger := by
          cases order <;> rfl
        have hstill : begun ((order.acceptance worker.accepted).map .seen ++ ledger) = begun ledger := by
          cases order <;> rfl
        rw [hbegun] at hitem
        rw [holder, hended, hstill]
        rcases Worker.scanning_or_waiting htakes with hwaiting | ⟨scanned, hscan⟩
        · cases hcurrent.trans (h.waiting hwaiting)
        · rcases h.scanning scanned item hscan hcurrent.symm with rfl | hnewcomer
          · exact hscanned.going_on hnumbered hscan
          · exact absurd hitem hnewcomer.1
    · have hlater : (.obeyed sender' order' (some item) :: older) <:+ ledger :=
        suffix_of_not_mem (by simp) hlater
      obtain ⟨-, haccepted, hscan⟩ := h.displaced sender' order' item older hlater
      refine ⟨hfresh item haccepted, ?_, fun hitem => hscan (hbegun ▸ hitem)⟩
      rw [accepted_append]
      exact List.mem_append_right _ haccepted

theorem Turn.overtaken (hnumbered : Numbered worker ledger) (hscanned : Scanned worker shutdown ledger)
    (h : Overtaken worker ledger) (hturn : Turn worker shutdown owned entries next) :
    Overtaken next (entries ++ ledger) := by
  cases hturn with
  | quiet hsent hnext =>
    subst hnext
    have hsilent := (unremarkable_of_sent hsent).begun
    have hnone : ∀ sender order displaced, .obeyed sender order displaced ∉ entries := by
      intro sender order displaced hobeyed
      obtain ⟨_, _, hentry⟩ := hsent _ hobeyed
      cases hentry
    have hkept : ∀ {item other}, Newcomer item other ledger → Newcomer item other (entries ++ ledger) :=
      fun hnewcomer => hnewcomer.append (by simp [hsilent])
    exact ⟨h.waiting, fun item other hscan hheld => (h.scanning item other hscan hheld).imp_right hkept,
      fun item hashes other howed hheld => (h.owed item hashes other howed hheld).imp_right hkept,
      h.orderly, h.displaced_append hnone (fun _ => id) (by simp [hsilent])⟩
  | rests hbefore hafter hcurrent =>
    have hidle : next.scanning? = none ∧ next.deeds = [] := by
      rcases hafter with ⟨hphase, -⟩ | hphase <;> simp [Worker.scanning?, Worker.deeds, hphase]
    refine ⟨fun hwaiting => ?_, by simp [hidle.1], by simp [Worker.owed, hidle.2],
      by simp [hidle.2, Deed.Orderly],
      h.displaced_append (by simp) (fun item hitem => hcurrent ▸ hitem) (by simp [Ledger.begun])⟩
    rcases hafter with ⟨-, hnone⟩ | hstopped
    · exact hcurrent.trans hnone
    · cases hwaiting.symm.trans hstopped
  | @begins item now _ hshutdown hdeciding hitem hphase hcurrent =>
    have hscan : next.scanning? = some item ∧ next.deeds = [] := by
      simp [Worker.scanning?, Worker.deeds, hphase]
    refine ⟨by simp [hphase], fun begun other hbegun hheld => .inl ?_, by simp [Worker.owed, hscan.2],
      by simp [hscan.2, Deed.Orderly], h.displaced_append (by simp) (fun _ hheld => hcurrent ▸ hheld) ?_⟩
    · obtain rfl := Option.some.inj (hscan.1.symm.trans hbegun)
      exact Option.some.inj ((hheld.symm.trans hcurrent).trans hitem)
    · intro begun hbegun
      obtain rfl : begun = item := by simpa [Ledger.begun, Entry.begun?] using hbegun
      exact hitem
  | obeys sender order htakes => exact h.obeys hnumbered hscanned sender order htakes
  | orphaned htakes =>
    have hnone : worker.orphan.current = none := Worker.interrupt_current _
    have hsame : worker.orphan.deeds = worker.deeds := Worker.interrupt_deeds _
    have hdeeds : worker.orphan.deeds = [] := hsame.trans (Worker.deeds_of_takesOrders htakes)
    exact ⟨fun _ => hnone, by simp [hnone], by simp [hnone], by simp [hdeeds, Deed.Orderly],
      h.displaced_append (by simp) (by simp [hnone]) (by simp [Ledger.begun])⟩
  | @ends item began restarted result elapsed hphase =>
    have hconcludes := worker.scanned_concludes item result elapsed
    have hscan : worker.scanning? = some item := by simp [Worker.scanning?, hphase]
    obtain ⟨-, deeds, hdeeds⟩ := worker.scanned_cases item result elapsed
    refine ⟨by simp [hdeeds], by simp [hconcludes.scanning?], ?_, worker.scanned_orderly item result elapsed,
      h.displaced_append (by simp) hconcludes.kept (by simp [Ledger.begun, Entry.begun?])⟩
    intro owed hashes other howed hheld
    obtain rfl : owed = item := by
      rw [hconcludes.owed] at howed
      cases hhashes : completionHashes? result <;> simp_all
    exact (h.scanning owed other hscan (hconcludes.kept other hheld)).imp_right
      fun hnewcomer => hnewcomer.append (by simp [Ledger.begun, Entry.begun?])
  | acts temperature hphase =>
    have hacts := Worker.act_acts temperature hphase
    have hbegun := (emitted_entries (worker.act temperature).1).2.1
    obtain ⟨horderly, -⟩ := Worker.act_orderly temperature hphase h.orderly
    refine ⟨?_, by simp [hacts.scanning?], ?_, horderly,
      h.displaced_append (by simp) (fun item hitem => (hacts.kept item hitem).1) (by simp [hbegun])⟩
    · intro hwaiting
      obtain ⟨-, -, hdone | ⟨rest, hrest, -⟩⟩ := Worker.act_cases temperature hphase
      · cases hdone.symm.trans hwaiting
      · cases hrest.symm.trans hwaiting
    · intro item hashes other howed hheld
      have hbefore : (item, hashes) ∈ worker.owed := by
        rw [hacts.owed]
        exact List.mem_append_right _ howed
      exact (h.owed item hashes other hbefore (hacts.kept other hheld).1).imp_right
        fun hnewcomer => hnewcomer.append (by simp [hbegun])

/-! ### Histories -/

section Histories

variable {δ : Type} {bench : Bench δ} {config : ScanConfig} {place after : Workplace δ}

theorem Records.overtaken (h : (fresh bench config).Records place ledger) :
    Overtaken place.worker ledger := by
  induction h with
  | start => exact ⟨nofun, nofun, nofun, trivial, fun _ _ _ _ hsuffix => by simp at hsuffix⟩
  | move move hrecords hmove ih =>
    have haccounts := hrecords.accounts
    exact (hrecords.heeds.turn hmove).overtaken haccounts.numbered haccounts.scanned ih

/-- An event is emitted only by a deed. -/
theorem Turn.of_emitted {event : WorkerEvent} (hevent : .seen (.emitted event) ∈ entries)
    (hturn : Turn worker shutdown owned entries next) :
    ∃ left temperature, worker.phase = .acting left ∧ (worker.act temperature).1 = some event ∧
      next = (worker.act temperature).2 := by
  cases hturn with
  | quiet hsent =>
    obtain ⟨_, _, hentry⟩ := hsent _ hevent
    cases hentry
  | rests => cases hevent
  | begins => simp at hevent
  | obeys sender order => cases order <;> simp [WorkerOrder.acceptance] at hevent
  | orphaned => cases hevent
  | ends => simp at hevent
  | acts temperature hphase => exact ⟨_, temperature, hphase, by simpa using hevent, rfl⟩

theorem Accounts.completed_of_mem (h : place.Accounts ledger) {item : Assignment}
    (hitem : item ∈ (completed ledger).map Prod.fst) :
    item ∈ begun ledger ∧
      ∃ result, (item, result) ∈ ended ledger ∧ (completionHashes? result).isSome := by
  obtain ⟨⟨found, hashes⟩, hcompleted, rfl⟩ := List.mem_map.mp hitem
  have husedUp : (found, hashes) ∈ usedUp ledger := by
    rw [← h.balance.completions]
    exact List.mem_append_right _ hcompleted
  obtain ⟨⟨_, result⟩, hended, hhashes⟩ := List.mem_filterMap.mp husedUp
  obtain ⟨_, hsome, hpair⟩ := Option.map_eq_some_iff.mp hhashes
  obtain ⟨rfl, rfl⟩ := Prod.mk.inj hpair
  refine ⟨?_, result, hended, by simp [hsome]⟩
  rw [h.scanned.scans]
  exact List.mem_append_right _ (List.mem_map_of_mem hended)

/-- What can be said of displaced items. One that was handed back is completed afterwards only if its scan
    was going on at the time and has ended by itself since, and no more than once. When a completion is
    announced, the worker does not hold the item any more, and it holds no other unless that has come in
    the middle of the scan that is over. -/
theorem displaced_items_complete_by_running_scans (h : (fresh bench config).Records place ledger) :
    (∀ newer older sender order item, ledger = newer ++ .obeyed sender order (some item) :: older →
      item ∈ (completed newer).map Prod.fst →
        item ∈ begun older ∧ item ∉ (ended older).map Prod.fst ∧
        (∃ result, (item, result) ∈ ended newer ∧ (completionHashes? result).isSome) ∧
        ((completed ledger).map Prod.fst).count item = 1) ∧
    (∀ move after item hashes,
      place.perform? move = some ([.emitted (.complete item hashes)], after) →
        after.worker.current = place.worker.current ∧ place.worker.current ≠ some item ∧
        ∀ other, place.worker.current = some other → Newcomer item other ledger) := by
  have haccounts := h.accounts
  have hovertaken := h.overtaken
  constructor
  · intro newer older sender order item hsplit hitem
    have hledger : item ∈ (completed ledger).map Prod.fst := by
      rw [hsplit, completed_append, List.map_append]
      exact List.mem_append_left _ hitem
    obtain ⟨hbegun, result, hended, hsome⟩ := haccounts.completed_of_mem hledger
    obtain ⟨-, -, hscan⟩ := hovertaken.displaced sender order item older ⟨newer, hsplit.symm⟩
    obtain ⟨hbefore, hgoing⟩ := hscan hbegun
    refine ⟨hbefore, hgoing, ⟨result, ?_, hsome⟩, ?_⟩
    · rw [hsplit, ended_append] at hended
      rcases List.mem_append.mp hended with hnewer | holder
      · exact hnewer
      · exact absurd (List.mem_map_of_mem holder) hgoing
    · have hnodup := haccounts.completed_nodup
      rw [List.map_append] at hnodup
      exact List.count_eq_one_of_mem (List.nodup_append.mp hnodup).2.1 hledger
  · intro move after item hashes hmove
    obtain ⟨left, temperature, hphase, hemits, hnext⟩ :=
      (h.heeds.turn hmove).of_emitted (seen_mem_entries hmove List.mem_cons_self)
    have hacts := Worker.act_acts temperature hphase
    have hheld := (Worker.act_orderly temperature hphase hovertaken.orderly).2 _ hemits item hashes rfl
    have howed : (item, hashes) ∈ place.worker.owed := by
      rw [hacts.owed, hemits]
      exact List.mem_cons_self
    refine ⟨?_, hheld, fun other hother => ?_⟩
    · rw [hnext]
      exact Worker.act_current_of_emits hphase hemits
    · rcases hovertaken.owed item hashes other howed hother with rfl | hnewcomer
      · exact absurd hother hheld
      · exact hnewcomer

end Histories

/-! A scan that finds its result after its item has been handed back, before the token is looked at. -/

def firstItem : Assignment := ⟨0, ⟨Bytes.zero 32, Bytes.zero 12, 0⟩⟩

def secondItem : Assignment := ⟨1, ⟨Bytes.zero 32, Bytes.zero 12, 1⟩⟩

def overtakenScan : List (Move ScriptedDevice) :=
  List.flatten [[.send (.replace firstItem.work), .decide, .takeOrder, .decide],
    List.replicate 7 .advanceScan, [.send (.replace secondItem.work), .takeOrder],
    List.replicate 4 .advanceScan, [.finishScan, .act]]

theorem overtakenScan_records :
    ∃ (place after : Workplace ScriptedDevice) (ledger newer older : List Entry) (order : WorkerOrder),
      (fresh punctualBench {}).Records place ledger ∧
      ledger = newer ++ .obeyed 1 order (some firstItem) :: older ∧
      place.perform? .act = some ([.emitted (.complete firstItem 0)], after) ∧
      after.worker.current = some secondItem := by
  have hrun : ((fresh punctualBench {}).record overtakenScan []).any (fun reached =>
      decide (reached.1.answers.head? = some (1, some firstItem)) &&
        decide ((reached.1.worker.act reached.1.bench.temperature).1 = some (.complete firstItem 0)) &&
        reached.1.act?.any fun after => decide (after.worker.current = some secondItem)) = true := by
    decide +kernel
  obtain ⟨⟨place, ledger⟩, hrecord, hseen⟩ := (Option.any_eq_true _ _).mp hrun
  simp only [Bool.and_eq_true, decide_eq_true_eq, Option.any_eq_true] at hseen
  obtain ⟨⟨hanswer, hemits⟩, after, hact, hcurrent⟩ := hseen
  have hrecords := Records.start.record hrecord
  have hobeyed := List.mem_of_mem_head? hanswer
  rw [hrecords.accounts.posted.answers] at hobeyed
  obtain ⟨⟨sender, order, displaced⟩, hentry, hsame⟩ := List.mem_map.mp hobeyed
  obtain ⟨rfl, rfl⟩ := Prod.mk.inj hsame
  obtain ⟨entry, hmem, hread⟩ := List.mem_filterMap.mp hentry
  obtain rfl : entry = .obeyed 1 order (some firstItem) := by
    cases entry with
    | obeyed sender told displaced =>
      obtain ⟨rfl, hrest⟩ := Prod.mk.inj (Option.some.inj hread)
      obtain ⟨rfl, rfl⟩ := Prod.mk.inj hrest
      rfl
    | _ => cases hread
  obtain ⟨newer, older, hsplit⟩ := List.append_of_mem hmem
  refine ⟨place, after, ledger, newer, older, order, hrecords, hsplit, ?_, hcurrent⟩
  simp only [perform?, hact, Option.map_some, emission, hemits]

/-- A completion may name an item that was handed back, and it may come while the worker holds another. -/
theorem displaced_item_may_be_completed :
    (¬ ∀ (place : Workplace ScriptedDevice) (ledger : List Entry),
      (fresh punctualBench {}).Records place ledger →
        ∀ newer older sender order item, ledger = newer ++ .obeyed sender order (some item) :: older →
          item ∉ (completed newer).map Prod.fst) ∧
    (¬ ∀ (place : Workplace ScriptedDevice) (ledger : List Entry),
      (fresh punctualBench {}).Records place ledger → ∀ move after item hashes,
        place.perform? move = some ([.emitted (.complete item hashes)], after) →
          after.worker.current = none) := by
  obtain ⟨place, after, ledger, newer, older, order, hrecords, hsplit, hmove, hcurrent⟩ :=
    overtakenScan_records
  constructor
  · intro hnever
    apply hnever after _ (.move .act hrecords hmove) (.seen (.emitted (.complete firstItem 0)) :: newer)
      older 1 order firstItem
    · rw [hsplit]
      rfl
    · exact List.mem_cons_self
  · intro hidle
    exact absurd (hcurrent.symm.trans (hidle place ledger hrecords .act after firstItem 0 hmove)) nofun

theorem first_item_completes_by_its_running_scan :
    ∃ (place : Workplace ScriptedDevice) (ledger newer older : List Entry) (order : WorkerOrder),
      (fresh punctualBench {}).Records place ledger ∧
      ledger = newer ++ .obeyed 1 order (some firstItem) :: older ∧
      firstItem ∈ (completed newer).map Prod.fst ∧
      firstItem ∈ begun older ∧ firstItem ∉ (ended older).map Prod.fst := by
  obtain ⟨place, after, ledger, newer, older, order, hrecords, hsplit, hmove, -⟩ :=
    overtakenScan_records
  have hafter : (fresh punctualBench {}).Records after
      (.seen (.emitted (.complete firstItem 0)) :: ledger) := .move .act hrecords hmove
  have hcompleted : firstItem ∈
      (completed (.seen (.emitted (.complete firstItem 0)) :: newer)).map Prod.fst := List.mem_cons_self
  have hwhole : .seen (.emitted (.complete firstItem 0)) :: ledger =
      (.seen (.emitted (.complete firstItem 0)) :: newer) ++ .obeyed 1 order (some firstItem) :: older := by
    rw [hsplit]
    rfl
  obtain ⟨hbegun, hgoing, -, -⟩ := (displaced_items_complete_by_running_scans hafter).1
    _ older 1 order firstItem hwhole hcompleted
  exact ⟨after, _, _, older, order, hafter, hwhole, hcompleted, hbegun, hgoing⟩

end Workplace

end NonceSearch
