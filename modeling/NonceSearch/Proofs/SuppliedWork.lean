import NonceSearch.Device.Script
import NonceSearch.Proofs.FeedingLoop

/-!
# Work is scanned in the order of its source

A dispatcher gives out the items of its source one by one, and whoever looks at the ledger of its worker
finds them there in the same order: an item is accepted only after all items before it have been scanned
to their ends (`Feeding.items_are_fed_one_by_one`).
-/

namespace NonceSearch

open Ledger

/-! ### Sources -/

namespace DemoSource

theorem take_succ (count : Nat) (source : DemoSource) :
    source.take (count + 1) = source.take count ++ [(advance^[count] source).item] := by
  induction count generalizing source with
  | zero => rfl
  | succ count ih =>
    rw [take, ih source.advance]
    rfl

/-- What comes first of a source's items is as many of them. -/
theorem eq_take_of_append {items rest : List WorkItem} {count : Nat} {source : DemoSource}
    (h : items ++ rest = source.take count) : items = source.take items.length := by
  induction items generalizing count source with
  | nil => rfl
  | cons item items ih =>
    cases count with
    | zero => cases h
    | succ count =>
      obtain ⟨rfl, hrest⟩ := List.cons.inj h
      exact congrArg _ (ih hrest)

end DemoSource

def WorkerOrder.work? : WorkerOrder → Option WorkItem
  | .replace work => some work
  | .goIdle => none

/-! ### What was accepted and what was scanned -/

namespace Workplace

section Turns

variable {worker next : Worker} {shutdown owned : Bool} {entries ledger : List Entry}

/-- An item is accepted by obeying the order that brings it. -/
theorem Turn.accepted_works (h : Turn worker shutdown owned entries next) :
    (accepted entries).map Assignment.work = (obeyed entries).filterMap (·.2.1.work?) := by
  cases h with
  | quiet hsent =>
    rw [(unremarkable_of_sent hsent).accepted, obeyed_of_sent hsent]
    rfl
  | rests | begins | orphaned | ends => rfl
  | obeys sender order => cases order <;> rfl
  | acts temperature => cases (worker.act temperature).1 <;> rfl

/-- An item is accepted in one turn, as the only thing that is seen of it. -/
theorem Turn.accepts (h : Turn worker shutdown owned entries next) :
    accepted entries = [] ∨ ∃ sender work, entries =
      [.obeyed sender (.replace work) worker.current, .seen (.accepted ⟨worker.accepted, work⟩)] := by
  cases h with
  | quiet hsent => exact .inl (unremarkable_of_sent hsent).accepted
  | rests | begins | orphaned | ends => exact .inl rfl
  | obeys sender order =>
    cases order with
    | replace work => exact .inr ⟨sender, work, rfl⟩
    | goIdle => exact .inl rfl
  | acts temperature => exact .inl (emitted_entries _).1

/-- A scan that nobody breaks off is used up. -/
theorem Turn.whole (h : Turn worker shutdown owned entries next) (hshutdown : shutdown = false)
    (huntold : ∀ item began restarted, worker.phase = .scanning item began restarted →
      restarted = false) :
    ∀ entry ∈ ended entries, completionHashes? entry.2 ≠ none := by
  cases h with
  | quiet hsent => simp [(unremarkable_of_sent hsent).ended]
  | rests | begins | orphaned => exact nofun
  | obeys sender order => cases order <;> exact nofun
  | @ends item began restarted result elapsed hphase hrestarted =>
    intro entry hentry
    obtain rfl := List.mem_singleton.mp hentry
    intro hnone
    obtain ⟨hashes, hresult⟩ := broken_off_of_completionHashes? hnone
    rcases hrestarted hashes hresult with htold | hend
    · exact absurd (htold.symm.trans (huntold item began restarted hphase)) nofun
    · exact absurd (hend.symm.trans hshutdown) nofun
  | acts temperature => simp [(emitted_entries _).2.2.1]

end Turns

variable {δ : Type} {bench : Bench δ} {config : ScanConfig} {place : Workplace δ}
  {ledger : List Entry}

theorem Records.accepted_works (h : (fresh bench config).Records place ledger) :
    (accepted ledger).map Assignment.work = (obeyed ledger).filterMap (·.2.1.work?) := by
  induction h with
  | start => rfl
  | move move hrecords hmove ih =>
    rw [accepted_append, obeyed_append, List.map_append, List.filterMap_append, ih,
      (hrecords.heeds.turn hmove).accepted_works]

theorem sent_entries {move : Move δ} {news : List Happening} (hown : move.isOwn = true) :
    Ledger.sent (place.entries move news) = [] := by
  obtain ⟨hseen, -⟩ := silent_seen news
  cases move with
  | takeOrder =>
    cases horders : place.orders with
    | nil =>
      simp only [entries, horders]
      rfl
    | cons =>
      simp only [entries, horders]
      exact hseen
  | send => cases hown
  | _ => exact hseen

theorem eq_of_sublist_of_subset {α : Type} {part whole : List α} (hnodup : whole.Nodup)
    (hsublist : part.Sublist whole) (hsubset : whole ⊆ part) : part = whole :=
  hsublist.eq_of_length_le (hnodup.subperm hsubset).length_le

/-- Where nothing is displaced, all items have been scanned but perhaps the present one. -/
theorem Accounts.begun_cases (h : place.Accounts ledger) (hshutdown : place.shutdown = false)
    (howned : place.owned = true) (hanswers : ∀ entry ∈ place.answers, entry.2 = none) :
    begun ledger = accepted ledger ∨
      ∃ item, place.worker.current = some item ∧ accepted ledger = item :: begun ledger := by
  have hbegun : ∀ item ∈ accepted ledger, place.worker.current = some item ∨ item ∈ begun ledger := by
    intro item hitem
    rcases h.kept.kept hshutdown howned item hitem with hheld | ⟨sender, order, hobeyed⟩ | husedUp
    · exact .inl hheld
    · exact absurd (hanswers _ (h.answers_of_obeyed hobeyed)) nofun
    · rw [h.scanned.scans]
      exact .inr (List.mem_append_right _ ((usedUp_sublist ledger).subset husedUp))
  have hnodup := h.numbered.nodup
  have hsublist := h.scanned.sublist
  cases haccepted : accepted ledger with
  | nil =>
    rw [haccepted] at hsublist
    exact .inl (List.sublist_nil.mp hsublist)
  | cons item earlier =>
    have hlatest : ∀ other, place.worker.current = some other → other = item := by
      intro other hother
      have hhead := h.numbered.latest other hother
      rw [haccepted] at hhead
      exact (Option.some.inj hhead).symm
    rw [haccepted] at hsublist hnodup hbegun
    by_cases hitem : item ∈ begun ledger
    · refine .inl (eq_of_sublist_of_subset hnodup hsublist fun other hother => ?_)
      rcases hbegun other hother with hheld | hother
      · rw [hlatest other hheld]
        exact hitem
      · exact hother
    · have hheld := (hbegun item List.mem_cons_self).resolve_right hitem
      have hearlier : (begun ledger).Sublist earlier := by
        rcases List.sublist_cons_iff.mp hsublist with hearlier | ⟨rest, hrest, -⟩
        · exact hearlier
        · exact absurd (hrest ▸ List.mem_cons_self) hitem
      obtain ⟨hnew, hnodup⟩ := List.nodup_cons.mp hnodup
      refine .inr ⟨item, hheld, congrArg _ ?_⟩
      refine (eq_of_sublist_of_subset hnodup hearlier fun other hother => ?_).symm
      refine (hbegun other (List.mem_cons_of_mem _ hother)).resolve_left fun hsame => ?_
      exact hnew (hlatest other hsame ▸ hother)

theorem usedUp_eq_ended (h : ∀ entry ∈ ended ledger, completionHashes? entry.2 ≠ none) :
    (usedUp ledger).map Prod.fst = (ended ledger).map Prod.fst := by
  unfold usedUp
  generalize ended ledger = scans at h ⊢
  induction scans with
  | nil => rfl
  | cons entry rest ih =>
    obtain ⟨hashes, hhashes⟩ := Option.ne_none_iff_exists'.mp (h entry List.mem_cons_self)
    rw [List.filterMap_cons, hhashes]
    exact congrArg _ (ih fun other hother => h other (List.mem_cons_of_mem _ hother))

theorem not_mem_of_accepted_eq_nil {entries : List Entry} (hnone : accepted entries = [])
    (item : Assignment) : .seen (.accepted item) ∉ entries := by
  intro hitem
  have haccepted : item ∈ accepted entries := List.mem_filterMap.mpr ⟨_, hitem, rfl⟩
  rw [hnone] at haccepted
  cases haccepted

/-- All items that have been accepted have been scanned to their ends. -/
structure Settled (ledger : List Entry) : Prop where
  begun : begun ledger = accepted ledger
  ended : (ended ledger).map Prod.fst = accepted ledger
  usedUp : (usedUp ledger).map Prod.fst = accepted ledger

end Workplace

/-! ### Feeding -/

namespace Feeding

open Workplace

variable {δ : Type} {bench : Bench δ} {config : ScanConfig} {name : String} {source : DemoSource}
  {feeding next : Feeding δ} {entries ledger : List Entry}

theorem Reached.whole (h : (opening bench config name source).Reached feeding ledger) :
    ∀ entry ∈ ended ledger, completionHashes? entry.2 ≠ none := by
  induction h with
  | start => exact nofun
  | @move before after older entries move hreached hmove ih =>
    have hsound := hreached.sound
    rw [ended_append]
    intro entry hentry
    rcases List.mem_append.mp hentry with hentry | hentry
    · cases perform?_goes hsound.fed hmove with
      | orders | learns | hears | wakes => cases hentry
      | works _ hplace =>
        have hturn := hsound.records.heeds.turn hplace
        refine hturn.whole hsound.fed.steady.shutdown (fun item began restarted hphase => ?_) entry hentry
        exact (hsound.fed.stage.scanning hphase).1
    · exact ih entry hentry

/-- A worker that holds nothing has scanned whatever it has accepted. -/
theorem Reached.settled_of_idle (h : (opening bench config name source).Reached feeding ledger)
    (hcurrent : feeding.place.worker.current = none) : Settled ledger := by
  obtain ⟨hrecords, hfed, -⟩ := h.sound
  have haccounts := hrecords.accounts
  have hidle : feeding.place.worker.scanning? = none := by
    by_contra hscanning
    obtain ⟨item, hitem⟩ := Option.ne_none_iff_exists'.mp hscanning
    obtain ⟨began, restarted, hphase⟩ := Worker.phase_of_scanning? hitem
    exact absurd (hcurrent.symm.trans (hfed.stage.scanning hphase).2.2.2.1) nofun
  have hbegun : begun ledger = accepted ledger := by
    rcases haccounts.begun_cases hfed.steady.shutdown hfed.steady.owned hfed.steady.answers with
      hsame | ⟨item, hheld, -⟩
    · exact hsame
    · exact absurd (hcurrent.symm.trans hheld) nofun
  have hended : (ended ledger).map Prod.fst = accepted ledger := by
    rw [← hbegun, haccounts.scanned.scans, hidle]
    rfl
  exact ⟨hbegun, hended, (usedUp_eq_ended h.whole).trans hended⟩

/-- An item is accepted when all items before it have been scanned to their ends. -/
theorem Reached.settled (h : (opening bench config name source).Reached feeding ledger)
    {item : Assignment} {older : List Entry}
    (hitem : (.seen (.accepted item) :: older) <:+ ledger) : Settled older := by
  induction h with
  | start => simp at hitem
  | @move before after ledger entries move hreached hmove ih =>
    have hsound := hreached.sound
    have hgoes := perform?_goes hsound.fed hmove
    have hnext := hsound.goes hgoes
    cases hgoes with
    | orders => exact ih (suffix_of_not_mem (not_mem_of_accepted_eq_nil rfl _) hitem)
    | learns | hears | wakes => exact ih hitem
    | works _ hplace =>
      rcases (hsound.records.heeds.turn hplace).accepts with hnone | ⟨sender, work, hentries⟩
      · exact ih (suffix_of_not_mem (not_mem_of_accepted_eq_nil hnone _) hitem)
      · rw [hentries] at hitem hnext
        rcases List.suffix_cons_iff.mp hitem with hfirst | hitem
        · exact absurd (List.cons.inj hfirst).1 nofun
        rcases List.suffix_cons_iff.mp hitem with hwhole | hitem
        · -- the answer tells what the order has found in the worker's hands
          obtain ⟨-, rfl⟩ := List.cons.inj hwhole
          have hanswer := hnext.records.accounts.answers_of_obeyed List.mem_cons_self
          exact hreached.settled_of_idle (hnext.fed.steady.answers _ hanswer)
        · exact ih hitem

/-- What has been given out is what has been accepted, with the order that waits. -/
structure Supplied (source : DemoSource) (issued : Nat) (feeding : Feeding δ) (ledger : List Entry) :
    Prop where
  advanced : feeding.dispatcher.source = DemoSource.advance^[issued] source
  sent : (Ledger.sent ledger).reverse.map Prod.snd = (source.take issued).map .replace

theorem Reached.supplied (h : (opening bench config name source).Reached feeding ledger) :
    ∃ issued, Supplied source issued feeding ledger := by
  induction h with
  | start => exact ⟨0, rfl, rfl⟩
  | @move before after ledger entries move hreached hmove ih =>
    obtain ⟨issued, hsource, horders⟩ := ih
    have hsound := hreached.sound
    cases perform?_goes hsound.fed hmove with
    | orders =>
      refine ⟨issued + 1, ?_, ?_⟩
      · rw [Function.iterate_succ_apply', ← hsource]
      · rw [DemoSource.take_succ, List.map_append, ← horders, ← hsource]
        simp [Ledger.sent, Entry.sent?]
    | learns => exact ⟨issued, hsource, horders⟩
    | hears => exact ⟨issued, (Dispatcher.heard_source _ _ _).trans hsource, horders⟩
    | wakes => exact ⟨issued, hsource, horders⟩
    | works hown hplace =>
      refine ⟨issued, hsource, ?_⟩
      rw [sent_append, sent_entries hown, List.nil_append]
      exact horders

/-- Whatever the source has given out has been accepted, or is in the order that waits. -/
theorem Supplied.accepted_or_waiting {issued : Nat} (h : Supplied source issued feeding ledger)
    (hrecords : (fresh bench config).Records feeding.place ledger) :
    (accepted ledger).reverse.map Assignment.work ++
      feeding.place.orders.filterMap (·.2.work?) = source.take issued := by
  have hworks : (accepted ledger).reverse.map Assignment.work =
      ((obeyed ledger).reverse.map fun entry => (entry.1, entry.2.1)).filterMap (·.2.work?) := by
    rw [List.map_reverse, hrecords.accepted_works, List.filterMap_map, List.filterMap_reverse]
    rfl
  have hsent : (Ledger.sent ledger).reverse.filterMap (·.2.work?) = source.take issued := by
    have hmap := congrArg (List.filterMap WorkerOrder.work?) h.sent
    rw [List.filterMap_map, List.filterMap_map] at hmap
    exact hmap.trans List.filterMap_some
  rw [hworks, ← List.filterMap_append, ← hrecords.accounts.posted.orders, hsent]

/-- The items that have been begun are the first ones of the source. -/
theorem Reached.begun_works (h : (opening bench config name source).Reached feeding ledger) :
    (begun ledger).reverse.map Assignment.work = source.take (begun ledger).length := by
  obtain ⟨issued, hsupplied⟩ := h.supplied
  obtain ⟨hrecords, hfed, -⟩ := h.sound
  have hissued := hsupplied.accepted_or_waiting hrecords
  have hfirst : ∃ rest, (begun ledger).reverse.map Assignment.work ++ rest = source.take issued := by
    rcases hrecords.accounts.begun_cases hfed.steady.shutdown hfed.steady.owned hfed.steady.answers with
      hsame | ⟨item, -, hlast⟩
    · exact ⟨_, hsame ▸ hissued⟩
    · rw [hlast, List.reverse_cons, List.map_append, List.append_assoc] at hissued
      exact ⟨_, hissued⟩
  obtain ⟨rest, hrest⟩ := hfirst
  simpa using DemoSource.eq_take_of_append hrest

/-- A dispatcher and its worker, on any device and in any order of events, as long as the end has not been
    called. Whatever the source has given out has been accepted or is in the order that waits, and the
    items that are scanned are the first ones of the source, in order and each once. Each item is accepted
    when all items before it have been scanned to their ends. Every order is carried out and displaces
    nothing, and no scan is broken off. At most four events wait, so the worker can always do its next
    deed, and it never waits in vain. -/
theorem items_are_fed_one_by_one (h : (opening bench config name source).Reached feeding ledger) :
    ((∃ issued, feeding.dispatcher.source = DemoSource.advance^[issued] source ∧
        (accepted ledger).reverse.map Assignment.work ++
          feeding.place.orders.filterMap (·.2.work?) = source.take issued) ∧
      (begun ledger).reverse.map Assignment.work = source.take (begun ledger).length ∧
      (begun ledger).Nodup) ∧
    (∀ item older, (.seen (.accepted item) :: older) <:+ ledger → Settled older) ∧
    ((∀ sender result, Returned feeding.place sender result → result = .ok none) ∧
      feeding.dispatcher.phase ≠ .gone) ∧
    ((∀ item hashes, (item, .ok ⟨.restarted, hashes⟩) ∉ ended ledger) ∧
      ∀ item began restarted, feeding.place.worker.phase = .scanning item began restarted →
        feeding.place.worker.current = some item ∧
          ∃ run, feeding.place.scan = some run ∧ run.fires = none) ∧
    (feeding.place.events.length ≤ 4 ∧
      ∀ deeds, feeding.place.worker.phase = .acting deeds → ∃ after, feeding.place.act? = some after) ∧
    (feeding.place.worker.phase = .waiting → feeding.errand = .ordering ∨ feeding.place.orders ≠ [] ∨
      ∃ event ∈ feeding.place.events, Dispatcher.asksForWork event = true) := by
  obtain ⟨hrecords, hfed, hpresent⟩ := h.sound
  obtain ⟨issued, hsupplied⟩ := h.supplied
  have hgoing : feeding.place.isStopped = false := by
    simpa [isStopped] using hfed.steady.going
  refine ⟨⟨⟨issued, hsupplied.advanced, hsupplied.accepted_or_waiting hrecords⟩, h.begun_works,
    hrecords.accounts.begun_nodup⟩, fun item older hitem => h.settled hitem, ⟨?_, hpresent⟩, ⟨?_, ?_⟩,
    ⟨hfed.stage.events_length_le, fun deeds hphase => hfed.can_act hphase⟩, hfed.work_on_its_way⟩
  · intro sender result hreturned
    cases hreturned with
    | answered hanswer => exact congrArg _ (hfed.steady.answers _ hanswer)
    | unanswered hstopped => cases hstopped.symm.trans hgoing
    | refused hstopped => cases hstopped.symm.trans hgoing
  · intro item hashes hended
    exact h.whole _ hended rfl
  · intro item began restarted hphase
    obtain ⟨rfl, -, -, hcurrent, -⟩ := hfed.stage.scanning hphase
    obtain ⟨run, hrun, hheeds⟩ := hrecords.heeds item began false hphase
    refine ⟨hcurrent, run, hrun, ?_⟩
    by_contra hfires
    rcases hheeds.token hfires with htold | hend
    · cases htold
    · cases hend.symm.trans hfed.steady.shutdown

/-! The device has a result as soon as it is asked, and cannot be opened for the second item. The status
after the first item has not been heard when the second one is over, so four events wait. -/

def record : List (Move δ) → Feeding δ → List Entry → Option (Feeding δ × List Entry)
  | [], feeding, ledger => some (feeding, ledger)
  | move :: moves, feeding, ledger =>
    (feeding.perform? move).bind fun made => record moves made.2 (made.1 ++ ledger)

theorem Reached.record {start : Feeding δ} {moves : List (Move δ)} {last : Feeding δ × List Entry}
    (h : start.Reached feeding ledger) (hrecord : feeding.record moves ledger = some last) :
    start.Reached last.1 last.2 := by
  induction moves generalizing feeding ledger with
  | nil =>
    obtain rfl := Option.some.inj hrecord
    exact h
  | cons move moves ih =>
    obtain ⟨⟨entries, next⟩, hmove, hrest⟩ := Option.bind_eq_some_iff.mp hrecord
    exact ih (.move move h hmove) hrest

def failingBench : Bench ScriptedDevice where
  device := ScriptedDevice.device "failing" .mask
  state := { scripts := [{ records := [(0, .bytes (CompletionMessage.toBytes ⟨0x20, 0⟩))] },
    { openFailure := some .wouldBlock }] }

def slowHearing : List (Move ScriptedDevice) :=
  List.flatten [[.order, .worker .decide, .worker .takeOrder, .learn, .worker .decide],
    List.replicate 11 (.worker .advanceScan), [.worker .finishScan], List.replicate 5 (.worker .act),
    [.hear, .order, .worker .decide, .worker .takeOrder, .worker .decide, .worker .advanceScan,
      .worker .finishScan], List.replicate 3 (.worker .act), [.learn]]

theorem four_events_wait_after_failure :
    ∃ (feeding : Feeding ScriptedDevice) (ledger : List Entry),
      (opening failingBench {} "accelerator" ⟨0, 0⟩).Reached feeding ledger ∧
      feeding.place.events.length = 4 ∧ (begun ledger).length = 2 ∧
      (begun ledger).reverse.map Assignment.work = DemoSource.take 2 ⟨0, 0⟩ ∧
      (∀ item older, (.seen (.accepted item) :: older) <:+ ledger → Settled older) ∧
      Returned feeding.place 1 (.ok none) := by
  have hrun : ((opening failingBench {} "accelerator" ⟨0, 0⟩).record slowHearing []).any (fun reached =>
      reached.1.place.events.length == 4 && (begun reached.2).length == 2 &&
        (reached.1.place.answers.map Prod.fst).contains 1) = true := by
    decide +kernel
  obtain ⟨⟨feeding, ledger⟩, hrecord, hseen⟩ := (Option.any_eq_true _ _).mp hrun
  simp only [Bool.and_eq_true, beq_iff_eq, List.contains_iff_mem] at hseen
  obtain ⟨⟨hevents, hbegun⟩, hanswered⟩ := hseen
  have hreached := Reached.start.record hrecord
  obtain ⟨⟨-, hworks, -⟩, hsettled, ⟨hreturned, -⟩, -⟩ := items_are_fed_one_by_one hreached
  obtain ⟨⟨sender, displaced⟩, hanswer, rfl⟩ := List.mem_map.mp hanswered
  have hanswer : Returned feeding.place 1 (.ok displaced) := .answered hanswer
  refine ⟨feeding, ledger, hreached, hevents, hbegun, hbegun ▸ hworks, hsettled, ?_⟩
  exact hreturned 1 _ hanswer ▸ hanswer

end Feeding

end NonceSearch
