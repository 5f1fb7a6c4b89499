import NonceSearch.Proofs.WorkAccounts

/-!
# What a status update counts

The events of a worker come in groups, one for each scan that is over: perhaps one event about what the
scan has brought, then the completion of its item, unless the scan was broken off, then a status update.
While a worker reports, the group of its last scan is not complete yet (`Worker.Left`).

The counters of a worker move before the events that they count are emitted, and they are kept up with
the scans that are over, not with the events (`Worker.Counted`). At the end of a group that comes to the
same, and only there a status update is emitted. So what it says is what an observer can count.
-/

namespace NonceSearch

open Decimal (Binary64)

/-! ### Events and scans in a history -/

namespace WorkerEvent

def isShare : WorkerEvent → Bool
  | .share .. => true
  | _ => false

def isFalsePositive : WorkerEvent → Bool
  | .falsePositive .. => true
  | _ => false

def isFault : WorkerEvent → Bool
  | .fault _ => true
  | _ => false

def hashes : WorkerEvent → Nat
  | .complete _ hashes => hashes
  | _ => 0

end WorkerEvent

/-- A scan that is over, also if the device could not be opened for it. -/
structure EndedScan where
  item : Assignment
  result : Except DeviceError ScanReport

namespace EndedScan

/-- What is told first about a scan. -/
def headline? (scan : EndedScan) : Option WorkerEvent :=
  match scan.result with
  | .error cause => some (.fault cause.message)
  | .ok ⟨.found candidate, _⟩ =>
    if candidate.meetsTarget then some (.share scan.item candidate.nonce candidate.hash)
    else some (.falsePositive scan.item candidate.nonce)
  | .ok ⟨.faulted fault, _⟩ => some (.fault fault.message)
  | .ok ⟨.exhausted, _⟩ | .ok ⟨.noResult, _⟩ | .ok ⟨.restarted, _⟩ => none

/-- The completion of the item, unless the scan was broken off. -/
def completion? (scan : EndedScan) : Option WorkerEvent :=
  match scan.result with
  | .error _ => some (.complete scan.item 0)
  | .ok ⟨.restarted, _⟩ => none
  | .ok report => some (.complete scan.item report.hashes)

def announcements (scan : EndedScan) : List WorkerEvent :=
  scan.headline?.toList ++ scan.completion?.toList

def events (scan : EndedScan) (status : WorkerStatus) : List WorkerEvent :=
  scan.announcements ++ [.status status]

def hashes (scan : EndedScan) : Nat :=
  match scan.result with
  | .error _ => 0
  | .ok report => report.hashes

def restartedHashes (scan : EndedScan) : Nat :=
  match scan.result with
  | .ok ⟨.restarted, hashes⟩ => hashes
  | _ => 0

/-- What a scan has reported is announced with the completion of its item, if it was not broken off. -/
theorem hashes_eq (scan : EndedScan) :
    scan.hashes = (scan.announcements.map WorkerEvent.hashes).sum + scan.restartedHashes := by
  obtain ⟨item, result⟩ := scan
  cases result with
  | error cause => rfl
  | ok report =>
    obtain ⟨outcome, hashes⟩ := report
    cases outcome with
    | found candidate =>
      cases hmeets : candidate.meetsTarget <;>
        simp [EndedScan.hashes, announcements, headline?, completion?, restartedHashes, hmeets,
          WorkerEvent.hashes]
    | _ =>
      simp [EndedScan.hashes, announcements, headline?, completion?, restartedHashes,
        WorkerEvent.hashes]

end EndedScan

namespace Happening

def event? : Happening → Option WorkerEvent
  | .emitted event => some event
  | _ => none

def scan? : Happening → Option EndedScan
  | .ended item result => some ⟨item, result⟩
  | _ => none

def told (past : List Happening) : List WorkerEvent := (past.filterMap event?).reverse

def scans (past : List Happening) : List EndedScan := (past.filterMap scan?).reverse

@[simp] theorem told_append (news past : List Happening) : told (news ++ past) = told past ++ told news := by
  simp [told]

@[simp] theorem scans_append (news past : List Happening) :
    scans (news ++ past) = scans past ++ scans news := by
  simp [scans]

theorem mem_told {event : WorkerEvent} {past : List Happening} (h : .emitted event ∈ past) :
    event ∈ told past :=
  List.mem_reverse.mpr (List.mem_filterMap.mpr ⟨_, h, rfl⟩)

theorem told_eq_nil {news : List Happening} (h : ∀ event, .emitted event ∉ news) : told news = [] := by
  refine List.eq_nil_iff_forall_not_mem.mpr fun event hevent => ?_
  obtain ⟨happening, hmem, hsome⟩ := List.mem_filterMap.mp (List.mem_reverse.mp hevent)
  cases happening with
  | emitted other => exact h other hmem
  | _ => cases hsome

@[simp] theorem told_emitted (event : Option WorkerEvent) :
    told (event.toList.map .emitted) = event.toList := by
  cases event <;> rfl

@[simp] theorem scans_emitted (event : Option WorkerEvent) :
    scans (event.toList.map .emitted) = [] := by
  cases event <;> rfl

end Happening

open Happening (told scans)

/-- A status agrees with what has been seen before it. -/
structure WorkerStatus.Tallies (status : WorkerStatus) (past : List Happening) : Prop where
  shares : status.shares = (told past).countP WorkerEvent.isShare
  falsePositives : status.falsePositives = (told past).countP WorkerEvent.isFalsePositive
  errors : status.errors = (told past).countP WorkerEvent.isFault
  /-- All scans that have returned a report are counted. -/
  reported : status.totalHashes = ((scans past).map EndedScan.hashes).sum
  completed : status.totalHashes = ((told past).map WorkerEvent.hashes).sum +
    ((scans past).map EndedScan.restartedHashes).sum
  inactive : status.active = false
  /-- A temperature that has been known is not forgotten. -/
  temperature : ∀ earlier, .status earlier ∈ told past → earlier.temperature.isSome →
    status.temperature.isSome

abbrev EventGroup := EndedScan × WorkerStatus

def EventGroup.all (groups : List EventGroup) : List WorkerEvent :=
  groups.flatMap fun group => group.1.events group.2

/-- Whatever is counted that no status update adds to may be counted over the scans. -/
theorem EventGroup.measure_all (measure : List WorkerEvent → Nat)
    (happend : ∀ first second, measure (first ++ second) = measure first + measure second)
    (hstatus : ∀ status, measure [.status status] = 0) (groups : List EventGroup) :
    measure (all groups) = measure ((groups.map Prod.fst).flatMap EndedScan.announcements) := by
  induction groups with
  | nil => rfl
  | cons group groups ih =>
    have hall : all (group :: groups) = group.1.events group.2 ++ all groups := rfl
    rw [hall, List.map_cons, List.flatMap_cons, EndedScan.events]
    simp only [happend, hstatus, Nat.add_zero, ih]

def Deed.hashes : Deed → Nat
  | .sumUp hashes _ => hashes
  | _ => 0

namespace Worker

/-! ### What a worker has still to tell -/

/-- What is left to be done about a scan of which some announcements have been made, by a worker with a
    status: the other announcements, then the status, which may still have to be summed up. -/
inductive Left (scan : EndedScan) (status : WorkerStatus) :
    List WorkerEvent → List Deed → Prop where
  | summing (elapsed : Duration) : Left scan status scan.announcements [.sumUp scan.hashes elapsed]
  | closing : status.active = false →
    Left scan status scan.announcements [.emit (.status status)]
  | telling {part : List WorkerEvent} {deeds : List Deed} (event : WorkerEvent) :
    Left scan status (part ++ [event]) deeds → Left scan status part (.emit event :: deeds)
  | forgetting {part : List WorkerEvent} {deeds : List Deed} (item : Assignment) :
    Left scan status part deeds → Left scan status part (.forget item :: deeds)

variable {worker next : Worker} {scan : EndedScan} {status : WorkerStatus} {part : List WorkerEvent}
  {deeds : List Deed} {past news : List Happening}

theorem Left.isPrefix (h : Left scan status part deeds) : part <+: scan.announcements := by
  induction h with
  | summing elapsed => exact List.prefix_rfl
  | closing hinactive => exact List.prefix_rfl
  | telling event _ ih => exact (List.prefix_append _ _).trans ih
  | forgetting item _ ih => exact ih

/-- The group is not complete as long as anything is left. -/
theorem Left.ne_events (h : Left scan status part deeds) (last : WorkerStatus) :
    part ≠ scan.events last := by
  intro hpart
  have hlength := h.isPrefix.length_le
  rw [hpart, EndedScan.events, List.length_append, List.length_singleton] at hlength
  omega

/-- A worker that has just heard of the end of a scan has everything about it still to do. -/
theorem scanned_left (worker : Worker) (scan : EndedScan) (elapsed : Duration) :
    Left scan (worker.scanned scan.item scan.result elapsed).status []
      (worker.scanned scan.item scan.result elapsed).deeds := by
  obtain ⟨item, result⟩ := scan
  cases result with
  | error cause => exact .telling _ (.telling _ (.closing rfl))
  | ok report =>
    obtain ⟨outcome, hashes⟩ := report
    cases outcome with
    | found candidate =>
      obtain ⟨nonce, hash, meetsTarget⟩ := candidate
      cases meetsTarget with
      | true => exact .telling _ (.forgetting _ (.telling _ (.summing _)))
      | false => exact .telling _ (.forgetting _ (.telling _ (.summing _)))
    | faulted fault => exact .telling _ (.forgetting _ (.telling _ (.summing _)))
    | restarted => exact .summing _
    | exhausted => exact .forgetting _ (.telling _ (.summing _))
    | noResult => exact .forgetting _ (.telling _ (.summing _))

/-- What is counted when a scan is over: its announcements at once, its hashes with a later deed. -/
structure Counts (worker : Worker) (scan : EndedScan) (next : Worker) : Prop where
  shares : next.status.shares =
    worker.status.shares + scan.announcements.countP WorkerEvent.isShare
  falsePositives : next.status.falsePositives =
    worker.status.falsePositives + scan.announcements.countP WorkerEvent.isFalsePositive
  errors : next.status.errors = worker.status.errors + scan.announcements.countP WorkerEvent.isFault
  hashes : next.status.totalHashes + (next.deeds.map Deed.hashes).sum =
    worker.status.totalHashes + scan.hashes
  temperature : next.status.temperature = worker.status.temperature

theorem forget_status (worker : Worker) (item : Assignment) :
    (worker.forget item).status = worker.status := by
  unfold forget
  split <;> rfl

theorem scanned_counts (worker : Worker) (scan : EndedScan) (elapsed : Duration) :
    worker.Counts scan (worker.scanned scan.item scan.result elapsed) := by
  obtain ⟨item, result⟩ := scan
  cases result with
  | error cause =>
    have hstatus : (worker.scanned item (.error cause) elapsed).status =
        { worker.status with errors := worker.status.errors + 1, active := false } := by
      simp only [scanned, unopened, count, forget_status]
    have hdeeds : ((worker.scanned item (.error cause) elapsed).deeds.map Deed.hashes).sum = 0 := rfl
    constructor
    · rw [hstatus]; rfl
    · rw [hstatus]; rfl
    · rw [hstatus]; rfl
    · rw [hstatus, hdeeds]; rfl
    · rw [hstatus]
  | ok report =>
    obtain ⟨outcome, hashes⟩ := report
    have hdeeds : ((worker.scanned item (.ok ⟨outcome, hashes⟩) elapsed).deeds.map Deed.hashes).sum =
        hashes := by
      cases outcome with
      | found candidate =>
        cases hmeets : candidate.meetsTarget <;>
          simp [scanned, reported, account, closingDeeds, deeds, Deed.hashes, hmeets]
      | _ => simp [scanned, reported, account, closingDeeds, deeds, Deed.hashes]
    cases outcome with
    | found candidate =>
      obtain ⟨nonce, hash, meetsTarget⟩ := candidate
      cases meetsTarget with
      | true => exact ⟨rfl, rfl, rfl, congrArg (worker.status.totalHashes + ·) hdeeds, rfl⟩
      | false => exact ⟨rfl, rfl, rfl, congrArg (worker.status.totalHashes + ·) hdeeds, rfl⟩
    | _ => exact ⟨rfl, rfl, rfl, congrArg (worker.status.totalHashes + ·) hdeeds, rfl⟩

/-- The counters of a worker are those of all scans that are over, but for the hashes that are still to be
    summed up. -/
structure Counted (worker : Worker) (past : List Happening) : Prop where
  shares : worker.status.shares =
    ((scans past).flatMap EndedScan.announcements).countP WorkerEvent.isShare
  falsePositives : worker.status.falsePositives =
    ((scans past).flatMap EndedScan.announcements).countP WorkerEvent.isFalsePositive
  errors : worker.status.errors =
    ((scans past).flatMap EndedScan.announcements).countP WorkerEvent.isFault
  hashes : worker.status.totalHashes + (worker.deeds.map Deed.hashes).sum =
    ((scans past).map EndedScan.hashes).sum
  temperature : ∀ earlier, .status earlier ∈ told past → earlier.temperature.isSome →
    worker.status.temperature.isSome

/-- The events of a history are those of whole groups, but for the scan that the worker still reports. -/
inductive Grouped (worker : Worker) (past : List Happening) : Prop where
  | rested (groups : List EventGroup) : worker.deeds = [] → scans past = groups.map Prod.fst →
    told past = EventGroup.all groups → Grouped worker past
  | midway (groups : List EventGroup) (scan : EndedScan) (part : List WorkerEvent) :
    scans past = groups.map Prod.fst ++ [scan] → told past = EventGroup.all groups ++ part →
    Left scan worker.status part worker.deeds → Grouped worker past

/-! ### One move -/

/-- What becomes of a worker's report by a move, and what is seen of it. -/
inductive Passes (worker : Worker) : List Happening → Worker → Prop where
  | aside {news : List Happening} {next : Worker} : told news = [] → scans news = [] →
    next.deeds = worker.deeds → worker.deeds = [] ∨ next.status = worker.status →
    (∃ active, next.status = { worker.status with active := active }) → Passes worker news next
  | ends (scan : EndedScan) (elapsed : Duration) : worker.deeds = [] →
    Passes worker [.ended scan.item scan.result] (worker.scanned scan.item scan.result elapsed)
  | acts {deeds : List Deed} (temperature : Option Binary64) : worker.phase = .acting deeds →
    Passes worker ((worker.act temperature).1.toList.map .emitted) (worker.act temperature).2

theorem interrupt_status (worker : Worker) : worker.interrupt.status = worker.status := by
  unfold interrupt
  split <;> rfl

theorem obey_status (order : WorkerOrder) (worker : Worker) :
    (worker.obey order).2.status = worker.status := by
  cases order <;> exact interrupt_status _

theorem decide_status (worker : Worker) (shutdown : Bool) (now : Nat) :
    ∃ active, (worker.decide shutdown now).status = { worker.status with active := active } := by
  unfold decide
  split
  · exact ⟨_, rfl⟩
  · split
    · exact ⟨_, rfl⟩
    · split
      · exact ⟨_, rfl⟩
      · exact ⟨_, rfl⟩

theorem decide_deeds (worker : Worker) (shutdown : Bool) (now : Nat) :
    (worker.decide shutdown now).deeds = [] := by
  rcases worker.decide_phase shutdown now with hphase | hphase | ⟨item, -, hphase⟩ <;>
    simp [deeds, hphase]

/-- What neither tells anything nor ends a scan, by a worker that goes on as before. -/
theorem Passes.same {news : List Happening} (htold : told news = []) (hscans : scans news = [])
    (hnext : next = worker) : Passes worker news next := by
  subst hnext
  exact .aside htold hscans rfl (.inr rfl) ⟨_, rfl⟩

theorem status_not_mem_announcements (scan : EndedScan) (status : WorkerStatus) :
    .status status ∉ scan.announcements := by
  obtain ⟨item, result⟩ := scan
  cases result with
  | error cause => simp [EndedScan.announcements, EndedScan.headline?, EndedScan.completion?]
  | ok report =>
    obtain ⟨outcome, hashes⟩ := report
    cases outcome with
    | found candidate =>
      cases hmeets : candidate.meetsTarget <;>
        simp [EndedScan.announcements, EndedScan.headline?, EndedScan.completion?, hmeets]
    | _ => simp [EndedScan.announcements, EndedScan.headline?, EndedScan.completion?]

/-- A deed brings the report of a scan forward: it completes the group with the status as it is, or it
    makes at most one more announcement. -/
theorem Left.act (h : Left scan worker.status part deeds) (hphase : worker.phase = .acting deeds)
    (temperature : Option Binary64) :
    ((worker.act temperature).1 = some (.status worker.status) ∧ worker.status.active = false ∧
      part = scan.announcements ∧ deeds.map Deed.hashes = [0] ∧
      (worker.act temperature).2.deeds = []) ∨
    ((∀ status, (worker.act temperature).1 ≠ some (.status status)) ∧
      Left scan (worker.act temperature).2.status (part ++ (worker.act temperature).1.toList)
        (worker.act temperature).2.deeds) := by
  cases h with
  | summing elapsed =>
    refine .inr ?_
    simp only [Worker.act, hphase]
    refine ⟨by simp, ?_⟩
    rw [Option.toList_none, List.append_nil]
    exact .closing rfl
  | closing hinactive =>
    refine .inl ?_
    rw [Worker.act, hphase]
    exact ⟨rfl, hinactive, rfl, rfl, rfl⟩
  | @telling _ rest event hleft =>
    refine .inr ?_
    simp only [Worker.act, hphase]
    refine ⟨?_, hleft⟩
    rintro status ⟨⟩
    have hmem : .status status ∈ part ++ [.status status] := by simp
    exact status_not_mem_announcements scan status (hleft.isPrefix.subset hmem)
  | @forgetting _ rest item hleft =>
    refine .inr ?_
    simp only [Worker.act, hphase]
    refine ⟨by simp, ?_⟩
    rw [Option.toList_none, List.append_nil]
    exact (forget_status worker item).symm ▸ hleft

/-- The counters of a worker stay as they are, and no hashes get lost. -/
structure Holds (worker next : Worker) : Prop where
  shares : next.status.shares = worker.status.shares
  falsePositives : next.status.falsePositives = worker.status.falsePositives
  errors : next.status.errors = worker.status.errors
  hashes : next.status.totalHashes + (next.deeds.map Deed.hashes).sum =
    worker.status.totalHashes + (worker.deeds.map Deed.hashes).sum
  temperature : worker.status.temperature.isSome → next.status.temperature.isSome

theorem Holds.of_status {active : Bool} (hdeeds : next.deeds = worker.deeds)
    (hstatus : next.status = { worker.status with active := active }) : worker.Holds next := by
  constructor
  · rw [hstatus]
  · rw [hstatus]
  · rw [hstatus]
  · rw [hstatus, hdeeds]
  · rw [hstatus]
    exact id

theorem act_holds (temperature : Option Binary64) (hphase : worker.phase = .acting deeds) :
    worker.Holds (worker.act temperature).2 := by
  have hdeeds : worker.deeds = deeds := by simp [Worker.deeds, hphase]
  rcases deeds with _ | ⟨deed, rest⟩
  · simp only [Worker.act, hphase]
    exact ⟨rfl, rfl, rfl, by rw [hdeeds]; rfl, id⟩
  · cases deed with
    | emit event =>
      simp only [Worker.act, hphase]
      refine ⟨rfl, rfl, rfl, ?_, id⟩
      rw [hdeeds]
      simp [Worker.deeds, Deed.hashes]
    | forget item =>
      simp only [Worker.act, hphase]
      have hstatus : { worker.forget item with phase := .acting rest }.status = worker.status :=
        forget_status worker item
      refine ⟨by rw [hstatus], by rw [hstatus], by rw [hstatus], ?_, by rw [hstatus]; exact id⟩
      rw [hstatus, hdeeds]
      simp [Worker.deeds, Deed.hashes]
    | sumUp hashes elapsed =>
      simp only [Worker.act, hphase]
      refine ⟨rfl, rfl, rfl, ?_, ?_⟩
      · rw [hdeeds]
        simp [Worker.deeds, Deed.hashes, sumUp, Nat.add_assoc]
      · intro hsome
        cases temperature <;> simp [sumUp, hsome]

theorem Counted.holds (h : Counted worker past) (hholds : worker.Holds next)
    (hscans : scans news = []) (htold : ∀ status, .status status ∈ told news → status = worker.status) :
    Counted next (news ++ past) := by
  have hsame : scans (news ++ past) = scans past := by simp [hscans]
  refine ⟨?_, ?_, ?_, ?_, ?_⟩
  · rw [hsame, ← h.shares, hholds.shares]
  · rw [hsame, ← h.falsePositives, hholds.falsePositives]
  · rw [hsame, ← h.errors, hholds.errors]
  · rw [hsame, ← h.hashes, hholds.hashes]
  · intro earlier hearlier hsome
    rw [Happening.told_append] at hearlier
    rcases List.mem_append.mp hearlier with hbefore | hnow
    · exact hholds.temperature (h.temperature earlier hbefore hsome)
    · rw [htold earlier hnow] at hsome
      exact hholds.temperature hsome

theorem Counted.ended (h : Counted worker past) (hdeeds : worker.deeds = [])
    (hcounts : worker.Counts scan next) :
    Counted next ([.ended scan.item scan.result] ++ past) := by
  have hsame : told ([.ended scan.item scan.result] ++ past) = told past := by
    rw [Happening.told_append]
    exact List.append_nil _
  have hscans : scans ([.ended scan.item scan.result] ++ past) = scans past ++ [scan] := by
    rw [Happening.scans_append]
    rfl
  have hhashes := h.hashes
  rw [hdeeds, List.map_nil, List.sum_nil, Nat.add_zero] at hhashes
  refine ⟨?_, ?_, ?_, ?_, ?_⟩
  · rw [hscans, hcounts.shares, h.shares]
    simp
  · rw [hscans, hcounts.falsePositives, h.falsePositives]
    simp
  · rw [hscans, hcounts.errors, h.errors]
    simp
  · rw [hscans, hcounts.hashes, hhashes]
    simp
  · intro earlier hearlier hsome
    rw [hcounts.temperature]
    exact h.temperature earlier (hsame ▸ hearlier) hsome

/-- At the end of a group the counters agree with what has been told. -/
theorem Counted.tallies (h : Counted worker past) {groups : List EventGroup}
    (hscans : scans past = groups.map Prod.fst ++ [scan])
    (htold : told past = EventGroup.all groups ++ scan.announcements)
    (hinactive : worker.status.active = false) (hdeeds : worker.deeds.map Deed.hashes = [0]) :
    worker.status.Tallies past := by
  have hmeasure : ∀ measure : List WorkerEvent → Nat,
      (∀ first second, measure (first ++ second) = measure first + measure second) →
      (∀ status, measure [.status status] = 0) →
      measure (told past) = measure ((scans past).flatMap EndedScan.announcements) := by
    intro measure happend hstatus
    rw [htold, hscans, List.flatMap_append, happend, happend,
      EventGroup.measure_all measure happend hstatus]
    simp
  have hhashes := h.hashes
  rw [hdeeds] at hhashes
  have hcompleted : ((scans past).map EndedScan.hashes).sum =
      (((scans past).flatMap EndedScan.announcements).map WorkerEvent.hashes).sum +
        ((scans past).map EndedScan.restartedHashes).sum := by
    induction scans past with
    | nil => rfl
    | cons first rest ih =>
      simp only [List.map_cons, List.sum_cons, List.flatMap_cons, List.map_append, List.sum_append, ih,
        first.hashes_eq]
      omega
  refine ⟨?_, ?_, ?_, by simpa using hhashes, ?_, hinactive, h.temperature⟩
  · rw [h.shares, hmeasure (List.countP WorkerEvent.isShare) (fun _ _ => List.countP_append) fun _ => rfl]
  · rw [h.falsePositives, hmeasure (List.countP WorkerEvent.isFalsePositive)
      (fun _ _ => List.countP_append) fun _ => rfl]
  · rw [h.errors, hmeasure (List.countP WorkerEvent.isFault) (fun _ _ => List.countP_append) fun _ => rfl]
  · rw [hmeasure (fun events => (events.map WorkerEvent.hashes).sum) (fun _ _ => by simp)
      fun _ => rfl, ← hcompleted]
    simpa using hhashes

theorem Left.ne_nil (h : Left scan status part deeds) : deeds ≠ [] := by
  cases h <;> exact List.cons_ne_nil _ _

/-- After a move the events are still those of groups. -/
theorem Grouped.passes (h : Grouped worker past) (hpasses : Passes worker news next) :
    Grouped next (news ++ past) := by
  cases hpasses with
  | aside htold hscans hdeeds hstatus _ =>
    have htoldSame : told (news ++ past) = told past := by simp [htold]
    have hscansSame : scans (news ++ past) = scans past := by simp [hscans]
    cases h with
    | rested groups hrest hover hsaid =>
      exact .rested groups (hdeeds.trans hrest) (hscansSame.trans hover) (htoldSame.trans hsaid)
    | midway groups scan part hover hsaid hleft =>
      have hsame : next.status = worker.status := hstatus.resolve_left hleft.ne_nil
      refine .midway groups scan part (hscansSame.trans hover) (htoldSame.trans hsaid) ?_
      rwa [hdeeds, hsame]
  | ends scan elapsed hrest =>
    cases h with
    | rested groups _ hover hsaid =>
      refine .midway groups scan [] ?_ ?_ (worker.scanned_left scan elapsed)
      · rw [Happening.scans_append, hover]
        rfl
      · rw [Happening.told_append, hsaid]
        rfl
    | midway groups last part _ _ hleft => exact absurd hrest hleft.ne_nil
  | @acts deeds temperature hphase =>
    have hdeeds : worker.deeds = deeds := by simp [Worker.deeds, hphase]
    cases h with
    | rested groups hrest hover hsaid =>
      have hnone : deeds = [] := hdeeds.symm.trans hrest
      subst hnone
      have hact : worker.act temperature = (none, { worker with phase := .deciding }) := by
        simp [Worker.act, hphase]
      rw [hact]
      exact .rested groups rfl hover hsaid
    | midway groups scan part hover hsaid hleft =>
      rw [hdeeds] at hleft
      have hscans : scans ((worker.act temperature).1.toList.map .emitted ++ past) = scans past := by
        simp
      have htold : told ((worker.act temperature).1.toList.map .emitted ++ past) =
          EventGroup.all groups ++ (part ++ (worker.act temperature).1.toList) := by
        simp [hsaid]
      rcases hleft.act hphase temperature with ⟨hevent, -, rfl, -, hdone⟩ | ⟨-, hmore⟩
      · refine .rested (groups ++ [(scan, worker.status)]) hdone ?_ ?_
        · rw [hscans, hover, List.map_append]
          rfl
        · rw [htold, hevent, EventGroup.all, EventGroup.all, List.flatMap_append,
            List.flatMap_singleton]
          rfl
      · exact .midway groups scan _ (hscans.trans hover) htold hmore

/-- A status update agrees with what has been seen before it. -/
theorem Counted.tallies_of_passes (h : Counted worker past) (hgrouped : Grouped worker past)
    (hpasses : Passes worker news next) (hseen : .emitted (.status status) ∈ news) :
    status = worker.status ∧ status.Tallies past := by
  cases hpasses with
  | aside htold _ _ _ _ =>
    have hmem := Happening.mem_told hseen
    rw [htold] at hmem
    cases hmem
  | ends scan elapsed hrest =>
    obtain ⟨⟩ := List.mem_singleton.mp hseen
  | @acts deeds temperature hphase =>
    have hdeeds : worker.deeds = deeds := by simp [Worker.deeds, hphase]
    have hevent : (worker.act temperature).1 = some (.status status) := by
      simpa using hseen
    cases hgrouped with
    | rested groups hrest hover hsaid =>
      have hnone : deeds = [] := hdeeds.symm.trans hrest
      subst hnone
      simp [Worker.act, hphase] at hevent
    | midway groups scan part hover hsaid hleft =>
      rw [hdeeds] at hleft
      rcases hleft.act hphase temperature with ⟨hlast, hinactive, rfl, hzero, -⟩ | ⟨hother, -⟩
      · obtain rfl : worker.status = status := by simpa [hlast] using hevent
        exact ⟨rfl, h.tallies hover hsaid hinactive (hdeeds ▸ hzero)⟩
      · exact absurd hevent (hother status)

theorem Counted.passes (h : Counted worker past) (hgrouped : Grouped worker past)
    (hpasses : Passes worker news next) : Counted next (news ++ past) := by
  have htold : ∀ status, .emitted (.status status) ∈ news → status = worker.status :=
    fun status hstatus => (h.tallies_of_passes hgrouped hpasses hstatus).1
  cases hpasses with
  | aside hsilent hscans hdeeds _ hstatus =>
    obtain ⟨active, hactive⟩ := hstatus
    exact h.holds (.of_status hdeeds hactive) hscans (by simp [hsilent])
  | ends scan elapsed hrest => exact h.ended hrest (worker.scanned_counts scan elapsed)
  | acts temperature hphase =>
    refine h.holds (act_holds temperature hphase) (Happening.scans_emitted _) ?_
    intro status hstatus
    rw [Happening.told_emitted] at hstatus
    exact htold status (List.mem_map_of_mem hstatus)

end Worker

namespace Workplace

variable {δ : Type} {place next : Workplace δ} {past news : List Happening}

theorem told_beginning (place : Workplace δ) : told place.beginning = [] ∧ scans place.beginning = [] := by
  unfold beginning
  split <;> exact ⟨rfl, rfl⟩

theorem told_acceptance (place : Workplace δ) :
    told place.acceptance = [] ∧ scans place.acceptance = [] := by
  unfold acceptance
  split <;> exact ⟨rfl, rfl⟩

theorem perform?_passes {move : Move δ} (hmove : place.perform? move = some (news, next)) :
    place.worker.Passes news next.worker := by
  cases move with
  | send order =>
    simp only [perform?] at hmove
    split at hmove
    · cases hmove
    · obtain ⟨rfl, rfl⟩ := Prod.mk.inj (Option.some.inj hmove)
      exact .same rfl rfl rfl
  | decide =>
    obtain ⟨after, hafter, hnews⟩ := Option.map_eq_some_iff.mp hmove
    obtain ⟨rfl, rfl⟩ := Prod.mk.inj hnews
    obtain ⟨hdeciding, scan, rfl⟩ := decide?_eq hafter
    have hdeeds : place.worker.deeds = [] := by simp [Worker.deeds, hdeciding]
    exact .aside (told_beginning _).1 (told_beginning _).2
      ((place.worker.decide_deeds place.shutdown place.now).trans hdeeds.symm) (.inl hdeeds)
      (place.worker.decide_status place.shutdown place.now)
  | stopWaiting =>
    obtain ⟨after, hafter, hnews⟩ := Option.map_eq_some_iff.mp hmove
    obtain ⟨rfl, rfl⟩ := Prod.mk.inj hnews
    simp only [stopWaiting?, Option.ite_none_right_eq_some, Option.some.injEq] at hafter
    obtain ⟨⟨hwaiting, -⟩, rfl⟩ := hafter
    have hdeeds : place.worker.deeds = [] := by simp [Worker.deeds, hwaiting]
    exact .aside rfl rfl ((place.worker.decide_deeds true place.now).trans hdeeds.symm) (.inl hdeeds)
      (place.worker.decide_status true place.now)
  | takeOrder =>
    obtain ⟨after, hafter, hnews⟩ := Option.map_eq_some_iff.mp hmove
    obtain ⟨rfl, rfl⟩ := Prod.mk.inj hnews
    obtain ⟨-, sender, order, orders, scan, horders, rfl⟩ := takeOrder?_eq hafter
    exact .aside place.told_acceptance.1 place.told_acceptance.2 (Worker.obey_deeds order place.worker)
      (.inr (Worker.obey_status order place.worker)) ⟨_, Worker.obey_status order place.worker⟩
  | orphan =>
    obtain ⟨after, hafter, hnews⟩ := Option.map_eq_some_iff.mp hmove
    obtain ⟨rfl, rfl⟩ := Prod.mk.inj hnews
    obtain ⟨-, -, -, scan, rfl⟩ := orphan?_eq hafter
    have hstatus : place.worker.orphan.status = place.worker.status := Worker.interrupt_status _
    exact .aside rfl rfl (Worker.interrupt_deeds _) (.inr hstatus) ⟨_, hstatus⟩
  | advanceScan =>
    obtain ⟨after, hafter, hnews⟩ := Option.map_eq_some_iff.mp hmove
    obtain ⟨rfl, rfl⟩ := Prod.mk.inj hnews
    unfold advanceScan? at hafter
    split at hafter
    · obtain rfl := Option.some.inj hafter
      exact .same rfl rfl rfl
    · cases hafter
  | finishScan =>
    obtain ⟨after, hafter, hnews⟩ := Option.map_eq_some_iff.mp hmove
    obtain ⟨rfl, rfl⟩ := Prod.mk.inj hnews
    obtain ⟨item, began, restarted, run, result, hphase, hrun, hended, rfl⟩ := finishScan?_eq hafter
    have hending : place.ending = [.ended item result] := by
      simp [ending, hphase, hrun, Scan.result?, hended]
    rw [hending]
    exact .ends ⟨item, result⟩ _ (by simp [Worker.deeds, hphase])
  | act =>
    obtain ⟨after, hafter, hnews⟩ := Option.map_eq_some_iff.mp hmove
    obtain ⟨rfl, rfl⟩ := Prod.mk.inj hnews
    obtain ⟨deeds, events, hphase, rfl⟩ := act?_eq hafter
    rw [emission_eq]
    exact .acts _ hphase
  | callEnd =>
    obtain ⟨rfl, rfl⟩ := Prod.mk.inj (Option.some.inj hmove)
    exact .same rfl rfl (breakOff_worker _)
  | around change =>
    obtain ⟨rfl, rfl⟩ := Prod.mk.inj (Option.some.inj hmove)
    refine .same rfl rfl ?_
    unfold Workplace.around
    split <;> rfl
  | takeEvent | abandon | deafen =>
    obtain ⟨rfl, rfl⟩ := Prod.mk.inj (Option.some.inj hmove)
    exact .same rfl rfl rfl

/-- While somebody listens, what is emitted is put behind the events that wait, and events are only taken
    from the front. -/
theorem perform?_delivers {move : Move δ} (hmove : place.perform? move = some (news, next))
    (hreader : next.reader = .listening) :
    place.reader = .listening ∧ ∃ taken, place.events ++ told news = taken ++ next.events := by
  cases perform?_airs hmove with
  | quiet hquiet hsame hevents =>
    refine ⟨hsame.symm.trans hreader, [], ?_⟩
    rw [Happening.told_eq_nil hquiet, hevents, List.append_nil, List.nil_append]
  | emits event _ hsame hevents =>
    have hlistens : place.reader = .listening := hsame.symm.trans hreader
    refine ⟨hlistens, [], ?_⟩
    rw [hevents]
    simp [deliver, hlistens, told, Happening.event?]
  | taken hsame hevents =>
    refine ⟨hsame.symm.trans hreader, place.events.head?.toList, ?_⟩
    rw [hevents]
    cases place.events <;> simp [told]
  | deafened hgone => cases hreader.symm.trans hgone

/-! ### Histories -/

/-- What is known of a worker's reports. -/
structure Audited (place : Workplace δ) (past : List Happening) : Prop where
  counted : place.worker.Counted past
  grouped : place.worker.Grouped past
  tallied : ∀ newer status older, past = newer ++ .emitted (.status status) :: older →
    status.Tallies older
  delivered : place.reader = .listening → ∃ taken, told past = taken ++ place.events

theorem Audited.perform {move : Move δ} (h : place.Audited past)
    (hmove : place.perform? move = some (news, next)) : next.Audited (news ++ past) := by
  have hpasses := perform?_passes hmove
  refine ⟨h.counted.passes h.grouped hpasses, h.grouped.passes hpasses, ?_, ?_⟩
  · intro newer status older hpast
    rcases perform?_news hmove with rfl | ⟨seen, rfl, -⟩
    · exact h.tallied newer status older hpast
    · rcases newer with _ | ⟨first, newer⟩
      · obtain ⟨rfl, rfl⟩ := List.cons.inj hpast
        exact (h.counted.tallies_of_passes h.grouped hpasses (.head _)).2
      · obtain ⟨-, hpast⟩ := List.cons.inj hpast
        exact h.tallied newer status older hpast
  · intro hreader
    obtain ⟨hbefore, taken, htaken⟩ := perform?_delivers hmove hreader
    obtain ⟨earlier, hearlier⟩ := h.delivered hbefore
    refine ⟨earlier ++ taken, ?_⟩
    rw [Happening.told_append, hearlier, List.append_assoc, htaken, List.append_assoc]

theorem Reaches.audited {bench : Bench δ} {config : ScanConfig}
    (h : (fresh bench config).Reaches place past) : place.Audited past := by
  induction h with
  | start =>
    exact ⟨⟨rfl, rfl, rfl, rfl, nofun⟩, .rested [] rfl rfl rfl, by simp, fun _ => ⟨[], rfl⟩⟩
  | move move _ hmove ih => exact ih.perform hmove

/-- Whatever happens to a worker and around it, every status update says what has happened before it: how
    many shares, false positives and faults have been told, how many hashes all scans have reported (those
    of all completions and of the scans that were broken off), that no scan is going on, and a temperature
    if one has ever been told. The events are whole groups, one for every scan that is over, in order, and
    at most the last group is not complete yet, as long as the worker reports. Who listens from the
    beginning hears all of them. -/
theorem status_updates_tell_history {bench : Bench δ} {config : ScanConfig}
    (h : (fresh bench config).Reaches place past) :
    (∀ newer status older, past = newer ++ .emitted (.status status) :: older →
      status.Tallies older) ∧
    (∃ groups part, told past = EventGroup.all groups ++ part ∧
      ((scans past = groups.map Prod.fst ∧ part = []) ∨
        ∃ scan status, scans past = groups.map Prod.fst ++ [scan] ∧ place.worker.deeds ≠ [] ∧
          part <+: scan.events status ∧ part ≠ scan.events status)) ∧
    (place.reader = .listening → ∃ taken, told past = taken ++ place.events) := by
  have haudited := h.audited
  refine ⟨haudited.tallied, ?_, haudited.delivered⟩
  cases haudited.grouped with
  | rested groups _ hscans htold =>
    exact ⟨groups, [], by rw [htold, List.append_nil], .inl ⟨hscans, rfl⟩⟩
  | midway groups scan part hscans htold hleft =>
    refine ⟨groups, part, htold, .inr ⟨scan, place.worker.status, hscans, hleft.ne_nil, ?_,
      hleft.ne_events _⟩⟩
    exact hleft.isPrefix.trans (List.prefix_append _ _)

def reluctantBench : Bench ScriptedDevice where
  device := ScriptedDevice.device "reluctant" .mask
  state := { scripts := [{ openFailure := some .wouldBlock },
    { nonce := [.ok (.word 77)], records := [(0, .bytes (CompletionMessage.toBytes ⟨0x20, 0⟩))] }] }

def secondTry : List (Move ScriptedDevice) :=
  List.flatten [[.send (.replace ⟨Bytes.zero 32, Bytes.zero 12, 0⟩), .decide, .takeOrder, .decide,
      .advanceScan, .finishScan], List.replicate 4 .act,
    [.send (.replace ⟨Bytes.zero 32, Bytes.zero 12, 0⟩), .decide, .takeOrder, .decide],
    List.replicate 11 .advanceScan, [.finishScan], List.replicate 4 .act]

def showsStatus (errors hashes : Nat) : List Happening → Bool
  | .emitted (.status status) :: _ => status.errors == errors && status.totalHashes == hashes
  | _ => false

theorem of_showsStatus {errors hashes : Nat} (h : showsStatus errors hashes past = true) :
    ∃ status older, past = .emitted (.status status) :: older ∧ status.errors = errors ∧
      status.totalHashes = hashes := by
  unfold showsStatus at h
  split at h
  · next status older =>
    obtain ⟨herrors, hhashes⟩ := Bool.and_eq_true_iff.mp h
    exact ⟨status, older, rfl, eq_of_beq herrors, eq_of_beq hhashes⟩
  · cases h

theorem second_status_counts_failed_opening :
    ∃ (place : Workplace ScriptedDevice) (status : WorkerStatus) (older : List Happening),
      (fresh reluctantBench {}).Reaches place (.emitted (.status status) :: older) ∧
      place.reader = .listening ∧ status.errors = 1 ∧ status.totalHashes = 77 ∧
      status.Tallies older ∧
      ∃ taken, told (.emitted (.status status) :: older) = taken ++ place.events := by
  have hrun : ((fresh reluctantBench {}).follow secondTry []).any (fun reached =>
      reached.1.reader == .listening && showsStatus 1 77 reached.2) = true := by
    decide +kernel
  obtain ⟨⟨place, past⟩, hfollow, hseen⟩ := (Option.any_eq_true _ _).mp hrun
  obtain ⟨hreader, hshown⟩ := Bool.and_eq_true_iff.mp hseen
  have hreaches := Reaches.start.follow hfollow
  obtain ⟨htallies, -, hheard⟩ := status_updates_tell_history hreaches
  obtain ⟨status, older, rfl, herrors, hhashes⟩ := of_showsStatus hshown
  exact ⟨place, status, older, hreaches, eq_of_beq hreader, herrors, hhashes,
    htallies [] status older rfl, hheard (eq_of_beq hreader)⟩

end Workplace

end NonceSearch
