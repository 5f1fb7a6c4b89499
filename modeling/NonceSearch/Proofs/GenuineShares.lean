import Mathlib
import NonceSearch.Device.Script
import NonceSearch.Proofs.HonestScan
import NonceSearch.Proofs.WorkerSteps

/-!
# Only genuine shares are reported

A scan is honest about its own work item, and a worker pairs what its scan brings back with the item
that it had given to that scan, not with the item that it holds by then (`Workplace.Paired`). So a
share that is reported is a share, for every device and however orders and the ends of scans fall
together.
-/

namespace NonceSearch

/-! ### Events -/

/-- An event that names a nonce is genuine if its item was accepted, and if the nonce is what the scan
    of that very item ended with and what the item's hash says it is. -/
def WorkerEvent.Genuine (past : List Happening) : WorkerEvent → Prop
  | .share item nonce hash =>
    .accepted item ∈ past ∧ Candidate.Sound item.work ⟨nonce, hash, true⟩ ∧
      ∃ hashes, .ended item (.ok ⟨.found ⟨nonce, hash, true⟩, hashes⟩) ∈ past
  | .falsePositive item nonce =>
    .accepted item ∈ past ∧ ∃ hash, Candidate.Sound item.work ⟨nonce, hash, false⟩ ∧
      ∃ hashes, .ended item (.ok ⟨.found ⟨nonce, hash, false⟩, hashes⟩) ∈ past
  | _ => True

theorem WorkerEvent.Genuine.append {event : WorkerEvent} {past : List Happening}
    (h : event.Genuine past) (news : List Happening) : event.Genuine (news ++ past) := by
  cases event with
  | share item nonce hash =>
    obtain ⟨haccepted, hsound, hashes, hended⟩ := h
    exact ⟨List.mem_append_right _ haccepted, hsound, hashes, List.mem_append_right _ hended⟩
  | falsePositive item nonce =>
    obtain ⟨haccepted, hash, hsound, hashes, hended⟩ := h
    exact ⟨List.mem_append_right _ haccepted, hash, hsound, hashes, List.mem_append_right _ hended⟩
  | complete item hashes => trivial
  | fault reason => trivial
  | status status => trivial

def Deed.AllGenuine (past : List Happening) (deeds : List Deed) : Prop :=
  ∀ event, .emit event ∈ deeds → event.Genuine past

namespace Worker

/-- What is told about a sound outcome of an accepted item is genuine once the scan's end is known. -/
theorem account_genuine {worker : Worker} {item : Assignment} {report : ScanReport}
    {past : List Happening} (haccepted : .accepted item ∈ past)
    (hsound : report.outcome.Sound item.work) (hended : .ended item (.ok report) ∈ past) :
    Deed.AllGenuine past (worker.account item report.outcome).2 := by
  obtain ⟨outcome, hashes⟩ := report
  intro event hevent
  cases outcome with
  | found candidate =>
    obtain ⟨nonce, hash, meetsTarget⟩ := candidate
    cases meetsTarget with
    | true =>
      simp only [account, if_true, List.mem_singleton, Deed.emit.injEq] at hevent
      subst hevent
      exact ⟨haccepted, hsound, hashes, hended⟩
    | false =>
      simp only [account, Bool.false_eq_true, if_false, List.mem_singleton, Deed.emit.injEq] at hevent
      subst hevent
      exact ⟨haccepted, hash, hsound, hashes, hended⟩
  | faulted fault =>
    simp only [account, List.mem_singleton, Deed.emit.injEq] at hevent
    subst hevent
    trivial
  | exhausted => simp [account] at hevent
  | noResult => simp [account] at hevent
  | restarted => simp [account] at hevent

theorem closingDeeds_genuine {item : Assignment} {report : ScanReport} {elapsed : Duration}
    {past : List Happening} : Deed.AllGenuine past (closingDeeds item report elapsed) := by
  intro event hevent
  simp only [closingDeeds, List.mem_append, List.mem_singleton, reduceCtorEq, or_false] at hevent
  split at hevent
  · simp at hevent
  · simp only [List.mem_cons, reduceCtorEq, Deed.emit.injEq, List.not_mem_nil, or_false,
      false_or] at hevent
    subst hevent
    trivial

/-- The deeds that follow the end of an accepted item's scan tell only genuine events. -/
theorem scanned_genuine {worker : Worker} {item : Assignment} {elapsed : Duration}
    {result : Except DeviceError ScanReport} {past : List Happening} {deeds : List Deed}
    (haccepted : .accepted item ∈ past) (hended : .ended item result ∈ past)
    (hsound : ∀ report, result = .ok report → report.outcome.Sound item.work)
    (hdeeds : (worker.scanned item result elapsed).phase = .acting deeds) :
    Deed.AllGenuine past deeds := by
  cases result with
  | ok report =>
    simp only [scanned, reported, WorkerPhase.acting.injEq] at hdeeds
    subst hdeeds
    intro event hevent
    rcases List.mem_append.mp hevent with h | h
    · exact account_genuine haccepted (hsound report rfl) hended event h
    · exact closingDeeds_genuine event h
  | error cause =>
    simp only [scanned, unopened, WorkerPhase.acting.injEq] at hdeeds
    subst hdeeds
    intro event hevent
    simp only [List.mem_cons, Deed.emit.injEq, List.not_mem_nil, or_false] at hevent
    rcases hevent with rfl | rfl | rfl <;> trivial

end Worker

/-! ### The pairing of items and scans -/

namespace Workplace

variable {δ : Type}

/-- A worker's present item was accepted; the scan that goes on is an honest one of the accepted item
    that the worker has begun to scan; and what is still to be told is genuine. -/
structure Paired (place : Workplace δ) (past : List Happening) : Prop where
  current : ∀ item, place.worker.current = some item → .accepted item ∈ past
  scanning : ∀ item began restarted, place.worker.phase = .scanning item began restarted →
    .accepted item ∈ past ∧
      ∃ run, place.scan = some run ∧ run.scan.work = item.work ∧ run.scan.Honest
  acting : ∀ deeds, place.worker.phase = .acting deeds → Deed.AllGenuine past deeds

variable {place next : Workplace δ} {past : List Happening}

theorem Paired.append (h : place.Paired past) (news : List Happening) :
    place.Paired (news ++ past) where
  current item hitem := List.mem_append_right _ (h.current item hitem)
  scanning item began restarted hphase := by
    obtain ⟨haccepted, hrun⟩ := h.scanning item began restarted hphase
    exact ⟨List.mem_append_right _ haccepted, hrun⟩
  acting deeds hphase event hevent := (h.acting deeds hphase event hevent).append news

/-- Only the worker and the work of its scan matter to the pairing. -/
theorem Paired.of_eq (h : place.Paired past) (hworker : next.worker = place.worker)
    (hscan : ∀ run, place.scan = some run →
      ∃ run', next.scan = some run' ∧ run'.scan = run.scan) : next.Paired past where
  current item hitem := h.current item (hworker ▸ hitem)
  scanning item began restarted hphase := by
    obtain ⟨haccepted, run, hrun, hwork, hhonest⟩ := h.scanning item began restarted (hworker ▸ hphase)
    obtain ⟨run', hrun', hsame⟩ := hscan run hrun
    exact ⟨haccepted, run', hrun', hsame ▸ hwork, hsame ▸ hhonest⟩
  acting deeds hphase := h.acting deeds (hworker ▸ hphase)

theorem Paired.breakOff (h : place.Paired past) : place.breakOff.Paired past :=
  h.of_eq place.breakOff_worker fun _ hrun => place.breakOff_scan hrun

/-- Breaking a scan off does not change what is scanned, whatever becomes of the present item. -/
theorem Paired.interrupt (h : place.Paired past) (worker : Worker)
    (hphase : worker.phase = place.worker.phase)
    (hcurrent : ∀ item, worker.current = some item → .accepted item ∈ past) :
    { place with worker := worker.interrupt }.Paired past := by
  have hsame : worker.interrupt.current = worker.current := by
    unfold Worker.interrupt
    split <;> rfl
  refine ⟨fun item hitem => hcurrent item (hsame ▸ hitem), ?_, ?_⟩
  · intro item began restarted hscanning
    unfold Worker.interrupt at hscanning
    split at hscanning
    · next old since told hold =>
      obtain ⟨rfl, rfl, -⟩ := WorkerPhase.scanning.inj hscanning
      exact h.scanning old since told (hphase ▸ hold)
    · exact absurd hscanning nofun
    · exact h.scanning item began restarted (hphase ▸ hscanning)
  · intro deeds hacting
    unfold Worker.interrupt at hacting
    split at hacting
    · exact absurd hacting nofun
    · exact absurd hacting nofun
    · exact h.acting deeds (hphase ▸ hacting)

/-! ### What each move does to the pairing -/

theorem Paired.decide (h : place.Paired past) (hmove : place.decide? = some next) :
    next.Paired past := by
  unfold decide? at hmove
  split at hmove
  · have hcurrent := place.worker.decide_current place.shutdown place.now
    have hphase := place.worker.decide_phase place.shutdown place.now
    generalize place.worker.decide place.shutdown place.now = worker at hmove hcurrent hphase
    have hkept : ∀ item, worker.current = some item → .accepted item ∈ past :=
      fun item hitem => h.current item (hcurrent ▸ hitem)
    rcases hphase with hphase | hphase | ⟨item, hitem, hphase⟩
    · simp only [hphase, Option.some.injEq] at hmove
      subst hmove
      exact ⟨hkept, by simp [hphase], by simp [hphase]⟩
    · simp only [hphase, Option.some.injEq] at hmove
      subst hmove
      exact ⟨hkept, by simp [hphase], by simp [hphase]⟩
    · simp only [hphase, Option.some.injEq] at hmove
      subst hmove
      refine ⟨hkept, ?_, by simp [hphase]⟩
      intro scanned began restarted hscanning
      obtain ⟨rfl, -, -⟩ := WorkerPhase.scanning.inj (hphase.symm.trans hscanning)
      exact ⟨h.current item hitem, _, rfl, rfl, Scan.honest_of_unsettled rfl⟩
  · exact absurd hmove nofun

theorem Paired.stopWaiting (h : place.Paired past) (hmove : place.stopWaiting? = some next) :
    next.Paired past := by
  unfold stopWaiting? at hmove
  split at hmove
  · obtain rfl := Option.some.inj hmove
    exact ⟨h.current, nofun, nofun⟩
  · exact absurd hmove nofun

theorem Paired.takeOrder (h : place.Paired past) (hmove : place.takeOrder? = some next) :
    next.Paired (place.acceptance ++ past) := by
  unfold takeOrder? at hmove
  split at hmove
  · split at hmove
    · exact absurd hmove nofun
    · next sender order orders horders =>
      simp only [Option.some.injEq] at hmove
      subst hmove
      apply Paired.breakOff
      have hpast := h.append place.acceptance
      cases order with
      | replace work =>
        have haccepted := hpast.interrupt (place.worker.accept work) rfl (by
          intro item hitem
          obtain rfl := Option.some.inj hitem
          simp [acceptance, horders])
        exact haccepted.of_eq rfl fun run hrun => ⟨run, hrun, rfl⟩
      | goIdle =>
        have hidle := hpast.interrupt { place.worker with current := none } rfl nofun
        exact hidle.of_eq rfl fun run hrun => ⟨run, hrun, rfl⟩
  · exact absurd hmove nofun

theorem Paired.orphan (h : place.Paired past) (hmove : place.orphan? = some next) :
    next.Paired past := by
  unfold orphan? at hmove
  split at hmove
  · simp only [Option.some.injEq] at hmove
    subst hmove
    apply Paired.breakOff
    exact h.interrupt { place.worker with ordersOpen := false, current := none } rfl nofun
  · exact absurd hmove nofun

theorem Paired.advanceScan (h : place.Paired past) (hmove : place.advanceScan? = some next) :
    next.Paired past := by
  unfold advanceScan? at hmove
  split at hmove
  · next run hrun =>
    simp only [Option.some.injEq] at hmove
    subst hmove
    obtain ⟨before, hbefore, hstep⟩ := Option.bind_eq_some_iff.mp hrun
    refine ⟨h.current, ?_, h.acting⟩
    intro item began restarted hphase
    obtain ⟨haccepted, run', hrun', hwork, hhonest⟩ := h.scanning item began restarted hphase
    obtain rfl := Option.some.inj (hbefore.symm.trans hrun')
    have hkept := ScanRun.step?_honest hhonest hstep
    exact ⟨haccepted, run, rfl, hkept.1.trans hwork, hkept.2⟩
  · exact absurd hmove nofun

theorem Paired.finishScan (h : place.Paired past) (hmove : place.finishScan? = some next) :
    next.Paired (place.ending ++ past) := by
  unfold finishScan? at hmove
  split at hmove
  · next item began restarted run hphase hrun =>
    split at hmove
    · next result hresult =>
      simp only [Option.some.injEq] at hmove
      subst hmove
      have hpast := h.append place.ending
      have hended : .ended item result ∈ place.ending ++ past := by simp [ending, hphase, hrun, hresult]
      obtain ⟨haccepted, run', hrun', hwork, hhonest⟩ := hpast.scanning item began restarted hphase
      obtain rfl := Option.some.inj (hrun.symm.trans hrun')
      have hsound : ∀ report, result = .ok report → report.outcome.Sound item.work := by
        rintro report rfl
        rw [← hwork]
        apply hhonest
        unfold Scan.result? at hresult
        split at hresult
        · next hended =>
          obtain rfl := Option.some.inj hresult
          simp [hended, ScanPhase.outcome?]
        · cases hresult
      obtain ⟨hcurrent, deeds, hdeeds⟩ :=
        place.worker.scanned_cases item result (Duration.ofMillis (run.bench.now - began))
      exact ⟨fun held hheld => hpast.current held (hcurrent held hheld), by simp [hdeeds],
        fun deeds hdeeds => Worker.scanned_genuine haccepted hended hsound hdeeds⟩
    · cases hmove
  · cases hmove

theorem Paired.act (h : place.Paired past) (hmove : place.act? = some next) : next.Paired past := by
  unfold act? at hmove
  split at hmove
  · next deeds hphase =>
    split at hmove
    · exact absurd hmove nofun
    · obtain ⟨hcurrent, -, hnext⟩ := Worker.act_cases place.bench.temperature hphase
      generalize place.worker.act place.bench.temperature = done at hmove hcurrent hnext
      obtain ⟨event, worker⟩ := done
      have hworker : next.worker = worker := by
        obtain rfl := Option.some.inj hmove
        cases event with
        | none => rfl
        | some event => exact deliver_worker event _
      refine ⟨?_, ?_, ?_⟩
      · intro item hitem
        exact h.current item (hcurrent item (hworker ▸ hitem))
      · intro item began restarted hscanning
        rw [hworker] at hscanning
        rcases hnext with hnext | ⟨rest, hnext, -⟩
        · exact absurd (hnext.symm.trans hscanning) nofun
        · exact absurd (hnext.symm.trans hscanning) nofun
      · intro left hleft
        rw [hworker] at hleft
        rcases hnext with hnext | ⟨rest, hnext, hrest⟩
        · exact absurd (hnext.symm.trans hleft) nofun
        · obtain rfl := WorkerPhase.acting.inj (hnext.symm.trans hleft)
          intro event hevent
          rcases hrest event hevent with hevent | ⟨status, rfl⟩
          · exact h.acting deeds hphase event hevent
          · trivial
  · exact absurd hmove nofun

/-- What a worker emits next is genuine. -/
theorem Paired.emission_genuine (h : place.Paired past) {event : WorkerEvent}
    (hevent : .emitted event ∈ place.emission) : event.Genuine past := by
  have hemits : (place.worker.act place.bench.temperature).1 = some event := by
    unfold emission at hevent
    split at hevent
    · next told htold =>
      simp only [List.mem_singleton, Happening.emitted.injEq] at hevent
      exact hevent ▸ htold
    · simp at hevent
  rcases hphase : place.worker.phase with _ | _ | _ | deeds | _
  case acting =>
    exact h.acting deeds hphase event
      ((Worker.act_cases place.bench.temperature hphase).2.1 event hemits)
  all_goals simp [Worker.act, hphase] at hemits

theorem Paired.around (h : place.Paired past) (change : Bench δ → Bench δ) :
    (place.around change).Paired past := by
  unfold Workplace.around
  split
  · next run hrun =>
    refine h.of_eq rfl fun before hbefore => ?_
    obtain rfl := Option.some.inj (hrun.symm.trans hbefore)
    exact ⟨_, rfl, rfl⟩
  · next hnone => exact h.of_eq rfl fun run hrun => absurd (hnone.symm.trans hrun) nofun

/-- Every move keeps the pairing of items and scans. -/
theorem Paired.perform {move : Move δ} {news : List Happening} (h : place.Paired past)
    (hmove : place.perform? move = some (news, next)) : next.Paired (news ++ past) := by
  cases move with
  | send order =>
    simp only [perform?] at hmove
    split at hmove
    · cases hmove
    · simp only [Option.some.injEq, Prod.mk.injEq] at hmove
      obtain ⟨rfl, rfl⟩ := hmove
      exact h.of_eq rfl fun run hrun => ⟨run, hrun, rfl⟩
  | decide =>
    obtain ⟨after, hafter, hnews⟩ := Option.map_eq_some_iff.mp hmove
    obtain ⟨rfl, rfl⟩ := Prod.mk.inj hnews
    exact (h.decide hafter).append _
  | stopWaiting =>
    obtain ⟨after, hafter, hnews⟩ := Option.map_eq_some_iff.mp hmove
    obtain ⟨rfl, rfl⟩ := Prod.mk.inj hnews
    exact h.stopWaiting hafter
  | takeOrder =>
    obtain ⟨after, hafter, hnews⟩ := Option.map_eq_some_iff.mp hmove
    obtain ⟨rfl, rfl⟩ := Prod.mk.inj hnews
    exact h.takeOrder hafter
  | orphan =>
    obtain ⟨after, hafter, hnews⟩ := Option.map_eq_some_iff.mp hmove
    obtain ⟨rfl, rfl⟩ := Prod.mk.inj hnews
    exact h.orphan hafter
  | advanceScan =>
    obtain ⟨after, hafter, hnews⟩ := Option.map_eq_some_iff.mp hmove
    obtain ⟨rfl, rfl⟩ := Prod.mk.inj hnews
    exact h.advanceScan hafter
  | finishScan =>
    obtain ⟨after, hafter, hnews⟩ := Option.map_eq_some_iff.mp hmove
    obtain ⟨rfl, rfl⟩ := Prod.mk.inj hnews
    exact h.finishScan hafter
  | act =>
    obtain ⟨after, hafter, hnews⟩ := Option.map_eq_some_iff.mp hmove
    obtain ⟨rfl, rfl⟩ := Prod.mk.inj hnews
    exact (h.act hafter).append _
  | takeEvent =>
    obtain ⟨rfl, rfl⟩ := Prod.mk.inj (Option.some.inj hmove)
    exact h.of_eq rfl fun run hrun => ⟨run, hrun, rfl⟩
  | callEnd =>
    obtain ⟨rfl, rfl⟩ := Prod.mk.inj (Option.some.inj hmove)
    apply Paired.breakOff
    exact h.of_eq rfl fun run hrun => ⟨run, hrun, rfl⟩
  | abandon =>
    obtain ⟨rfl, rfl⟩ := Prod.mk.inj (Option.some.inj hmove)
    exact h.of_eq rfl fun run hrun => ⟨run, hrun, rfl⟩
  | deafen =>
    obtain ⟨rfl, rfl⟩ := Prod.mk.inj (Option.some.inj hmove)
    exact h.of_eq rfl fun run hrun => ⟨run, hrun, rfl⟩
  | around change =>
    obtain ⟨rfl, rfl⟩ := Prod.mk.inj (Option.some.inj hmove)
    exact h.around change

/-! ### Histories -/

/-- In every history of a worker, items and scans are paired, and every event was genuine when it was
    emitted. -/
theorem Reaches.paired {bench : Bench δ} {config : ScanConfig}
    (h : (fresh bench config).Reaches place past) :
    place.Paired past ∧
      ∀ newer older event, past = newer ++ .emitted event :: older → event.Genuine older := by
  induction h with
  | start => exact ⟨⟨nofun, nofun, nofun⟩, by simp⟩
  | @move place next past news move _ hmove ih =>
    obtain ⟨hpaired, hgenuine⟩ := ih
    refine ⟨hpaired.perform hmove, ?_⟩
    intro newer older event hsplit
    rcases perform?_news hmove with rfl | ⟨seen, rfl, hseen⟩
    · exact hgenuine newer older event hsplit
    · rcases newer with _ | ⟨latest, newer⟩
      · obtain ⟨rfl, rfl⟩ := List.cons.inj hsplit
        exact hpaired.emission_genuine (hseen event rfl)
      · exact hgenuine newer older event (List.cons.inj hsplit).2

end Workplace

/-! ### The result -/

/-- Only genuine shares are reported, by a worker on any device at all and in any order of events. A
    share names an item that the worker had accepted, and the nonce that the scan of that very item
    ended with; its hash is the item's hash of that nonce and lies below the item's target. Likewise
    a nonce is called a false positive only for an accepted item whose hash of it is not below the
    target. -/
theorem reported_nonces_are_genuine {δ : Type} {bench : Bench δ} {config : ScanConfig}
    {place : Workplace δ} {past : List Happening}
    (h : (Workplace.fresh bench config).Reaches place past) :
    (∀ newer older item nonce hash, past = newer ++ .emitted (.share item nonce hash) :: older →
      .accepted item ∈ older ∧
      (∃ hashes, .ended item (.ok ⟨.found ⟨nonce, hash, true⟩, hashes⟩) ∈ older) ∧
      hash = candidateHash item.work.midstate item.work.tail nonce ∧
      hash.toNatLE < item.work.target.toNat) ∧
    (∀ newer older item nonce, past = newer ++ .emitted (.falsePositive item nonce) :: older →
      .accepted item ∈ older ∧
      (∃ hash hashes, .ended item (.ok ⟨.found ⟨nonce, hash, false⟩, hashes⟩) ∈ older) ∧
      ¬ (candidateHash item.work.midstate item.work.tail nonce).toNatLE < item.work.target.toNat) := by
  obtain ⟨-, hgenuine⟩ := h.paired
  constructor
  · intro newer older item nonce hash hsplit
    obtain ⟨haccepted, ⟨hhash, hmeets⟩, hended⟩ := hgenuine newer older _ hsplit
    exact ⟨haccepted, hended, hhash, (item.work.meetsTarget_iff hash).mp hmeets.symm⟩
  · intro newer older item nonce hsplit
    obtain ⟨haccepted, hash, ⟨hhash, hmeets⟩, hashes, hended⟩ := hgenuine newer older _ hsplit
    refine ⟨haccepted, ⟨hash, hashes, hended⟩, ?_⟩
    intro hbelow
    have hsame : hash = candidateHash item.work.midstate item.work.tail nonce := hhash
    have hshare := (item.work.meetsTarget_iff hash).mpr (hsame ▸ hbelow)
    exact absurd (hmeets.trans hshare) nofun

/-! A device that has a result ready as soon as it is asked, and a worker whose item is replaced in the
middle of the scan: the result still belongs to the item that was scanned. -/

def eagerBench : Bench ScriptedDevice where
  device := ScriptedDevice.device "eager" .mask
  state := { scripts := [{ records := [(0, .bytes (CompletionMessage.toBytes ⟨0x10, 7⟩))] }] }

def easyItem : WorkItem := ⟨Bytes.zero 32, Bytes.zero 12, Uint256.max⟩

def hopelessItem : WorkItem := ⟨Bytes.zero 32, Bytes.zero 12, 0⟩

def replacedWhileScanning : List (Workplace.Move ScriptedDevice) :=
  [.send (.replace easyItem), .decide, .takeOrder, .decide] ++ List.replicate 7 .advanceScan ++
    [.send (.replace hopelessItem), .takeOrder] ++ List.replicate 4 .advanceScan ++ [.finishScan, .act]

def Happening.isShareFor (item : Assignment) : Happening → Bool
  | .emitted (.share found _ _) => found = item
  | _ => false

def Happening.isAcceptanceOf (item : Assignment) : Happening → Bool
  | .accepted given => given = item
  | _ => false

theorem replaced_item_keeps_its_share :
    ∃ place past nonce hash,
      (Workplace.fresh eagerBench {}).Reaches place
        (.emitted (.share ⟨0, easyItem⟩ nonce hash) :: past) ∧
      .accepted ⟨1, hopelessItem⟩ ∈ past ∧
      hash = candidateHash easyItem.midstate easyItem.tail nonce ∧
      hash.toNatLE < easyItem.target.toNat := by
  have hrun : ((Workplace.fresh eagerBench {}).follow replacedWhileScanning []).any (fun reached =>
      reached.2.head?.any (Happening.isShareFor ⟨0, easyItem⟩) &&
        reached.2.tail.any (Happening.isAcceptanceOf ⟨1, hopelessItem⟩)) = true := by decide +kernel
  obtain ⟨⟨place, seen⟩, hfollow, hseen⟩ := (Option.any_eq_true _ _).mp hrun
  have hreaches := Workplace.Reaches.start.follow hfollow
  obtain ⟨hshare, haccepted⟩ := Bool.and_eq_true_iff.mp hseen
  rcases seen with _ | ⟨latest, past⟩
  · exact absurd hshare nofun
  · rcases latest with _ | _ | _ | event
    case emitted =>
      rcases event with ⟨item, nonce, hash⟩ | _ | _ | _ | _
      case share =>
        obtain rfl : item = ⟨0, easyItem⟩ := of_decide_eq_true hshare
        obtain ⟨-, -, hhash, hbelow⟩ :=
          (reported_nonces_are_genuine hreaches).1 [] past _ nonce hash rfl
        obtain ⟨acceptance, hmember, hitem⟩ := List.any_eq_true.mp haccepted
        rcases acceptance with given | _ | _ | _
        case accepted =>
          obtain rfl : given = ⟨1, hopelessItem⟩ := of_decide_eq_true hitem
          exact ⟨place, past, nonce, hash, hreaches, hmember, hhash, hbelow⟩
        all_goals exact absurd hitem nofun
      all_goals exact absurd hshare nofun
    all_goals exact absurd hshare nofun

end NonceSearch
