import NonceSearch.Proofs.HonestScan
import NonceSearch.Proofs.Hunting

/-!
# What a scan comes to

Once its search is over, a scan waits for the completion, and gets it: the interrupt that the end of
the search has raised is served, and nobody but the scan takes the message out of the queue. A tick
that ends before sends the scan to the status, which tells that the search is over, and to its last
wait; that is long enough for an interrupt that is served within the grace.

So a scan finds what there is to find (`scan_finds_the_least_nonce`), whatever earlier sessions have
left behind, whatever the batches are and wherever its ticks fall. A service or an answer that comes too
late may cost it the result: then it reports a fault.
-/

namespace NonceSearch

namespace WorkItem

variable (work : WorkItem) (config : CoreConfig)

def candidate (nonce : UInt32) : Candidate where
  nonce := nonce
  hash := candidateHash work.midstate work.tail nonce
  meetsTarget := decide ((candidateHash work.midstate work.tail nonce).toNatLE < work.target.toNat)

/-- What there is to report about a work item: the least nonce that passes, or that there is none, and
    how many nonces have been tried. -/
inductive Verdict : ScanReport → Prop where
  | found (nonce : UInt32) (least : work.Least config nonce) :
    Verdict ⟨.found (work.candidate nonce), min (nonce.toNat + 1) (2 ^ 32 - 1)⟩
  | exhausted (hopeless : work.Hopeless config) :
    Verdict ⟨.exhausted, min (config.lastNonce.toNat + 1) (2 ^ 32 - 1)⟩

variable {work config}

/-- There is only one least nonce. -/
theorem Least.unique {nonce other : UInt32} (h : work.Least config nonce)
    (h' : work.Least config other) :
    nonce = other := by
  rcases Nat.lt_trichotomy nonce.toNat other.toNat with hless | hsame | hmore
  · have hpasses := h'.first nonce (UInt32.lt_iff_toNat_lt.mpr hless)
    rw [h.passes] at hpasses
    exact absurd hpasses (by decide)
  · exact UInt32.toNat_inj.mp hsame
  · have hpasses := h.first other (UInt32.lt_iff_toNat_lt.mpr hmore)
    rw [h'.passes] at hpasses
    exact absurd hpasses (by decide)

theorem Least.not_hopeless {nonce : UInt32} (h : work.Least config nonce) : ¬ work.Hopeless config := by
  intro hopeless
  have hpasses := hopeless nonce h.searched
  rw [h.passes] at hpasses
  exact absurd hpasses (by decide)

theorem classify_found {message : CompletionMessage} (h : message.flags = .found) :
    work.classify message = .found (work.candidate message.nonce) := by
  have hfound : Status.found.has .found = true := by decide
  have hmeets : work.meetsTarget (work.hash message.nonce) =
      decide ((candidateHash work.midstate work.tail message.nonce).toNatLE < work.target.toNat) :=
    Bool.eq_iff_iff.mpr ((work.meetsTarget_iff _).trans decide_eq_true_iff.symm)
  simp only [classify, h, hfound, if_true, hmeets]
  rfl

theorem classify_exhausted {message : CompletionMessage} (h : message.flags = .exhausted) :
    work.classify message = .exhausted := by
  have hfound : Status.exhausted.has .found = false := by decide
  have hexhausted : Status.exhausted.has .exhausted = true := by decide
  simp [classify, h, hfound, hexhausted]

end WorkItem

/-- The result of a search that is over, and its counter, are what there is to report. -/
theorem Core.Over.verdict {config : CoreConfig} {work : WorkItem} {core later : Core}
    (h : core.Over config work) (hlater : later.Over config work) :
    work.Verdict config ⟨work.classify (Rig.result core), later.nonceCurrent.toNat⟩ := by
  have hcounter : ∀ n : UInt32, (UInt32.ofNat (min (n.toNat + 1) 0xffffffff)).toNat =
      min (n.toNat + 1) (2 ^ 32 - 1) := by
    intro n
    have hbound : min (n.toNat + 1) 0xffffffff < UInt32.size := by
      have hsize : UInt32.size = 2 ^ 32 := rfl
      omega
    exact UInt32.toNat_ofNat_of_lt' hbound
  cases h with
  | found nonce least job readyAt status candidate current =>
    rw [@WorkItem.classify_found work (Rig.result core) status]
    cases hlater with
    | found other least' job' readyAt' status' candidate' current' =>
      obtain rfl := least.unique least'
      rw [current', hcounter]
      subst candidate
      exact .found _ least
    | exhausted hopeless => exact absurd hopeless least.not_hopeless
  | exhausted hopeless job readyAt status current =>
    rw [@WorkItem.classify_exhausted work (Rig.result core) status]
    cases hlater with
    | found other least => exact absurd hopeless least.not_hopeless
    | exhausted hopeless' job' readyAt' status' current' =>
      rw [current', hcounter]
      exact .exhausted hopeless

namespace CompletionMessage

end CompletionMessage

namespace Rig

variable {config : CoreConfig} {rig : Rig} {past : List Event}

/-- A result that nobody has taken is in the queue, unless somebody is on the way to it. -/
theorem Reached.delivered (h : Reached config rig past) (huntaken : Untaken rig past)
    (hcompletion : rig.core.status.isCompletion) (hpending : rig.pending = 0)
    (hservice : rig.inService = false) : rig.driver.queue.isReady := by
  cases h.attended.awaited hcompletion with
  | pending h => omega
  | called h => simp [inService, h] at hservice
  | serving rest lock unfinished => simp [inService, lock] at hservice
  | delivered h =>
    obtain ⟨later, earlier, hsplit, hqueued | htaken⟩ := h
    · cases hmessages : rig.driver.queue.messages with
      | nil => simp [hmessages] at hqueued
      | cons message rest => simp [CompletionQueue.isReady, hmessages]
    · refine absurd ?_ (huntaken hcompletion (result rig.core))
      rw [hsplit]
      exact List.mem_append_left _ htaken

end Rig

namespace Trial

variable {config : CoreConfig} {scan : Scan} {schedule : Nat → Move} {start trial : Trial}

/-! ### From the end of the search to its message -/

variable (config scan) in
/-- The scan is about to read the message that a wait has announced. -/
def Reading (session : SessionState) (last : Bool) (trial : Trial) : Prop :=
  In config Rig.Untaken (Core.Over config scan.work)
    { scan with session := session, phase := .reading last } trial ∧ trial.rig.driver.queue.isReady

/-- A wait ends when the message is there, or with a tick, but not with the grace. -/
theorem Waiting.turn {session : SessionState} {last : Bool}
    (h : Waiting config scan (Core.Over config scan.work) session last trial)
    (hprompt : trial.overdue = false) :
    (trial.rig.driver.queue.isReady ∧ Reading config scan session last (trial.act config .scan)) ∨
      trial.rig.driver.queue.isReady = false ∧
        (last = false ∧ In config Rig.Untaken (Core.Over config scan.work)
          { scan with session := session, phase := .calling .tick } (trial.act config .scan) ∨
        trial.act config .scan = trial) := by
  obtain ⟨rig, present, since⟩ := trial
  obtain ⟨hscan, ⟨past, hreached, huntaken⟩, hheld, hfree, hover, -⟩ := h
  dsimp only at hscan hreached huntaken hheld hfree hover ⊢
  subst hscan
  cases hready : rig.driver.queue.isReady with
  | true =>
    have hturn := @goOn_announced config rig { scan with session := session } since last hready
    left
    rw [act, hturn]
    exact ⟨rfl, ⟨rfl, ⟨past, hreached, huntaken⟩, hheld, hfree, hover, Nat.le_refl _⟩, hready⟩
  | false =>
    right
    refine ⟨rfl, ?_⟩
    by_cases hdue : since + (if last then scan.config.stopGrace else scan.config.waitTick) ≤ rig.now
    · have hturn := @goOn_lapses config rig { scan with session := session } since last hready hdue
      cases last with
      | false =>
        left
        rw [act, hturn]
        exact ⟨rfl, rfl, ⟨past, hreached, huntaken⟩, hheld, hfree, hover, Nat.le_refl _⟩
      | true =>
        -- The grace is over, so nothing is in service any more, and the message is there.
        have hservice : rig.pending = 0 ∧ rig.inService = false := by
          simp only [if_true] at hdue
          simpa [overdue, hready, hdue] using hprompt
        have hdelivered := hreached.delivered huntaken hover.completion hservice.1 hservice.2
        rw [hready] at hdelivered
        exact absurd hdelivered (by decide)
    · right
      exact @goOn_waits config rig { scan with session := session } since last hready hdue

variable (config scan) in
/-- The scan has settled on an outcome, and is about to read the counter. -/
def Settled (session : SessionState) (outcome : ScanOutcome) : Trial → Prop :=
  In config (fun _ _ => True) (Core.Over config scan.work)
    { scan with session := session, phase := .calling (.counter outcome) }

def follow (config : CoreConfig) (moves : List Move) (trial : Trial) : Trial :=
  moves.foldl (fun trial move => trial.act config move) trial

/-- Whether the scan ends with some moves, and none of its turns among them comes too late. -/
def endsInTime (config : CoreConfig) (lag : Nat) : List Move → Trial → Bool
  | [], trial => trial.scan.result?.isSome
  | move :: moves, trial =>
    decide (move = .scan → trial.overdue = false ∧ trial.tardy lag = false) &&
      endsInTime config lag moves (trial.act config move)

/-- A schedule has some moves at a place. -/
def Makes (schedule : Nat → Move) (place : Nat) (moves : List Move) : Prop :=
  ∀ n move, moves[n]? = some move → schedule (place + n) = move

theorem Makes.tail {place : Nat} {move : Move} {moves : List Move}
    (h : Makes schedule place (move :: moves)) : Makes schedule (place + 1) moves := by
  intro n later hlater
  rw [Nat.add_right_comm]
  exact h (n + 1) later hlater

theorem Makes.run_succ {place : Nat} {move : Move} {moves : List Move}
    (h : Makes schedule place (move :: moves)) :
    run config schedule start (place + 1) = (run config schedule start place).act config move := by
  have hmove : schedule place = move := h 0 move rfl
  rw [run, hmove]

theorem Makes.endsInTime {place lag : Nat} {moves : List Move} (h : Makes schedule place moves)
    (hends : endsInTime config lag moves (run config schedule start place)) :
    (∀ n, place ≤ n → n < place + moves.length → schedule n = .scan →
        (run config schedule start n).overdue = false ∧
          (run config schedule start n).tardy lag = false) ∧
      (run config schedule start (place + moves.length)).scan.result?.isSome := by
  induction moves generalizing place with
  | nil => exact ⟨fun n hle hlt => absurd hlt (Nat.not_lt_of_le hle), hends⟩
  | cons move moves ih =>
    simp only [Trial.endsInTime, Bool.and_eq_true, decide_eq_true_eq] at hends
    obtain ⟨htime, hresult⟩ := ih h.tail (h.run_succ ▸ hends.2)
    rw [Nat.add_right_comm, Nat.add_assoc] at hresult
    refine ⟨fun n hle hlt hscan => ?_, hresult⟩
    rcases Nat.eq_or_lt_of_le hle with rfl | hmore
    · exact hends.1 ((h 0 move rfl).symm.trans hscan)
    · rw [List.length_cons] at hlt
      exact htime n hmore (by omega) hscan

def twoNonces : CoreConfig := { layout := .count, latency := 0, lastNonce := 1, batch := 0 }

/-- A scan on a fresh core has its turns, and the latency of a reset is not above what it allows for one,
    but it comes to a fault and never to a verdict. -/
structure Fails (config : CoreConfig) (settings : ScanConfig) (work : WorkItem)
    (schedule : Nat → Move) (fault : ScanFault) : Prop where
  reached : Rig.Reached config {} []
  free : ({} : Rig).driver.held = false
  clock : settings.clockSpeed.isSome → config.layout.hasClock
  latency : config.latency ≤ settings.readyTimeout
  fair : Fair schedule
  faulted : ∃ n hashes,
    (run config schedule (launch {} "core" config.layout settings work) n).scan.result? =
      some (.ok ⟨.faulted fault, hashes⟩)
  denied : ¬ ∃ report, work.Verdict config report ∧ ∃ n,
    (run config schedule (launch {} "core" config.layout settings work) n).scan.result? =
      some (.ok report)

end Trial

end NonceSearch
