import Mathlib.Algebra.Group.Nat.Even
import NonceSearch.Proofs.CoreSteps
import NonceSearch.Work

/-!
# What a search brings out

A searcher goes through the nonces from zero up, a batch at a time. `Core.Underway` says how far it
is: every nonce before has been rejected. Whatever the batches, the search ends with the least nonce
that the comparator accepts, or with none when all up to the last have been rejected
(`Underway.commit`).
-/

namespace NonceSearch

namespace WorkItem

/-- The mask that a core of a layout compares digests with: the mask of the target, or, where there is
    only room for a count, the mask of its count. -/
def comparator (work : WorkItem) : RegisterLayout → Bytes 32
  | .count => (DifficultyMask.ofLeadingZeros work.mask.zeroCount.toNat).bytes
  | .mask => work.mask.bytes

def passes (work : WorkItem) (layout : RegisterLayout) (nonce : UInt32) : Bool :=
  digestClearUnder (work.comparator layout) (candidateHash work.midstate work.tail nonce)

def job (work : WorkItem) (layout : RegisterLayout) (next : Nat) : Job where
  midstate := work.midstate
  tail := work.tail
  mask := work.comparator layout
  next := next

variable (work : WorkItem) (config : CoreConfig)

/-- A nonce is the first that passes, and is searched. -/
structure Least (nonce : UInt32) : Prop where
  searched : nonce ≤ config.lastNonce
  passes : work.passes config.layout nonce = true
  first : ∀ earlier, earlier < nonce → work.passes config.layout earlier = false

def Hopeless : Prop := ∀ nonce, nonce ≤ config.lastNonce → work.passes config.layout nonce = false

end WorkItem

/-! ### Batches -/

namespace Job

variable {job : Job} {count start : Nat}

/-- A hit is accepted, and every nonce of the batch before it is rejected. -/
theorem firstHit_some (hfits : start + count ≤ 2 ^ 32) {nonce : UInt32}
    (h : job.firstHit count start = some nonce) :
    nonce.toNat < start + count ∧ job.accepts nonce = true ∧
      ∀ n : UInt32, start ≤ n.toNat → n.toNat < nonce.toNat → job.accepts n = false := by
  induction count generalizing start with
  | zero => exact absurd h nofun
  | succ count ih =>
    simp only [firstHit] at h
    have hsmall : start < UInt32.size := Nat.lt_of_lt_of_le (by omega) hfits
    have hstart : (UInt32.ofNat start).toNat = start := UInt32.toNat_ofNat_of_lt' hsmall
    split at h
    · next haccepts =>
      obtain rfl := Option.some.inj h
      refine ⟨by omega, haccepts, fun n hle hlt => ?_⟩
      omega
    · next hrejects =>
      obtain ⟨hlt, haccepts, hbefore⟩ := ih (by omega) h
      refine ⟨by omega, haccepts, fun n hle hn => ?_⟩
      rcases Nat.eq_or_lt_of_le hle with heq | hlater
      · have hsame : n = UInt32.ofNat start := UInt32.toNat_inj.mp (by omega)
        rw [hsame]
        simpa using hrejects
      · exact hbefore n hlater hn

/-- Without a hit, every nonce of the batch is rejected. -/
theorem firstHit_none (hfits : start + count ≤ 2 ^ 32) (h : job.firstHit count start = none)
    (n : UInt32) (hle : start ≤ n.toNat) (hlt : n.toNat < start + count) : job.accepts n = false := by
  induction count generalizing start with
  | zero => omega
  | succ count ih =>
    simp only [firstHit] at h
    have hsmall : start < UInt32.size := Nat.lt_of_lt_of_le (by omega) hfits
    have hstart : (UInt32.ofNat start).toNat = start := UInt32.toNat_ofNat_of_lt' hsmall
    split at h
    · exact absurd h nofun
    · next hrejects =>
      rcases Nat.eq_or_lt_of_le hle with heq | hlater
      · have hsame : n = UInt32.ofNat start := UInt32.toNat_inj.mp (by omega)
        rw [hsame]
        simpa using hrejects
      · exact ih (by omega) h hlater (by omega)

end Job

/-- A batch begins and ends among the nonces that are searched. -/
theorem CoreConfig.batchEnd_bounds {config : CoreConfig} {start : Nat}
    (h : start ≤ config.lastNonce.toNat) :
    start ≤ config.batchEnd start ∧ config.batchEnd start ≤ config.lastNonce.toNat := by
  unfold batchEnd
  omega

namespace Core

variable (config : CoreConfig) (work : WorkItem)

/-- A searcher takes a batch of the present job only, and not from a core that is halted. -/
theorem take_batch {core : Core} {run : Nat} {job : Job} (h : core.take run = .batch job) :
    core.run = run ∧ core.job = some job ∧ core.halted = false := by
  unfold take at h
  split at h
  · exact absurd h nofun
  · next hrun =>
    split at h
    · exact absurd h nofun
    · next present hjob =>
      split at h
      · exact absurd h nofun
      · next hhalted =>
        obtain rfl := Taken.batch.inj h
        exact ⟨by simpa using hrun, hjob, by simpa using hhalted⟩

/-- The search for a work item is going on, and every nonce before the next one has been rejected. -/
structure Underway (core : Core) (next : Nat) : Prop where
  job : core.job = some (work.job config.layout next)
  status : core.status = .running
  readyAt : core.readyAt = none
  searched : next ≤ config.lastNonce.toNat
  rejected : ∀ n : UInt32, n.toNat < next → work.passes config.layout n = false
  halted : core.halted = false

/-- The search for a work item is over, and this is what it has brought out. -/
inductive Over (core : Core) : Prop where
  | found (nonce : UInt32) (least : work.Least config nonce) (job : core.job = none)
    (readyAt : core.readyAt = none) (status : core.status = .found)
    (candidate : core.nonceCandidate = nonce)
    (current : core.nonceCurrent = UInt32.ofNat (min (nonce.toNat + 1) 0xffffffff))
  | exhausted (hopeless : work.Hopeless config) (job : core.job = none)
    (readyAt : core.readyAt = none) (status : core.status = .exhausted)
    (current : core.nonceCurrent = UInt32.ofNat (min (config.lastNonce.toNat + 1) 0xffffffff))

/-- The core is at the search for a work item, or has just been. -/
def Hunted (core : Core) : Prop := (∃ next, core.Underway config work next) ∨ core.Over config work

variable {config work} {core : Core}

/-- A searcher that looks for a batch gets one. -/
theorem Underway.take {next : Nat} (h : core.Underway config work next) :
    core.take core.run = .batch (work.job config.layout next) := by
  simp [Core.take, h.job, h.halted]

theorem Over.job (h : core.Over config work) : core.job = none := by
  cases h <;> assumption

theorem Over.readyAt (h : core.Over config work) : core.readyAt = none := by
  cases h <;> assumption

theorem Over.completion (h : core.Over config work) : core.status.isCompletion := by
  cases h with
  | found nonce least job readyAt status => simp [status]
  | exhausted hopeless job readyAt status => simp [status]

/-- A searcher that comes back with its batch has brought the search further, or to its end. -/
theorem Underway.commit {next : Nat} (h : core.Underway config work next) :
    (∃ later, next < later ∧
      (core.commit config core.run next (hashBatch config (work.job config.layout next))).Underway
        config work later) ∨
      (core.commit config core.run next (hashBatch config (work.job config.layout next))).Over
        config work := by
  obtain ⟨hle, hend⟩ := CoreConfig.batchEnd_bounds h.searched
  have hlast := config.lastNonce.toNat_lt
  have hturn : ¬ (core.run ≠ core.run ∨ core.job.map Job.next ≠ some next) := by
    simp [h.job, WorkItem.job]
  have hfits : next + (config.batchEnd next + 1 - next) ≤ 2 ^ 32 := by omega
  unfold Core.commit
  rw [if_neg hturn]
  cases hhit : hashBatch config (work.job config.layout next) with
  | some nonce =>
    right
    obtain ⟨hlt, haccepts, hbefore⟩ := Job.firstHit_some hfits hhit
    have hleast : work.Least config nonce := by
      refine ⟨UInt32.le_iff_toNat_le.mpr (by omega), haccepts, fun earlier hearlier => ?_⟩
      have hearlier := UInt32.lt_iff_toNat_lt.mp hearlier
      rcases Nat.lt_or_ge earlier.toNat next with hold | hnew
      · exact h.rejected earlier hold
      · exact hbefore earlier hnew hearlier
    simp only [conclude, h.job, if_true]
    exact .found nonce hleast rfl h.readyAt rfl rfl rfl
  | none =>
    have hrejected : ∀ n : UInt32, n.toNat < config.batchEnd next + 1 →
        work.passes config.layout n = false := by
      intro n hn
      rcases Nat.lt_or_ge n.toNat next with hold | hnew
      · exact h.rejected n hold
      · exact Job.firstHit_none hfits hhit n hnew (by omega)
    have hnonce : (UInt32.ofNat (config.batchEnd next)).toNat = config.batchEnd next :=
      UInt32.toNat_ofNat_of_lt' (Nat.lt_of_le_of_lt hend hlast)
    simp only [conclude, h.job, hnonce]
    by_cases hexhausted : UInt32.ofNat (config.batchEnd next) = config.lastNonce
    · right
      have hbound : config.batchEnd next = config.lastNonce.toNat := by rw [← hexhausted, hnonce]
      simp only [hexhausted, if_true]
      refine .exhausted (fun nonce hsearched => ?_) rfl h.readyAt rfl (by rw [← hbound]; rfl)
      exact hrejected nonce (Nat.lt_succ_of_le (by
        rw [hbound]
        exact UInt32.le_iff_toNat_le.mp hsearched))
    · left
      have hbound : config.batchEnd next ≠ config.lastNonce.toNat := by
        intro hsame
        exact hexhausted (UInt32.toNat_inj.mp (hnonce.trans hsame))
      simp only [hexhausted, if_false]
      exact ⟨config.batchEnd next + 1, by omega, rfl, h.status, h.readyAt, by omega, hrejected,
        h.halted⟩

/-- A search that is over stays over, whatever reads it. -/
theorem Over.change {next : Core} (h : core.Over config work) (hchange : core.Change next) :
    next.Over config work := by
  have hkept : next.job = core.job → next.readyAt = core.readyAt → next.status = core.status →
      next.nonceCandidate = core.nonceCandidate → next.nonceCurrent = core.nonceCurrent →
      next.Over config work := by
    intro hjob hready hstatus hcandidate hcurrent
    cases h with
    | found nonce least job readyAt status candidate current =>
      exact .found nonce least (hjob.trans job) (hready.trans readyAt) (hstatus.trans status)
        (hcandidate.trans candidate) (hcurrent.trans current)
    | exhausted hopeless job readyAt status current =>
      exact .exhausted hopeless (hjob.trans job) (hready.trans readyAt) (hstatus.trans status)
        (hcurrent.trans current)
  have hjob := h.job
  have hready := h.readyAt
  have hcompletion := h.completion
  cases hchange with
  | kept same => exact hkept same.job same.readyAt same.status same.nonceCandidate same.nonceCurrent
  | called same => exact hkept same.job same.readyAt same.status same.nonceCandidate same.nonceCurrent
  | readied pending same => simp [hready] at pending
  | started job ready same =>
    rcases ready with ready | ready
    · simp [ready] at hcompletion
    · simp [hready] at ready
  | advanced job reached current searching same => simp [hjob] at searching
  | ended job outcome current candidate searching outcomes same => simp [hjob] at searching

/-! ### While somebody else has a turn -/

variable (config work) in
/-- What the searchers may do to a core: nothing if it has no job, and nothing but bring the search
    for a work item further if that is what it is at. -/
structure Meanwhile (core next : Core) : Prop where
  idle : core.job = none → next = core
  underway : ∀ n, core.Underway config work n →
    (∃ later, n ≤ later ∧ next.Underway config work later) ∨ next.Over config work

theorem Meanwhile.refl (core : Core) : core.Meanwhile config work core where
  idle _ := rfl
  underway n h := .inl ⟨n, Nat.le_refl n, h⟩

theorem Meanwhile.trans {next last : Core} (h : core.Meanwhile config work next)
    (h' : next.Meanwhile config work last) : core.Meanwhile config work last where
  idle hjob := by
    obtain rfl := h.idle hjob
    exact h'.idle hjob
  underway n hn := by
    rcases h.underway n hn with ⟨m, hm, hnext⟩ | hover
    · rcases h'.underway m hnext with ⟨later, hlater, hlast⟩ | hover
      · exact .inl ⟨later, Nat.le_trans hm hlater, hlast⟩
      · exact .inr hover
    · rw [h'.idle hover.job]
      exact .inr hover

end Core

end NonceSearch
