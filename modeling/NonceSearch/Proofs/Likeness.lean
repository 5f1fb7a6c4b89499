import NonceSearch.Proofs.Comparators
import NonceSearch.Proofs.Searchers
import NonceSearch.Proofs.Sketches

/-!
# One schedule on two layouts

The sketches of one schedule on the two layouts are alike: they differ in the masks of their searches
only, and there only after an item with the target zero or one has been loaded (`Sketch.Like`). No deal
tells them apart unless it has the core of the count layout find a nonce that the mask would not have
let pass, because its digest is one (`Sketch.Like.act`).
-/

namespace NonceSearch

variable {asked : List Deal}

/-! ### Searches -/

/-- The masks of the two layouts after some calls: the same one, unless it is that of a target which is
    zero or one. -/
def SameSource (asked : List Deal) (count mask : Bytes 32) : Prop :=
  count = mask ∨ ∃ work : WorkItem, .ask (.load .difficulty work) ∈ asked ∧ work.target ≤ 1 ∧
    count = work.comparator .count ∧ mask = work.comparator .mask

namespace Job

variable {job other : Job}

/-- A search of the count layout and the same one on the mask layout. -/
structure Like (asked : List Deal) (job other : Job) : Prop where
  midstate : other.midstate = job.midstate
  tail : other.tail = job.tail
  next : other.next = job.next
  mask : SameSource asked job.mask other.mask

/-- A nonce that passes with a count of leading zeros though not with a mask: the target of the item is
    zero or one, and the digest is one. -/
def Slips (asked : List Deal) (job : Job) (nonce : UInt32) : Prop :=
  (∃ work : WorkItem, .ask (.load .difficulty work) ∈ asked ∧ work.target ≤ 1 ∧
    job.mask = work.comparator .count) ∧ (job.hash nonce).toNatLE = 1

theorem Like.accepts (h : job.Like asked other) (nonce : UInt32) :
    other.accepts nonce = job.accepts nonce ∨
      job.accepts nonce = true ∧ job.Slips asked nonce := by
  obtain ⟨hmidstate, htail, -, hmask⟩ := h
  have hhash : other.hash nonce = job.hash nonce := by
    rw [hash, hmidstate, htail]
    rfl
  simp only [Job.accepts, hhash]
  rcases hmask with hsame | ⟨work, hwork, htarget, hcount, hother⟩
  · rw [hsame]
    exact .inl rfl
  · have hlaw := work.comparator_count_accepts (job.hash nonce)
    rw [← hcount, ← hother] at hlaw
    cases haccepts : digestClearUnder job.mask (job.hash nonce) with
    | false =>
      left
      rw [haccepts] at hlaw
      simpa using fun hclear => hlaw.mpr (.inl hclear)
    | true =>
      rcases hlaw.mp haccepts with hclear | ⟨-, hone⟩
      · exact .inl hclear
      · exact .inr ⟨rfl, ⟨work, hwork, htarget, hcount⟩, hone⟩

theorem Like.firstHit (h : job.Like asked other) (count start : Nat) :
    other.firstHit count start = job.firstHit count start ∨
      ∃ nonce, job.firstHit count start = some nonce ∧ job.Slips asked nonce := by
  induction count generalizing start with
  | zero => exact .inl rfl
  | succ count ih =>
    simp only [Job.firstHit]
    rcases h.accepts (UInt32.ofNat start) with hsame | ⟨haccepts, hslips⟩
    · rw [hsame]
      split
      · exact .inl rfl
      · exact ih (start + 1)
    · rw [if_pos haccepts]
      exact .inr ⟨_, rfl, hslips⟩

end Job

/-! ### Cores -/

namespace Core

variable {config : CoreConfig} {core other : Core} {now : Nat}

/-- The two cores differ in the masks of their searches at most. -/
def Like (asked : List Deal) (core other : Core) : Prop :=
  ∃ job, other = { core with job := job } ∧ Option.Rel (Job.Like asked) core.job job

theorem Like.refresh (h : core.Like asked other) : (core.refresh now).Like asked (other.refresh now) := by
  obtain ⟨job, rfl, hjob⟩ := h
  unfold Core.refresh
  dsimp only
  split
  · split
    · exact ⟨job, rfl, hjob⟩
    · exact ⟨job, rfl, hjob⟩
  · exact ⟨job, rfl, hjob⟩

theorem Like.reset (h : core.Like asked other) :
    (core.reset config now).Like asked (other.reset config now) := by
  obtain ⟨job, rfl, -⟩ := h
  refine ⟨none, ?_, ?_⟩
  · unfold Core.reset
    dsimp only
    split <;> rfl
  · rw [reset_search.1]
    exact .none

theorem Like.begin (h : core.Like asked other) {job job' : Job} (hjob : job.Like asked job') :
    (core.begin job now).Like asked (other.begin job' now) := by
  obtain ⟨searched, hother, hsearched⟩ := @Like.refresh _ _ _ now h
  unfold Core.begin
  rw [hother]
  dsimp only
  split
  · exact ⟨some job', rfl, .some hjob⟩
  · exact ⟨searched, rfl, hsearched⟩

theorem Like.setHalted (h : core.Like asked other) (halted : Bool) :
    (core.setHalted halted).Like asked (other.setHalted halted) := by
  obtain ⟨job, rfl, hjob⟩ := h
  exact ⟨job, rfl, hjob⟩

theorem Like.raiseSpurious (h : core.Like asked other) :
    core.raiseSpurious.Like asked other.raiseSpurious := by
  obtain ⟨job, rfl, hjob⟩ := h
  exact ⟨job, rfl, hjob⟩

theorem Like.conclude (h : core.Like asked other) (nonce : UInt32) (accepted : Bool) :
    (core.conclude config nonce accepted).Like asked
      (other.conclude config nonce accepted) := by
  obtain ⟨job, rfl, hjob⟩ := h
  unfold Core.conclude
  generalize hsearched : core.job = searched at hjob
  cases hjob with
  | none => exact ⟨none, rfl, by rw [hsearched]; exact .none⟩
  | @some job job' hlike =>
    have hmoved : Job.Like asked { job with next := nonce.toNat + 1 }
        { job' with next := nonce.toNat + 1 } := ⟨hlike.midstate, hlike.tail, rfl, hlike.mask⟩
    dsimp only
    split
    · exact ⟨none, rfl, .none⟩
    · split
      · exact ⟨none, rfl, .none⟩
      · exact ⟨some _, rfl, .some hmoved⟩

/-- The nonce is found. -/
theorem found?_conclude {job : Job} (hjob : core.job = some job) (nonce : UInt32) :
    core.found? (core.conclude config nonce true) = some (job, nonce) := by
  simp [found?, Core.conclude, hjob, finish]

/-- A step finds the same on both, or the count lets something slip. -/
theorem Like.step (h : core.Like asked other) :
    (core.step config).Like asked (other.step config) ∨
      ∃ job nonce, core.found? (core.step config) = some (job, nonce) ∧
        job.Slips asked nonce := by
  have hlike := h
  obtain ⟨job, rfl, hjob⟩ := h
  unfold Core.step
  generalize hsearched : core.job = searched at hjob
  cases hjob with
  | none => exact .inl hlike
  | @some job job' hjobs =>
    dsimp only
    rw [hjobs.next]
    split
    · rcases hjobs.accepts (UInt32.ofNat job.next) with hsame | ⟨haccepts, hslips⟩
      · rw [hsame]
        exact .inl (hlike.conclude _ _)
      · rw [haccepts]
        exact .inr ⟨job, _, found?_conclude hsearched _, hslips⟩
    · exact .inl hlike

theorem Like.commit (h : core.Like asked other) (run start : Nat) (hit : Option UInt32) :
    (core.commit config run start hit).Like asked
      (other.commit config run start hit) := by
  have hlike := h
  obtain ⟨job, rfl, hjob⟩ := h
  have hnext : job.map Job.next = core.job.map Job.next := by
    generalize core.job = searched at hjob
    cases hjob with
    | none => rfl
    | some hjobs => simp [hjobs.next]
  unfold Core.commit
  dsimp only
  rw [hnext]
  split
  · exact hlike
  · split
    · exact hlike.conclude _ _
    · exact hlike.conclude _ _

/-- A hit is found, or it does not matter what has been hashed. -/
theorem commit_hit (run start : Nat) (nonce : UInt32) :
    (∃ job, core.run = run ∧ core.job = some job ∧
      core.found? (core.commit config run start (some nonce)) = some (job, nonce)) ∨
    ∀ hit, core.commit config run start hit = core := by
  by_cases hstale : core.run ≠ run ∨ core.job.map Job.next ≠ some start
  · exact .inr fun hit => if_pos hstale
  · obtain ⟨hrun, hnext⟩ := not_or.mp hstale
    obtain ⟨job, hjob, -⟩ := Option.map_eq_some_iff.mp (not_not.mp hnext)
    refine .inl ⟨job, not_not.mp hrun, hjob, ?_⟩
    rw [commit, if_neg hstale]
    exact found?_conclude hjob nonce

end Core

/-! ### Rigs -/

namespace Rig

variable {config : CoreConfig} {rig other : Rig}

structure Like (asked : List Deal) (rig other : Rig) : Prop where
  core : rig.core.Like asked other.core
  driver : other.driver = rig.driver
  now : other.now = rig.now
  taken : other.taken = rig.taken
  called : other.called = rig.called
  hashing : ∀ run, Option.Rel (Job.Like asked) (rig.hashing run) (other.hashing run)

theorem Like.act (h : rig.Like asked other) {move : Move} (hmove : move.offBus = true)
    (hsearch : ∀ run, move ≠ .search run) :
    (rig.act config move).Like asked (other.act config move) := by
  obtain ⟨hcore, hdriver, hnow, htaken, hcalled, hhashing⟩ := h
  cases move with
  | pass duration => exact ⟨hcore, hdriver, congrArg (· + duration) hnow, htaken, hcalled, hhashing⟩
  | read room =>
    simp only [Rig.act, hdriver]
    split
    · exact ⟨hcore, rfl, hnow, htaken, hcalled, hhashing⟩
    · exact ⟨hcore, hdriver, hnow, htaken, hcalled, hhashing⟩
  | raiseSpurious => exact ⟨hcore.raiseSpurious, hdriver, hnow, htaken, hcalled, hhashing⟩
  | setHalted halted => exact ⟨hcore.setHalted halted, hdriver, hnow, htaken, hcalled, hhashing⟩
  | search run => exact absurd rfl (hsearch run)
  | _ => cases hmove

/-- Both searchers find the same when they look for a batch. -/
theorem Like.take (h : rig.Like asked other) (run : Nat) :
    (∃ job job', rig.core.take run = .batch job ∧ other.core.take run = .batch job' ∧
      job.Like asked job') ∨
      (∀ job, rig.core.take run ≠ .batch job) ∧ ∀ job, other.core.take run ≠ .batch job := by
  obtain ⟨job, hother, hjob⟩ := h.core
  rw [hother]
  unfold Core.take
  dsimp only
  generalize rig.core.job = searched at hjob
  split
  · exact .inr ⟨nofun, nofun⟩
  · cases hjob with
    | none => exact .inr ⟨nofun, nofun⟩
    | @some job job' hjobs =>
      dsimp only
      split
      · exact .inr ⟨nofun, nofun⟩
      · exact .inl ⟨job, job', rfl, rfl, hjobs⟩

/-- What has been hashed brings out the same on both, or the count lets something slip. -/
theorem hashBatch_like {job job' : Job} (h : job.Like asked job') :
    Core.hashBatch config job' = Core.hashBatch config job ∨
      ∃ nonce, Core.hashBatch config job = some nonce ∧ job.Slips asked nonce := by
  unfold Core.hashBatch
  rw [h.next]
  exact h.firstHit _ _

/-- A searcher that comes back leaves the two rigs alike, or has the count's find what slips through. -/
theorem Like.search (h : rig.Like asked other) (hhashed : rig.Hashed) (run : Nat) :
    (rig.search config run).Like asked (other.search config run) ∨
      ∃ job nonce, rig.core.found? (rig.search config run).core = some (job, nonce) ∧
        job.Slips asked nonce := by
  obtain ⟨hcore, hdriver, hnow, htaken, hcalled, hhashing⟩ := id h
  have hupdate : ∀ job job', Option.Rel (Job.Like asked) job job' → ∀ present,
      Option.Rel (Job.Like asked) (Function.update rig.hashing run job present)
        (Function.update other.hashing run job' present) := by
    intro job job' hjobs present
    by_cases hpresent : present = run
    · subst hpresent
      rwa [Function.update_self, Function.update_self]
    · rw [Function.update_of_ne hpresent, Function.update_of_ne hpresent]
      exact hhashing present
  have hrun := hhashing run
  unfold Rig.search
  generalize hfirst : rig.hashing run = first at hrun
  generalize other.hashing run = second at hrun
  cases hrun with
  | none =>
    left
    dsimp only
    rcases h.take run with ⟨job, job', htake, hother, hjobs⟩ | ⟨htake, hother⟩
    · rw [htake, hother]
      exact ⟨hcore, hdriver, hnow, htaken, hcalled, hupdate _ _ (.some hjobs)⟩
    · split
      · next hbatch => exact absurd hbatch (htake _)
      · exact h
  | @some job job' hjobs =>
    dsimp only
    rw [hjobs.next]
    have hcommits : ∀ hit hit', (rig.core.commit config run job.next hit).Like asked
        (other.core.commit config run job.next hit') → Rig.Like asked
        { rig with
          core := rig.core.commit config run job.next hit
          hashing := Function.update rig.hashing run none }
        { other with
          core := other.core.commit config run job.next hit'
          hashing := Function.update other.hashing run none } :=
      fun _ _ hcommit => ⟨hcommit, hdriver, hnow, htaken, hcalled, hupdate _ _ .none⟩
    rcases @hashBatch_like _ config _ _ hjobs with hsame | ⟨nonce, hhit, hslips⟩
    · rw [hsame]
      exact .inl (hcommits _ _ (hcore.commit _ _ _))
    · rw [hhit]
      rcases @Core.commit_hit config rig.core run job.next nonce with
        ⟨searched, rfl, hsearched, hfound⟩ | hstale
      · -- what is hashed in the present run is the search of the core
        obtain ⟨-, -, hpresent⟩ := hhashed.present job hfirst
        have hsearch := hpresent searched hsearched
        refine .inr ⟨searched, nonce, hfound, ?_⟩
        rw [hsearch]
        exact hslips
      · refine .inl (hcommits _ _ ?_)
        rw [hstale, ← hstale (Core.hashBatch config job')]
        exact hcore.commit _ _ _

end Rig

/-! ### Parameters -/

namespace Parameters

/-- What a start latches of the parameters on the count layout, and on the mask layout. -/
structure Like (asked : List Deal) (count mask : Parameters) : Prop where
  stateIn : mask.stateIn = count.stateIn
  tail : mask.tail = count.tail
  comparator : SameSource asked (count.comparator .count) (mask.comparator .mask)

theorem Like.newJob {count mask : Parameters} (h : count.Like asked mask) :
    (count.newJob .count).Like asked (mask.newJob .mask) :=
  ⟨h.stateIn, h.tail, rfl, h.comparator⟩

/-- The masks of one item have the same source, whatever its target. -/
theorem sameSource_of_load {work : WorkItem} (h : .ask (.load .difficulty work) ∈ asked) :
    SameSource asked (work.comparator .count) (work.comparator .mask) := by
  by_cases htarget : 1 < work.target
  · exact .inl (WorkItem.comparator_eq htarget)
  · exact .inr ⟨work, h, BitVec.not_lt.mp htarget, rfl, rfl⟩

/-- The same calls come to the same. -/
theorem after_like {carriedOut : List Ask} (h : ∀ ask ∈ carriedOut, .ask ask ∈ asked) :
    (after (carriedOut.map (Ask.request .count))).Like asked
      (after (carriedOut.map (Ask.request .mask))) := by
  -- nothing counts as no bits
  have hcleared : (DifficultyMask.ofLeadingZeros (0 : UInt8).toNat).bytes = .zero 32 := by decide
  induction carriedOut with
  | nil => exact ⟨rfl, rfl, .inl hcleared⟩
  | cons ask carriedOut ih =>
    obtain ⟨hask, hbefore⟩ := List.forall_mem_cons.mp h
    obtain ⟨hstateIn, htail, hcomparator⟩ := ih hbefore
    rw [List.map_cons, List.map_cons, after_cons, after_cons]
    cases ask with
    | reset => exact ⟨rfl, rfl, .inl hcleared⟩
    | load part work =>
      cases part with
      | midstate => exact ⟨rfl, htail, hcomparator⟩
      | tail => exact ⟨hstateIn, rfl, hcomparator⟩
      | difficulty => exact ⟨hstateIn, htail, sameSource_of_load hask⟩
    | _ => exact ⟨hstateIn, htail, hcomparator⟩

end Parameters

/-! ### Sketches -/

/-- The same results, except that a difficulty that is out of turn is refused by the name of the request
    that the layout has for it. -/
inductive Session.Outcome.Like : Session.Outcome → Session.Outcome → Prop where
  | same (outcome : Session.Outcome) : Like outcome outcome
  | refused (state : SessionState) :
    Like (.answer (.error (.violation (.outOfTurn .setLeadingZeros state))))
      (.answer (.error (.violation (.outOfTurn .setDifficultyMask state))))

def CoreConfig.on (config : CoreConfig) (layout : RegisterLayout) : CoreConfig :=
  { config with layout := layout }

/-- What goes by no register has nothing to do with the layout. -/
theorem Rig.act_on {config : CoreConfig} {move : Move} (h : move.offBus = true) (rig : Rig)
    (layout : RegisterLayout) : rig.act (config.on layout) move = rig.act config move := by
  cases move with
  | search run => rfl
  | pass duration => rfl
  | read room => rfl
  | raiseSpurious => rfl
  | setHalted halted => rfl
  | _ => exact absurd h nofun

theorem Ask.refusal_like (ask : Ask) (state : SessionState) : Session.Outcome.Like
    (.answer (.error ((ask.call .count).refusal state)))
    (.answer (.error ((ask.call .mask).refusal state))) := by
  cases ask with
  | load part work =>
    cases part with
    | difficulty => exact .refused state
    | _ => exact .same _
  | _ => exact .same _

namespace Sketch

variable {config : CoreConfig} {sketch other : Sketch} {deal : Deal}

/-- The sketches of a schedule on the count layout and on the mask layout, as long as nothing has
    slipped through. -/
structure Like (asked : List Deal) (sketch other : Sketch) : Prop where
  rig : sketch.rig.Like asked other.rig
  holder : other.holder = sketch.holder
  state : other.state = sketch.state
  errand : other.errand = sketch.errand
  carriedOut : other.carriedOut = sketch.carriedOut
  results : List.Forall₂ Session.Outcome.Like sketch.results other.results

structure Asked (asked : List Deal) (sketch : Sketch) : Prop where
  errand : ∀ ask, sketch.errand = some ask → .ask ask ∈ asked
  asking : ∀ ask, sketch.holder = some (.asking ask) → .ask ask ∈ asked
  answered : ∀ ask reply, sketch.holder = some (.answered ask reply) → .ask ask ∈ asked
  carriedOut : ∀ ask ∈ sketch.carriedOut, .ask ask ∈ asked

/-- A nonce has been found that the mask would not have let pass. -/
def Slipped (asked : List Deal) (sketch : Sketch) : Prop :=
  ∃ job nonce, (job, nonce) ∈ sketch.finds ∧ job.Slips asked nonce

theorem Like.newJob (h : sketch.Like asked other) (hasked : sketch.Asked asked) :
    (sketch.newJob (config.on .count)).Like asked (other.newJob (config.on .mask)) := by
  unfold Sketch.newJob
  rw [h.carriedOut]
  exact (Parameters.after_like hasked.carriedOut).newJob

theorem Like.take (h : sketch.Like asked other) (ask : Ask) :
    (sketch.take (config.on .count) ask).Like asked (other.take (config.on .mask) ask) := by
  obtain ⟨hrig, hholder, hstate, herrand, hcarriedOut, hresults⟩ := h
  have hallowed := ask.call_allowed .mask sketch.state
  have hrefusal := ask.refusal_like sketch.state
  unfold Sketch.take
  simp only [herrand, hstate, CoreConfig.on, hallowed]
  by_cases hbusy : sketch.errand.isSome = true
  · simp only [hbusy, if_true]
    exact ⟨hrig, hholder, hstate, herrand, hcarriedOut, hresults⟩
  · simp only [hbusy]
    by_cases hturn : (ask.call .count).allowed sketch.state = true
    · simp only [hturn, if_true]
      exact ⟨hrig, hholder, rfl, rfl, hcarriedOut, hresults⟩
    · simp only [hturn]
      exact ⟨hrig, hholder, rfl, rfl, hcarriedOut, .cons hrefusal hresults⟩

theorem Like.lock (h : sketch.Like asked other) : sketch.lock.Like asked other.lock := by
  obtain ⟨hrig, hholder, hstate, herrand, hcarriedOut, hresults⟩ := h
  unfold Sketch.lock
  rw [herrand, hrig.driver, hholder]
  split
  · exact ⟨hrig, rfl, hstate, rfl, hcarriedOut, hresults⟩
  · exact ⟨hrig, hholder, hstate, herrand, hcarriedOut, hresults⟩

/-- A find of what slips through between two states of the core. -/
def Slip (asked : List Deal) (core next : Core) : Prop :=
  ∃ job nonce, core.found? next = some (job, nonce) ∧ job.Slips asked nonce

theorem Like.access (h : sketch.Like asked other) (hasked : sketch.Asked asked) (ask : Ask) :
    ((other.access (config.on .mask) ask).1 = (sketch.access (config.on .count) ask).1 ∧
      (sketch.access (config.on .count) ask).2.Like asked (other.access (config.on .mask) ask).2) ∨
      Slip asked sketch.rig.core (sketch.access (config.on .count) ask).2 := by
  have hcore := h.rig.core
  have hseen : (sketch.rig.core.refresh sketch.rig.now).Like asked
      (other.rig.core.refresh sketch.rig.now) := hcore.refresh
  unfold Sketch.access
  rw [h.rig.now]
  cases ask with
  | reset => exact .inl ⟨rfl, hcore.reset⟩
  | start => exact .inl ⟨rfl, hcore.begin (h.newJob hasked)⟩
  | step =>
    rcases @Core.Like.step _ config _ _ hcore with hstep | hslip
    · exact .inl ⟨rfl, hstep⟩
    · exact .inr hslip
  | status =>
    left
    obtain ⟨job, hother, -⟩ := id hseen
    refine ⟨?_, hseen⟩
    dsimp only
    rw [hother]
  | currentNonce =>
    left
    obtain ⟨job, hother, -⟩ := id hseen
    refine ⟨?_, hseen⟩
    dsimp only
    rw [hother]
  | load part work => exact .inl ⟨rfl, hcore⟩

theorem Like.proceed (h : sketch.Like asked other) (hasked : sketch.Asked asked) :
    (sketch.proceed (config.on .count)).Like asked (other.proceed (config.on .mask)) ∨
      Slip asked sketch.rig.core (sketch.proceed (config.on .count)).rig.core := by
  have haccess := @Like.access _ config _ _ h hasked
  obtain ⟨hrig, hholder, hstate, herrand, hcarriedOut, hresults⟩ := id h
  obtain ⟨hcore, hdriver, hnow, htaken, hcalled, hhashing⟩ := hrig
  unfold Sketch.proceed
  rw [hholder]
  split
  · next ask hasking =>
    rcases haccess ask with ⟨hreply, hnext⟩ | hslip
    · refine .inl ⟨⟨hnext, hdriver, hnow, htaken, hcalled, hhashing⟩, ?_, hstate, herrand, hcarriedOut,
        hresults⟩
      exact congrArg (fun reply => some (Holder.answered ask reply)) hreply
    · exact .inr hslip
  · next ask reply hanswered =>
    have hdone := ask.finishRequest_request .mask sketch.rig.driver
    have hsettle := ask.call_settle .mask sketch.state (.ok reply)
    simp only [CoreConfig.on, hstate, hdriver, hdone, hsettle]
    exact .inl ⟨⟨hcore, rfl, hnow, htaken, hcalled, hhashing⟩, rfl, rfl, rfl,
      congrArg (ask :: ·) hcarriedOut, .cons (.same _) hresults⟩
  · exact .inl h

theorem Like.answerCall (h : sketch.Like asked other) : sketch.answerCall.Like asked other.answerCall := by
  obtain ⟨hrig, hholder, hstate, herrand, hcarriedOut, hresults⟩ := id h
  obtain ⟨hcore, hdriver, hnow, htaken, hcalled, hhashing⟩ := hrig
  have hraised : other.rig.core.raised = sketch.rig.core.raised := by
    obtain ⟨job, hother, -⟩ := hcore
    rw [hother]
  unfold Sketch.answerCall
  simp only [hcalled, htaken, hraised, hholder]
  split
  · split
    · exact ⟨⟨hcore, hdriver, hnow, rfl, rfl, hhashing⟩, rfl, hstate, herrand, hcarriedOut, hresults⟩
    · exact h
  · split
    · exact ⟨⟨hcore, hdriver, hnow, rfl, rfl, hhashing⟩, rfl, hstate, herrand, hcarriedOut, hresults⟩
    · exact h

theorem Like.serve (h : sketch.Like asked other) : sketch.serve.Like asked other.serve := by
  obtain ⟨hrig, hholder, hstate, herrand, hcarriedOut, hresults⟩ := id h
  obtain ⟨hcore, hdriver, hnow, htaken, hcalled, hhashing⟩ := hrig
  have hseen : (sketch.rig.core.refresh sketch.rig.now).Like asked
      (other.rig.core.refresh sketch.rig.now) := hcore.refresh
  obtain ⟨job, hother, -⟩ := id hseen
  unfold Sketch.serve
  rw [hholder, hnow]
  split
  · refine ⟨⟨hseen, hdriver, hnow, htaken, hcalled, hhashing⟩, ?_, hstate, herrand, hcarriedOut,
      hresults⟩
    dsimp only
    rw [hother]
  · refine ⟨⟨hseen, hdriver, hnow, htaken, hcalled, hhashing⟩, ?_, hstate, herrand, hcarriedOut,
      hresults⟩
    dsimp only
    rw [hother]
  · exact ⟨⟨hcore.setHalted false, hdriver, hnow, htaken, hcalled, hhashing⟩, rfl, hstate, herrand,
      hcarriedOut, hresults⟩
  · rw [hdriver]
    exact ⟨⟨hcore, rfl, hnow, htaken, hcalled, hhashing⟩, rfl, hstate, herrand, hcarriedOut, hresults⟩
  · exact h.answerCall

theorem Like.moveRig (h : sketch.Like asked other) {move : Rig.Move} (hmove : move.offBus = true)
    (hsearch : ∀ run, move ≠ .search run) :
    (sketch.moveRig (config.on .count) move).Like asked (other.moveRig (config.on .mask) move) := by
  obtain ⟨hrig, hholder, hstate, herrand, hcarriedOut, hresults⟩ := h
  refine ⟨?_, hholder, hstate, herrand, hcarriedOut, hresults⟩
  simp only [Sketch.moveRig, Rig.act_on hmove]
  exact hrig.act hmove hsearch

/-- No deal tells the layouts apart, unless something slips through. -/
theorem Like.advance (h : sketch.Like asked other) (hasked : sketch.Asked asked)
    (hhashed : sketch.rig.Hashed) :
    (sketch.advance (config.on .count) deal).Like asked (other.advance (config.on .mask) deal) ∨
      Slip asked sketch.rig.core (sketch.advance (config.on .count) deal).rig.core := by
  cases deal with
  | ask ask => exact .inl (h.take ask)
  | lock => exact .inl h.lock
  | proceed => exact h.proceed hasked
  | serve => exact .inl h.serve
  | search run =>
    obtain ⟨hrig, hholder, hstate, herrand, hcarriedOut, hresults⟩ := h
    rcases @Rig.Like.search _ config _ _ hrig hhashed run with hsearch | hslip
    · exact .inl ⟨hsearch, hholder, hstate, herrand, hcarriedOut, hresults⟩
    · exact .inr hslip
  | pass duration => exact .inl (h.moveRig rfl nofun)
  | tryCompletion =>
    have hread := @Like.moveRig _ config _ _ h (.read CompletionMessage.size) rfl nofun
    obtain ⟨hrig, hholder, hstate, herrand, hcarriedOut, hresults⟩ := hread
    simp only [Sketch.advance, Sketch.tryCompletion, h.rig.driver]
    exact .inl ⟨hrig, hholder, hstate, herrand, hcarriedOut, .cons (.same _) hresults⟩
  | raiseSpurious => exact .inl (h.moveRig rfl nofun)
  | setHalted halted => exact .inl (h.moveRig rfl nofun)

theorem Like.act (h : sketch.Like asked other) (hasked : sketch.Asked asked)
    (hhashed : sketch.rig.Hashed) :
    (sketch.act (config.on .count) deal).Like asked (other.act (config.on .mask) deal) ∨
      (sketch.act (config.on .count) deal).Slipped asked := by
  rcases @Like.advance _ config _ _ deal h hasked hhashed with hadvance | ⟨job, nonce, hfound, hslips⟩
  · obtain ⟨hrig, hholder, hstate, herrand, hcarriedOut, hresults⟩ := hadvance
    exact .inl ⟨hrig, hholder, hstate, herrand, hcarriedOut, hresults⟩
  · refine .inr ⟨job, nonce, ?_, hslips⟩
    simp [Sketch.act, hfound]

/-- What has slipped through is not taken back. -/
theorem Slipped.act (h : sketch.Slipped asked) : (sketch.act config deal).Slipped asked := by
  obtain ⟨job, nonce, hfound, hslips⟩ := h
  refine ⟨job, nonce, ?_, hslips⟩
  simp only [Sketch.act]
  exact List.mem_append_right _ hfound

theorem Asked.advance (h : sketch.Asked asked) (hdeal : deal ∈ asked) :
    (sketch.advance config deal).Asked asked := by
  obtain ⟨herrand, hasking, hanswered, hcarriedOut⟩ := id h
  cases deal with
  | ask ask =>
    simp only [Sketch.advance, Sketch.take]
    split
    · exact h
    · split
      · refine ⟨fun taken htaken => ?_, hasking, hanswered, hcarriedOut⟩
        obtain rfl := Option.some.inj htaken
        exact hdeal
      · exact ⟨herrand, hasking, hanswered, hcarriedOut⟩
  | lock =>
    simp only [Sketch.advance, Sketch.lock]
    split
    · next ask hask _ _ =>
      have hunderway := herrand ask hask
      refine ⟨herrand, fun other hother => ?_, fun other reply hother => ?_, hcarriedOut⟩
      · have hholder := Option.some.inj hother
        split at hholder
        · cases hholder
        · cases hholder
          exact hunderway
      · have hholder := Option.some.inj hother
        split at hholder
        · cases hholder
          exact hunderway
        · cases hholder
    · exact h
  | proceed =>
    simp only [Sketch.advance, Sketch.proceed]
    split
    · next ask hask =>
      refine ⟨herrand, nofun, fun other reply hother => ?_, hcarriedOut⟩
      cases Option.some.inj hother
      exact hasking ask hask
    · next ask reply hask =>
      refine ⟨nofun, nofun, nofun, List.forall_mem_cons.mpr ⟨hanswered ask reply hask, hcarriedOut⟩⟩
    · exact h
  | serve =>
    have hserving : ∀ rig : Rig, ∀ next : Holder,
        (∀ ask, next ≠ .asking ask) → (∀ ask reply, next ≠ .answered ask reply) →
        Asked asked { sketch with rig := rig, holder := some next } := by
      intro rig next hask hanswer
      exact ⟨herrand, fun ask hnext => absurd (Option.some.inj hnext) (hask ask),
        fun ask reply hnext => absurd (Option.some.inj hnext) (hanswer ask reply), hcarriedOut⟩
    simp only [Sketch.advance, Sketch.serve]
    split
    · split <;> exact hserving _ _ nofun nofun
    · exact hserving _ _ nofun nofun
    · exact hserving _ _ nofun nofun
    · exact ⟨herrand, nofun, nofun, hcarriedOut⟩
    · unfold answerCall
      split
      · split
        · exact hserving _ _ nofun nofun
        · exact h
      · split
        · exact ⟨herrand, hasking, hanswered, hcarriedOut⟩
        · exact h
  | _ => exact ⟨herrand, hasking, hanswered, hcarriedOut⟩

end Sketch

end NonceSearch
