import NonceSearch.Proofs.DumpEffects

/-!
# A reset erases history

A core after a reset is a core that has just been set up and reset, apart from its clock and from two
counts, of its runs and of its interrupts. Nothing that anybody does shows how far a count is, only
whether it goes on: a searcher compares its run with the run of the core, and the service thread what it
has taken with what has been raised. So a rig in which everything was quiet when it was reset goes on as
one that has no past (`Rig.Resumes`), and what any two of them show under one schedule is the same. The
searchers of older runs may still come back with their batches. They find that the core has moved on, and
nobody sees them.
-/

namespace NonceSearch

/-! ### Cores with a past -/

namespace Core

/-- The same core after so many more runs and interrupts. -/
def renumber (runs interrupts : Nat) (core : Core) : Core :=
  { core with run := runs + core.run, raised := interrupts + core.raised }

/-- A core with this clock that has just been reset, with its counts from zero on. -/
def renewed (config : CoreConfig) (now : Nat) (clock : UInt32) : Core :=
  { reset config now { clock := clock } with run := 0 }

variable {config : CoreConfig} {core : Core} {runs interrupts : Nat} (now : Nat)

section Fields

@[simp] theorem status_renumber : (core.renumber runs interrupts).status = core.status := rfl

@[simp] theorem readyAt_renumber : (core.renumber runs interrupts).readyAt = core.readyAt := rfl

@[simp] theorem halted_renumber : (core.renumber runs interrupts).halted = core.halted := rfl

@[simp] theorem run_renumber : (core.renumber runs interrupts).run = runs + core.run := rfl

@[simp] theorem job_renumber : (core.renumber runs interrupts).job = core.job := rfl

@[simp] theorem bank_renumber : (core.renumber runs interrupts).bank = core.bank := rfl

@[simp] theorem raised_renumber :
    (core.renumber runs interrupts).raised = interrupts + core.raised := rfl

end Fields

/-- Of what a core was before a reset, its clock and its counts are left. -/
theorem reset_eq_renewed :
    core.reset config now = (renewed config now core.clock).renumber (core.run + 1) core.raised := by
  unfold renewed reset
  dsimp only
  split <;> rfl

/-! #### Commands -/

theorem renumber_refresh :
    (core.renumber runs interrupts).refresh now = (core.refresh now).renumber runs interrupts := by
  unfold refresh
  rw [readyAt_renumber]
  split
  · split <;> rfl
  · rfl

theorem renumber_reset :
    (core.renumber runs interrupts).reset config now =
      (core.reset config now).renumber runs interrupts := by
  unfold reset
  dsimp only
  split <;> rfl

theorem renumber_start :
    (core.renumber runs interrupts).start config now =
      (core.start config now).renumber runs interrupts := by
  unfold start
  simp only [renumber_refresh, status_renumber]
  split <;> rfl

theorem renumber_conclude (nonce : UInt32) (accepted : Bool) :
    (core.renumber runs interrupts).conclude config nonce accepted =
      (core.conclude config nonce accepted).renumber runs interrupts := by
  unfold conclude
  rw [job_renumber]
  split
  · rfl
  · split
    · rfl
    · split <;> rfl

theorem renumber_step :
    (core.renumber runs interrupts).step config = (core.step config).renumber runs interrupts := by
  unfold step
  simp only [job_renumber, halted_renumber, status_renumber, renumber_conclude]
  split
  · rfl
  · split <;> rfl

theorem renumber_control (word : UInt32) :
    (core.renumber runs interrupts).control config now word =
      (core.control config now word).renumber runs interrupts := by
  unfold control
  split
  · exact renumber_reset now
  · split
    · exact renumber_start now
    · split
      · exact renumber_step
      · rfl

/-! #### Registers -/

theorem renumber_putBankWord (bank : Bank) (index : Nat) (value : UInt32) :
    (core.renumber runs interrupts).putBankWord bank index value =
      (core.putBankWord bank index value).renumber runs interrupts := by
  unfold putBankWord
  split
  · cases bank <;> rfl
  · rfl

theorem renumber_writeData (value : UInt32) :
    (core.renumber runs interrupts).writeData value =
      (core.writeData value).renumber runs interrupts := by
  unfold writeData
  rw [bank_renumber]
  split
  · rfl
  · next bank hbank =>
    rw [renumber_putBankWord]
    rfl

theorem renumber_command (word : UInt32) :
    (core.renumber runs interrupts).command config now word =
      (core.command config now word).renumber runs interrupts := by
  unfold command
  split
  · rfl
  · exact renumber_control now _
  · rfl

theorem renumber_read (word : Nat) :
    (core.renumber runs interrupts).read config now word =
      ((core.read config now word).1, (core.read config now word).2.renumber runs interrupts) := by
  unfold read
  rw [renumber_refresh]
  generalize core.refresh now = noticed
  cases config.layout with
  | count => rfl
  | mask =>
    dsimp only
    unfold readMask
    split_ifs
    · rfl
    · unfold readData
      rw [bank_renumber]
      split <;> rfl
    all_goals rfl

theorem renumber_write (word : Nat) (value : UInt32) :
    (core.renumber runs interrupts).write config now word value =
      (core.write config now word value).renumber runs interrupts := by
  unfold write
  cases config.layout with
  | count =>
    dsimp only
    unfold writeCount
    split_ifs
    · rfl
    · rfl
    · rfl
    · exact renumber_control now value
    · rfl
    · rfl
  | mask =>
    dsimp only
    unfold writeMask
    split_ifs
    · exact renumber_command now value
    · exact renumber_writeData value
    · rfl

/-- A program makes the same access. -/
theorem renumber_advance {α : Type} (rest : Bus α) :
    rest.advance (registerFile config now) (core.renumber runs interrupts) =
      ((rest.advance (registerFile config now) core).1,
        (rest.advance (registerFile config now) core).2.renumber runs interrupts) := by
  cases rest with
  | done value => rfl
  | read word next =>
    simp only [Bus.advance, registerFile, renumber_read]
  | write word value next => exact congrArg (Prod.mk next) (renumber_write now word value)
  | writeByte word value next =>
    exact congrArg (Prod.mk next) (renumber_write now word value.toUInt32)

/-! #### Searchers -/

theorem renumber_take (count : Nat) :
    (core.renumber runs interrupts).take (runs + count) = core.take count := by
  unfold take
  simp only [run_renumber, job_renumber, halted_renumber, ne_eq, Nat.add_left_cancel_iff]
  rfl

theorem renumber_commit (count start : Nat) (hit : Option UInt32) :
    (core.renumber runs interrupts).commit config (runs + count) start hit =
      (core.commit config count start hit).renumber runs interrupts := by
  unfold commit
  simp only [run_renumber, job_renumber, ne_eq, Nat.add_left_cancel_iff]
  split
  · rfl
  · cases hit <;> exact renumber_conclude _ _

end Core

namespace Rig

variable {config : CoreConfig} {rig fresh last : Rig} {runs interrupts : Nat}

/-! ### What is seen from outside -/

/-- What somebody gets to see. -/
inductive View where
  /-- What opening the handle comes to. -/
  | opened (result : Except DeviceError Unit)
  | answered (asked : Request) (answer : Except DeviceError Reply)
  | received (result : Except DeviceError (List UInt8))
  | happened (event : Event)

def told (config : CoreConfig) (move : Move) (rig : Rig) : List View :=
  match move with
  | .acquire => [.opened rig.driver.openHandle.1]
  | .request asked =>
    match rig.driver.held, Driver.program config.layout asked with
    | true, .error cause => [.answered asked (.error cause)]
    | _, _ => []
  | .proceed => rig.returning.toList.map fun (asked, reply) => .answered asked (.ok reply)
  | .read room => if rig.driver.held then [.received (rig.driver.tryRead room).1] else []
  | _ => []

/-- All that is seen of a move: what is told, and what happens to searches and messages. -/
def views (config : CoreConfig) (move : Move) (rig : Rig) : List View :=
  rig.told config move ++ (rig.events config move).map .happened

/-! ### Rigs with a past -/

/-- A rig goes on as a fresh one does, after so many runs and interrupts. What its driver has counted,
    and what the searchers of earlier runs have in hand, may be anything. -/
structure Resumes (runs interrupts : Nat) (fresh rig : Rig) : Prop where
  core : rig.core = fresh.core.renumber runs interrupts
  queue : rig.driver.queue = fresh.driver.queue
  held : rig.driver.held = fresh.driver.held
  now : rig.now = fresh.now
  lock : rig.lock = fresh.lock
  taken : rig.taken = interrupts + fresh.taken
  called : rig.called = fresh.called
  hashing : ∀ count, rig.hashing (runs + count) = fresh.hashing count

/-- A move with the runs counted from a later one on. -/
def Move.after (runs : Nat) : Move → Move
  | .search count => .search (runs + count)
  | move => move

namespace Resumes

theorem finishRequest (h : Resumes runs interrupts fresh rig) (asked : Request) :
    Resumes runs interrupts
      { fresh with lock := none, driver := fresh.driver.finishRequest asked }
      { rig with lock := none, driver := rig.driver.finishRequest asked } := by
  cases asked with
  | reset => exact { h with queue := rfl, lock := rfl }
  | _ => exact { h with lock := rfl }

theorem finishService (h : Resumes runs interrupts fresh rig) (report : Option CompletionMessage) :
    Resumes runs interrupts
      { fresh with lock := none, driver := fresh.driver.finishService report }
      { rig with lock := none, driver := rig.driver.finishService report } := by
  cases report with
  | none => exact { h with lock := rfl }
  | some message =>
    exact { h with queue := congrArg (CompletionQueue.push · message) h.queue, lock := rfl }

theorem access (h : Resumes runs interrupts fresh rig) {α : Type} (rest : Bus α)
    (holder : Bus α → LockHolder) :
    Resumes runs interrupts
      { fresh with
        core := (rest.advance (fresh.window config) fresh.core).2
        lock := some (holder (rest.advance (fresh.window config) fresh.core).1) }
      { rig with
        core := (rest.advance (rig.window config) rig.core).2
        lock := some (holder (rest.advance (rig.window config) rig.core).1) } := by
  have haccess := @Core.renumber_advance config fresh.core runs interrupts fresh.now _ rest
  simp only [window, h.core, h.now, haccess]
  exact { h with core := rfl, lock := rfl, now := rfl }

theorem proceed (h : Resumes runs interrupts fresh rig) :
    Resumes runs interrupts (fresh.proceed config) (rig.proceed config) := by
  unfold Rig.proceed
  rw [h.lock]
  split
  · exact h.finishRequest _
  · exact h.access _ _
  · exact h

theorem answerCall (h : Resumes runs interrupts fresh rig) :
    Resumes runs interrupts (fresh.answerCall config) (rig.answerCall config) := by
  have hraised : rig.taken < rig.core.raised ↔ fresh.taken < fresh.core.raised := by
    rw [h.taken, h.core, Core.raised_renumber, Nat.add_lt_add_iff_left]
  unfold Rig.answerCall
  simp only [h.called, h.lock, hraised]
  split
  · split
    · exact { h with called := rfl, lock := rfl }
    · exact h
  · split
    · exact { h with lock := rfl, taken := congrArg (· + 1) h.taken, called := rfl }
    · exact h

theorem serve (h : Resumes runs interrupts fresh rig) :
    Resumes runs interrupts (fresh.serve config) (rig.serve config) := by
  unfold Rig.serve
  rw [h.lock]
  split
  · exact h.finishService _
  · exact h.access _ _
  · exact h.answerCall

theorem search (h : Resumes runs interrupts fresh rig) (count : Nat) :
    Resumes runs interrupts (fresh.search config count) (rig.search config (runs + count)) := by
  have hupdate : ∀ (job : Option Job) (other : Nat),
      Function.update rig.hashing (runs + count) job (runs + other) =
        Function.update fresh.hashing count job other := by
    intro job other
    simp only [Function.update_apply, Nat.add_left_cancel_iff, h.hashing]
  have htake : rig.core.take (runs + count) = fresh.core.take count := by
    rw [h.core, Core.renumber_take]
  unfold Rig.search
  rw [h.hashing]
  split
  · rw [htake]
    split
    · exact { h with hashing := hupdate _ }
    · exact h
  · next job hjob =>
    refine { h with core := ?_, hashing := hupdate _ }
    rw [h.core]
    exact Core.renumber_commit count job.next _

theorem openHandle (h : Resumes runs interrupts fresh rig) :
    rig.driver.openHandle.1 = fresh.driver.openHandle.1 ∧
      Resumes runs interrupts { fresh with driver := fresh.driver.openHandle.2 }
        { rig with driver := rig.driver.openHandle.2 } := by
  unfold DriverState.openHandle
  rw [h.held]
  split
  · exact ⟨rfl, h⟩
  · exact ⟨rfl, { h with held := rfl }⟩

theorem tryRead (h : Resumes runs interrupts fresh rig) (room : Nat) :
    (rig.driver.tryRead room).1 = (fresh.driver.tryRead room).1 ∧
      Resumes runs interrupts { fresh with driver := (fresh.driver.tryRead room).2 }
        { rig with driver := (rig.driver.tryRead room).2 } := by
  unfold DriverState.tryRead
  rw [h.queue]
  split
  · exact ⟨rfl, h⟩
  · split
    · exact ⟨rfl, h⟩
    · exact ⟨rfl, { h with queue := rfl }⟩

/-- A move leaves the two alike. -/
theorem act (h : Resumes runs interrupts fresh rig) (move : Move) :
    Resumes runs interrupts (fresh.act config move) (rig.act config (move.after runs)) := by
  cases move with
  | pass duration => exact { h with now := congrArg (· + duration) h.now }
  | acquire => exact h.openHandle.2
  | release =>
    simp only [Rig.act, Move.after, h.lock]
    split
    · exact h
    · exact { h with held := rfl, lock := rfl }
  | request asked =>
    simp only [Rig.act, Move.after, beginRequest, h.held, h.lock]
    split
    · exact { h with lock := rfl }
    · exact h
  | proceed => exact h.proceed
  | serve => exact h.serve
  | search count => exact h.search count
  | read room =>
    simp only [Rig.act, Move.after, h.held]
    split
    · exact (h.tryRead room).2
    · exact h
  | raiseSpurious => exact { h with core := congrArg Core.raiseSpurious h.core }
  | stall => exact { h with core := congrArg Core.stall h.core }
  | setHalted halted => exact { h with core := congrArg (Core.setHalted halted) h.core }

theorem told (h : Resumes runs interrupts fresh rig) (move : Move) :
    rig.told config (move.after runs) = fresh.told config move := by
  cases move with
  | acquire => exact congrArg (fun result => [View.opened result]) h.openHandle.1
  | request asked => simp only [Rig.told, Move.after, h.held]
  | proceed => simp only [Rig.told, Move.after, returning, h.lock]
  | read room => simp only [Rig.told, Move.after, h.held, (h.tryRead room).1]
  | _ => rfl

theorem driverEvents (h : Resumes runs interrupts fresh rig) (move : Move) :
    rig.driverEvents (move.after runs) = fresh.driverEvents move := by
  cases move <;> simp only [Rig.driverEvents, Move.after, h.lock, h.held, h.queue]

/-- The same is seen of a move. -/
theorem views (h : Resumes runs interrupts fresh rig) (move : Move) :
    rig.views config (move.after runs) = fresh.views config move := by
  have hsearch : searchEvents rig.core (rig.act config (move.after runs)).core =
      searchEvents fresh.core (fresh.act config move).core := by
    rw [h.core, (h.act move).core]
    rfl
  simp only [Rig.views, events, h.told move, h.driverEvents move, hsearch]

/-- Nobody sees anything of the searcher of an earlier run, and it makes no difference. -/
theorem search_earlier (h : Resumes runs interrupts fresh rig) {run : Nat} (hrun : run < runs) :
    Resumes runs interrupts fresh (rig.act config (.search run)) ∧
      rig.views config (.search run) = [] := by
  have hother : rig.core.run ≠ run := by
    rw [h.core, Core.run_renumber]
    omega
  have hstays : (rig.search config run).core = rig.core ∧
      Resumes runs interrupts fresh (rig.search config run) := by
    unfold Rig.search
    split
    · have htake : rig.core.take run = .retire := if_pos hother
      rw [htake]
      exact ⟨rfl, h⟩
    · next job hjob =>
      have hcommit := @Core.commit_of_other_run config _ _ hother job.next (Core.hashBatch config job)
      rw [hcommit]
      refine ⟨rfl, { h with hashing := fun count => ?_ }⟩
      have hlater : runs + count ≠ run := by omega
      exact (Function.update_of_ne hlater _ _).trans (h.hashing count)
  have hsearch : searchEvents rig.core (rig.act config (.search run)).core = [] := by
    rw [Rig.act, hstays.1, searchEvents_self]
  refine ⟨hstays.2, ?_⟩
  rw [Rig.views, events, hsearch]
  rfl

end Resumes

/-! ### Schedules -/

variable (config) in
/-- A rig goes on by a schedule of moves, in which runs are counted from `base` on, and this is seen of
    it. The searchers of earlier runs come and go as they like. -/
inductive Continues (base : Nat) : Rig → List Move → List View → Rig → Prop where
  | done {rig : Rig} : Continues base rig [] [] rig
  | move {rig last : Rig} {moves : List Move} {seen : List View} (move : Move) :
    Continues base (rig.act config (move.after base)) moves seen last →
    Continues base rig (move :: moves) (rig.views config (move.after base) ++ seen) last
  | earlier {rig last : Rig} {moves : List Move} {seen : List View} {run : Nat} (old : run < base) :
    Continues base (rig.act config (.search run)) moves seen last →
    Continues base rig moves (rig.views config (.search run) ++ seen) last

variable (config) in
/-- What is seen of a rig that makes one move after another, and what becomes of it. -/
def watch : List Move → Rig → List View × Rig
  | [], rig => ([], rig)
  | move :: moves, rig =>
    let (seen, last) := watch moves (rig.act config move)
    (rig.views config move ++ seen, last)

/-- A schedule can always be carried out. -/
theorem continues_watch (base : Nat) (moves : List Move) (rig : Rig) :
    Continues config base rig moves (watch config (moves.map (Move.after base)) rig).1
      (watch config (moves.map (Move.after base)) rig).2 := by
  induction moves generalizing rig with
  | nil => exact .done
  | cons move moves ih => exact .move move (ih _)

/-- However a rig with a past goes on, it is as with the fresh one. -/
theorem Resumes.continues {moves : List Move} {seen : List View}
    (h : Resumes runs interrupts fresh rig) (hlast : Continues config runs rig moves seen last) :
    seen = (watch config moves fresh).1 ∧ Resumes runs interrupts (watch config moves fresh).2 last := by
  induction hlast generalizing fresh with
  | done => exact ⟨rfl, h⟩
  | move move _ ih =>
    obtain ⟨hseen, hresumes⟩ := ih (h.act move)
    exact ⟨congrArg₂ _ (h.views move) hseen, hresumes⟩
  | earlier old _ ih =>
    obtain ⟨hstays, hnothing⟩ := @search_earlier config _ _ _ _ h _ old
    rw [hnothing]
    exact ih hstays

variable (config) in
/-- Two rigs show the same under every schedule, with runs counted from the present one of each, and end
    with the same messages in the queue. -/
def ShowTheSame (left right : Rig) : Prop :=
  ∀ moves seen seen' last last', Continues config left.core.run left moves seen last →
    Continues config right.core.run right moves seen' last' →
    seen = seen' ∧ last.driver.queue = last'.driver.queue

/-! ### Resets -/

/-- Somebody has the handle, no request is going on, and no interrupt is waiting or in service. -/
structure AtRest (rig : Rig) : Prop where
  held : rig.driver.held = true
  free : rig.lock = none
  pending : rig.pending = 0
  idle : rig.inService = false

/-- A rig with nothing but the handle opened and a clock set, just after a reset. -/
def renewed (config : CoreConfig) (now : Nat) (clock : UInt32) : Rig where
  core := .renewed config now clock
  driver := { held := true }
  now := now

namespace AtRest

variable {past past' : List Event} {next left right : Rig} {move : Move}

theorem called (h : rig.AtRest) : rig.called = false := by
  have hidle := h.idle
  simp only [inService, Bool.or_eq_false_iff] at hidle
  exact hidle.1

theorem carryOut_reset (h : rig.AtRest) :
    rig.carryOut config .reset = (some .done, { rig with
      core := rig.core.reset config rig.now
      driver := rig.driver.finishRequest .reset }) := by
  have hprogram : Driver.program config.layout .reset =
      .ok (Driver.andDone (Driver.command config.layout Control.reset)) := by
    cases config.layout <;> rfl
  have hrun : (Driver.andDone (Driver.command config.layout Control.reset)).run (rig.window config)
      rig.core = (.done, rig.core.reset config rig.now) := congrArg (Prod.mk _) Core.write_reset
  simp only [carryOut, h.held, h.free, hprogram, hrun]

/-- A reset leaves a rig at rest, without a job and with its clock, and takes no time. -/
theorem reset (h : rig.AtRest) : (rig.carryOut config .reset).2.AtRest ∧
    (rig.carryOut config .reset).2.core.job = none ∧
    (rig.carryOut config .reset).2.core.clock = rig.core.clock ∧
    (rig.carryOut config .reset).2.now = rig.now := by
  rw [h.carryOut_reset]
  have hpending : (rig.core.reset config rig.now).raised - rig.taken = 0 := by
    rw [Core.reset_raised]
    exact h.pending
  exact ⟨⟨h.held, h.free, hpending, h.idle⟩, Core.reset_search.1,
    congrArg Parameters.clock Core.reset_parameters, rfl⟩

/-- What is reset at rest has no past any more. -/
theorem resumes (h : rig.AtRest) (hreached : Reached config rig past) :
    Resumes (rig.core.run + 1) rig.core.raised (renewed config rig.now rig.core.clock)
      (rig.carryOut config .reset).2 := by
  have hcounted := hreached.attended.counted
  have hpending : rig.core.raised - rig.taken = 0 := h.pending
  have hhands : ∀ count, rig.hashing (rig.core.run + 1 + count) = none := by
    intro count
    by_contra hsome
    obtain ⟨job, hjob⟩ := Option.ne_none_iff_exists'.mp hsome
    have hold := hreached.hashed.old _ job hjob
    omega
  rw [h.carryOut_reset]
  exact
    { core := Core.reset_eq_renewed rig.now
      queue := rfl
      held := h.held
      now := rfl
      lock := h.free
      taken := by simp only [renewed]; omega
      called := h.called
      hashing := hhands }

theorem showTheSame (hleft : left.AtRest) (hright : right.AtRest)
    (hreached : Reached config left past) (hreached' : Reached config right past')
    (hnow : left.now = right.now) (hclock : left.core.clock = right.core.clock) :
    ShowTheSame config (left.carryOut config .reset).2 (right.carryOut config .reset).2 := by
  intro moves seen seen' last last' hlast hlast'
  have hrun : (left.carryOut config .reset).2.core.run = left.core.run + 1 := by
    rw [hleft.carryOut_reset, Core.reset_run]
  have hrun' : (right.carryOut config .reset).2.core.run = right.core.run + 1 := by
    rw [hright.carryOut_reset, Core.reset_run]
  rw [hrun] at hlast
  rw [hrun'] at hlast'
  obtain ⟨hseen, hends⟩ := (hleft.resumes hreached).continues hlast
  have hfresh := hright.resumes hreached'
  rw [← hnow, ← hclock] at hfresh
  obtain ⟨hseen', hends'⟩ := hfresh.continues hlast'
  exact ⟨hseen.trans hseen'.symm, hends.queue.trans hends'.queue.symm⟩

theorem pass (h : rig.AtRest) (duration : Nat) : (rig.act config (.pass duration)).AtRest :=
  ⟨h.held, h.free, h.pending, h.idle⟩

/-- A core without a job stays as it is while nobody touches it, and its driver stays at rest. -/
theorem other (h : rig.AtRest) (hjob : rig.core.job = none) (hother : Other move) :
    (rig.act config move).AtRest ∧ (rig.act config move).core = rig.core := by
  cases hother with
  | pass duration => exact ⟨h.pass duration, rfl⟩
  | serve =>
    have hnone : ¬ rig.taken < rig.core.raised := Nat.not_lt_of_le (Nat.le_of_sub_eq_zero h.pending)
    have hstays : rig.act config .serve = rig := by
      simp [act, serve, answerCall, h.free, h.called, hnone]
    rw [hstays]
    exact ⟨h, rfl⟩
  | search run =>
    simp only [act, search]
    split
    · have htake : ∀ job, rig.core.take run ≠ .batch job := by
        simp only [Core.take, hjob]
        split <;> simp
      split
      · next job hbatch => exact absurd hbatch (htake job)
      · exact ⟨h, rfl⟩
    · next job _ =>
      have hcommit : rig.core.commit config run job.next (Core.hashBatch config job) = rig.core :=
        Core.commit_of_overtaken (by simp [hjob])
      rw [hcommit]
      exact ⟨⟨h.held, h.free, h.pending, h.idle⟩, rfl⟩

/-- Nothing happens to a rig that has been reset until somebody has it do something. -/
theorem comes (h : rig.AtRest) (hjob : rig.core.job = none) (hcomes : Comes config Other rig next) :
    next.AtRest ∧ next.core = rig.core := by
  induction hcomes with
  | refl => exact ⟨h, rfl⟩
  | tail _ hmove ih =>
    obtain ⟨hrest, hcore⟩ := ih
    obtain ⟨move, hother, rfl⟩ := hmove
    obtain ⟨hrest', hcore'⟩ := hrest.other (hcore ▸ hjob) hother
    exact ⟨hrest', hcore'.trans hcore⟩

end AtRest

/-! ### Clocks -/

section Clocks

variable {past : List Event} {carriedOut : List Request} {next : Rig}

theorem Reached.served (h : Reached config rig past) :
    ∃ carriedOut, Served config rig carriedOut := by
  induction h with
  | bound => exact ⟨[], .bound⟩
  | move move _ ih =>
    obtain ⟨carriedOut, hserved⟩ := ih
    exact ⟨_, hserved.move move⟩

/-- Nothing is carried out for anybody while a rig is left to itself. -/
theorem Served.comes (h : Served config rig carriedOut)
    (hfree : ∀ asked rest, rig.lock ≠ some (.request asked rest))
    (hcomes : Comes config Other rig next) :
    Served config next carriedOut ∧ ∀ asked rest, next.lock ≠ some (.request asked rest) := by
  induction hcomes with
  | refl => exact ⟨h, hfree⟩
  | tail _ hmove ih =>
    obtain ⟨hserved, hnone⟩ := ih
    obtain ⟨move, hother, rfl⟩ := hmove
    have hnext := hserved.move move
    have hreturned : ∀ before : Rig, before.returned move = [] := fun _ => by cases hother <;> rfl
    rw [hreturned, List.nil_append] at hnext
    exact ⟨hnext, fun asked rest hlock => hnone asked rest ((hother.lock asked rest).mp hlock)⟩

/-- The clock of a core stays as it is while nobody has the handle used. -/
theorem Reached.clock_of_comes (h : Reached config rig past)
    (hfree : ∀ asked rest, rig.lock ≠ some (.request asked rest))
    (hcomes : Comes config Other rig next) : next.core.clock = rig.core.clock := by
  obtain ⟨carriedOut, hserved⟩ := h.served
  obtain ⟨hserved', hfree'⟩ := hserved.comes hfree hcomes
  have hbefore : rig.core.parameters = _ :=
    hserved.configured.2.has fun asked rest hlock => absurd hlock (hfree asked rest)
  have hafter : next.core.parameters = _ :=
    hserved'.configured.2.has fun asked rest hlock => absurd hlock (hfree' asked rest)
  exact congrArg Parameters.clock (hafter.trans hbefore.symm)

end Clocks

/-- **A reset erases history.** Two rigs that can be reached, whatever has happened to them, show the
    same under every schedule after a reset at the same time, as long as their clock registers are equal
    and no interrupt waits or is being served. And it does not matter whether a rig that is reset has
    been reset before and has been left to itself since then. -/
theorem reset_erases_history {left right : Rig} {past past' : List Event}
    (hleft : Reached config left past) (hright : Reached config right past')
    (hrest : left.AtRest) (hrest' : right.AtRest) (hnow : left.now = right.now)
    (hclock : left.core.clock = right.core.clock) :
    (left.carryOut config .reset).1 = some .done ∧ (right.carryOut config .reset).1 = some .done ∧
    ShowTheSame config (left.carryOut config .reset).2 (right.carryOut config .reset).2 ∧
    ∀ again once, Comes config Other (left.carryOut config .reset).2 again →
      Comes config Other left once → again.now = once.now → once.AtRest →
      (again.carryOut config .reset).1 = some .done ∧
      ShowTheSame config (again.carryOut config .reset).2 (once.carryOut config .reset).2 := by
  refine ⟨congrArg Prod.fst hrest.carryOut_reset, congrArg Prod.fst hrest'.carryOut_reset,
    hrest.showTheSame hrest' hleft hright hnow hclock, ?_⟩
  intro again once hagain honce hsame hquiet
  obtain ⟨later, hreset⟩ := hleft.comes (carryOut_comes .reset left)
  obtain ⟨later', hagain'⟩ := hreset.comes hagain
  obtain ⟨past'', honce'⟩ := hleft.comes honce
  obtain ⟨hidle, hjob, hkept, -⟩ := @AtRest.reset config left hrest
  obtain ⟨hquiet', hcore⟩ := hidle.comes hjob hagain
  have hclocks : again.core.clock = once.core.clock := by
    rw [hcore, hkept, hleft.clock_of_comes (fun asked rest => by rw [hrest.free]; exact nofun) honce]
  exact ⟨congrArg Prod.fst hquiet'.carryOut_reset,
    hquiet'.showTheSame hquiet hagain' honce' hsame hclocks⟩

/-! A mask core is started twice. The searcher of its first run has a batch in hand when the core is
stalled, and the second search is over, its message in the queue and the core halted, when the core is
reset. The other core has done nothing yet. -/

def twoNoncesMask : CoreConfig := { layout := .mask, latency := 2, lastNonce := 1, batch := 1 }

def wornRun : Rig × List Event :=
  follow twoNoncesMask
    ([.acquire] ++ carryingOut .reset 1 ++ [.pass 2] ++ carryingOut .start 1 ++ [.search 1, .stall] ++
      carryingOut .reset 1 ++ [.pass 2] ++ carryingOut .start 1 ++ [.search 3, .search 3] ++
      List.replicate 8 .serve ++ carryingOut (.setTail (.ofNatLE 12 0xbcdef)) 4 ++
      [.setHalted true]) {} []

def idleRun : Rig × List Event := follow twoNoncesMask [.acquire, .pass 4] {} []

def startedTwice : List Move :=
  carryingOut .start 1 ++ [.pass 2] ++ carryingOut .getStatus 1 ++ carryingOut .start 1 ++
    [.search 0, .search 0] ++ List.replicate 8 .serve ++ [.read 8]

def received (seen : List View) : List (List UInt8) :=
  seen.filterMap fun
    | .received (.ok bytes) => some bytes
    | _ => none

theorem worn_core_starts_over :
    Reached twoNoncesMask wornRun.1 wornRun.2 ∧ Reached twoNoncesMask idleRun.1 idleRun.2 ∧
      wornRun.1.core.status = .found ∧ wornRun.1.core.halted = true ∧
      wornRun.1.core.bank = some .tail ∧ wornRun.1.driver.queue.messages = [⟨0x10, 0⟩] ∧
      (wornRun.1.hashing 1).isSome ∧ ∃ seen last last',
        Continues twoNoncesMask 1 (idleRun.1.carryOut twoNoncesMask .reset).2 startedTwice seen last ∧
        Continues twoNoncesMask 4 (wornRun.1.carryOut twoNoncesMask .reset).2 startedTwice seen last' ∧
        received seen = [[0x10, 0, 0, 0, 0, 0, 0, 0]] ∧
        ShowTheSame twoNoncesMask
          (((wornRun.1.carryOut twoNoncesMask .reset).2.act twoNoncesMask (.pass 1)).carryOut
            twoNoncesMask .reset).2
          ((wornRun.1.act twoNoncesMask (.pass 1)).carryOut twoNoncesMask .reset).2 := by
  have hidle : Reached twoNoncesMask idleRun.1 idleRun.2 := Reached.bound.follow _
  have hworn : Reached twoNoncesMask wornRun.1 wornRun.2 := Reached.bound.follow _
  have hidleRun : idleRun.1.driver.held = true ∧ idleRun.1.lock.isNone ∧ idleRun.1.pending = 0 ∧
      idleRun.1.inService = false ∧ idleRun.1.now = wornRun.1.now ∧
      idleRun.1.core.clock = wornRun.1.core.clock ∧
      (idleRun.1.carryOut twoNoncesMask .reset).2.core.run = 1 ∧
      received (watch twoNoncesMask (startedTwice.map (Move.after 1))
        (idleRun.1.carryOut twoNoncesMask .reset).2).1 = [[0x10, 0, 0, 0, 0, 0, 0, 0]] := by
    decide +kernel
  have hwornRun : wornRun.1.driver.held = true ∧ wornRun.1.lock.isNone ∧ wornRun.1.pending = 0 ∧
      wornRun.1.inService = false ∧ (wornRun.1.carryOut twoNoncesMask .reset).2.core.run = 4 ∧
      wornRun.1.core.status = .found ∧ wornRun.1.core.halted = true ∧
      wornRun.1.core.bank = some .tail ∧ wornRun.1.driver.queue.messages = [⟨0x10, 0⟩] ∧
      (wornRun.1.hashing 1).isSome := by
    decide +kernel
  obtain ⟨hheld, hfree, hpending, hservice, hnow, hclock, hrun, hreceived⟩ := hidleRun
  obtain ⟨hheld', hfree', hpending', hservice', hrun', hstatus, hhalted, hbank, hqueue, hhand⟩ :=
    hwornRun
  have hrest : idleRun.1.AtRest := ⟨hheld, Option.isNone_iff_eq_none.mp hfree, hpending, hservice⟩
  have hrest' : wornRun.1.AtRest :=
    ⟨hheld', Option.isNone_iff_eq_none.mp hfree', hpending', hservice'⟩
  obtain ⟨-, -, hsame, -⟩ := reset_erases_history hidle hworn hrest hrest' hnow hclock
  obtain ⟨-, -, -, htwice⟩ := reset_erases_history hworn hworn hrest' hrest' rfl rfl
  -- The searcher of the first run comes back before anything else happens to the worn core.
  have hlast := @continues_watch twoNoncesMask 1 startedTwice (idleRun.1.carryOut twoNoncesMask .reset).2
  have hlast' : Continues twoNoncesMask 4 (wornRun.1.carryOut twoNoncesMask .reset).2 _ _ _ :=
    .earlier (by decide : 1 < 4) (continues_watch 4 startedTwice _)
  rw [ShowTheSame, hrun, hrun'] at hsame
  obtain ⟨hseen, -⟩ := hsame _ _ _ _ _ hlast hlast'
  rw [← hseen] at hlast'
  have hpass : ∀ rig : Rig, Comes twoNoncesMask Other rig (rig.act twoNoncesMask (.pass 1)) :=
    fun rig => .single ⟨_, .pass 1, rfl⟩
  have hlater : ((wornRun.1.carryOut twoNoncesMask .reset).2.act twoNoncesMask (.pass 1)).now =
      (wornRun.1.act twoNoncesMask (.pass 1)).now :=
    congrArg (· + 1) hrest'.reset.2.2.2
  refine ⟨hworn, hidle, hstatus, hhalted, hbank, hqueue, hhand, _, _, _, hlast, hlast', hreceived, ?_⟩
  exact (htwice _ _ (hpass _) (hpass _) hlater (hrest'.pass 1)).2

end Rig

end NonceSearch
