import NonceSearch.Proofs.Campaigns
import NonceSearch.Proofs.Plays

/-!
# Onlookers

A status line is made from two requests, for the status and for the search counter, and anybody may
have one made while a session goes on. All that such a request can change is that the core notices
that its reset is over, which it would have noticed at its next access anyway. So whoever looks on, the
session, its driver and its messages are what they would be if nobody did (`Rig.Alike`).

The one thing that an onlooker takes from the others is the driver's lock, for one access. Who needs
the lock waits for that time, and moves when the onlooker has left.
-/

namespace NonceSearch

/-! ### Cores that have been looked at -/

namespace Core

variable {config : CoreConfig} {core next : Core} {now : Nat}

def readied (core : Core) : Core := { core with readyAt := none, status := .ready }

/-- A core of which somebody may have noticed by now that its reset is over. -/
inductive Noticed (now : Nat) (core : Core) : Core → Prop where
  | unseen : Noticed now core core
  | seen {due : Nat} (resetting : core.readyAt = some due) (elapsed : due ≤ now) :
    Noticed now core core.readied

theorem refresh_of_due {due : Nat} (hready : core.readyAt = some due) (hdue : due ≤ now) :
    core.refresh now = core.readied := by
  simp [refresh, hready, hdue, readied]

theorem noticed_refresh : core.Noticed now (core.refresh now) := by
  cases hready : core.readyAt with
  | none =>
    rw [refresh_of_readyAt hready]
    exact .unseen
  | some due =>
    by_cases hdue : due ≤ now
    · rw [refresh_of_due hready hdue]
      exact .seen hready hdue
    · have hsame : core.refresh now = core := by simp [refresh, hready, hdue]
      rw [hsame]
      exact .unseen

theorem Noticed.refresh (h : core.Noticed now next) : next.refresh now = core.refresh now := by
  cases h with
  | unseen => rfl
  | seen resetting elapsed => rw [refresh_of_due resetting elapsed, refresh_of_readyAt rfl]

theorem Noticed.later (h : core.Noticed now next) {later : Nat} (hlater : now ≤ later) :
    core.Noticed later next := by
  cases h with
  | unseen => exact .unseen
  | seen resetting elapsed => exact .seen resetting (Nat.le_trans elapsed hlater)

theorem Noticed.raised (h : core.Noticed now next) : next.raised = core.raised := by
  cases h <;> rfl

theorem Noticed.job (h : core.Noticed now next) : next.job = core.job := by
  cases h <;> rfl

theorem Noticed.take (h : core.Noticed now next) (run : Nat) : next.take run = core.take run := by
  cases h <;> rfl

/-- A core that has ended a search is not resetting. -/
theorem Noticed.completion (h : core.Noticed now next) (hcore : core.Consistent) :
    next = core ∨ core.status.isCompletion = false ∧ next.status.isCompletion = false := by
  cases h with
  | unseen => exact .inl rfl
  | seen resetting elapsed =>
    have hempty := hcore.resetting (by rw [resetting]; rfl)
    right
    rw [hempty]
    exact ⟨by decide, (by decide : Status.ready.isCompletion = false)⟩

/-! Whatever is done to a core, it makes no difference whether it has been looked at. -/

theorem Noticed.map (h : core.Noticed now next) {f : Core → Core}
    (hready : (f core).readyAt = core.readyAt) (hreadied : f core.readied = (f core).readied) :
    (f core).Noticed now (f next) := by
  cases h with
  | unseen => exact .unseen
  | seen resetting elapsed =>
    rw [hreadied]
    exact .seen (hready.trans resetting) elapsed

/-- What does nothing without a job does nothing to a core in a reset. -/
theorem Noticed.of_idle (h : core.Noticed now next) (hcore : core.Consistent) {f : Core → Core}
    (hidle : ∀ other : Core, other.job = none → f other = other) : (f core).Noticed now (f next) := by
  cases h with
  | unseen => exact .unseen
  | seen resetting elapsed =>
    have hjob := hcore.job_of_resetting (by rw [resetting]; rfl)
    have hreadied : core.readied.job = none := hjob
    rw [hidle core hjob, hidle core.readied hreadied]
    exact .seen resetting elapsed

theorem Noticed.read (h : core.Noticed now next) (word : Nat) :
    next.read config now word = core.read config now word := by
  unfold Core.read
  rw [h.refresh]

theorem Noticed.commit (h : core.Noticed now next) (hcore : core.Consistent) (run start : Nat)
    (hit : Option UInt32) :
    (core.commit config run start hit).Noticed now (next.commit config run start hit) := by
  refine h.of_idle hcore fun other hother => ?_
  have hnone : other.job.map Job.next ≠ some start := by
    rw [hother]
    exact nofun
  exact if_pos (.inr hnone)

theorem Noticed.control (h : core.Noticed now next) (hcore : core.Consistent) (word : UInt32) :
    (core.control config now word).Noticed now (next.control config now word) := by
  unfold Core.control
  split_ifs
  · cases h <;> exact .unseen
  -- A start looks for itself whether the reset is over, as a read does.
  · unfold start
    rw [h.refresh]
    exact .unseen
  · exact h.of_idle hcore fun other hother => by simp only [step, hother]
  · exact h

theorem readied_putBankWord (bank : Bank) (index : Nat) (value : UInt32) :
    core.readied.putBankWord bank index value = (core.putBankWord bank index value).readied := by
  unfold putBankWord
  by_cases hindex : index < bank.size
  · rw [if_pos hindex, if_pos hindex]
    cases bank <;> rfl
  · rw [if_neg hindex, if_neg hindex]

theorem readied_writeData (value : UInt32) :
    core.readied.writeData value = (core.writeData value).readied := by
  have hbank : core.readied.bank = core.bank := rfl
  have hcursor : core.readied.cursor = core.cursor := rfl
  unfold writeData
  rw [hbank, hcursor]
  cases core.bank with
  | none => rfl
  | some bank =>
    simp only [readied_putBankWord]
    rfl

theorem Noticed.write (h : core.Noticed now next) (hcore : core.Consistent) (word : Nat)
    (value : UInt32) :
    (core.write config now word value).Noticed now (next.write config now word value) := by
  unfold Core.write
  cases config.layout with
  | count =>
    dsimp only
    unfold writeCount
    split_ifs
    · exact h.map (f := fun core => { core with stateIn := core.stateIn.putWord word value }) rfl rfl
    · exact h.map (f := fun core =>
        { core with tail := core.tail.putWord (word - CountWindow.tail) value }) rfl rfl
    · exact h.map (f := fun core => { core with zeroCount := value.toUInt8 }) rfl rfl
    · exact h.control hcore value
    · exact h.map (f := setHalted (value == 0)) rfl rfl
    · exact h
  | mask =>
    dsimp only
    unfold writeMask
    split_ifs
    · unfold command
      cases Command.decode value with
      | select bank =>
        exact h.map (f := fun core => { core with bank := some bank, cursor := 0 }) rfl rfl
      | control word => exact h.control hcore word
      | invalid word => exact h
    · exact h.map (f := writeData value) (writeData_same value).readyAt (readied_writeData value)
    · exact h

end Core

/-- A program makes the same access to a core that has been looked at. -/
theorem Bus.advance_noticed {α : Type} {config : CoreConfig} {core next : Core} {now : Nat}
    (program : Bus α) (h : core.Noticed now next) (hcore : core.Consistent) :
    (program.advance (Core.registerFile config now) next).1 =
        (program.advance (Core.registerFile config now) core).1 ∧
      (program.advance (Core.registerFile config now) core).2.Noticed now
        (program.advance (Core.registerFile config now) next).2 := by
  cases program with
  | done value => exact ⟨rfl, h⟩
  | read word rest =>
    have hread := @Core.Noticed.read config core next now h word
    simp only [Bus.advance, Core.registerFile, hread]
    exact ⟨trivial, .unseen⟩
  | write word value rest => exact ⟨rfl, h.write hcore word value⟩
  | writeByte word value rest => exact ⟨rfl, h.write hcore word value.toUInt32⟩

/-! ### Looks -/

def Request.looks : Request → Bool
  | .getStatus | .getNonceCurrent => true
  | _ => false

def Driver.getWord (word : Nat) : Bus Reply := .read word fun value => .done (.word value)

namespace Rig

variable (config : CoreConfig)

def withCore (core : Core) (rig : Rig) : Rig := { rig with core := core }

def lend (holder : LockHolder) (rig : Rig) : Rig := { rig with lock := some holder }

/-- An onlooker has the lock, and looks or has looked. -/
inductive Looks : LockHolder → Prop where
  | looking {asked : Request} {word : Nat} (looks : asked.looks = true)
    (quiet : ∀ (core : Core) now, (core.read config now word).2 = core.refresh now) :
    Looks (.request asked (Driver.getWord word))
  | looked {asked : Request} (looks : asked.looks = true) (value : UInt32) :
    Looks (.request asked (.done (.word value)))

/-- A rig with onlookers is as it is without them, apart from what its core may have noticed, and from
    the lock while one of them has it. -/
inductive Alike (alone : Rig) : (looking : Bool) → Rig → Prop where
  | unwatched {core : Core} (noticed : alone.core.Noticed alone.now core) :
    Alike alone false (alone.withCore core)
  | watched {core : Core} {holder : LockHolder} (noticed : alone.core.Noticed alone.now core)
    (free : alone.lock = none) (looks : Looks config holder) :
    Alike alone true ((alone.withCore core).lend holder)

/-- Whether somebody who makes a move has to wait for an onlooker who has the lock. -/
def waits (move : Move) (rig : Rig) : Bool :=
  match move with
  | .request _ | .proceed | .release => true
  | .serve => rig.called
  | _ => false

variable {config} {looking : Bool} {alone watched rig : Rig} {move : Move}

theorem Alike.refl (rig : Rig) : Alike config rig false rig := .unwatched .unseen

theorem Looks.request {holder : LockHolder} (h : Looks config holder) :
    ∃ asked rest, holder = .request asked rest := by
  cases h with
  | looking looks quiet => exact ⟨_, _, rfl⟩
  | looked looks value => exact ⟨_, _, rfl⟩

/-! #### Onlookers come and go -/

theorem finishRequest_looks {asked : Request} (h : asked.looks = true) (driver : DriverState) :
    driver.finishRequest asked = driver := by
  cases asked with
  | getStatus => rfl
  | getNonceCurrent => rfl
  | _ => exact absurd h nofun

/-- The request of an onlooker is one read, which does nothing else to the core. -/
theorem act_begins_look {asked : Request} (hasked : asked.looks = true)
    (hheld : rig.driver.held = true) (hfree : rig.lock = none) :
    ∃ word, (∀ (core : Core) now, (core.read config now word).2 = core.refresh now) ∧
      rig.act config (.request asked) =
        rig.lend (.request asked (Driver.getWord word)) := by
  obtain ⟨word, hword, hprogram⟩ : ∃ word,
      (word = Driver.statusWord config.layout ∨ word = Driver.nonceCurrentWord config.layout) ∧
      Driver.program config.layout asked = .ok (Driver.getWord word) := by
    cases asked with
    | getStatus => exact ⟨_, .inl rfl, Driver.program_status config.layout⟩
    | getNonceCurrent => exact ⟨_, .inr rfl, by cases config.layout <;> rfl⟩
    | _ => exact absurd hasked nofun
  refine ⟨word, fun core now => ?_, ?_⟩
  · rcases hword with rfl | rfl
    · rw [Driver.read_statusWord]
    · rw [Driver.read_nonceCurrentWord]
  · simp only [act, beginRequest, hheld, hfree, hprogram, lend]

theorem Alike.look (h : Alike config alone false watched) {asked : Request} (hasked : asked.looks = true)
    (hheld : watched.driver.held = true) (hfree : watched.lock = none) :
    Alike config alone true (watched.act config (.request asked)) := by
  obtain ⟨word, hquiet, hact⟩ := @act_begins_look config watched asked hasked hheld hfree
  rw [hact]
  cases h with
  | unwatched noticed => exact .watched noticed hfree (.looking hasked hquiet)

theorem Alike.peek (h : Alike config alone true watched) (hunfinished : watched.returning = none) :
    Alike config alone true (watched.act config .proceed) := by
  cases h with
  | @watched core holder noticed free looks =>
    cases looks with
    | @looking asked word looks quiet =>
      have hcore : alone.core.Noticed alone.now (core.read config alone.now word).2 := by
        rw [quiet, noticed.refresh]
        exact Core.noticed_refresh
      have hlock : ((alone.withCore core).lend (.request asked (Driver.getWord word))).lock =
          some (.request asked (Driver.getWord word)) := rfl
      rw [act_access hlock nofun]
      exact .watched hcore free (.looked looks _)
    | looked looks value => exact absurd hunfinished nofun

theorem Alike.leave (h : Alike config alone true watched) (hreturning : watched.returning.isSome) :
    Alike config alone false (watched.act config .proceed) := by
  cases h with
  | @watched core holder noticed free looks =>
    cases looks with
    | looking looks quiet => exact absurd hreturning nofun
    | @looked asked looks value =>
      have hleft : ((alone.withCore core).lend (.request asked (.done (.word value)))).act config
          .proceed = alone.withCore core := by
        rw [act_returns rfl, finishRequest_looks looks]
        unfold withCore lend
        rw [free]
      rw [hleft]
      exact .unwatched noticed

/-- All that a look does, if nothing comes between its moves, is to have the core notice that its reset
    is over. -/
theorem act_looks {asked : Request} (hasked : asked.looks = true) (hheld : rig.driver.held = true)
    (hfree : rig.lock = none) :
    (rig.act config (.request asked)).returning = none ∧
      ((rig.act config (.request asked)).act config .proceed).returning.isSome ∧
      ((rig.act config (.request asked)).act config .proceed).act config .proceed =
        rig.withCore (rig.core.refresh rig.now) := by
  obtain ⟨word, hquiet, hact⟩ := @act_begins_look config rig asked hasked hheld hfree
  have hlock : (rig.lend (.request asked (Driver.getWord word))).lock =
      some (.request asked (Driver.getWord word)) := rfl
  rw [hact, act_access hlock nofun]
  refine ⟨rfl, rfl, ?_⟩
  rw [act_returns rfl, finishRequest_looks hasked]
  simp only [lend, withCore, window, Driver.getWord, Bus.advance, Core.registerFile, hquiet, hfree]

/-! #### The moves of the others -/

section Noticed

variable {core : Core} (h : rig.core.Noticed rig.now core) (hcore : rig.core.Consistent)
include h

theorem answerCall_noticed : (rig.withCore core).answerCall config =
    (rig.answerCall config).withCore core ∧ (rig.answerCall config).core = rig.core ∧
      (rig.answerCall config).now = rig.now := by
  unfold answerCall withCore
  dsimp only
  rw [h.raised]
  split_ifs
  · split <;> exact ⟨rfl, rfl, rfl⟩
  · exact ⟨rfl, rfl, rfl⟩
  · exact ⟨rfl, rfl, rfl⟩

include hcore

theorem proceed_noticed :
    ∃ next, (rig.withCore core).act config .proceed = (rig.act config .proceed).withCore next ∧
      (rig.act config .proceed).core.Noticed (rig.act config .proceed).now next := by
  have hidle : (∀ asked rest, rig.lock ≠ some (.request asked rest)) →
      ∀ other : Rig, other.lock = rig.lock → other.act config .proceed = other := by
    intro hnone other hlock
    simp only [act, proceed, hlock]
    split
    · next hrequest => exact absurd hrequest (hnone _ _)
    · next hrequest => exact absurd hrequest (hnone _ _)
    · rfl
  cases hlock : rig.lock with
  | none =>
    rw [hidle (by simp [hlock]) rig rfl, hidle (by simp [hlock]) (rig.withCore core) rfl]
    exact ⟨core, rfl, h⟩
  | some holder =>
    have hcored : (rig.withCore core).lock = some holder := hlock
    cases holder with
    | service rest =>
      rw [hidle (by simp [hlock]) rig rfl, hidle (by simp [hlock]) (rig.withCore core) rfl]
      exact ⟨core, rfl, h⟩
    | request asked rest =>
      by_cases hdone : ∃ reply, rest = .done reply
      · obtain ⟨reply, rfl⟩ := hdone
        rw [act_returns hlock, act_returns hcored]
        exact ⟨core, rfl, h⟩
      · have hrest : ∀ reply, rest ≠ .done reply := fun reply hreply => hdone ⟨reply, hreply⟩
        obtain ⟨hleft, hnext⟩ := @Bus.advance_noticed _ config _ _ _ rest h hcore
        rw [act_access hlock hrest, act_access hcored hrest]
        refine ⟨_, ?_, hnext⟩
        simp only [withCore, window, hleft]

theorem serve_noticed :
    ∃ next, (rig.withCore core).act config .serve = (rig.act config .serve).withCore next ∧
      (rig.act config .serve).core.Noticed (rig.act config .serve).now next := by
  by_cases hserving : ∃ rest, rig.lock = some (.service rest)
  · obtain ⟨rest, hlock⟩ := hserving
    have hcored : (rig.withCore core).lock = some (.service rest) := hlock
    by_cases hdone : ∃ report, rest = .done report
    · obtain ⟨report, rfl⟩ := hdone
      rw [act_reports hlock, act_reports hcored]
      exact ⟨core, rfl, h⟩
    · have hrest : ∀ report, rest ≠ .done report := fun report hreport => hdone ⟨report, hreport⟩
      obtain ⟨hleft, hnext⟩ := @Bus.advance_noticed _ config _ _ _ rest h hcore
      rw [act_inspects hlock hrest, act_inspects hcored hrest]
      refine ⟨_, ?_, hnext⟩
      simp only [withCore, window, hleft]
  · have hwaits : ∀ rest, rig.lock ≠ some (.service rest) := fun rest hrest => hserving ⟨rest, hrest⟩
    have hcored : ∀ rest, (rig.withCore core).lock ≠ some (.service rest) := hwaits
    obtain ⟨hcall, hcore', hnow⟩ := @answerCall_noticed config _ _ h
    rw [act_waits hwaits, act_waits hcored]
    refine ⟨core, hcall, ?_⟩
    rw [hcore', hnow]
    exact h

/-- Nobody who meets a core that has been looked at is told anything else by it. -/
theorem act_noticed (hstall : move ≠ .stall) :
    ∃ next, (rig.withCore core).act config move = (rig.act config move).withCore next ∧
      (rig.act config move).core.Noticed (rig.act config move).now next := by
  cases move with
  | pass duration => exact ⟨core, rfl, h.later (Nat.le_add_right ..)⟩
  | acquire => exact ⟨core, rfl, h⟩
  | release =>
    unfold act withCore
    dsimp only
    split <;> exact ⟨core, rfl, h⟩
  | request asked =>
    unfold act beginRequest withCore
    dsimp only
    split <;> exact ⟨core, rfl, h⟩
  | proceed => exact proceed_noticed h hcore
  | serve => exact serve_noticed h hcore
  | search run =>
    unfold act search withCore
    dsimp only
    cases rig.hashing run with
    | none =>
      rw [h.take]
      dsimp only
      split <;> exact ⟨core, rfl, h⟩
    | some job => exact ⟨_, rfl, h.commit hcore run job.next _⟩
  | read room =>
    unfold act withCore
    dsimp only
    split <;> exact ⟨core, rfl, h⟩
  | raiseSpurious => exact ⟨core.raiseSpurious, rfl, h.map (f := Core.raiseSpurious) rfl rfl⟩
  | stall => exact absurd rfl hstall
  | setHalted halted => exact ⟨core.setHalted halted, rfl, h.map (f := Core.setHalted halted) rfl rfl⟩

end Noticed

/-- Who does not need the lock does not ask who has it. -/
theorem act_lent {asked : Request} {rest : Bus Reply} {holder : LockHolder}
    (hasked : holder = .request asked rest) (hfree : rig.lock = none)
    (hwaits : rig.waits move = false) :
    (rig.lend holder).act config move = (rig.act config move).lend holder ∧
      (rig.act config move).lock = none := by
  cases move with
  | pass duration => exact ⟨rfl, hfree⟩
  | acquire => exact ⟨rfl, hfree⟩
  | release => exact absurd hwaits.symm Bool.false_ne_true
  | request asked => exact absurd hwaits.symm Bool.false_ne_true
  | proceed => exact absurd hwaits.symm Bool.false_ne_true
  | serve =>
    have hcalled : rig.called = false := hwaits
    have hlock : (rig.lend holder).lock = some (.request asked rest) := congrArg some hasked
    have hserves : ∀ other : Rig, (∀ rest, other.lock ≠ some (.service rest)) → other.called = false →
        other.act config .serve = if other.taken < other.core.raised then
          { other with taken := other.taken + 1, called := true } else other := by
      intro other hother hfalse
      rw [act_waits hother, answerCall, hfalse]
      rfl
    rw [hserves rig (by simp [hfree]) hcalled, hserves (rig.lend holder) (by simp [hlock]) hcalled]
    unfold lend
    dsimp only
    split <;> exact ⟨rfl, hfree⟩
  | search run =>
    unfold act search lend
    dsimp only
    split
    · split <;> exact ⟨rfl, hfree⟩
    · exact ⟨rfl, hfree⟩
  | read room =>
    unfold act lend
    dsimp only
    split <;> exact ⟨rfl, hfree⟩
  | raiseSpurious => exact ⟨rfl, hfree⟩
  | stall => exact ⟨rfl, hfree⟩
  | setHalted halted => exact ⟨rfl, hfree⟩

/-- What a move brings about does not depend on what the core may have noticed. -/
theorem searchEvents_noticed {core next core' next' : Core} {now now' : Nat}
    (h : core.Noticed now core') (hnext : next.Noticed now' next') (hconsistent : next.Consistent) :
    searchEvents core' next' = searchEvents core next := by
  unfold searchEvents
  rw [h.job, hnext.job]
  rcases hnext.completion hconsistent with rfl | ⟨hbefore, hafter⟩
  · rfl
  · rw [hbefore, hafter]
    rfl

/-- Whatever the others do, they do it as if nobody looked on. -/
theorem Alike.act (h : Alike config alone looking watched) (hreached : ∃ past, Reached config alone past)
    (hstall : move ≠ .stall) (hwaits : looking = true → watched.waits move = false) :
    Alike config (alone.act config move) looking (watched.act config move) ∧
      watched.events config move = alone.events config move := by
  obtain ⟨past, hreached⟩ := hreached
  have hconsistent := hreached.sound.consistent
  have hafter := (hreached.move move).sound.consistent
  cases h with
  | @unwatched core noticed =>
    obtain ⟨next, hact, hnext⟩ := @act_noticed config _ move _ noticed hconsistent hstall
    have hsearch := searchEvents_noticed noticed hnext hafter
    rw [events, hact]
    exact ⟨.unwatched hnext, congrArg _ hsearch⟩
  | @watched core holder noticed free looks =>
    -- `act_noticed` is about two rigs with one lock, so the core comes first and then the lock.
    obtain ⟨asked, rest, hholder⟩ := looks.request
    obtain ⟨next, hact, hnext⟩ := @act_noticed config _ move _ noticed hconsistent hstall
    have hsearch := searchEvents_noticed noticed hnext hafter
    have hfree : (alone.withCore core).lock = none := free
    obtain ⟨hlent, hleft⟩ := @act_lent config _ move _ _ _ hholder hfree (hwaits rfl)
    have hdriver : ((alone.withCore core).lend holder).driverEvents move = alone.driverEvents move := by
      cases move with
      | serve => simp only [driverEvents, lend, hholder, free]
      | proceed => exact absurd (hwaits rfl).symm Bool.false_ne_true
      | _ => rfl
    rw [hact] at hlent hleft
    rw [events, hlent, hdriver]
    exact ⟨.watched hnext hleft looks, congrArg _ hsearch⟩

theorem Alike.noticed (h : Alike config alone looking watched) :
    alone.core.Noticed alone.now watched.core := by
  cases h with
  | unwatched noticed => exact noticed
  | watched noticed free looks => exact noticed

theorem Alike.driver (h : Alike config alone looking watched) : watched.driver = alone.driver := by
  cases h <;> rfl

theorem Alike.now (h : Alike config alone looking watched) : watched.now = alone.now := by
  cases h <;> rfl

theorem Alike.lock (h : Alike config alone false watched) : watched.lock = alone.lock := by
  cases h
  rfl

theorem Alike.returning (h : Alike config alone false watched) :
    watched.returning = alone.returning := by
  cases h
  rfl

end Rig

/-! ### Whatever uses a rig -/

/-- Something that goes on around a rig: what is done, and what whoever does it is told. -/
structure Scene (State Action Sign : Type) where
  rig : State → Rig
  /-- The same with another rig. -/
  put : Rig → State → State
  act : Action → State → State
  tells : Action → State → List Sign
  /-- Whether an action has to wait for an onlooker who has the lock. -/
  waits : Action → State → Bool
  /-- Whether an action stalls the core. -/
  stalls : Action → Bool

namespace Scene

variable {State Action Sign : Type} (scene : Scene State Action Sign) (config : CoreConfig)

/-- The state after some actions, which are given latest first. -/
def after : List Action → State → State
  | [], state => state
  | action :: earlier, state => scene.act action (after earlier state)

def told : List Action → State → List Sign
  | [], _ => []
  | action :: earlier, state => scene.tells action (scene.after earlier state) ++ told earlier state

/-- What can come of a state with onlookers, who may look at any moment at which the handle is out and
    nobody has the lock. Beside the state it has whether one of them has the lock, and what the others
    have done and been told, latest first. -/
inductive Watched (start : State) : (looking : Bool) → State → List Action → List Sign → Prop where
  | begins : Watched start false start [] []
  | acts {looking : Bool} {state : State} {done : List Action} {told : List Sign}
    (before : Watched start looking state done told) (action : Action)
    (calm : scene.stalls action = false) (unhindered : looking = true → scene.waits action state = false) :
    Watched start looking (scene.act action state) (action :: done) (scene.tells action state ++ told)
  /-- An onlooker gets the lock. -/
  | looks {state : State} {done : List Action} {told : List Sign}
    (before : Watched start false state done told) {asked : Request} (looks : asked.looks = true)
    (held : (scene.rig state).driver.held = true) (free : (scene.rig state).lock = none) :
    Watched start true (scene.put ((scene.rig state).act config (.request asked)) state) done told
  /-- The onlooker's request makes its access. -/
  | peeks {state : State} {done : List Action} {told : List Sign}
    (before : Watched start true state done told) (unfinished : (scene.rig state).returning = none) :
    Watched start true (scene.put ((scene.rig state).act config .proceed) state) done told
  /-- The onlooker has its reply. -/
  | leaves {state : State} {done : List Action} {told : List Sign}
    (before : Watched start true state done told)
    (returning : (scene.rig state).returning.isSome = true) :
    Watched start false (scene.put ((scene.rig state).act config .proceed) state) done told

/-- A scene in which onlookers go unnoticed, move by move. -/
structure Discreet (sound : State → Prop) : Prop where
  rig_put : ∀ rig state, scene.rig (scene.put rig state) = rig
  put_put : ∀ rig rig' state, scene.put rig (scene.put rig' state) = scene.put rig state
  put_rig : ∀ state, scene.put (scene.rig state) state = state
  kept : ∀ action state, sound state → sound (scene.act action state)
  unnoticed : ∀ {looking : Bool} {state : State} {watched : Rig} (action : Action), sound state →
    Rig.Alike config (scene.rig state) looking watched → scene.stalls action = false →
    (looking = true → scene.waits action (scene.put watched state) = false) →
    scene.tells action (scene.put watched state) = scene.tells action state ∧
      ∃ next, scene.act action (scene.put watched state) = scene.put next (scene.act action state) ∧
        Rig.Alike config (scene.rig (scene.act action state)) looking next

variable {scene} {config}

theorem Discreet.after {sound : State → Prop} (h : scene.Discreet config sound) {start : State}
    (hstart : sound start) (done : List Action) : sound (scene.after done start) := by
  induction done with
  | nil => exact hstart
  | cons action earlier ih => exact h.kept action _ ih

/-- **Onlookers change nothing.** What has been done with them looking on would have been the same, and
    would have told the same, without them. -/
theorem Watched.alike {sound : State → Prop} (hdiscreet : scene.Discreet config sound)
    {start state : State} {looking : Bool} {done : List Action} {told : List Sign}
    (hstart : sound start) (h : scene.Watched config start looking state done told) :
    told = scene.told done start ∧ ∃ watched, state = scene.put watched (scene.after done start) ∧
      Rig.Alike config (scene.rig (scene.after done start)) looking watched := by
  induction h with
  | begins => exact ⟨rfl, scene.rig start, (hdiscreet.put_rig start).symm, .refl _⟩
  | @acts looking state done told before action calm unhindered ih =>
    obtain ⟨rfl, watched, rfl, halike⟩ := ih
    have hsound := hdiscreet.after hstart done
    obtain ⟨htells, next, hact, hnext⟩ := hdiscreet.unnoticed action hsound halike calm unhindered
    rw [htells]
    exact ⟨rfl, next, hact, hnext⟩
  | looks before looks held free ih =>
    obtain ⟨rfl, watched, rfl, halike⟩ := ih
    rw [hdiscreet.rig_put] at held free
    rw [hdiscreet.rig_put, hdiscreet.put_put]
    exact ⟨rfl, _, rfl, halike.look looks held free⟩
  | peeks before unfinished ih =>
    obtain ⟨rfl, watched, rfl, halike⟩ := ih
    rw [hdiscreet.rig_put] at unfinished
    rw [hdiscreet.rig_put, hdiscreet.put_put]
    exact ⟨rfl, _, rfl, halike.peek unfinished⟩
  | leaves before returning ih =>
    obtain ⟨rfl, watched, rfl, halike⟩ := ih
    rw [hdiscreet.rig_put] at returning
    rw [hdiscreet.rig_put, hdiscreet.put_put]
    exact ⟨rfl, _, rfl, halike.leave returning⟩

/-- Things may go on with nobody looking. -/
theorem Watched.go_on {start state : State} {done : List Action} {told : List Sign}
    (h : scene.Watched config start false state done told) (later : List Action)
    (hcalm : ∀ action ∈ later, scene.stalls action = false) :
    scene.Watched config start false (scene.after later state) (later ++ done)
      (scene.told later state ++ told) := by
  induction later with
  | nil => exact h
  | cons action earlier ih =>
    have hbefore := ih fun other hother => hcalm other (List.mem_cons_of_mem _ hother)
    have hnext := hbefore.acts action (hcalm action List.mem_cons_self) nofun
    rwa [← List.append_assoc] at hnext

/-- Whenever the handle is out and nobody has the lock, somebody may look. -/
theorem Watched.look {sound : State → Prop} (hdiscreet : scene.Discreet config sound)
    {start state : State} {done : List Action} {told : List Sign}
    (h : scene.Watched config start false state done told) {asked : Request}
    (hasked : asked.looks = true) (hheld : (scene.rig state).driver.held = true)
    (hfree : (scene.rig state).lock = none) :
    scene.Watched config start false (scene.put ((scene.rig state).withCore
      ((scene.rig state).core.refresh (scene.rig state).now)) state) done told := by
  obtain ⟨hunfinished, hreturning, hafter⟩ := @Rig.act_looks config (scene.rig state) _ hasked hheld hfree
  have hlooks := h.looks hasked hheld hfree
  have hpeeks := hlooks.peeks (by rw [hdiscreet.rig_put]; exact hunfinished)
  rw [hdiscreet.rig_put, hdiscreet.put_put] at hpeeks
  have hleaves := hpeeks.leaves (by rw [hdiscreet.rig_put]; exact hreturning)
  rw [hdiscreet.rig_put, hdiscreet.put_put, hafter] at hleaves
  exact hleaves

end Scene

end NonceSearch
