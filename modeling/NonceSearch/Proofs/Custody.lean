import NonceSearch.Proofs.Station

/-!
# Who keeps a driver

A driver has an owner, a handle as long as somebody has it open, and a service thread. The thread has no
share of the driver while it waits. It asks for one when it has taken an interrupt, and gives it back when
the interrupt is counted. Whichever of the three lets go last unbinds the driver, with one RESET as the
last access of all. A handle that is dropped gives back its share first and its guard after that, and
what one of them does can come between any two moments of another.

Here a driver over any registers (`Station`) is put together with those who keep it, and every access to
the registers is noted.
-/

namespace NonceSearch

/-- How far the unbinding of a driver is. -/
inductive Binding where
  | bound
  /-- Nobody keeps the driver any more, and this is left to do. -/
  | unbinding (rest : Bus Unit)
  | unbound

/-- A driver in motion, over registers with a list of all accesses to them, and who has a share of it. -/
structure Custody (σ : Type) where
  station : Station (σ × List Access)
  owned : Bool := true
  /-- How many handles there are. -/
  handles : Nat := 0
  /-- How many handles have been dropped and have not released their guard. -/
  leaving : Nat := 0
  /-- Whether the service thread has a share. -/
  servicing : Bool := false
  binding : Binding := .bound

namespace Custody

inductive PortMove where
  | ask (asked : Request)
  | proceed
  | tryRead (room : Nat)
  | read (room : Nat)
  | callOff (who : Nat)
  | goOn (who : Nat)
  | leave (who : Nat)

def PortMove.move {σ : Type} : PortMove → Station.Move σ
  | .ask asked => .ask asked
  | .proceed => .proceed
  | .tryRead room => .tryRead room
  | .read room => .read room
  | .callOff who => .callOff who
  | .goOn who => .goOn who
  | .leave who => .leave who

inductive Move (σ : Type) where
  /-- The registers change by themselves. -/
  | disturb (change : σ → σ)
  | raise
  /-- The last end at which interrupts can be raised goes away. -/
  | hangUp
  /-- The owner is asked for a handle. -/
  | openHandle
  | use (call : PortMove)
  /-- The handle is dropped: first it gives back its share. -/
  | dropHandle
  /-- A handle that is being dropped releases its guard. -/
  | release
  /-- The owner drops the driver. -/
  | disown
  | serve
  /-- Whoever has let go last goes on with the unbinding. -/
  | unbind

def Move.isUnbind {σ : Type} : Move σ → Bool
  | .unbind => true
  | _ => false

variable {σ : Type} (file : RegisterFile σ) (layout : RegisterLayout)

def isKept (custody : Custody σ) : Bool :=
  custody.owned || custody.handles != 0 || custody.servicing

/-- All accesses to the registers so far, latest first. -/
def log (custody : Custody σ) : List Access := custody.station.registers.2

/-- Give a share back. If nobody else has one, the driver is to be unbound. -/
def letGo (change : Custody σ → Custody σ) (custody : Custody σ) : Custody σ :=
  let after := change custody
  if custody.isKept && !after.isKept then
    { after with binding := .unbinding (Driver.command layout Control.reset) }
  else after

def openHandle (custody : Custody σ) : Custody σ :=
  match custody.owned, custody.station.driver.openHandle with
  | true, (.ok (), driver) =>
    { custody with
      station := { custody.station with driver := driver }
      handles := custody.handles + 1 }
  | _, _ => custody

/-- Drop a handle with which no request is going on. Reads that wait are given up with it. -/
def dropHandle (custody : Custody σ) : Custody σ :=
  if custody.handles ≠ 0 ∧ custody.station.asking.isNone then
    custody.letGo layout fun custody =>
      { custody with
        station := { custody.station with calls := [] }
        handles := custody.handles - 1
        leaving := custody.leaving + 1 }
  else custody

def release (custody : Custody σ) : Custody σ :=
  if custody.leaving ≠ 0 then
    { custody with
      station := { custody.station with driver := custody.station.driver.closeHandle }
      leaving := custody.leaving - 1 }
  else custody

def quit (custody : Custody σ) : Custody σ :=
  { custody with
    station := { custody.station with stage := .waiting, line := custody.station.line.dropReceiver } }

/-- Let the service thread go on. It has taken an interrupt before it asks for a share of the driver, and
    counted it before it gives the share back. -/
def serve (custody : Custody σ) : Custody σ :=
  match custody.station.stage, custody.servicing with
  | .waiting, true => custody.letGo layout fun custody => { custody with servicing := false }
  | .called, false => if custody.isKept then { custody with servicing := true } else custody.quit
  | .waiting, false =>
    if custody.station.line.wait.1 = some false then custody.quit
    else { custody with station := custody.station.serve file.logged layout }
  | _, true => { custody with station := custody.station.serve file.logged layout }
  | _, false => custody

/-- Go on with the unbinding, when the lock is free: the accesses, and in the end the queue. -/
def unbind (custody : Custody σ) : Custody σ :=
  match custody.binding, custody.station.isLocked with
  | .unbinding (.done ()), false =>
    { custody with
      station := { custody.station with
        driver := { custody.station.driver with queue := custody.station.driver.queue.drain.2 } }
      binding := .unbound }
  | .unbinding rest, false =>
    { custody with
      station := { custody.station with
        registers := (rest.advance file.logged custody.station.registers).2 }
      binding := .unbinding (rest.advance file.logged custody.station.registers).1 }
  | _, _ => custody

def act (custody : Custody σ) : Move σ → Custody σ
  | .disturb change =>
    { custody with
      station := { custody.station with
        registers := (change custody.station.registers.1, custody.station.registers.2) } }
  | .raise =>
    { custody with station := { custody.station with line := custody.station.line.raise.2 } }
  | .hangUp =>
    { custody with station := { custody.station with line := custody.station.line.dropSender } }
  | .openHandle => custody.openHandle
  | .use call =>
    if custody.handles ≠ 0 then
      { custody with station := custody.station.act file.logged layout call.move }
    else custody
  | .dropHandle => custody.dropHandle layout
  | .release => custody.release
  | .disown =>
    if custody.owned then custody.letGo layout fun custody => { custody with owned := false }
    else custody
  | .serve => custody.serve file layout
  | .unbind => custody.unbind file

/-- A driver that has been bound to registers in any state, after any moves. -/
inductive Reached : Custody σ → Prop where
  | bound (registers : σ) : Reached { station := { registers := (registers, []) } }
  | move {custody : Custody σ} (move : Move σ) (h : Reached custody) :
    Reached (custody.act file layout move)

def follow : List (Move σ) → Custody σ → Custody σ
  | [], custody => custody
  | move :: moves, custody => follow moves (custody.act file layout move)

variable {file layout} in
theorem Reached.follow {custody : Custody σ} (h : Reached file layout custody)
    (moves : List (Move σ)) : Reached file layout (follow file layout moves custody) := by
  induction moves generalizing custody with
  | nil => exact h
  | cons move moves ih => exact ih (.move move h)

/-! ### What single moves leave alone -/

section Moves

variable {file layout} {custody : Custody σ}

theorem finishRequest_held (driver : DriverState) (asked : Request) :
    (driver.finishRequest asked).held = driver.held := by
  cases asked <;> rfl

/-- What is done with a handle does not concern the guard, nor the service thread. -/
theorem use_keeps {ρ : Type} {regs : RegisterFile ρ} (station : Station ρ) (call : PortMove) :
    (station.act regs layout call.move).driver.held = station.driver.held ∧
      (station.act regs layout call.move).stage = station.stage ∧
      (station.act regs layout call.move).line = station.line := by
  have hset : ∀ (who : Nat) (change : ReadCall → ReadCall),
      (station.setCall who change).driver.held = station.driver.held ∧
        (station.setCall who change).stage = station.stage ∧
        (station.setCall who change).line = station.line := by
    intro who change
    unfold Station.setCall
    split <;> exact ⟨rfl, rfl, rfl⟩
  cases call with
  | ask asked =>
    simp only [PortMove.move, Station.act, Station.ask]
    split <;> exact ⟨rfl, rfl, rfl⟩
  | proceed =>
    simp only [PortMove.move, Station.act, Station.proceed]
    split
    · exact ⟨rfl, rfl, rfl⟩
    · exact ⟨finishRequest_held _ _, rfl, rfl⟩
    · exact ⟨rfl, rfl, rfl⟩
  | tryRead room =>
    obtain ⟨-, queue, -, hdriver, -⟩ := Station.tryRead_pays room station.driver
    simp only [PortMove.move, Station.act, hdriver]
    split <;> exact ⟨rfl, rfl, rfl⟩
  | read room =>
    simp only [PortMove.move, Station.act]
    split <;> exact ⟨rfl, rfl, rfl⟩
  | callOff who => exact hset who _
  | goOn who =>
    simp only [PortMove.move, Station.act, Station.goOn]
    split <;> exact ⟨rfl, rfl, rfl⟩
  | leave who => exact hset who _

/-- What the service thread does does not concern the guard, nor a request that is going on. -/
theorem serve_keeps {ρ : Type} {regs : RegisterFile ρ} (station : Station ρ) :
    (station.serve regs layout).driver.held = station.driver.held ∧
      (station.serve regs layout).asking = station.asking := by
  unfold Station.serve
  split
  · split <;> exact ⟨rfl, rfl⟩
  · split <;> exact ⟨rfl, rfl⟩
  · next report _ => cases report <;> exact ⟨rfl, rfl⟩
  · exact ⟨rfl, rfl⟩
  · exact ⟨rfl, rfl⟩
  · exact ⟨rfl, rfl⟩

/-- A service thread that waits takes an interrupt, or goes on waiting. -/
theorem serve_waiting {ρ : Type} {regs : RegisterFile ρ} {station : Station ρ}
    (hstage : station.stage = .waiting) :
    ∃ line stage, station.serve regs layout = { station with line := line, stage := stage } ∧
      (stage = .waiting ∨ stage = .called) := by
  unfold Station.serve
  rw [hstage]
  dsimp only
  split
  · exact ⟨_, _, rfl, .inr rfl⟩
  · exact ⟨station.line, .waiting, by rw [← hstage], .inl rfl⟩

theorem isKept_of_handles (h : 0 < custody.handles) : custody.isKept = true := by
  simp [isKept, Nat.ne_of_gt h]

theorem letGo_of_kept {change : Custody σ → Custody σ} (h : (change custody).isKept = true) :
    custody.letGo layout change = change custody := by
  simp [letGo, h]

/-- With a handle open the service thread gets its share whenever it asks, and can give it back. -/
theorem serve_of_handles (hsome : 0 < custody.handles) : custody.serve file layout =
    match custody.station.stage, custody.servicing with
    | .waiting, true => { custody with servicing := false }
    | .called, false => { custody with servicing := true }
    | .waiting, false =>
      if custody.station.line.wait.1 = some false then custody.quit
      else { custody with station := custody.station.serve file.logged layout }
    | _, true => { custody with station := custody.station.serve file.logged layout }
    | _, false => custody := by
  have hgives : custody.letGo layout (fun custody => { custody with servicing := false }) =
      { custody with servicing := false } := letGo_of_kept (isKept_of_handles hsome)
  simp only [serve, hgives, isKept_of_handles hsome, if_true]

end Moves

/-! ### What holds at any time -/

/-- The guard is taken by the one handle, or by the one that is being dropped; only with a handle is a
    request going on, and only with a share of the driver is an interrupt in service. -/
structure Sound (custody : Custody σ) : Prop where
  guard : custody.handles + custody.leaving = if custody.station.driver.held then 1 else 0
  asking : custody.station.asking.isSome → 0 < custody.handles
  serving : custody.servicing = false →
    custody.station.stage = .waiting ∨ custody.station.stage = .called
  binding : custody.isKept → custody.binding = .bound

section Invariant

variable {file layout} {custody : Custody σ}

theorem Sound.letGo {change : Custody σ → Custody σ} (h : (change custody).Sound) :
    (custody.letGo layout change).Sound := by
  unfold Custody.letGo
  dsimp only
  split
  · next hlast =>
    have hgone : (change custody).isKept = false := by
      simp only [Bool.and_eq_true, Bool.not_eq_true'] at hlast
      exact hlast.2
    refine ⟨h.guard, h.asking, h.serving, fun hkept => ?_⟩
    exact absurd (hgone.symm.trans hkept) (by decide)
  · exact h

theorem Sound.openHandle (h : custody.Sound) : custody.openHandle.Sound := by
  unfold Custody.openHandle DriverState.openHandle
  split
  · next driver howned hopen =>
    have hguard := h.guard
    split at hopen
    · simp at hopen
    · next hfree =>
      obtain rfl := (Prod.mk.inj hopen).2
      rw [if_neg hfree] at hguard
      refine ⟨?_, fun hasking => Nat.succ_pos _, h.serving, fun _ => h.binding (by simp [isKept, howned])⟩
      simp only [if_true]
      omega
  · exact h

theorem Sound.dropHandle (h : custody.Sound) : (custody.dropHandle layout).Sound := by
  unfold Custody.dropHandle
  split
  · next hdrop =>
    obtain ⟨hsome, hidle⟩ := hdrop
    apply Sound.letGo
    refine ⟨?_, fun hasking => ?_, h.serving, fun hkept => h.binding ?_⟩
    · have hguard := h.guard
      dsimp only
      omega
    · dsimp only at hasking
      simp [Option.isNone_iff_eq_none.mp hidle] at hasking
    · simp [isKept, hsome]
  · exact h

theorem Sound.release (h : custody.Sound) : custody.release.Sound := by
  unfold Custody.release
  split
  · next hleaving =>
    refine ⟨?_, h.asking, h.serving, h.binding⟩
    have hguard := h.guard
    simp only [DriverState.closeHandle]
    split at hguard
    · simp only [Bool.false_eq_true, if_false]
      omega
    · omega
  · exact h

theorem Sound.serve (h : custody.Sound) : (custody.serve file layout).Sound := by
  have hquit : custody.quit.Sound := ⟨h.guard, h.asking, fun _ => .inl rfl, h.binding⟩
  have hstation := @serve_keeps layout _ file.logged custody.station
  have hguard : custody.handles + custody.leaving =
      if (custody.station.serve file.logged layout).driver.held then 1 else 0 := by
    rw [hstation.1]
    exact h.guard
  have hasking : (custody.station.serve file.logged layout).asking.isSome → 0 < custody.handles := by
    rw [hstation.2]
    exact h.asking
  unfold Custody.serve
  split
  · next hstage hshare =>
    refine Sound.letGo ⟨h.guard, h.asking, fun _ => .inl hstage, fun hkept => h.binding ?_⟩
    simp [isKept, hshare]
  · split
    · next hkept => exact ⟨h.guard, h.asking, nofun, fun _ => h.binding hkept⟩
    · exact hquit
  · next hstage hshare =>
    split
    · exact hquit
    · obtain ⟨line, stage, hserve, hnext⟩ := @serve_waiting layout _ file.logged _ hstage
      rw [hserve] at hguard hasking ⊢
      exact ⟨hguard, hasking, fun _ => hnext, h.binding⟩
  · next hshare _ =>
    exact ⟨hguard, hasking, fun hnone => absurd (hshare.symm.trans hnone) (by decide), h.binding⟩
  · exact h

theorem Sound.unbind (h : custody.Sound) (hgone : custody.binding ≠ .bound) :
    (custody.unbind file).Sound := by
  have hlost : ∀ {binding : Binding}, custody.isKept → binding = .bound :=
    fun hkept => absurd (h.binding hkept) hgone
  unfold Custody.unbind
  split
  · exact ⟨h.guard, h.asking, h.serving, hlost⟩
  · exact ⟨h.guard, h.asking, h.serving, hlost⟩
  · exact h

theorem Sound.act (h : custody.Sound) (move : Move σ) : (custody.act file layout move).Sound := by
  cases move with
  | disturb change => exact ⟨h.guard, h.asking, h.serving, h.binding⟩
  | raise => exact ⟨h.guard, h.asking, h.serving, h.binding⟩
  | hangUp => exact ⟨h.guard, h.asking, h.serving, h.binding⟩
  | openHandle => exact h.openHandle
  | use call =>
    rw [Custody.act]
    split
    · next hsome =>
      obtain ⟨hheld, hstage, -⟩ := @use_keeps layout _ file.logged custody.station call
      refine ⟨?_, fun _ => Nat.pos_of_ne_zero hsome, ?_, h.binding⟩
      · dsimp only
        rw [hheld]
        exact h.guard
      · dsimp only
        rw [hstage]
        exact h.serving
    · exact h
  | dropHandle => exact h.dropHandle
  | release => exact h.release
  | disown =>
    rw [Custody.act]
    split
    · next howned =>
      refine Sound.letGo ⟨h.guard, h.asking, h.serving, fun _ => h.binding ?_⟩
      simp [isKept, howned]
    · exact h
  | serve => exact h.serve
  | unbind =>
    by_cases hbound : custody.binding = .bound
    · have hidle : custody.unbind file = custody := by
        unfold Custody.unbind
        rw [hbound]
      rw [Custody.act, hidle]
      exact h
    · exact h.unbind hbound

theorem Reached.sound (h : Reached file layout custody) : custody.Sound := by
  induction h with
  | bound registers => exact ⟨rfl, nofun, fun _ => .inl rfl, fun _ => rfl⟩
  | move move _ ih => exact ih.act move

end Invariant

end Custody

end NonceSearch
