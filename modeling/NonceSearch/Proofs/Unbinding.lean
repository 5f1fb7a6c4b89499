import NonceSearch.Device.Bound
import NonceSearch.Proofs.Boards
import NonceSearch.Proofs.Custody
import NonceSearch.Registers.Memory

/-!
# The last access of a driver

When the last share of a driver is given back, nobody can get one any more, and the unbinding begins:
one RESET, and then the queue is emptied. Nothing can keep it from going on, because nobody is left who
could hold the lock, and nobody else touches the registers again (`Custody.Gone`). While a handle is open
the driver stays bound, and whether there still is an owner makes no difference to anything that happens
(`Custody.Sound.disowned_act`).

A bound driver does in one go what is done here move by move (`Bound.Reached.shows`).
-/

namespace NonceSearch

namespace Custody

variable {σ : Type} (file : RegisterFile σ) (layout : RegisterLayout)

/-! ### After the last keeper -/

def lastAccess (layout : RegisterLayout) : Access :=
  .write (Driver.commandWord layout) Control.reset

/-- How far an unbinding is, and the accesses so far, with what they were before it. -/
inductive Ending (layout : RegisterLayout) (before : List Access) :
    (touched : Bool) → Binding → List Access → Prop where
  | begun : Ending layout before false (.unbinding (Driver.command layout Control.reset)) before
  | written : Ending layout before true (.unbinding (.done ())) (lastAccess layout :: before)
  | drained : Ending layout before true .unbound (lastAccess layout :: before)

structure Gone (layout : RegisterLayout) (before : List Access) (touched : Bool)
    (custody : Custody σ) : Prop where
  sound : custody.Sound
  kept : custody.isKept = false
  ending : Ending layout before touched custody.binding custody.log

section Leaving

variable {file layout} {custody : Custody σ} {before : List Access} {touched : Bool}

theorem isKept_eq_false : custody.isKept = false ↔
    custody.owned = false ∧ custody.handles = 0 ∧ custody.servicing = false := by
  simp [isKept, and_assoc]

/-- Nobody holds the lock of a driver that nobody has a share of. -/
theorem Sound.unlocked (h : custody.Sound) (hgone : custody.isKept = false) :
    custody.station.isLocked = false := by
  obtain ⟨-, hnone, hidle⟩ := isKept_eq_false.mp hgone
  have hasking : custody.station.asking = none := by
    by_contra hsome
    have hpos := h.asking (Option.isSome_iff_ne_none.mpr hsome)
    omega
  unfold Station.isLocked
  rcases h.serving hidle with hstage | hstage <;> simp [hasking, hstage]

theorem letGo_last {change : Custody σ → Custody σ} (hkept : custody.isKept = true)
    (hgone : (custody.letGo layout change).isKept = false) :
    (change custody).isKept = false ∧ custody.letGo layout change =
      { change custody with binding := .unbinding (Driver.command layout Control.reset) } := by
  unfold letGo at hgone ⊢
  dsimp only at hgone ⊢
  split at hgone
  · next hlast =>
    rw [if_pos hlast]
    exact ⟨hgone, rfl⟩
  · next hnot => exact absurd hgone (by simpa [hkept] using hnot)

theorem openHandle_isKept : custody.openHandle.isKept = custody.isKept := by
  unfold Custody.openHandle
  split
  · next howned _ => simp [isKept, howned]
  · rfl

theorem release_isKept : custody.release.isKept = custody.isKept := by
  unfold Custody.release
  split <;> rfl

theorem unbind_isKept : (custody.unbind file).isKept = custody.isKept := by
  unfold Custody.unbind
  split <;> rfl

variable (file layout) in
/-- Either a move gives a share back, or there are as many keepers after it as before it, or more. -/
theorem act_isKept (custody : Custody σ) (move : Move σ) :
    (custody.isKept = true → (custody.act file layout move).isKept = true) ∨
      ∃ change, (change custody).log = custody.log ∧
        custody.act file layout move = custody.letGo layout change := by
  cases move with
  | disturb change => exact .inl id
  | raise => exact .inl id
  | hangUp => exact .inl id
  | openHandle => exact .inl openHandle_isKept.trans
  | use call =>
    left
    rw [act]
    split <;> exact id
  | dropHandle =>
    rw [act, dropHandle]
    split
    · exact .inr ⟨_, rfl, rfl⟩
    · exact .inl id
  | release => exact .inl release_isKept.trans
  | disown =>
    rw [act]
    split
    · exact .inr ⟨_, rfl, rfl⟩
    · exact .inl id
  | serve =>
    rw [act, serve]
    split
    · exact .inr ⟨_, rfl, rfl⟩
    · left
      split
      · simp [isKept]
      · exact id
    · left
      split <;> exact id
    · exact .inl id
    · exact .inl id
  | unbind => exact .inl unbind_isKept.trans

/-- With the move that gives the last share back the unbinding begins, and no access is made. -/
theorem Sound.last (h : custody.Sound) {move : Move σ} (hkept : custody.isKept = true)
    (hgone : (custody.act file layout move).isKept = false) :
    Gone layout custody.log false (custody.act file layout move) := by
  refine ⟨h.act move, hgone, ?_⟩
  rcases custody.act_isKept file layout move with hstays | ⟨change, hlog, hact⟩
  · exact absurd ((hstays hkept).symm.trans hgone) (by decide)
  · rw [hact] at hgone ⊢
    obtain ⟨-, hlast⟩ := letGo_last hkept hgone
    rw [hlast, ← hlog]
    exact .begun

variable (file) in
/-- A service thread that has no share does not touch the registers, and ends when it asks for one. -/
theorem Gone.serve (h : Gone layout before touched custody) :
    ∃ station, custody.serve file layout = { custody with station := station } ∧
      station.registers = custody.station.registers := by
  obtain ⟨-, -, hidle⟩ := isKept_eq_false.mp h.kept
  unfold Custody.serve
  split
  · next hshare => exact absurd (hidle.symm.trans hshare) (by decide)
  · rw [if_neg (by simp [h.kept])]
    exact ⟨_, rfl, rfl⟩
  · next hstage _ =>
    split
    · exact ⟨_, rfl, rfl⟩
    · obtain ⟨line, stage, hserve, -⟩ := @serve_waiting layout _ file.logged _ hstage
      exact ⟨_, rfl, by rw [hserve]⟩
  · next hshare _ => exact absurd (hidle.symm.trans hshare) (by decide)
  · exact ⟨_, rfl, rfl⟩

/-- The registers after a move, when nobody has a share of the driver any more. -/
def leftTo (file : RegisterFile σ) (layout : RegisterLayout) (touched : Bool) (registers : σ) :
    Move σ → σ
  | .disturb change => change registers
  | .unbind =>
    if touched then registers else file.write (Driver.commandWord layout) Control.reset registers
  | _ => registers

/-- What changes neither the shares nor the accesses leaves an unbinding where it is. -/
theorem Gone.quiet (h : Gone layout before touched custody) {station : Station (σ × List Access)}
    {leaving : Nat} (hsound : Sound { custody with station := station, leaving := leaving })
    (hlog : station.registers.2 = custody.station.registers.2) :
    Gone layout before touched { custody with station := station, leaving := leaving } := by
  refine ⟨hsound, h.kept, ?_⟩
  have hending := h.ending
  rw [log, ← hlog] at hending
  exact hending

/-- Nothing can keep an unbinding from going on. It makes its one access first, and then no other. -/
theorem Gone.unbind (h : Gone layout before touched custody) :
    Gone layout before true (custody.act file layout .unbind) ∧
      (custody.act file layout .unbind).station.registers.1 =
        leftTo file layout touched custody.station.registers.1 .unbind := by
  have hsound : (custody.act file layout .unbind).Sound := h.sound.act .unbind
  rw [Custody.act] at hsound ⊢
  have hfree := h.sound.unlocked h.kept
  have hkept : (custody.unbind file).isKept = false := unbind_isKept.trans h.kept
  have hending := h.ending
  generalize hlog : custody.log = log at hending
  generalize hbinding : custody.binding = binding at hending
  cases hending with
  | begun =>
    have hunbind : custody.unbind file =
        { custody with
          station := { custody.station with
            registers :=
              (file.write (Driver.commandWord layout) Control.reset custody.station.registers.1,
                lastAccess layout :: custody.log) }
          binding := .unbinding (.done ()) } := by
      simp only [Custody.unbind, hbinding, hfree, Driver.command, Bus.put]
      rfl
    rw [hunbind, hlog] at hsound hkept ⊢
    exact ⟨⟨hsound, hkept, .written⟩, rfl⟩
  | written =>
    have hunbind : custody.unbind file =
        { custody with
          station := { custody.station with
            driver := { custody.station.driver with queue := custody.station.driver.queue.drain.2 } }
          binding := .unbound } := by
      simp only [Custody.unbind, hbinding, hfree]
    rw [hunbind] at hsound hkept ⊢
    refine ⟨⟨hsound, hkept, ?_⟩, rfl⟩
    change Ending layout before true .unbound custody.log
    rw [hlog]
    exact .drained
  | drained =>
    have hunbind : custody.unbind file = custody := by simp only [Custody.unbind, hbinding]
    rw [hunbind]
    exact ⟨h, rfl⟩

/-- Nobody but the unbinding touches the registers any more. -/
theorem Gone.other (h : Gone layout before touched custody) {move : Move σ}
    (hmove : move.isUnbind = false) :
    Gone layout before touched (custody.act file layout move) ∧
      (custody.act file layout move).station.registers.1 =
        leftTo file layout touched custody.station.registers.1 move := by
  obtain ⟨hdisowned, hnone, hidle⟩ := isKept_eq_false.mp h.kept
  have hsound : (custody.act file layout move).Sound := h.sound.act move
  cases move with
  | disturb change => exact ⟨h.quiet hsound rfl, rfl⟩
  | raise => exact ⟨h.quiet hsound rfl, rfl⟩
  | hangUp => exact ⟨h.quiet hsound rfl, rfl⟩
  | openHandle =>
    have hsame : custody.openHandle = custody := by simp [Custody.openHandle, hdisowned]
    rw [Custody.act, hsame]
    exact ⟨h, rfl⟩
  | use call =>
    have hsame : custody.act file layout (.use call) = custody := by simp [Custody.act, hnone]
    rw [hsame]
    exact ⟨h, rfl⟩
  | dropHandle =>
    have hsame : custody.dropHandle layout = custody := by simp [Custody.dropHandle, hnone]
    rw [Custody.act, hsame]
    exact ⟨h, rfl⟩
  | release =>
    rw [Custody.act, Custody.release] at hsound ⊢
    split at hsound
    · next hleaving =>
      rw [if_pos hleaving]
      exact ⟨h.quiet hsound rfl, rfl⟩
    · next hnot =>
      rw [if_neg hnot]
      exact ⟨h, rfl⟩
  | disown =>
    have hsame : custody.act file layout .disown = custody := by simp [Custody.act, hdisowned]
    rw [hsame]
    exact ⟨h, rfl⟩
  | serve =>
    obtain ⟨station, hserve, hregisters⟩ := h.serve file
    rw [Custody.act, hserve] at hsound ⊢
    exact ⟨h.quiet hsound (congrArg Prod.snd hregisters), congrArg Prod.fst hregisters⟩
  | unbind => cases hmove

/-- The one access that is left to make is made by the first move of the unbinding. -/
theorem Gone.act (h : Gone layout before touched custody) (move : Move σ) :
    Gone layout before (touched || move.isUnbind) (custody.act file layout move) ∧
      (custody.act file layout move).station.registers.1 =
        leftTo file layout touched custody.station.registers.1 move := by
  cases hmove : move.isUnbind with
  | false =>
    rw [Bool.or_false]
    exact h.other hmove
  | true =>
    rw [Bool.or_true]
    cases move with
    | unbind => exact h.unbind
    | _ => cases hmove

variable (file) in
theorem Gone.follow (h : Gone layout before touched custody) (moves : List (Move σ)) :
    Gone layout before (touched || moves.any Move.isUnbind) (follow file layout moves custody) := by
  induction moves generalizing custody touched with
  | nil =>
    rw [List.any_nil, Bool.or_false]
    exact h
  | cons move moves ih =>
    rw [List.any_cons, ← Bool.or_assoc]
    exact ih (h.act move).1

theorem Gone.log (h : Gone layout before touched custody) :
    custody.log = if touched then lastAccess layout :: before else before := by
  have hending := h.ending
  generalize custody.log = log at hending
  generalize custody.binding = binding at hending
  cases hending <;> rfl

end Leaving

/-! ### A handle without the owner -/

def Comes (kind : Move σ → Prop) : Custody σ → Custody σ → Prop :=
  Relation.ReflTransGen fun before after => ∃ move, kind move ∧ before.act file layout move = after

inductive Requests (asked : Request) : Move σ → Prop where
  | ask : Requests asked (.use (.ask asked))
  | proceed : Requests asked (.use .proceed)

def asking (custody : Custody σ) (asked : Request) (rest : Bus Reply) (registers : σ × List Access) :
    Custody σ :=
  { custody with
    station := { custody.station with asking := some (asked, rest), registers := registers } }

def inService (custody : Custody σ) (line : InterruptLine) (rest : Bus (Option CompletionMessage))
    (registers : σ × List Access) : Custody σ :=
  { custody with
    station := { custody.station with line := line, stage := .serving rest, registers := registers }
    servicing := true }

def carriedOut (custody : Custody σ) (asked : Request) : Custody σ :=
  let (_, driver, registers) :=
    custody.station.driver.request file.logged layout asked custody.station.registers
  { custody with station := { custody.station with driver := driver, registers := registers } }

/-- A driver that has served an interrupt, with the line as it was left, and every reader notified that
    has to be. -/
def served (custody : Custody σ) (line : InterruptLine) : Custody σ :=
  let (driver, registers) := custody.station.driver.service file.logged layout custody.station.registers
  let pushed := ((Driver.service layout).run file.logged custody.station.registers).1.isSome
  { custody with
    station := { custody.station with
      driver := driver
      registers := registers
      line := line
      stage := .waiting
      calls := if pushed then custody.station.calls.map ReadCall.notify else custody.station.calls } }

section Handles

variable {file layout} {custody : Custody σ} {line : InterruptLine}

theorem Sound.held (h : custody.Sound) (hsome : 0 < custody.handles) :
    custody.station.driver.held = true := by
  by_contra hfree
  have hguard := h.guard
  rw [if_neg hfree] at hguard
  omega

variable (file layout) in
/-- An owner that lets go of a driver with an open handle leaves everything else as it is. -/
theorem disown_of_handles (hsome : 0 < custody.handles) :
    custody.act file layout .disown = { custody with owned := false } := by
  have hletGo : custody.letGo layout (fun custody => { custody with owned := false }) =
      { custody with owned := false } := letGo_of_kept (isKept_of_handles hsome)
  cases howned : custody.owned with
  | true => rw [act, if_pos howned, hletGo]
  | false => rw [act, howned, if_neg (by decide), ← howned]

/-- Whatever happens while a handle is open happens in the same way without the owner. -/
theorem Sound.disowned_act (h : custody.Sound) (hsome : 0 < custody.handles) {move : Move σ}
    (hmove : move ≠ .dropHandle) :
    ({ custody with owned := false } : Custody σ).act file layout move =
        { custody.act file layout move with owned := false } ∧
      0 < (custody.act file layout move).handles := by
  cases move with
  | disturb change => exact ⟨rfl, hsome⟩
  | raise => exact ⟨rfl, hsome⟩
  | hangUp => exact ⟨rfl, hsome⟩
  | openHandle =>
    have hbusy : custody.openHandle = custody := by
      simp [Custody.openHandle, DriverState.openHandle, h.held hsome]
    rw [Custody.act, Custody.act, hbusy]
    exact ⟨rfl, hsome⟩
  | use call =>
    simp only [Custody.act, if_pos (Nat.ne_of_gt hsome)]
    exact ⟨trivial, hsome⟩
  | dropHandle => exact absurd rfl hmove
  | release =>
    simp only [Custody.act, Custody.release]
    split <;> exact ⟨rfl, hsome⟩
  | disown =>
    have hsome' : 0 < ({ custody with owned := false } : Custody σ).handles := hsome
    rw [disown_of_handles file layout hsome, disown_of_handles file layout hsome']
    exact ⟨rfl, hsome⟩
  | serve =>
    have hsome' : 0 < ({ custody with owned := false } : Custody σ).handles := hsome
    rw [Custody.act, Custody.act, serve_of_handles hsome, serve_of_handles hsome']
    dsimp only
    split
    · exact ⟨rfl, hsome⟩
    · exact ⟨rfl, hsome⟩
    · split <;> exact ⟨rfl, hsome⟩
    · exact ⟨rfl, hsome⟩
    · exact ⟨rfl, hsome⟩
  | unbind =>
    simp only [Custody.act, Custody.unbind]
    split <;> exact ⟨rfl, hsome⟩

theorem Sound.disowned_follow (h : custody.Sound) (hsome : 0 < custody.handles)
    {moves : List (Move σ)} (hmoves : ∀ move ∈ moves, move ≠ .dropHandle) :
    follow file layout moves { custody with owned := false } =
        { follow file layout moves custody with owned := false } ∧
      0 < (follow file layout moves custody).handles := by
  induction moves generalizing custody with
  | nil => exact ⟨rfl, hsome⟩
  | cons move moves ih =>
    obtain ⟨hact, hsome'⟩ := h.disowned_act hsome (hmoves move List.mem_cons_self)
    rw [follow, hact]
    exact ih (h.act move) hsome' fun other hother => hmoves other (List.mem_cons_of_mem _ hother)

/-- A request that gets the lock is carried out, move by move. -/
theorem request_comes (h : custody.Sound) (hsome : 0 < custody.handles)
    (hfree : custody.station.isLocked = false) (asked : Request) :
    Comes file layout (Requests asked) custody (custody.carriedOut file layout asked) := by
  have hnone : custody.station.asking = none := by
    cases hasking : custody.station.asking with
    | none => rfl
    | some holder => simp [Station.isLocked, hasking] at hfree
  have hguard := Nat.ne_of_gt hsome
  unfold carriedOut DriverState.request
  cases hprogram : Driver.program layout asked with
  | error cause => exact .refl
  | ok program =>
    have hbegins : custody.act file layout (.use (.ask asked)) =
        custody.asking asked program custody.station.registers := by
      simp [asking, act, PortMove.move, Station.act, Station.ask, hguard, h.held hsome, hfree,
        hprogram]
    have haccesses : Comes file layout (Requests asked)
        (custody.asking asked program custody.station.registers)
        (custody.asking asked (.done (program.run file.logged custody.station.registers).1)
          (program.run file.logged custody.station.registers).2) := by
      refine Relation.ReflTransGen.lift (fun point : Bus Reply × σ × List Access =>
        custody.asking asked point.1 point.2) ?_ _ _ (Bus.advances_run file.logged program _)
      rintro ⟨rest, registers⟩ - ⟨hrest, rfl⟩
      refine ⟨_, .proceed, ?_⟩
      cases rest with
      | done reply => exact absurd rfl (hrest reply)
      | _ => simp [asking, act, PortMove.move, Station.act, Station.proceed, hguard]
    refine .head ⟨_, .ask, hbegins⟩ (haccesses.tail ⟨_, .proceed, ?_⟩)
    simp only [asking, act, PortMove.move, Station.act, Station.proceed, ne_eq, hguard,
      not_false_eq_true, if_true, hnone]

/-- A service that has the lock runs to its end, reports, and counts. -/
theorem inService_comes (custody : Custody σ) (line : InterruptLine) :
    Comes file layout (· = .serve)
      (custody.inService line (Driver.service layout) custody.station.registers)
      { custody.served file layout line with servicing := true } := by
  have haccesses : Comes file layout (· = .serve)
      (custody.inService line (Driver.service layout) custody.station.registers)
      (custody.inService line (.done ((Driver.service layout).run file.logged
          custody.station.registers).1)
        ((Driver.service layout).run file.logged custody.station.registers).2) := by
    refine Relation.ReflTransGen.lift
      (fun point : Bus (Option CompletionMessage) × σ × List Access =>
        custody.inService line point.1 point.2) ?_ _ _ (Bus.advances_run file.logged _ _)
    rintro ⟨rest, registers⟩ - ⟨hrest, rfl⟩
    refine ⟨_, rfl, ?_⟩
    cases rest with
    | done report => exact absurd rfl (hrest report)
    | _ => rfl
  refine haccesses.trans ?_
  simp only [served, DriverState.service]
  generalize (Driver.service layout).run file.logged custody.station.registers = result
  obtain ⟨report, registers⟩ := result
  rw [← DriverState.countInterrupt_takeReport]
  -- The message goes to the queue, and the readers are notified if there is one.
  cases report with
  | none => exact .head ⟨_, rfl, rfl⟩ (.single ⟨_, rfl, rfl⟩)
  | some message => exact .head ⟨_, rfl, rfl⟩ (.head ⟨_, rfl, rfl⟩ (.single ⟨_, rfl, rfl⟩))

/-- A service thread that has taken an interrupt and has its share gets the lock and serves it. -/
theorem called_comes (hstage : custody.station.stage = .called) (hshare : custody.servicing = true)
    (hfree : custody.station.isLocked = false) :
    Comes file layout (· = .serve) custody (custody.served file layout custody.station.line) := by
  have hlocks : custody.act file layout .serve =
      custody.inService custody.station.line (Driver.service layout) custody.station.registers := by
    simp [act, serve, Station.serve, hstage, hshare, hfree, inService]
  have hends : custody.served file layout custody.station.line =
      { custody.served file layout custody.station.line with servicing := true } := by
    rw [← hshare]
    rfl
  rw [hends]
  exact .head ⟨_, rfl, hlocks⟩ (inService_comes custody _)

variable (file layout) in
/-- The service thread takes an interrupt off the line and gets its share. -/
theorem takes_interrupt (hkept : custody.isKept = true) (hstage : custody.station.stage = .waiting)
    (hidle : custody.servicing = false) (hwait : custody.station.line.wait = (some true, line)) :
    follow file layout [.serve, .serve] custody =
      { custody with
        station := { custody.station with line := line, stage := .called }
        servicing := true } := by
  have htakes : custody.act file layout .serve =
      { custody with station := { custody.station with line := line, stage := .called } } := by
    simp [act, serve, Station.serve, hstage, hidle, hwait]
  have hshares : ({ custody with station := { custody.station with line := line, stage := .called } } :
      Custody σ).act file layout .serve =
      { custody with
        station := { custody.station with line := line, stage := .called }
        servicing := true } := by
    rw [isKept, hidle] at hkept
    simp only [act, serve, hidle, isKept, hkept, if_true]
  rw [follow, htakes, follow, hshares, follow]

/-- An interrupt that waits on the line is served, move by move. -/
theorem service_comes (hkept : custody.isKept = true) (hfree : custody.station.isLocked = false)
    (hstage : custody.station.stage = .waiting) (hidle : custody.servicing = false)
    (hwait : custody.station.line.wait = (some true, line)) :
    Comes file layout (· = .serve) custody (custody.served file layout line) := by
  have hasking : custody.station.asking.isSome = false := by
    rw [Station.isLocked, Bool.or_eq_false_iff] at hfree
    exact hfree.1
  have htakes : Comes file layout (· = .serve) custody
      { custody with
        station := { custody.station with line := line, stage := .called }
        servicing := true } := by
    rw [← takes_interrupt file layout hkept hstage hidle hwait]
    exact .head ⟨_, rfl, rfl⟩ (.single ⟨_, rfl, rfl⟩)
  have hserves : Comes file layout (· = .serve)
      { custody with
        station := { custody.station with line := line, stage := .called }
        servicing := true }
      { custody.served file layout line with servicing := true } :=
    called_comes rfl rfl (by simp [Station.isLocked, hasking])
  have hgives : ({ custody.served file layout line with servicing := true } : Custody σ).act file layout
      .serve = custody.served file layout line := by
    have hends : custody.served file layout line =
        { custody.served file layout line with servicing := false } := by
      rw [← hidle]
      rfl
    rw [hends]
    change letGo layout (fun custody => { custody with servicing := false }) _ = _
    rw [isKept, hidle] at hkept
    exact letGo_of_kept hkept
  exact (htakes.trans hserves).tail ⟨_, rfl, hgives⟩

end Handles

theorem Reached.comes {file : RegisterFile σ} {layout : RegisterLayout} {custody next : Custody σ}
    {kind : Move σ → Prop} (h : Reached file layout custody)
    (hcomes : Comes file layout kind custody next) : Reached file layout next := by
  induction hcomes with
  | refl => exact h
  | tail _ hmove ih =>
    obtain ⟨move, -, rfl⟩ := hmove
    exact ih.move move

end Custody

/-- An interrupt that has been raised can be taken, and then the line is as it was. -/
theorem InterruptLine.wait_raise {line : InterruptLine} (hreceived : line.received = true)
    (hsenders : line.senders ≠ 0) : line.raise.2.wait = (some true, line) := by
  obtain ⟨senders, received, pending⟩ := line
  obtain rfl : received = true := hreceived
  have hsenders : senders ≠ 0 := hsenders
  simp [raise, wait, hsenders]

/-! ### Drivers that do everything in one go -/

namespace Bound

variable {σ : Type} (file : RegisterFile σ) (layout : RegisterLayout)

/-- What can become of a bound driver over registers that keep a list of the accesses: its owner opens
    it and drops it, whoever has the handle issues requests, reads and gives it back, interrupts are
    served, and the registers change by themselves. -/
inductive Reached : Bound (σ × List Access) → Prop where
  | bound (registers : σ) : Reached { registers := (registers, []) }
  | disturb {bound : Bound (σ × List Access)} (change : σ → σ) : Reached bound →
    Reached { bound with registers := (change bound.registers.1, bound.registers.2) }
  | acquire {bound : Bound (σ × List Access)} (owned : bound.owned = true) : Reached bound →
    Reached (bound.withDriver DriverState.openHandle).2
  | request {bound : Bound (σ × List Access)} (asked : Request) (held : bound.driver.held = true) :
    Reached bound → Reached (bound.request file.logged layout asked).2
  | read {bound : Bound (σ × List Access)} (room : Nat) (held : bound.driver.held = true) :
    Reached bound → Reached (bound.withDriver fun driver => driver.tryRead room).2
  | closeHandle {bound : Bound (σ × List Access)} : Reached bound →
    Reached (bound.closeHandle file.logged layout)
  | disown {bound : Bound (σ × List Access)} : Reached bound →
    Reached (bound.disown file.logged layout)
  | beginService {bound : Bound (σ × List Access)} : Reached bound → Reached bound.beginService
  | endService {bound : Bound (σ × List Access)} : Reached bound →
    Reached (bound.endService file.logged layout)

/-- The driver of a custody in which nothing is half done, but for an interrupt that a service thread
    with a share has taken. -/
structure Shows (bound : Bound (σ × List Access)) (custody : Custody σ) : Prop where
  registers : custody.station.registers = bound.registers
  driver : custody.station.driver = bound.driver
  asking : custody.station.asking = none
  stage : custody.station.stage = if bound.servicing then .called else .waiting
  line : custody.station.line.received = true ∧ custody.station.line.senders ≠ 0
  owned : custody.owned = bound.owned
  handles : custody.handles = if bound.driver.held then 1 else 0
  leaving : custody.leaving = 0
  servicing : custody.servicing = bound.servicing
  settled : ∀ rest, custody.binding ≠ .unbinding rest

section Links

open Custody (Move Comes)

variable {file layout} {bound : Bound (σ × List Access)} {custody : Custody σ}

theorem Shows.isKept (h : bound.Shows custody) : custody.isKept = bound.isKept := by
  have hhandles : (custody.handles != 0) = bound.driver.held := by
    rw [h.handles]
    cases bound.driver.held <;> rfl
  rw [Custody.isKept, Bound.isKept, h.owned, hhandles, h.servicing]

theorem Shows.unlocked (h : bound.Shows custody) : custody.station.isLocked = false := by
  unfold Station.isLocked
  rw [h.asking, h.stage]
  cases bound.servicing <;> rfl

/-- Two moves are all there is to an unbinding. -/
theorem unbinds (custody : Custody σ) (hfree : custody.station.isLocked = false) :
    Custody.follow file layout [.unbind, .unbind]
        { custody with binding := .unbinding (Driver.command layout Control.reset) } =
      { custody with
        station := { custody.station with
          registers := (custody.station.driver.unbind file.logged layout custody.station.registers).2
          driver := (custody.station.driver.unbind file.logged layout custody.station.registers).1 }
        binding := .unbound } := by
  have hfree' : ∀ registers : σ × List Access,
      Station.isLocked { custody.station with registers := registers } = false := fun _ => hfree
  simp only [Custody.follow, Custody.act, Custody.unbind, Driver.command, Bus.put, hfree,
    DriverState.unbind, Bus.advance, Bus.run, hfree']

/-- Letting go in one go is to let go and then, as the last one, to unbind. -/
theorem letGo_shows {change : Bound (σ × List Access) → Bound (σ × List Access)}
    {change' : Custody σ → Custody σ} (hkept : custody.isKept = bound.isKept)
    (hnext : (change bound).Shows (change' custody)) :
    (bound.letGo file.logged layout change).Shows
      (Custody.follow file layout [.unbind, .unbind] (custody.letGo layout change')) := by
  unfold Bound.letGo Custody.letGo
  dsimp only
  rw [hkept, hnext.isKept]
  split
  · rw [unbinds _ hnext.unlocked, hnext.registers, hnext.driver]
    exact ⟨rfl, rfl, hnext.asking, hnext.stage, hnext.line, hnext.owned, hnext.handles, hnext.leaving,
      hnext.servicing, nofun⟩
  · have hidle : ∀ last : Custody σ, (∀ rest, last.binding ≠ .unbinding rest) →
        last.unbind file = last := by
      intro last hsettled
      unfold Custody.unbind
      split
      · next hbinding _ => exact absurd hbinding (hsettled _)
      · next hbinding _ => exact absurd hbinding (hsettled _)
      · rfl
    simp only [Custody.follow, Custody.act, hidle _ hnext.settled]
    exact hnext

/-- A handle that is dropped and releases its guard lets go once. -/
theorem release_dropHandle (hsome : custody.handles ≠ 0) (hidle : custody.station.asking = none) :
    (custody.dropHandle layout).release = custody.letGo layout fun custody =>
      { custody with
        station := { custody.station with driver := custody.station.driver.closeHandle, calls := [] }
        handles := custody.handles - 1 } := by
  simp only [Custody.dropHandle, hsome, hidle, ne_eq, not_false_eq_true, Option.isNone_none, and_self,
    if_true, Custody.letGo, Custody.isKept]
  split <;> rfl

section Operations

variable (hreached : Custody.Reached file layout custody) (h : bound.Shows custody)
include hreached h

theorem Shows.acquire (howned : bound.owned = true) : ∃ next, Custody.Reached file layout next ∧
    (bound.withDriver DriverState.openHandle).2.Shows next := by
  refine ⟨_, hreached.move .openHandle, ?_⟩
  have hhandles := h.handles
  rw [Custody.act, Custody.openHandle, h.owned, howned, h.driver, withDriver]
  unfold DriverState.openHandle
  cases hheld : bound.driver.held with
  | true => exact h
  | false =>
    rw [hheld] at hhandles
    exact ⟨h.registers, rfl, h.asking, h.stage, h.line, howned.symm, congrArg (· + 1) hhandles,
      h.leaving, h.servicing, h.settled⟩

theorem Shows.request (hheld : bound.driver.held = true) (asked : Request) :
    ∃ next, Custody.Reached file layout next ∧
      (bound.request file.logged layout asked).2.Shows next := by
  have hsome : 0 < custody.handles := by
    rw [h.handles, if_pos hheld]
    exact Nat.one_pos
  refine ⟨_, hreached.comes (Custody.request_comes hreached.sound hsome h.unlocked asked), ?_⟩
  have hguard : (bound.driver.request file.logged layout asked bound.registers).2.1.held =
      bound.driver.held := by
    unfold DriverState.request
    split
    · rfl
    · exact Custody.finishRequest_held _ _
  simp only [Custody.carriedOut, Bound.request, h.driver, h.registers]
  exact ⟨rfl, rfl, h.asking, h.stage, h.line, h.owned, h.handles.trans (by rw [hguard]), h.leaving,
    h.servicing, h.settled⟩

theorem Shows.read (hheld : bound.driver.held = true) (room : Nat) :
    ∃ next, Custody.Reached file layout next ∧
      (bound.withDriver fun driver => driver.tryRead room).2.Shows next := by
  have hsome : custody.handles ≠ 0 := by
    rw [h.handles, if_pos hheld]
    exact Nat.one_ne_zero
  obtain ⟨-, queue, -, hdriver, -⟩ := Station.tryRead_pays room bound.driver
  refine ⟨_, hreached.move (.use (.tryRead room)), ?_⟩
  rw [Custody.act, if_pos hsome]
  simp only [Custody.PortMove.move, Station.act, h.driver, hheld, if_true, withDriver, hdriver]
  exact ⟨h.registers, rfl, h.asking, h.stage, h.line, h.owned, h.handles.trans (if_pos hheld),
    h.leaving, h.servicing, h.settled⟩

theorem Shows.closeHandle : ∃ next, Custody.Reached file layout next ∧
    (bound.closeHandle file.logged layout).Shows next := by
  cases hheld : bound.driver.held with
  | true =>
    have hsome : custody.handles ≠ 0 := by
      rw [h.handles, if_pos hheld]
      exact Nat.one_ne_zero
    refine ⟨_, (hreached.follow [.dropHandle, .release]).follow [.unbind, .unbind], ?_⟩
    simp only [Custody.follow, Custody.act, release_dropHandle hsome h.asking]
    refine letGo_shows h.isKept ⟨h.registers, ?_, h.asking, h.stage, h.line, h.owned, ?_, h.leaving,
      h.servicing, h.settled⟩
    · exact congrArg DriverState.closeHandle h.driver
    · have hhandles := h.handles
      rw [if_pos hheld] at hhandles
      exact congrArg (· - 1) hhandles
  | false =>
    have hsame : bound.closeHandle file.logged layout = bound := by
      have hdriver : bound.driver.closeHandle = bound.driver := by
        rw [DriverState.closeHandle, ← hheld]
      simp [Bound.closeHandle, Bound.letGo, hdriver]
    rw [hsame]
    exact ⟨custody, hreached, h⟩

theorem Shows.disown : ∃ next, Custody.Reached file layout next ∧
    (bound.disown file.logged layout).Shows next := by
  cases howned : bound.owned with
  | true =>
    refine ⟨_, (hreached.move .disown).follow [.unbind, .unbind], ?_⟩
    rw [Custody.act, h.owned, if_pos howned]
    exact letGo_shows h.isKept ⟨h.registers, h.driver, h.asking, h.stage, h.line, rfl, h.handles,
      h.leaving, h.servicing, h.settled⟩
  | false =>
    have hsame : bound.disown file.logged layout = bound := by
      have hsame : ({ bound with owned := false } : Bound (σ × List Access)) = bound := by
        rw [← howned]
      simp [Bound.disown, Bound.letGo, hsame]
    rw [hsame]
    exact ⟨custody, hreached, h⟩

theorem Shows.beginService : ∃ next, Custody.Reached file layout next ∧ bound.beginService.Shows next := by
  cases hkept : bound.isKept with
  | true =>
    cases hidle : bound.servicing with
    | true =>
      have hsame : bound.beginService = bound := by
        rw [Bound.beginService, hkept, ← hidle]
      rw [hsame]
      exact ⟨custody, hreached, h⟩
    | false =>
      -- Somebody has to raise the interrupt first.
      obtain ⟨hreceived, hsenders⟩ := h.line
      have hstage : custody.station.stage = .waiting := by rw [h.stage, hidle]; rfl
      have hshare : custody.servicing = false := h.servicing.trans hidle
      have hkept' : (custody.act file layout .raise).isKept = true := h.isKept.trans hkept
      have hwait : (custody.act file layout .raise).station.line.wait =
          (some true, custody.station.line) := InterruptLine.wait_raise hreceived hsenders
      refine ⟨_, (hreached.move .raise).follow [.serve, .serve], ?_⟩
      rw [Custody.takes_interrupt file layout hkept' hstage hshare hwait, Bound.beginService, hkept]
      exact ⟨h.registers, h.driver, h.asking, rfl, h.line, h.owned, h.handles, h.leaving, rfl, h.settled⟩
  | false =>
    have hsame : bound.beginService = bound := by
      have hidle : bound.servicing = false := by
        simp only [Bound.isKept, Bool.or_eq_false_iff] at hkept
        exact hkept.2
      rw [Bound.beginService, hkept, ← hidle]
    rw [hsame]
    exact ⟨custody, hreached, h⟩

theorem Shows.endService : ∃ next, Custody.Reached file layout next ∧
    (bound.endService file.logged layout).Shows next := by
  unfold Bound.endService
  split
  · next hshare =>
    have hstage : custody.station.stage = .called := by rw [h.stage, if_pos hshare]
    have hserved := hreached.comes
      (Custody.called_comes hstage (h.servicing.trans hshare) h.unlocked)
    refine ⟨_, (hserved.move .serve).follow [.unbind, .unbind], ?_⟩
    have hgives : (custody.served file layout custody.station.line).act file layout .serve =
        custody.letGo layout fun custody =>
          { custody.served file layout custody.station.line with servicing := false } := by
      have hshare' : (custody.served file layout custody.station.line).servicing = true :=
        h.servicing.trans hshare
      have hstage' : (custody.served file layout custody.station.line).station.stage = .waiting := rfl
      simp only [Custody.act, Custody.serve, hstage', hshare']
      rfl
    rw [hgives]
    refine letGo_shows h.isKept ?_
    have hguard : ∀ report, (bound.driver.finishService report).held = bound.driver.held := by
      intro report
      cases report <;> rfl
    simp only [Custody.served, Bound.service, DriverState.service, h.driver, h.registers]
    exact ⟨rfl, rfl, h.asking, rfl, h.line, h.owned, h.handles.trans (by rw [hguard]), h.leaving, rfl,
      h.settled⟩
  · exact ⟨custody, hreached, h⟩

end Operations

/-- Whatever can become of a driver that does everything in one go can become of one whose threads get in
    each other's way. -/
theorem Reached.shows (h : Reached file layout bound) :
    ∃ custody, Custody.Reached file layout custody ∧ bound.Shows custody := by
  induction h with
  | bound registers => exact ⟨_, .bound registers, rfl, rfl, rfl, rfl,
      ⟨rfl, Nat.one_ne_zero⟩, rfl, rfl, rfl, rfl, nofun⟩
  | disturb change _ ih =>
    obtain ⟨custody, hreached, hshows⟩ := ih
    refine ⟨_, hreached.move (.disturb change), ?_⟩
    rw [Custody.act, hshows.registers]
    exact { hshows with registers := rfl }
  | acquire howned _ ih =>
    obtain ⟨custody, hreached, hshows⟩ := ih
    exact hshows.acquire hreached howned
  | request asked hheld _ ih =>
    obtain ⟨custody, hreached, hshows⟩ := ih
    exact hshows.request hreached hheld asked
  | read room hheld _ ih =>
    obtain ⟨custody, hreached, hshows⟩ := ih
    exact hshows.read hreached hheld room
  | closeHandle _ ih =>
    obtain ⟨custody, hreached, hshows⟩ := ih
    exact hshows.closeHandle hreached
  | disown _ ih =>
    obtain ⟨custody, hreached, hshows⟩ := ih
    exact hshows.disown hreached
  | beginService _ ih =>
    obtain ⟨custody, hreached, hshows⟩ := ih
    exact hshows.beginService hreached
  | endService _ ih =>
    obtain ⟨custody, hreached, hshows⟩ := ih
    exact hshows.endService hreached

end Links

end Bound

/-! ### The last access -/

namespace Custody

variable {σ : Type} {file : RegisterFile σ} {layout : RegisterLayout} {custody : Custody σ}

variable (file layout) in
/-- Everything that a handle is for can be done: requests are carried out when the lock is free,
    interrupts are served, and reads get what is in the queue. -/
structure Usable (custody : Custody σ) : Prop where
  requests : custody.station.isLocked = false → ∀ asked,
    Comes file layout (Requests asked) custody (custody.carriedOut file layout asked)
  services : ∀ line, custody.station.isLocked = false → custody.station.stage = .waiting →
    custody.servicing = false → custody.station.line.wait = (some true, line) →
    Comes file layout (· = .serve) custody (custody.served file layout line)
  reads : ∀ room, custody.act file layout (.use (.tryRead room)) =
    { custody with
      station := { custody.station with
        driver := (custody.station.driver.tryRead room).2
        calls := custody.station.calls ++ [.tried room (custody.station.driver.tryRead room).1] } }

theorem Sound.usable (h : custody.Sound) (hsome : 0 < custody.handles) :
    Usable file layout custody where
  requests hfree asked := request_comes h hsome hfree asked
  services line hfree hstage hidle hwait :=
    service_comes (isKept_of_handles hsome) hfree hstage hidle hwait
  reads room := by
    simp only [Custody.act, PortMove.move, Station.act, h.held hsome, if_pos (Nat.ne_of_gt hsome), if_true]

theorem Sound.exclusive (h : custody.Sound) : custody.handles + custody.leaving ≤ 1 ∧
    (custody.station.driver.openHandle.1 = .error .busy ↔ 0 < custody.handles + custody.leaving) := by
  have hguard := h.guard
  unfold DriverState.openHandle
  cases hheld : custody.station.driver.held with
  | true =>
    rw [hheld, if_pos rfl] at hguard
    exact ⟨Nat.le_of_eq hguard, fun _ => by omega, fun _ => rfl⟩
  | false =>
    rw [hheld, if_neg (by decide)] at hguard
    exact ⟨by omega, nofun, fun hpos => by omega⟩

/-- An owner that is asked for a handle gives one away, if there is none. -/
theorem Sound.opens (h : custody.Sound) (howned : custody.owned = true)
    (hnone : custody.handles + custody.leaving = 0) :
    (custody.act file layout .openHandle).handles = 1 := by
  have hfree : custody.station.driver.held = false := by
    have hguard := h.guard
    rw [hnone] at hguard
    cases hheld : custody.station.driver.held with
    | true => simp [hheld] at hguard
    | false => rfl
  have hhandles : custody.handles = 0 := by omega
  simp [Custody.act, Custody.openHandle, DriverState.openHandle, howned, hfree, hhandles]

/-- What a RESET leaves of a simulated core: no search, whatever its searchers and the hooks do to it. -/
theorem stopped_core (config : CoreConfig) (now : Nat) (core next : Core) :
    let stopped := (Core.registerFile config now).write (Driver.commandWord config.layout) Control.reset core
    stopped.job = none ∧ (stopped.Drifts next → next.job = none) := by
  have hstopped : (Core.registerFile config now).write (Driver.commandWord config.layout) Control.reset
      core = core.reset config now := Core.write_reset
  dsimp only
  rw [hstopped]
  exact ⟨Core.reset_search.1, fun hdrifts => (hdrifts.idle Core.reset_search.1).1⟩

/-- **A driver leaves one RESET.** There is never more than one handle, and the driver is busy exactly
    while there is one. A handle is as good without the owner. And when the last of those who keep the
    driver lets go, whoever that is, one RESET follows as the last access of all. -/
theorem driver_leaves_one_reset (h : Reached file layout custody) :
    custody.handles + custody.leaving ≤ 1 ∧
    (custody.station.driver.openHandle.1 = .error .busy ↔ 0 < custody.handles + custody.leaving) ∧
    (custody.owned = true → custody.handles + custody.leaving = 0 →
      (custody.act file layout .openHandle).handles = 1) ∧
    (0 < custody.handles →
      custody.act file layout .disown = { custody with owned := false } ∧
      Usable file layout { custody with owned := false } ∧
      ∀ moves : List (Move σ), (∀ move ∈ moves, move ≠ .dropHandle) →
        follow file layout moves { custody with owned := false } =
          { follow file layout moves custody with owned := false }) ∧
    (∀ move, custody.isKept = true → (custody.act file layout move).isKept = false → ∀ moves,
      let last := follow file layout moves (custody.act file layout move)
      let touched := moves.any Move.isUnbind
      last.isKept = false ∧
      last.log = (if touched then lastAccess layout :: custody.log else custody.log) ∧
      ∀ next, (last.act file layout next).station.registers.1 =
        leftTo file layout touched last.station.registers.1 next) ∧
    ∀ config now core next, config.layout = layout →
      let stopped := (Core.registerFile config now).write (Driver.commandWord layout) Control.reset core
      stopped.job = none ∧ (stopped.Drifts next → next.job = none) := by
  have hsound := h.sound
  obtain ⟨hone, hbusy⟩ := hsound.exclusive
  refine ⟨hone, hbusy, hsound.opens, fun hsome => ?_, fun move hkept hgone moves => ?_, ?_⟩
  · have hstays := disown_of_handles file layout hsome
    refine ⟨hstays, ?_, fun moves hmoves => (hsound.disowned_follow hsome hmoves).1⟩
    rw [← hstays]
    exact (hsound.act .disown).usable (by rw [hstays]; exact hsome)
  · have hlast := (hsound.last hkept hgone).follow file moves
    rw [Bool.false_or] at hlast
    exact ⟨hlast.kept, hlast.log, fun next => (hlast.act next).2⟩
  · rintro config now core next rfl
    exact stopped_core config now core next

/-! The owner drops a driver over plain memory while its handle is open, and the handle is dropped in the
middle of the service of an interrupt. So the service thread lets go last. An interrupt that is raised
then finds nobody. -/

def openRun : Custody Memory :=
  follow Memory.registerFile .count
    [.openHandle, .disturb (Memory.poke CountWindow.status 0x10), .use (.ask .start), .use .proceed,
      .use .proceed] { station := { registers := (.zeroed CountWindow.size, []) } }

def lastService : Custody Memory :=
  follow Memory.registerFile .count
    ([.disown, .raise, .serve, .serve, .dropHandle, .release] ++ List.replicate 7 .serve) openRun

theorem service_thread_leaves_the_reset :
    Reached Memory.registerFile .count openRun ∧ openRun.handles = 1 ∧
      openRun.station.driver.openHandle.1 = .error .busy ∧
      Usable Memory.registerFile .count { openRun with owned := false } ∧
      Reached Memory.registerFile .count lastService ∧ lastService.isKept = true ∧
      lastService.station.driver.queue.messages = [⟨0x10, 0⟩] ∧
      lastService.log = [.write CountWindow.debugEnable 1, .read CountWindow.nonceCandidate 0,
        .read CountWindow.status 0x10, .write CountWindow.control Control.start] ∧
      (follow Memory.registerFile .count [.raise, .unbind, .serve, .unbind, .serve]
        (lastService.act Memory.registerFile .count .serve)).log =
          .write CountWindow.control Control.reset :: lastService.log := by
  have hopen : Reached Memory.registerFile .count openRun := (Reached.bound _).follow _
  have hlast : Reached Memory.registerFile .count lastService := hopen.follow _
  have hrun : openRun.handles = 1 ∧ lastService.isKept = true ∧
      (lastService.act Memory.registerFile .count .serve).isKept = false ∧
      lastService.station.driver.queue.messages = [⟨0x10, 0⟩] ∧
      lastService.log = [.write CountWindow.debugEnable 1, .read CountWindow.nonceCandidate 0,
        .read CountWindow.status 0x10, .write CountWindow.control Control.start] := by
    decide +kernel
  obtain ⟨hhandles, hkept, hgone, hqueue, hlog⟩ := hrun
  have hsome : 0 < openRun.handles := by
    rw [hhandles]
    exact Nat.one_pos
  obtain ⟨-, hbusy, -, husable, -⟩ := driver_leaves_one_reset hopen
  obtain ⟨-, -, -, -, hunbinds, -⟩ := driver_leaves_one_reset hlast
  obtain ⟨-, htouched, -⟩ := hunbinds .serve hkept hgone [.raise, .unbind, .serve, .unbind, .serve]
  exact ⟨hopen, hhandles, hbusy.mpr (Nat.lt_add_right _ hsome), (husable hsome).2.1, hlast, hkept, hqueue,
    hlog, htouched⟩

end Custody

end NonceSearch
