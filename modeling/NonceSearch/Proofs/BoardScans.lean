import NonceSearch.Proofs.Boards
import NonceSearch.Scan.Run

/-!
# Scans on boards

A scan on a board is a trial that nobody else takes part in and in which no time passes, except while it
waits: then the board's searcher and the service of its interrupts have their turns. So what is shown of
all trials holds of scans on boards.
-/

namespace NonceSearch

open Relation (ReflTransGen)

namespace Scan

variable {scan : Scan}

/-- A scan that is open neither opens nor closes the device. -/
theorem demand_of_isOpen (h : scan.isOpen) : scan.demand ≠ .acquire ∧ scan.demand ≠ .release := by
  obtain ⟨device, layout, settings, work, session, phase⟩ := scan
  cases phase with
  | opening => exact absurd h nofun
  | closing report => exact absurd h nofun
  | ended result => exact absurd h nofun
  | _ => exact ⟨nofun, nofun⟩

theorem isOpen_of_tryRead (h : scan.demand = .tryRead) : scan.isOpen := by
  obtain ⟨device, layout, settings, work, session, phase⟩ := scan
  cases phase with
  | reading last => rfl
  | _ => exact absurd h nofun

theorem calling_of_request {asked : Request} (h : scan.demand = .request asked) :
    ∃ call, scan.phase = .calling call := by
  obtain ⟨device, layout, settings, work, session, phase⟩ := scan
  cases phase with
  | calling call => exact ⟨call, rfl⟩
  | _ => exact absurd h nofun

end Scan

namespace Trial

variable {config : CoreConfig}

variable (config) in
def Comes : Trial → Trial → Prop :=
  ReflTransGen fun before after => ∃ move, before.act config move = after

/-- What the others do leaves the scan where it is. -/
theorem comes_of_others {rig next : Rig} {scan : Scan} {since : Nat}
    (h : Rig.Comes config Rig.Other rig next) :
    Comes config ⟨rig, scan, since⟩ ⟨next, scan, since⟩ := by
  refine ReflTransGen.lift (fun rig => Trial.mk rig scan since) ?_ _ _ h
  rintro before - ⟨move, hother, rfl⟩
  cases hother with
  | pass duration => exact ⟨.pass duration, rfl⟩
  | serve => exact ⟨.serve, rfl⟩
  | search run => exact ⟨.search run, rfl⟩

/-- A call that finds the driver free is carried out by the turns of the scan alone. -/
theorem comes_call {board : Board} {now since : Nat} {scan : Scan} {call : ScanCall}
    (hheld : board.driver.held) :
    Comes config ⟨board.rig now, { scan with phase := .calling call }, since⟩
      ⟨(board.request config now (scan.sessionCall call).request).2.rig now,
        (Scan.called { scan with phase := .calling call } call
          (board.request config now (scan.sessionCall call).request).1 ⟨now, false⟩).1, now⟩ := by
  cases hprogram : Driver.program config.layout (scan.sessionCall call).request with
  | error cause =>
    have hanswer : (board.rig now).answer? config since (.request (scan.sessionCall call).request) =
        (board.rig now, some (.error cause)) := by
      simp [Rig.answer?, hprogram]
    have hrefused :
        board.request config now (scan.sessionCall call).request = (.error cause, board) := by
      simp [Board.request, DriverState.request, hprogram]
    rw [hrefused]
    exact .single ⟨.scan, @goOn_answered config ⟨_, { scan with phase := .calling call }, since⟩ _ _
      hanswer⟩
  | ok program =>
    obtain ⟨hreply, hrig⟩ := Board.request_rig board now hprogram
    have hbegins := @goOn_begins config (board.rig now) scan since call program hprogram rfl
    rw [Board.begins_rig hheld hprogram] at hbegins
    have haccesses := @Rig.accesses_run config (board.rig now) (scan.sessionCall call).request
      program board.core
    have hreturns := @goOn_returns config { board.rig now with
      core := (program.run (Core.registerFile config now) board.core).2
      lock := some (.request (scan.sessionCall call).request
        (.done (program.run (Core.registerFile config now) board.core).1)) } scan since call program
          hprogram _ _ rfl
    rw [hreply, hrig]
    refine .head ⟨.scan, hbegins⟩ (.tail (ReflTransGen.lift
      (fun rig => Trial.mk rig { scan with phase := .calling call } since) ?_ _ _ haccesses)
        ⟨.scan, hreturns⟩)
    rintro before after ⟨asked, rest, hlock, hrest, rfl⟩
    exact ⟨.scan, goOn_accesses hprogram hlock hrest⟩

/-- A turn of a scan is a move of its rig, and opens or closes the driver only if that is what it is
    for. -/
theorem goOn_rig (trial : Trial) : ∃ move, (trial.goOn config).rig = trial.rig.act config move ∧
    (trial.scan.demand ≠ .acquire → trial.scan.demand ≠ .release →
      move ≠ .acquire ∧ move ≠ .release) := by
  have hanswer :
      (trial.goOn config).rig = (trial.rig.answer? config trial.since trial.scan.demand).1 := by
    unfold goOn
    split
    · next h => rw [h]
    · next h => rw [h]
  rw [hanswer]
  cases trial.scan.demand with
  | acquire => exact ⟨.acquire, rfl, fun h => absurd rfl h⟩
  | request asked =>
    simp only [Rig.answer?]
    split
    · exact ⟨.pass 0, rfl, fun _ _ => ⟨by simp, by simp⟩⟩
    · exact ⟨.request asked, rfl, fun _ _ => ⟨by simp, by simp⟩⟩
    · exact ⟨.proceed, rfl, fun _ _ => ⟨by simp, by simp⟩⟩
    · exact ⟨.proceed, rfl, fun _ _ => ⟨by simp, by simp⟩⟩
    · exact ⟨.pass 0, rfl, fun _ _ => ⟨by simp, by simp⟩⟩
  | tryRead => exact ⟨.read CompletionMessage.size, rfl, fun _ _ => ⟨by simp, by simp⟩⟩
  | release => exact ⟨.release, rfl, fun _ h => absurd rfl h⟩
  | _ => exact ⟨.pass 0, rfl, fun _ _ => ⟨by simp, by simp⟩⟩

/-- Whatever the moves are, the rig of a trial stays within reach. -/
theorem Comes.reached {trial next : Trial} {past : List Rig.Event} (h : Comes config trial next)
    (hreached : Rig.Reached config trial.rig past) : ∃ later, Rig.Reached config next.rig later := by
  induction h with
  | refl => exact ⟨past, hreached⟩
  | @tail before after _ hmove ih =>
    obtain ⟨later, hlater⟩ := ih
    obtain ⟨move, rfl⟩ := hmove
    by_cases hscan : move = .scan
    · subst hscan
      obtain ⟨move, hact, -⟩ := @goOn_rig config before
      rw [act, hact]
      exact ⟨_, hlater.move move⟩
    · obtain ⟨other, -, hact, -⟩ := @act_other config before move hscan
      rw [hact]
      exact ⟨_, hlater.move other⟩

/-- A scan that is open goes on with the handle. -/
theorem act_isOpen {trial : Trial} (hheld : trial.scan.isOpen → trial.rig.driver.held) (move : Move) :
    (trial.act config move).scan.isOpen → (trial.act config move).rig.driver.held := by
  by_cases hscan : move = .scan
  · subst hscan
    cases hopen : trial.scan.isOpen with
    | true =>
      obtain ⟨move, hact, hmove⟩ := @goOn_rig config trial
      obtain ⟨hacquire, hrelease⟩ :=
        hmove (Scan.demand_of_isOpen hopen).1 (Scan.demand_of_isOpen hopen).2
      rw [act, hact, Rig.act_held _ hacquire hrelease]
      exact fun _ => hheld hopen
    | false =>
      obtain ⟨rig, ⟨device, layout, settings, work, session, phase⟩, since⟩ := trial
      cases phase with
      | opening =>
        intro _
        show rig.driver.openHandle.2.held = true
        unfold DriverState.openHandle
        split
        · assumption
        · rfl
      | closing report => exact fun hopen => Bool.noConfusion hopen
      | ended result => exact fun hopen => Bool.noConfusion hopen
      | _ => cases hopen
  · obtain ⟨other, hother, hact, -⟩ := @act_other config trial move hscan
    rw [hact, hother.held]
    exact hheld

/-- A scan that is open has the handle. -/
theorem Comes.held {trial next : Trial} (h : Comes config trial next)
    (hheld : trial.scan.isOpen → trial.rig.driver.held) : next.scan.isOpen → next.rig.driver.held := by
  induction h with
  | refl => exact hheld
  | tail _ hmove ih =>
    obtain ⟨move, rfl⟩ := hmove
    exact act_isOpen ih move

end Trial

namespace Board

variable {config : CoreConfig} {name : String} {pace : Nat}

/-- A board answers as its rig does, but for requests, which take the rig some turns. -/
theorem answer_rig {bench : Bench Board} (hdevice : bench.device = device config name pace)
    (since : Nat) {demand : Demand} (hrequest : ∀ asked, demand ≠ .request asked)
    (hheld : demand = .tryRead → bench.state.driver.held) :
    (bench.state.rig bench.now).answer? config since demand =
      match bench.answer? since demand with
      | some (answer, after) => (after.state.rig after.now, some answer)
      | none => (bench.state.rig bench.now, none) := by
  obtain ⟨boarded, board, now, sensor, file⟩ := bench
  dsimp only at hdevice hheld ⊢
  subst hdevice
  cases demand with
  | acquire =>
    simp only [Rig.answer?, acquire_rig, Bench.answer?, device]
    rfl
  | request asked => exact absurd rfl (hrequest asked)
  | readable timeout =>
    cases hready : board.driver.queue.isReady with
    | true => simp [Rig.answer?, Bench.answer?, device, rig, hready]
    | false =>
      by_cases hdue : since + timeout ≤ now
      · simp [Rig.answer?, Bench.answer?, device, rig, hready, hdue]
      · simp [Rig.answer?, Bench.answer?, device, rig, hready, hdue]
  | tryRead =>
    simp only [Rig.answer?, read_rig board now _ (hheld rfl), Bench.answer?, device]
    rfl
  | pause duration =>
    by_cases hdue : since + duration ≤ now
    · simp [Rig.answer?, Bench.answer?, rig, hdue]
    · simp [Rig.answer?, Bench.answer?, rig, hdue]
  | sense => rfl
  | release => rfl
  | nothing => rfl

end Board

/-- An answer leaves the bench with its device. -/
theorem Bench.answer_device {δ : Type} {bench after : Bench δ} {since : Nat} {demand : Demand}
    {answer : demand.Answer} (h : bench.answer? since demand = some (answer, after)) :
    after.device = bench.device := by
  cases demand with
  | readable timeout =>
    simp only [answer?] at h
    split at h
    · obtain ⟨-, rfl⟩ := Prod.mk.inj (Option.some.inj h)
      rfl
    · split at h
      · obtain ⟨-, rfl⟩ := Prod.mk.inj (Option.some.inj h)
        rfl
      · exact absurd h nofun
  | pause duration =>
    simp only [answer?] at h
    split at h
    · obtain ⟨-, rfl⟩ := Prod.mk.inj (Option.some.inj h)
      rfl
    · exact absurd h nofun
  | nothing => exact absurd h nofun
  | _ =>
    obtain ⟨-, rfl⟩ := Prod.mk.inj (Option.some.inj h)
    rfl

namespace ScanRun

theorem advance_device {δ : Type} {run later : ScanRun δ} (h : run.advance? = some later) :
    later.bench.device = run.bench.device ∧ later.fires = run.fires := by
  unfold advance? step? at h
  split at h
  · next hstep =>
    obtain rfl := Option.some.inj h
    split at hstep
    · exact absurd hstep nofun
    · next hanswer =>
      obtain rfl := Option.some.inj hstep
      exact ⟨Bench.answer_device hanswer, rfl⟩
  · obtain ⟨moment, -, rfl⟩ := Option.map_eq_some_iff.mp h
    unfold passTo Bench.passTo
    split <;> exact ⟨rfl, rfl⟩

variable {config : CoreConfig} {name : String} {pace : Nat}

def trial (run : ScanRun Board) : Trial where
  rig := run.bench.state.rig run.bench.now
  scan := run.scan
  since := run.since

variable (config name pace) in
/-- A scan on a board whose restart token never fires. -/
structure OnBoard (run : ScanRun Board) : Prop where
  device : run.bench.device = Board.device config name pace
  fires : run.fires = none
  held : run.scan.isOpen → run.bench.state.driver.held
  reached : ∃ past, Rig.Reached config run.trial.rig past

variable {run later : ScanRun Board}

/-- A call is answered at once, and the turns of the scan come to the same. -/
theorem OnBoard.step_call (h : run.OnBoard config name pace) {call : ScanCall}
    (hcall : run.scan.phase = .calling call) (hstep : run.step? = some later) :
    Trial.Comes config run.trial later.trial := by
  obtain ⟨hdevice, hfires, hheld, -⟩ := h
  obtain ⟨⟨device, board, now, sensor, file⟩, ⟨device', layout, settings, work, session, phase⟩,
    since, fires, notes⟩ := run
  dsimp only at hdevice hfires hcall hheld
  subst hdevice hfires hcall
  obtain rfl := Option.some.inj hstep
  exact @Trial.comes_call config board now since
    ⟨device', layout, settings, work, session, .opening⟩ call (hheld rfl)

/-- A scan that is answered goes on as its trial does. -/
theorem OnBoard.step (h : run.OnBoard config name pace) (hstep : run.step? = some later) :
    Trial.Comes config run.trial later.trial := by
  by_cases hcall : ∃ call, run.scan.phase = .calling call
  · obtain ⟨call, hcall⟩ := hcall
    exact h.step_call hcall hstep
  · have hrig := Board.answer_rig h.device run.since
      (fun asked hdemand => hcall (Scan.calling_of_request hdemand))
      (fun hdemand => h.held (Scan.isOpen_of_tryRead hdemand))
    have hcancelled : run.cancelled = false := by simp [cancelled, h.fires]
    unfold step? at hstep
    split at hstep
    · exact absurd hstep nofun
    · next answer after hanswer =>
      obtain rfl := Option.some.inj hstep
      rw [hanswer] at hrig
      rw [hcancelled]
      exact .single ⟨.scan, Trial.goOn_answered hrig⟩

/-- A scan that waits leaves its trial to the others. -/
theorem OnBoard.wait (h : run.OnBoard config name pace) (moment : Nat) :
    Trial.Comes config run.trial (run.passTo moment).trial := by
  obtain ⟨hdevice, hfires, hheld, past, hreached⟩ := h
  obtain ⟨⟨device, board, now, sensor, file⟩, ⟨device', layout, settings, work, session, phase⟩,
    since, fires, notes⟩ := run
  dsimp only at hdevice hreached
  subst hdevice
  by_cases hlater : now < moment
  · have hpass := Board.elapse_comes hreached (Nat.le_of_lt hlater) name pace
    simpa only [trial, passTo, Bench.passTo, hlater, if_true] using Trial.comes_of_others hpass
  · simp only [passTo, Bench.passTo, hlater, if_false]
    exact .refl

/-- A scan on a board goes on as its trial does, and stays on the board. -/
theorem OnBoard.advance (h : run.OnBoard config name pace) (hadvance : run.advance? = some later) :
    Trial.Comes config run.trial later.trial ∧ later.OnBoard config name pace := by
  have hcomes : Trial.Comes config run.trial later.trial := by
    unfold advance? at hadvance
    split at hadvance
    · next hstep =>
      obtain rfl := Option.some.inj hadvance
      exact h.step hstep
    · obtain ⟨moment, -, rfl⟩ := Option.map_eq_some_iff.mp hadvance
      exact h.wait moment
  have hkept := advance_device hadvance
  obtain ⟨past, hreached⟩ := h.reached
  exact ⟨hcomes, hkept.1.trans h.device, hkept.2.trans h.fires, hcomes.held h.held,
    hcomes.reached hreached⟩

/-- **Scans on boards are trials.** However far a scan on a board goes, its trial goes there by
    moves. -/
theorem OnBoard.goUntil (h : run.OnBoard config name pace) (stop : ScanRun Board → Bool) (fuel : Nat) :
    Trial.Comes config run.trial (run.goUntil stop fuel).trial ∧
      (run.goUntil stop fuel).OnBoard config name pace := by
  induction fuel generalizing run with
  | zero => exact ⟨.refl, h⟩
  | succ fuel ih =>
    unfold ScanRun.goUntil
    split
    · exact ⟨.refl, h⟩
    · split
      · next later hadvance =>
        obtain ⟨hcomes, hlater⟩ := h.advance hadvance
        obtain ⟨hrest, hend⟩ := ih hlater
        exact ⟨hcomes.trans hrest, hend⟩
      · exact ⟨.refl, h⟩

/-- A scan that sets out on a board that can be reached is on it. -/
theorem onBoard_launch {bench : Bench Board} {past : List Rig.Event}
    (hdevice : bench.device = Board.device config name pace)
    (hreached : Rig.Reached config (bench.state.rig bench.now) past) (settings : ScanConfig)
    (work : WorkItem) :
    (launch bench settings work none).OnBoard config name pace ∧
      (launch bench settings work none).trial =
        Trial.launch (bench.state.rig bench.now) bench.device.name bench.device.layout settings work :=
  ⟨⟨hdevice, rfl, nofun, past, hreached⟩, rfl⟩

end ScanRun

end NonceSearch
