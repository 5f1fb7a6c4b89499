import Mathlib.Logic.Relation
import NonceSearch.Device.Board
import NonceSearch.Proofs.Turns

/-!
# Boards

A board carries out a request in one go, and when time passes its searcher commits its batches and
then every interrupt is served. A rig takes all this apart. Here it is put together again: whatever a
board does in one go is made of moves of the rig that it is (`Board.rig`). So what is shown of all rigs
holds of boards.
-/

namespace NonceSearch

open Relation (ReflTransGen)

/-! ### Programs in one go -/

namespace Bus

variable {α σ : Type} (file : RegisterFile σ)

def Advances (before after : Bus α × σ) : Prop :=
  (∀ value, before.1 ≠ .done value) ∧ before.1.advance file before.2 = after

/-- Access by access, a program comes to where it ends when it is run. -/
theorem advances_run (program : Bus α) (s : σ) :
    ReflTransGen (Advances file) (program, s)
      (.done (program.run file s).1, (program.run file s).2) := by
  induction program generalizing s with
  | done value => exact .refl
  | read word next ih => exact .head ⟨nofun, rfl⟩ (ih _ _)
  | write word value next ih => exact .head ⟨nofun, rfl⟩ (ih _)
  | writeByte word value next ih => exact .head ⟨nofun, rfl⟩ (ih _)

end Bus

/-- The service of an interrupt loses none that are still to be served. -/
theorem Core.Consistent.service {config : CoreConfig} {core : Core}
    (hcore : core.Consistent) (now : Nat) :
    ((Driver.service config.layout).run (registerFile config now) core).2.Consistent ∧
      core.raised ≤ ((Driver.service config.layout).run (registerFile config now) core).2.raised := by
  have hwrites : (Driver.service config.layout).Writes
      fun word value => ¬ isReset config.layout word value := by
    rw [Driver.service_eq]
    exact fun status => Driver.afterStatus_not_reset _ status
  have hall : ∀ after, ReflTransGen (Bus.Advances (registerFile config now))
      (Driver.service config.layout, core) after →
      after.1.Writes (fun word value => ¬ isReset config.layout word value) ∧ after.2.Consistent ∧
        core.raised ≤ after.2.raised := by
    intro after hadvances
    induction hadvances with
    | refl => exact ⟨hwrites, hcore, Nat.le_refl _⟩
    | tail _ hnext ih =>
      obtain ⟨hleft, hconsistent, hraised⟩ := ih
      obtain ⟨-, rfl⟩ := hnext
      have hchange := @Bus.Writes.advance_change _ config _ _ now hleft hconsistent
      exact ⟨hleft.advance, hchange.consistent hconsistent, hraised.trans hchange.raised_le⟩
  exact (hall _ (Bus.advances_run _ _ _)).2

namespace Rig

variable {config : CoreConfig} {rig next : Rig} {past : List Event}

variable (config) in
def Comes (kind : Move → Prop) : Rig → Rig → Prop :=
  ReflTransGen fun before after => ∃ move, kind move ∧ before.act config move = after

theorem Comes.mono {kind kind' : Move → Prop} (h : Comes config kind rig next)
    (hkind : ∀ move, kind move → kind' move) : Comes config kind' rig next :=
  ReflTransGen.mono (fun _ _ ⟨move, hmove, hact⟩ => ⟨move, hkind move hmove, hact⟩) _ _ h

/-- What can be reached goes on to what can be reached. -/
theorem Reached.comes {kind : Move → Prop} (h : Reached config rig past)
    (hcomes : Comes config kind rig next) : ∃ later, Reached config next later := by
  induction hcomes with
  | refl => exact ⟨past, h⟩
  | tail _ hmove ih =>
    obtain ⟨later, hreached⟩ := ih
    obtain ⟨move, -, rfl⟩ := hmove
    exact ⟨_, hreached.move move⟩

variable (config) in
/-- The request that has the lock makes its next access. -/
def Accesses (before after : Rig) : Prop :=
  ∃ asked rest, before.lock = some (.request asked rest) ∧ (∀ reply, rest ≠ .done reply) ∧
    before.act config .proceed = after

/-- A request that has the lock runs its program to the end. -/
theorem accesses_run {asked : Request} (rest : Bus Reply) (core : Core) :
    ReflTransGen (Accesses config) { rig with core := core, lock := some (.request asked rest) }
      { rig with
        core := (rest.run (rig.window config) core).2
        lock := some (.request asked (.done (rest.run (rig.window config) core).1)) } := by
  refine ReflTransGen.lift
    (fun point : Bus Reply × Core =>
      { rig with core := point.2, lock := some (.request asked point.1) })
    ?_ _ _ (Bus.advances_run (rig.window config) rest core)
  rintro ⟨rest, core⟩ - ⟨hrest, rfl⟩
  refine ⟨asked, rest, rfl, hrest, ?_⟩
  cases rest with
  | done reply => exact absurd rfl (hrest reply)
  | _ => rfl

/-- A service that has the lock runs its program to the end, and reports. -/
theorem service_comes (rest : Bus (Option CompletionMessage)) (core : Core) :
    Comes config (· = .serve) { rig with core := core, lock := some (.service rest) }
      { rig with
        core := (rest.run (rig.window config) core).2
        lock := none
        driver := rig.driver.finishService (rest.run (rig.window config) core).1 } := by
  refine .tail (ReflTransGen.lift
    (fun point : Bus (Option CompletionMessage) × Core =>
      { rig with core := point.2, lock := some (.service point.1) })
    ?_ _ _ (Bus.advances_run (rig.window config) rest core)) ⟨.serve, rfl, rfl⟩
  rintro ⟨rest, core⟩ - ⟨hrest, rfl⟩
  refine ⟨.serve, rfl, ?_⟩
  cases rest with
  | done report => exact absurd rfl (hrest report)
  | _ => rfl

end Rig

/-! ### Boards as rigs -/

namespace Board

variable {config : CoreConfig}

/-- A board as a rig in which nothing is half done. -/
def rig (board : Board) (now : Nat) : Rig where
  core := board.core
  driver := board.driver
  now := now
  taken := board.driver.interrupts

theorem serviceOne_comes (board : Board) (now : Nat) (hpending : 0 < board.pendingInterrupts) :
    Rig.Comes config (· = .serve) (board.rig now) ((board.serviceOne config now).rig now) := by
  have hraised : board.driver.interrupts < board.core.raised := Nat.lt_of_sub_pos hpending
  have htakes : (board.rig now).act config .serve =
      { board.rig now with taken := board.driver.interrupts + 1, called := true } := by
    simp [Rig.act, Rig.serve, Rig.answerCall, rig, hraised]
  have hservice := @Rig.service_comes config { board.rig now with taken := board.driver.interrupts + 1 }
    (Driver.service config.layout) board.core
  have hafter : (board.serviceOne config now).rig now =
      { board.rig now with
        core := ((Driver.service config.layout).run (Core.registerFile config now) board.core).2
        driver := board.driver.finishService
          ((Driver.service config.layout).run (Core.registerFile config now) board.core).1
        taken := board.driver.interrupts + 1 } := by
    simp only [serviceOne, DriverState.service, rig]
    congr 1
    cases ((Driver.service config.layout).run (Core.registerFile config now) board.core).1 <;> rfl
  rw [hafter]
  exact .head ⟨.serve, rfl, htakes⟩ (.head ⟨.serve, rfl, rfl⟩ hservice)

theorem serviceMany_comes (board : Board) (now count : Nat) (hcore : board.core.Consistent)
    (hpending : count ≤ board.pendingInterrupts) :
    Rig.Comes config (· = .serve) (board.rig now) ((board.serviceMany config now count).rig now) := by
  induction count generalizing board with
  | zero => exact .refl
  | succ count ih =>
    obtain ⟨hcore', hraised⟩ := @Core.Consistent.service config _ hcore now
    have hinterrupts :
        (board.serviceOne config now).driver.interrupts = board.driver.interrupts + 1 := by
      simp only [serviceOne, DriverState.service, DriverState.finishService]
      split <;> rfl
    have hnext : count ≤ (board.serviceOne config now).pendingInterrupts := by
      rw [pendingInterrupts, hinterrupts]
      rw [pendingInterrupts] at hpending
      have hraised' : board.core.raised ≤ (board.serviceOne config now).core.raised := hraised
      omega
    exact (board.serviceOne_comes now (by omega)).trans (ih _ hcore' hnext)

/-- The batches that a searcher commits at once are taken and committed one by one. -/
theorem searchBatches_comes (board : Board) (now count : Nat) :
    Rig.Comes config (fun move => ∃ run, move = .search run) (board.rig now)
      ({ board with core := board.core.searchBatches config count }.rig now) := by
  induction count generalizing board with
  | zero => exact .refl
  | succ count ih =>
    unfold Core.searchBatches
    split
    · next job htake =>
      let hashing := Function.update (fun _ => none) board.core.run (some job)
      have htakes : (board.rig now).act config (.search board.core.run) =
          { board.rig now with hashing := hashing } := by
        simp only [Rig.act, Rig.search, rig, htake, hashing]
      have hcommits : { board.rig now with hashing := hashing }.act config (.search board.core.run) =
          ({ board with
            core := board.core.commit config board.core.run job.next (Core.hashBatch config job) } :
            Board).rig now := by
        simp only [Rig.act, Rig.search, rig, hashing, Function.update_self, Function.update_idem]
        congr 1
        exact Function.update_eq_self _ _
      exact .head ⟨_, ⟨_, rfl⟩, htakes⟩ (.head ⟨_, ⟨_, rfl⟩, hcommits⟩ (ih _))
    · exact .refl

/-- The service of everything that is pending, whatever has been searched before. -/
theorem search_comes {board : Board} {now : Nat} {past : List Rig.Event}
    (hreached : Rig.Reached config (board.rig now) past) (batches : Nat) :
    Rig.Comes config Rig.Other (board.rig now) ((board.search config now batches).rig now) := by
  have hsearch := @searchBatches_comes config board now batches
  obtain ⟨later, hsearched⟩ := hreached.comes hsearch
  have hserve := @serviceMany_comes config
    { board with core := board.core.searchBatches config batches } now _
    hsearched.sound.consistent (Nat.le_refl _)
  refine (hsearch.mono ?_).trans (hserve.mono ?_)
  · rintro - ⟨run, rfl⟩
    exact .search run
  · rintro - rfl
    exact .serve

/-- While time passes for a board, the others of its rig have their turns. -/
theorem elapse_comes {board : Board} {now later : Nat} {past : List Rig.Event}
    (hreached : Rig.Reached config (board.rig now) past) (hlater : now ≤ later) (name : String)
    (pace : Nat) :
    Rig.Comes config Rig.Other (board.rig now)
      (((device config name pace).elapse now later board).rig later) := by
  have hpass : (board.rig now).act config (.pass (later - now)) = board.rig later := by
    simp [Rig.act, rig, Nat.add_sub_cancel' hlater]
  exact .head ⟨_, .pass _, hpass⟩ (search_comes (hpass ▸ hreached.move (.pass (later - now))) _)

/-- A board is opened as its rig is. -/
theorem acquire_rig (board : Board) (now : Nat) :
    (board.rig now).act config .acquire =
      ({ board with driver := board.driver.openHandle.2 } : Board).rig now := by
  have hinterrupts : board.driver.openHandle.2.interrupts = board.driver.interrupts := by
    unfold DriverState.openHandle
    split <;> rfl
  simp only [Rig.act, rig, hinterrupts]

/-- A board is read as its rig is. -/
theorem read_rig (board : Board) (now room : Nat) (hheld : board.driver.held) :
    (board.rig now).act config (.read room) =
      ({ board with driver := (board.driver.tryRead room).2 } : Board).rig now := by
  have hinterrupts : (board.driver.tryRead room).2.interrupts = board.driver.interrupts := by
    unfold DriverState.tryRead
    split
    · rfl
    · split <;> rfl
  simp only [Rig.act, rig, hheld, if_true, hinterrupts]

theorem begins_rig {board : Board} {now : Nat} {asked : Request} {program : Bus Reply}
    (hheld : board.driver.held) (hprogram : Driver.program config.layout asked = .ok program) :
    (board.rig now).act config (.request asked) =
      { board.rig now with lock := some (.request asked program) } := by
  simp [Rig.act, Rig.beginRequest, rig, hheld, hprogram]

/-- A request runs its program, and then has its effect on the queue. -/
theorem request_rig (board : Board) (now : Nat) {asked : Request} {program : Bus Reply}
    (hprogram : Driver.program config.layout asked = .ok program) :
    (board.request config now asked).1 = .ok (program.run (Core.registerFile config now) board.core).1 ∧
      (board.request config now asked).2.rig now =
        { board.rig now with
          core := (program.run (Core.registerFile config now) board.core).2
          driver := board.driver.finishRequest asked } := by
  simp only [request, DriverState.request, hprogram, rig, true_and]
  congr 1
  cases asked <;> rfl

/-- A request that a board carries out is begun, goes on and returns. -/
theorem request_comes {board : Board} (now : Nat) (asked : Request) (hheld : board.driver.held) :
    Rig.Comes config (fun move => move = .request asked ∨ move = .proceed) (board.rig now)
      ((board.request config now asked).2.rig now) := by
  cases hprogram : Driver.program config.layout asked with
  | error cause =>
    simp only [request, DriverState.request, hprogram]
    exact .refl
  | ok program =>
    have haccesses := @Rig.accesses_run config (board.rig now) asked program board.core
    rw [(board.request_rig now hprogram).2]
    refine .head ⟨_, .inl rfl, begins_rig hheld hprogram⟩
      (.tail (ReflTransGen.mono ?_ _ _ haccesses) ⟨_, .inr rfl, rfl⟩)
    rintro before after ⟨-, rest, -, -, hact⟩
    exact ⟨_, .inr rfl, hact⟩

/-- What can become of a board, and when: its handle is opened and given back, whoever has it issues
    requests and reads, time passes, and somebody touches the hooks. -/
inductive Reached (config : CoreConfig) : Nat → Board → Prop where
  | bound : Reached config 0 {}
  | acquire {now : Nat} {board : Board} : Reached config now board →
    Reached config now { board with driver := board.driver.openHandle.2 }
  | release {now : Nat} {board : Board} : Reached config now board →
    Reached config now { board with driver := board.driver.closeHandle }
  | request {now : Nat} {board : Board} (asked : Request) (held : board.driver.held) :
    Reached config now board → Reached config now (board.request config now asked).2
  | read {now : Nat} {board : Board} (room : Nat) (held : board.driver.held) :
    Reached config now board →
    Reached config now { board with driver := (board.driver.tryRead room).2 }
  | elapse {now later : Nat} {board : Board} (name : String) (pace : Nat) (hlater : now ≤ later) :
    Reached config now board →
    Reached config later ((device config name pace).elapse now later board)
  | settle {now : Nat} {board : Board} : Reached config now board →
    Reached config now (board.settle config now)
  | raiseSpurious {now : Nat} {board : Board} : Reached config now board →
    Reached config now (board.withCore Core.raiseSpurious)
  | stall {now : Nat} {board : Board} : Reached config now board →
    Reached config now (board.withCore Core.stall)
  | setHalted {now : Nat} {board : Board} (halted : Bool) : Reached config now board →
    Reached config now (board.withCore (Core.setHalted halted))

/-- **Boards are rigs.** Whatever can become of a board can become of a rig. -/
theorem Reached.rig {now : Nat} {board : Board} (h : Reached config now board) :
    ∃ past, Rig.Reached config (board.rig now) past := by
  induction h with
  | bound => exact ⟨[], .bound⟩
  | @acquire now board _ ih =>
    obtain ⟨past, hreached⟩ := ih
    exact ⟨_, board.acquire_rig now ▸ hreached.move .acquire⟩
  | release _ ih =>
    obtain ⟨past, hreached⟩ := ih
    exact ⟨_, hreached.move .release⟩
  | @request now board asked hheld _ ih =>
    obtain ⟨past, hreached⟩ := ih
    exact hreached.comes (request_comes now asked hheld)
  | @read now board room hheld _ ih =>
    obtain ⟨past, hreached⟩ := ih
    exact ⟨_, board.read_rig now room hheld ▸ hreached.move (.read room)⟩
  | elapse name pace hlater _ ih =>
    obtain ⟨past, hreached⟩ := ih
    exact hreached.comes (elapse_comes hreached hlater name pace)
  | settle _ ih =>
    obtain ⟨past, hreached⟩ := ih
    exact hreached.comes (search_comes hreached (config.lastNonce.toNat + 1))
  | raiseSpurious _ ih =>
    obtain ⟨past, hreached⟩ := ih
    exact ⟨_, hreached.move .raiseSpurious⟩
  | stall _ ih =>
    obtain ⟨past, hreached⟩ := ih
    exact ⟨_, hreached.move .stall⟩
  | setHalted halted _ ih =>
    obtain ⟨past, hreached⟩ := ih
    exact ⟨_, hreached.move (.setHalted halted)⟩

end Board

end NonceSearch
