import NonceSearch.Proofs.Retirement
import NonceSearch.Proofs.Snapshots

/-!
# Searches that go on

Whatever a driver, its services, the hooks and the searchers do to a core, it is what an open bus allows
(`Rig.Reached.engine`). And on an open bus a search that goes on has been begun at nonce zero and has
rejected every nonce before its next one (`Engine.Reached.searching`), however often it was halted,
stepped and let go on the way.
-/

namespace NonceSearch

namespace Engine

variable {config : CoreConfig} {engine : Engine} {job : Job}

/-- A search that goes on has been begun, and its core has been neither reset nor stalled since. -/
theorem Reached.course (h : Reached config engine) (hjob : engine.core.job = some job) :
    ∃ begun starting task turns, Reached config begun ∧ begun.core.job = none ∧
      (begun.act config starting).core.job = some task ∧
      Course config (begun.act config starting) turns engine := by
  -- The job may be another one after each move, since its next nonce is a part of it.
  induction h generalizing job with
  | powered => cases hjob
  | @move engine move before ih =>
    cases hbefore : engine.core.job with
    | none => exact ⟨engine, move, job, [], before, hbefore, hjob, .here⟩
    | some earlier =>
      obtain ⟨begun, starting, task, turns, hbegun, hidle, hstarted, hcourse⟩ := ih hbefore
      have hretires : ¬ move.Retires config := by
        intro hretires
        rcases @Move.Retires.core_act config engine move hretires with hreset | hstall
        · rw [hreset, Core.reset_search.1] at hjob
          cases hjob
        · rw [hstall] at hjob
          cases hjob
      exact ⟨begun, starting, task, _, hbegun, hidle, hstarted,
        hcourse.move move (change_act before.consistent hretires).run⟩

theorem Reached.searching (h : Reached config engine) (hjob : engine.core.job = some job) :
    Core.Searching config job engine.core job.next := by
  obtain ⟨begun, starting, task, turns, hbegun, hidle, hstarted, hcourse⟩ := h.course hjob
  obtain ⟨hsearching, hraised, hnone⟩ := begins_at_zero hbegun hidle starting hstarted
  have hpursues : Pursues config task begun.core.raised [] (begun.act config starting) 0 0 := by
    refine ⟨.goesOn hsearching, rfl, Nat.le_refl _, hraised, ?_⟩
    intro batch hbatch
    cases hnone.symm.trans hbatch
  obtain ⟨tried, ended, hlast⟩ := hcourse.pursues hpursues
  cases hlast.tries with
  | closed hended => cases hended.job.symm.trans hjob
  | goesOn searching =>
    obtain rfl := Option.some.inj (searching.job.symm.trans hjob)
    exact ⟨hjob, searching.status, searching.readyAt, searching.current, searching.searched,
      searching.rejected⟩

end Engine

/-! ### The engine of a rig -/

namespace Rig

variable {config : CoreConfig} {rig : Rig} {past : List Event}

/-- An access of a program is an access on the open bus. -/
theorem engine_advance {α : Type} {program : Bus α} (h : ∀ value, program ≠ .done value) (rig : Rig) :
    ∃ move, { rig.engine with core := (program.advance (rig.window config) rig.core).2 } =
      rig.engine.act config move := by
  cases program with
  | done value => exact absurd rfl (h value)
  | read word next => exact ⟨.read word, rfl⟩
  | write word value next => exact ⟨.write word value, rfl⟩
  | writeByte word value next => exact ⟨.writeByte word value, rfl⟩

/-- A move of a rig is a move on the open bus, or does not concern the core. -/
theorem engine_act (rig : Rig) (move : Move) : (rig.act config move).engine = rig.engine ∨
    ∃ next, (rig.act config move).engine = rig.engine.act config next := by
  cases move with
  | pass duration => exact .inr ⟨.pass duration, rfl⟩
  | acquire => exact .inl rfl
  | release =>
    left
    simp only [act]
    split <;> rfl
  | request asked =>
    left
    simp only [act, beginRequest]
    split <;> rfl
  | proceed =>
    simp only [act, proceed]
    split
    · exact .inl rfl
    · next asked rest hrest hlock => exact .inr (engine_advance hrest rig)
    · exact .inl rfl
  | serve =>
    simp only [act, serve]
    split
    · exact .inl rfl
    · next rest hrest hlock => exact .inr (engine_advance hrest rig)
    · left
      unfold answerCall
      split
      · split <;> rfl
      · split <;> rfl
  | search run => exact .inr ⟨.search run, rig.search_engine run⟩
  | read room =>
    left
    simp only [act]
    split <;> rfl
  | raiseSpurious => exact .inr ⟨.raiseSpurious, rfl⟩
  | stall => exact .inr ⟨.stall, rfl⟩
  | setHalted halted => exact .inr ⟨.setHalted halted, rfl⟩

/-- What holds on an open bus holds in rigs. -/
theorem Reached.engine (h : Reached config rig past) : Engine.Reached config rig.engine := by
  induction h with
  | bound => exact .powered
  | @move rig past move before ih =>
    rcases @engine_act config rig move with hsame | ⟨next, hnext⟩
    · exact hsame ▸ ih
    · exact hnext ▸ ih.move next

end Rig

end NonceSearch
