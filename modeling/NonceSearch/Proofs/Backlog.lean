import Mathlib.Data.Finset.Lattice.Fold
import Mathlib.Data.Prod.Lex
import NonceSearch.Proofs.Deliveries
import NonceSearch.Proofs.Searchers

/-!
# What the service thread has yet to do

A scan gets the driver's lock only when the service of interrupts leaves it alone. It does so in the
end: there are only so many interrupts on the line, the end of a search adds one and no search begins
by itself, and every service is a program of finitely many accesses. `Rig.backlog` counts all this;
the service thread makes it smaller whenever it goes on, and the searchers make it no larger.
-/

namespace NonceSearch

/-! ### Programs are finite -/

namespace Bus

variable {α σ : Type}

/-- How many accesses a program makes at most, whatever it reads. -/
def depth : Bus α → Nat
  | .done _ => 0
  | .read _ next => ((Finset.range UInt32.size).sup fun value => (next (UInt32.ofNat value)).depth) + 1
  | .write _ _ next => next.depth + 1
  | .writeByte _ _ next => next.depth + 1

theorem depth_advance {program : Bus α} (h : ∀ value, program ≠ .done value) (file : RegisterFile σ)
    (s : σ) :
    (program.advance file s).1.depth < program.depth := by
  cases program with
  | done value => exact absurd rfl (h value)
  | read word next =>
    have hmember : (file.read word s).1.toNat ∈ Finset.range UInt32.size :=
      Finset.mem_range.mpr (UInt32.toNat_lt_size _)
    have hbound := Finset.le_sup (f := fun value => (next (UInt32.ofNat value)).depth) hmember
    rw [UInt32.ofNat_toNat] at hbound
    exact Nat.lt_succ_of_le hbound
  | write word value next => exact Nat.lt_succ_self _
  | writeByte word value next => exact Nat.lt_succ_self _

end Bus

/-! ### Interrupts come from searches -/

namespace Core

variable {config : CoreConfig} {core : Core} {now : Nat}

theorem refresh_job : (core.refresh now).job = core.job := by
  unfold refresh
  split
  · split <;> rfl
  · rfl

theorem refresh_raised : (core.refresh now).raised = core.raised := by
  unfold refresh
  split
  · split <;> rfl
  · rfl

/-- The interrupt is raised where a search ends, and nowhere else. -/
def RaisesAtEnd (core next : Core) : Prop :=
  next.raised = core.raised ∨ next.raised = core.raised + 1 ∧ core.job.isSome ∧ next.job = none

/-- A core without a job raises no interrupt. -/
theorem RaisesAtEnd.idle {next : Core} (h : core.RaisesAtEnd next) (hjob : core.job = none) :
    next.raised = core.raised := by
  rcases h with hsame | ⟨-, hsearching, -⟩
  · exact hsame
  · simp [hjob] at hsearching

theorem conclude_raises (nonce : UInt32) (accepted : Bool) :
    core.RaisesAtEnd (core.conclude config nonce accepted) := by
  unfold conclude
  split
  · exact .inl rfl
  · next job hjob =>
    have hsearching : core.job.isSome := by rw [hjob]; rfl
    dsimp only
    split_ifs
    · exact .inr ⟨rfl, hsearching, rfl⟩
    · exact .inr ⟨rfl, hsearching, rfl⟩
    · exact .inl rfl

theorem commit_raises (run start : Nat) (hit : Option UInt32) :
    core.RaisesAtEnd (core.commit config run start hit) := by
  unfold commit
  split
  · exact .inl rfl
  · split <;> exact conclude_raises _ _

theorem control_raises (word : UInt32) : core.RaisesAtEnd (core.control config now word) := by
  unfold control
  split_ifs
  · exact .inl reset_raised
  · unfold start
    dsimp only
    split <;> exact .inl refresh_raised
  · unfold step
    split
    · exact .inl rfl
    · split
      · exact conclude_raises _ _
      · exact .inl rfl
  · exact .inl rfl

theorem write_raises (word : Nat) (value : UInt32) :
    core.RaisesAtEnd (core.write config now word value) := by
  unfold write
  split
  · unfold writeCount
    split_ifs
    · exact .inl rfl
    · exact .inl rfl
    · exact .inl rfl
    · exact control_raises value
    · exact .inl rfl
    · exact .inl rfl
  · unfold writeMask
    split_ifs
    · unfold command
      split
      · exact .inl rfl
      · exact control_raises _
      · exact .inl rfl
    · exact .inl (writeData_same value).raised
    · exact .inl rfl

theorem read_raised (word : Nat) : (core.read config now word).2.raised = core.raised := by
  rcases @read_snd config core now word with h | h <;> rw [h] <;> exact refresh_raised

theorem advance_raises {α : Type} (program : Bus α) :
    core.RaisesAtEnd (program.advance (registerFile config now) core).2 := by
  cases program with
  | done value => exact .inl rfl
  | read word next => exact .inl (read_raised word)
  | write word value next => exact write_raises word value
  | writeByte word value next => exact write_raises word _

/-- Interrupts that the core has raised, and one more for a search that is going on. -/
def calls (core : Core) : Nat := 2 * core.raised + 3 * core.job.isSome.toNat

theorem conclude_calls (nonce : UInt32) (accepted : Bool) :
    (core.conclude config nonce accepted).calls ≤ core.calls := by
  unfold conclude
  split
  · exact Nat.le_refl _
  · next job hjob =>
    dsimp only
    split_ifs <;> simp only [calls, finish, hjob, Option.isSome_some, Option.isSome_none,
      Bool.toNat_true, Bool.toNat_false] <;> omega

theorem commit_calls (run start : Nat) (hit : Option UInt32) :
    (core.commit config run start hit).calls ≤ core.calls := by
  unfold commit
  split
  · exact Nat.le_refl _
  · split <;> exact conclude_calls _ _

end Core

namespace Rig

variable {config : CoreConfig} {rig : Rig} {past : List Event}

/-! ### The backlog -/

/-- The interrupts that are to be served, with the one that the present search is going to raise, and
    what is left of the service that has the lock. -/
def backlog (rig : Rig) : ℕ ×ₗ ℕ :=
  toLex (rig.core.calls - 2 * rig.taken + rig.called.toNat,
    match rig.lock with
    | some (.service rest) => rest.depth + 1
    | _ => 0)

/-- The searchers make the backlog no larger. -/
theorem search_backlog (run : Nat) : (rig.search config run).backlog ≤ rig.backlog := by
  unfold Rig.search
  split
  · split <;> exact le_refl _
  · next job hhashing =>
    have hcalls := @Core.commit_calls config rig.core run job.next (Core.hashBatch config job)
    rw [backlog, backlog, Prod.Lex.toLex_le_toLex]
    dsimp only
    omega

/-- An access of the service raises no interrupt, and no search begins with it. -/
theorem Reached.inspected_calls (h : Reached config rig past)
    {rest left : Bus (Option CompletionMessage)}
    {core : Core} (hlock : rig.lock = some (.service rest)) (hrest : ∀ report, rest ≠ .done report)
    (haccess : rest.advance (rig.window config) rig.core = (left, core)) :
    core.calls = rig.core.calls := by
  rcases h.sound.inspected hlock hrest haccess with rfl | ⟨hchange, message, started, hepoch⟩
  · rw [Core.calls, Core.calls, Core.refresh_raised, Core.refresh_job]
  · have hjob := hepoch.shown.1
    have hraised := (@Core.advance_raises config rig.core rig.now _ rest).idle hjob
    rw [show rest.advance (Core.registerFile config rig.now) rig.core =
      (left, core) from haccess] at hraised
    have hnext := hepoch.change h.sound.consistent hchange
    rw [(@Holding.free config _ _ hnext).closed rfl] at hnext
    rw [Core.calls, Core.calls, hraised, hjob, hnext.shown.1]

/-- The service thread makes the backlog smaller, unless there is nothing to do for it. -/
theorem Reached.serve_backlog (h : Reached config rig past)
    (hfree : ∀ asked rest, rig.lock ≠ some (.request asked rest)) :
    (rig.serve config).backlog < rig.backlog ∨
      rig.serve config = rig ∧ rig.pending = 0 ∧ rig.inService = false := by
  unfold serve
  split
  · next report hlock =>
    left
    rw [backlog, backlog, Prod.Lex.toLex_lt_toLex]
    right
    simp [hlock]
  · next rest hrest hlock =>
    left
    have hdepth := Bus.depth_advance hrest (rig.window config) rig.core
    have hcalls : (rest.advance (rig.window config) rig.core).2.calls = rig.core.calls :=
      h.inspected_calls hlock hrest rfl
    rw [backlog, backlog, Prod.Lex.toLex_lt_toLex]
    right
    constructor
    · dsimp only
      rw [hcalls]
    · simp only [hlock]
      omega
  · next hother =>
    have hlock : rig.lock = none := by
      match hlock : rig.lock with
      | none => rfl
      | some (.request asked rest) => exact absurd hlock (hfree asked rest)
      | some (.service rest) => exact absurd hlock (hother rest)
    have hcounted := h.attended.counted
    unfold answerCall
    split
    · next hcalled =>
      left
      simp only [hlock]
      rw [backlog, backlog, Prod.Lex.toLex_lt_toLex]
      left
      simp [hcalled]
    · next hcalled =>
      split
      · next hraised =>
        left
        rw [backlog, backlog, Prod.Lex.toLex_lt_toLex]
        left
        simp only [Bool.not_eq_true] at hcalled
        simp only [hcalled, Core.calls, Bool.toNat_true, Bool.toNat_false]
        omega
      · next hraised =>
        right
        refine ⟨rfl, ?_, ?_⟩
        · rw [pending]
          omega
        · simp only [Bool.not_eq_true] at hcalled
          simp [inService, hcalled, hlock]

/-! ### What has been read -/

variable (rig past) in
/-- Nobody has read the result that the core shows. -/
def Untaken : Prop := rig.core.status.isCompletion → ∀ message, .taken message ∉ sinceLatched past

theorem driverEvents_plain {move : Move} (hmove : ∀ room, move ≠ .read room) {event : Event}
    (h : event ∈ rig.driverEvents move) : event = .reset ∨ ∃ message, event = .pushed message := by
  unfold driverEvents at h
  split at h
  · exact .inl (List.mem_singleton.mp h)
  · exact .inr ⟨_, List.mem_singleton.mp h⟩
  · exact absurd rfl (hmove _)
  · exact absurd h nofun

/-- Nobody reads a result but a reader. -/
theorem Reached.untaken_act (h : Reached config rig past) (huntaken : Untaken rig past) {move : Move}
    (hmove : ∀ room, move ≠ .read room) :
    Untaken (rig.act config move) (rig.events config move ++ past) := by
  intro hcompletion message hmember
  have hevents : sinceLatched (rig.events config move ++ past) = rig.driverEvents move ++
      sinceLatched (searchEvents rig.core (rig.act config move).core ++ past) := by
    rw [events, List.append_assoc]
    apply List.takeWhile_append_of_pos
    intro event hevent
    rcases driverEvents_plain hmove hevent with rfl | ⟨pushed, rfl⟩ <;> rfl
  rw [hevents] at hmember
  rcases List.mem_append.mp hmember with hdriver | hsearch
  · rcases driverEvents_plain hmove hdriver with htaken | ⟨pushed, htaken⟩ <;> exact absurd htaken nofun
  · rcases h.sound.core_step (act_step rig move) with hchange | ⟨-, hstall⟩ | ⟨-, -, hreset⟩
    · by_cases hbefore : rig.core.status.isCompletion
      · have hjob := h.sound.consistent.job_of_completion hbefore
        have hjob' := (hchange.consistent h.sound.consistent).job_of_completion hcompletion
        rw [searchEvents_of_job (by rw [hjob, hjob'])] at hsearch
        exact huntaken hbefore message hsearch
      · have hlatched := searchEvents_of_completion hchange (by simpa using hbefore) hcompletion
        rw [hlatched] at hsearch
        exact absurd hsearch List.not_mem_nil
    · rw [hstall] at hcompletion
      simp [Core.stall] at hcompletion
    · rw [hreset, Core.reset_incomplete] at hcompletion
      exact absurd hcompletion (by decide)

end Rig

end NonceSearch
