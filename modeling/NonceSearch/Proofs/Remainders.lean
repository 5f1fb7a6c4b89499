import NonceSearch.Proofs.Pushes

/-!
# What is left of a program

Whoever has the driver's lock has made some accesses of its program and has the rest before it. What
holds for all accesses of a program holds for the rest of it; so a search can only be started by a
start request, at its one access, and what is latched then are the parameters of that moment.
-/

namespace NonceSearch

/-! ### Remainders -/

namespace Bus

variable {α : Type}

/-- What may be left of a program after some of its accesses. -/
inductive Remainder (program : Bus α) : Bus α → Prop where
  | whole : Remainder program program
  | read {word : Nat} {next : UInt32 → Bus α} (value : UInt32)
    (before : Remainder program (.read word next)) : Remainder program (next value)
  | write {word : Nat} {value : UInt32} {next : Bus α}
    (before : Remainder program (.write word value next)) : Remainder program next
  | writeByte {word : Nat} {value : UInt8} {next : Bus α}
    (before : Remainder program (.writeByte word value next)) : Remainder program next

variable {program rest : Bus α}

theorem Remainder.advance {σ : Type} (h : program.Remainder rest) (file : RegisterFile σ) (s : σ) :
    program.Remainder (rest.advance file s).1 := by
  cases rest with
  | done value => exact h
  | read word next => exact h.read _
  | write word value next => exact h.write
  | writeByte word value next => exact h.writeByte

theorem Remainder.writes {allowed : Nat → UInt32 → Prop} (h : program.Remainder rest)
    (hprogram : program.Writes allowed) : rest.Writes allowed := by
  induction h with
  | whole => exact hprogram
  | read value before ih => exact ih value
  | write before ih => exact ih.2
  | writeByte before ih => exact ih.2

/-- A program of one write is still to be made, or over. -/
theorem Remainder.of_write {word : Nat} {value : UInt32} {result : α}
    (h : Remainder (.write word value (.done result)) rest) :
    rest = .write word value (.done result) ∨ rest = .done result := by
  induction h with
  | whole => exact .inl rfl
  | read value before ih => simp at ih
  | write before ih =>
    obtain ⟨-, -, hdone⟩ : _ ∧ _ ∧ _ = Bus.done result := by simpa using ih
    exact .inr hdone
  | writeByte before ih => simp at ih

/-- A program of one read is still to be made, or over. -/
theorem Remainder.of_read {word : Nat} {result : UInt32 → α}
    (h : Remainder (.read word fun value => .done (result value)) rest) :
    rest = .read word (fun value => .done (result value)) ∨ ∃ value, rest = .done (result value) := by
  induction h with
  | whole => exact .inl rfl
  | read value before ih =>
    obtain ⟨rfl, rfl⟩ : _ ∧ _ = fun value => Bus.done (result value) := by simpa using ih
    exact .inr ⟨value, rfl⟩
  | write before ih => simp at ih
  | writeByte before ih => simp at ih

end Bus

/-! ### Starting a core -/

namespace Core

variable {config : CoreConfig} {core : Core} {now : Nat}

def newJob (config : CoreConfig) (core : Core) : Job where
  midstate := core.stateIn
  tail := core.tail
  mask := core.comparator config
  next := 0

/-- A start begins a search with the parameters of the moment, if it begins one. -/
theorem start_job (hjob : core.job = none) {job : Job} (h : (core.start config now).job = some job) :
    job = core.newJob config := by
  have hsame : (core.refresh now).newJob config = core.newJob config := by
    unfold refresh
    split
    · split <;> rfl
    · rfl
  unfold start at h
  dsimp only at h
  split at h
  · rw [← hsame]
    exact (Option.some.inj h).symm
  · rw [refresh_job, hjob] at h
    exact absurd h nofun

/-- A core without a job gets one from the start command only. -/
theorem write_job (hjob : core.job = none) {word : Nat} {value : UInt32}
    (hstart : ¬ Driver.Gives config.layout Control.start word value) :
    (core.write config now word value).job = none := by
  have hcontrol : value ≠ Control.start → (core.control config now value).job = none := by
    intro hvalue
    unfold control
    split_ifs
    · exact reset_search.1
    · unfold step
      rw [hjob]
      exact hjob
    · exact hjob
  unfold write
  cases hlayout : config.layout with
  | count =>
    rw [hlayout] at hstart
    dsimp only
    unfold writeCount
    split_ifs with hstate htail hzeros hword
    · exact hjob
    · exact hjob
    · exact hjob
    · exact hcontrol fun hvalue => hstart ⟨hword, hvalue⟩
    · exact hjob
    · exact hjob
  | mask =>
    rw [hlayout] at hstart
    dsimp only
    unfold writeMask
    split_ifs with hword
    · unfold command
      split
      · exact hjob
      · next word hdecode =>
        obtain rfl := Command.eq_of_control hdecode
        exact hcontrol fun hvalue => hstart ⟨hword, hvalue⟩
      · exact hjob
    · rw [(writeData_same value).job]
      exact hjob
    · exact hjob

/-- A program that does not start the core leaves it without a job. -/
theorem advance_job {α : Type} {program : Bus α} (hjob : core.job = none)
    (hstart : program.Writes fun word value => ¬ Driver.Gives config.layout Control.start word value) :
    (program.advance (registerFile config now) core).2.job = none := by
  cases program with
  | done value => exact hjob
  | read word next =>
    have hread : (core.read config now word).2.job = core.job := by
      rcases @read_snd config core now word with h | h <;> rw [h] <;> exact refresh_job
    exact hread.trans hjob
  | write word value next => exact write_job hjob hstart.1
  | writeByte word value next => exact write_job hjob hstart.1

end Core

/-! ### The holder of the lock -/

namespace Rig

variable {config : CoreConfig} {rig : Rig} {past : List Event} {move : Move}

/-- Whoever holds the lock has the rest of its program left. -/
def Holds (config : CoreConfig) : Option LockHolder → Prop
  | none => True
  | some (.request asked rest) =>
    ∃ program, Driver.program config.layout asked = .ok program ∧ program.Remainder rest
  | some (.service rest) => (Driver.service config.layout).Remainder rest

theorem Holds.step {next : Rig} {events : List Event} (h : Holds config rig.lock)
    (hstep : Step config rig move next events) : Holds config next.lock := by
  cases hstep with
  | elsewhere core lock queue taken called =>
    rw [lock]
    exact h
  | begins held free granted => exact ⟨_, granted, .whole⟩
  | accesses lock unfinished access =>
    rw [lock] at h
    obtain ⟨program, hprogram, hrest⟩ := h
    have hleft := hrest.advance (rig.window config) rig.core
    rw [access] at hleft
    exact ⟨program, hprogram, hleft⟩
  | answers called free => exact .whole
  | inspects lock unfinished access =>
    rw [lock] at h
    have hleft := h.advance (rig.window config) rig.core
    rw [access] at hleft
    exact hleft
  | returns => trivial
  | reports => trivial
  | takes => exact h
  | reads => exact h
  | unlocked => exact h
  | stalls => exact h

theorem Reached.holds (h : Reached config rig past) : Holds config rig.lock := by
  induction h with
  | bound => trivial
  | move move _ ih => exact ih.step (act_step _ move)

/-- The requests that have begun are those that the layout has. -/
theorem Reached.request_rest (h : Reached config rig past) {asked : Request} {rest : Bus Reply}
    (hlock : rig.lock = some (.request asked rest)) :
    ∃ program, Driver.program config.layout asked = .ok program ∧ program.Remainder rest := by
  have hholds := h.holds
  rw [hlock] at hholds
  exact hholds

theorem Reached.service_rest (h : Reached config rig past) {rest : Bus (Option CompletionMessage)}
    (hlock : rig.lock = some (.service rest)) : (Driver.service config.layout).Remainder rest := by
  have hholds := h.holds
  rw [hlock] at hholds
  exact hholds

/-- A request about a control command has yet to give it, or has been carried out. -/
theorem Reached.command_rest (h : Reached config rig past) {asked : Request} {command : UInt32}
    (hcommand : Driver.commandOf asked = some command) {rest : Bus Reply}
    (hlock : rig.lock = some (.request asked rest)) :
    rest = .write (Driver.commandWord config.layout) command (.done .done) ∨ rest = .done .done := by
  obtain ⟨program, hprogram, hrest⟩ := h.request_rest hlock
  rw [Driver.program_command config.layout hcommand] at hprogram
  obtain rfl := Except.ok.inj hprogram
  exact hrest.of_write

/-- A status request has yet to read the status, or has been answered. -/
theorem Reached.status_rest (h : Reached config rig past) {rest : Bus Reply}
    (hlock : rig.lock = some (.request .getStatus rest)) :
    rest = .read (Driver.statusWord config.layout) (fun word => .done (.word word)) ∨
      ∃ word, rest = .done (.word word) := by
  obtain ⟨program, hprogram, hrest⟩ := h.request_rest hlock
  rw [Driver.program_status] at hprogram
  obtain rfl := Except.ok.inj hprogram
  exact hrest.of_read

/-- A core without a job gets one from the start request only, at its one access. -/
theorem Reached.job_of_idle (h : Reached config rig past) (hjob : rig.core.job = none)
    (hnext : (rig.act config move).core.job ≠ none) :
    move = .proceed ∧ (rig.act config move).core = rig.core.start config rig.now ∧
      rig.lock = some (.request .start
        (.write (Driver.commandWord config.layout) Control.start (.done .done))) := by
  have hstep := @act_step config rig move
  generalize rig.act config move = next, rig.driverEvents move = events at hnext hstep
  cases hstep with
  | elsewhere core => exact absurd (by rw [core]; exact hjob) hnext
  | @accesses asked rest left core lock unfinished access =>
    have hcore : core = (rest.advance (rig.window config) rig.core).2 := by rw [access]
    by_cases hasked : asked = .start
    · subst hasked
      rcases h.command_rest rfl lock with rfl | rfl
      · refine ⟨rfl, ?_, lock⟩
        rw [hcore]
        exact Core.write_start
      · exact absurd rfl (unfinished _)
    · obtain ⟨program, hprogram, hrest⟩ := h.request_rest lock
      have hother : Driver.commandOf asked ≠ some Control.start :=
        fun hstart => hasked (Driver.commandOf_inj hstart rfl)
      have hwrites := hrest.writes (Driver.program_gives hprogram (by decide) hother)
      refine absurd ?_ hnext
      rw [hcore]
      exact Core.advance_job hjob hwrites
  | @inspects rest left core lock unfinished access =>
    have hcore : core = (rest.advance (rig.window config) rig.core).2 := by rw [access]
    have hwrites := (h.service_rest lock).writes
      (@Driver.service_gives_none config.layout Control.start (by decide))
    refine absurd ?_ hnext
    rw [hcore]
    exact Core.advance_job hjob hwrites
  | unlocked drifts => exact absurd (drifts.idle hjob).1 hnext
  | stalls => exact absurd rfl hnext
  | _ => exact absurd hjob hnext

/-- A search starts with the parameters of the moment, at the one access of a start request. -/
theorem Reached.started (h : Reached config rig past) {job : Job}
    (hstarted : .started job ∈ rig.events config move) :
    move = .proceed ∧ job = rig.core.newJob config ∧
      rig.lock = some (.request .start
        (.write (Driver.commandWord config.layout) Control.start (.done .done))) := by
  obtain ⟨-, hjob, hnext, -⟩ := h.start hstarted
  obtain ⟨hmove, hcore, hlock⟩ := h.job_of_idle hjob (by rw [hnext]; exact nofun)
  rw [hcore] at hnext
  exact ⟨hmove, Core.start_job hjob hnext, hlock⟩

end Rig

end NonceSearch
