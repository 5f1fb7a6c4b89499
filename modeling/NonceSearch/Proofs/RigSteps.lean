import NonceSearch.Proofs.CoreSteps
import NonceSearch.Proofs.Rig

/-!
# What a move comes to

The moves of a rig are many, but what they come to, as far as searches, the driver's lock and the
completion queue are concerned, is one of a few things. `Rig.act_step` says once which; invariants are
then shown step by step, and no proof after this one opens the moves.
-/

namespace NonceSearch

namespace Rig

variable (config : CoreConfig)

/-- What a move comes to: the rig after it, and what has happened beside the search. -/
inductive Step (rig : Rig) : Move → Rig → List Event → Prop where
  /-- Nothing that concerns the core, the lock or the queue. -/
  | elsewhere {move : Move} {next : Rig} (core : next.core = rig.core) (lock : next.lock = rig.lock)
    (queue : next.driver.queue = rig.driver.queue) (taken : next.taken = rig.taken)
    (called : next.called = rig.called) : Step rig move next []
  | begins {asked : Request} {program : Bus Reply} (held : rig.driver.held = true)
    (free : rig.lock = none) (granted : Driver.program config.layout asked = .ok program) :
    Step rig (.request asked) { rig with lock := some (.request asked program) } []
  | accesses {asked : Request} {rest left : Bus Reply} {core : Core}
    (lock : rig.lock = some (.request asked rest)) (unfinished : ∀ reply, rest ≠ .done reply)
    (access : rest.advance (rig.window config) rig.core = (left, core)) :
    Step rig .proceed { rig with core := core, lock := some (.request asked left) } []
  | returns {asked : Request} {reply : Reply} (lock : rig.lock = some (.request asked (.done reply))) :
    Step rig .proceed { rig with lock := none, driver := rig.driver.finishRequest asked }
      (if asked = .reset then [.reset] else [])
  /-- The service thread takes an interrupt off the line. -/
  | takes (raised : rig.taken < rig.core.raised) :
    Step rig .serve { rig with taken := rig.taken + 1, called := true } []
  /-- The service thread gets the lock. -/
  | answers (called : rig.called = true) (free : rig.lock = none) :
    Step rig .serve
      { rig with called := false, lock := some (.service (Driver.service config.layout)) } []
  | inspects {rest left : Bus (Option CompletionMessage)} {core : Core}
    (lock : rig.lock = some (.service rest)) (unfinished : ∀ report, rest ≠ .done report)
    (access : rest.advance (rig.window config) rig.core = (left, core)) :
    Step rig .serve { rig with core := core, lock := some (.service left) } []
  | reports {report : Option CompletionMessage} (lock : rig.lock = some (.service (.done report))) :
    Step rig .serve { rig with lock := none, driver := rig.driver.finishService report }
      (report.toList.map .pushed)
  | reads {room : Nat} {message : CompletionMessage} {rest : List CompletionMessage}
    (queue : rig.driver.queue.messages = message :: rest) :
    Step rig (.read room) { rig with driver := { rig.driver with queue := ⟨rest⟩ } } [.taken message]
  /-- A searcher or a hook reaches the core, whoever holds the lock. -/
  | unlocked {move : Move} {core : Core} (drifts : rig.core.Drifts core) (change : rig.core.Change core)
    (hashing : Nat → Option Job) : Step rig move { rig with core := core, hashing := hashing } []
  | stalls : Step rig .stall { rig with core := rig.core.stall } []

variable {config}

theorem Step.idle {rig : Rig} {move : Move} : Step config rig move rig [] :=
    .elsewhere rfl rfl rfl rfl rfl

theorem beginRequest_step (rig : Rig) (asked : Request) :
    Step config rig (.request asked) (rig.beginRequest config asked) [] := by
  unfold beginRequest
  split
  · next program hheld hlock hprogram => exact .begins hheld hlock hprogram
  · exact .idle

theorem proceed_step (rig : Rig) :
    Step config rig .proceed (rig.proceed config) (rig.driverEvents .proceed) := by
  unfold proceed
  split
  · next asked reply hlock =>
    have hevents : rig.driverEvents .proceed = if asked = .reset then [.reset] else [] := by
      cases asked <;> simp [driverEvents, hlock]
    rw [hevents]
    exact .returns hlock
  · next asked rest hrest hlock =>
    have hevents : rig.driverEvents .proceed = [] := by
      cases rest with
      | done reply => exact absurd rfl (hrest reply)
      | _ => simp [driverEvents, hlock]
    rw [hevents]
    exact .accesses hlock hrest rfl
  · next hother =>
    have hevents : rig.driverEvents .proceed = [] := by
      unfold driverEvents
      split <;> simp_all
    rw [hevents]
    exact .idle

theorem answerCall_step (rig : Rig) : Step config rig .serve (rig.answerCall config) [] := by
  unfold answerCall
  split
  · next hcalled =>
    split
    · next hlock => exact .answers hcalled hlock
    · exact .idle
  · split
    · next hraised => exact .takes hraised
    · exact .idle

theorem serve_step (rig : Rig) :
    Step config rig .serve (rig.serve config) (rig.driverEvents .serve) := by
  unfold serve
  split
  · next report hlock =>
    have hevents : rig.driverEvents .serve = report.toList.map .pushed := by
      cases report <;> simp [driverEvents, hlock]
    rw [hevents]
    exact .reports hlock
  · next rest hrest hlock =>
    have hevents : rig.driverEvents .serve = [] := by
      cases rest with
      | done report => exact absurd rfl (hrest report)
      | _ => simp [driverEvents, hlock]
    rw [hevents]
    exact .inspects hlock hrest rfl
  · next hother =>
    have hevents : rig.driverEvents .serve = [] := by
      unfold driverEvents
      split <;> simp_all
    rw [hevents]
    exact rig.answerCall_step

theorem search_step (rig : Rig) (run : Nat) :
    Step config rig (.search run) (rig.search config run) [] := by
  unfold search
  split
  · split
    · exact .elsewhere rfl rfl rfl rfl rfl
    · exact .idle
  · exact .unlocked (Core.commit_drifts run _ _) (Core.commit_change run _ _) _

theorem read_step (rig : Rig) (room : Nat) :
    Step config rig (.read room) (rig.act config (.read room)) (rig.driverEvents (.read room)) := by
  by_cases hheld : rig.driver.held = true
  · by_cases hroom : room = 0
    · simp [act, driverEvents, DriverState.tryRead, hroom, Step.idle]
    · cases hmessages : rig.driver.queue.messages with
      | nil =>
        simp [act, driverEvents, DriverState.tryRead, CompletionQueue.take?, hheld, hroom, hmessages,
          Step.idle]
      | cons message rest =>
        have hact : rig.act config (.read room) =
            { rig with driver := { rig.driver with queue := ⟨rest⟩ } } := by
          simp [act, DriverState.tryRead, CompletionQueue.take?, hheld, hroom, hmessages]
        have hevents : rig.driverEvents (.read room) = [.taken message] := by
          simp [driverEvents, hheld, hroom, hmessages]
        rw [hact, hevents]
        exact .reads hmessages
  · simp [act, driverEvents, hheld, Step.idle]

theorem act_step (rig : Rig) (move : Move) :
    Step config rig move (rig.act config move) (rig.driverEvents move) := by
  cases move with
  | pass duration => exact .elsewhere rfl rfl rfl rfl rfl
  | acquire =>
    refine .elsewhere rfl rfl ?_ rfl rfl
    simp only [act, DriverState.openHandle]
    split <;> rfl
  | release =>
    simp only [act]
    split
    · exact .idle
    · exact .elsewhere rfl rfl rfl rfl rfl
  | request asked => exact rig.beginRequest_step asked
  | proceed => exact rig.proceed_step
  | serve => exact rig.serve_step
  | search run => exact rig.search_step run
  | read room => exact rig.read_step room
  | raiseSpurious => exact .unlocked Core.raiseSpurious_drifts (.called (.refl _)) rig.hashing
  | stall => exact .stalls
  | setHalted halted =>
    exact .unlocked (Core.setHalted_drifts halted) (.kept ⟨rfl, rfl, rfl, rfl, rfl, rfl, rfl⟩)
      rig.hashing

/-- Beside the search, one thing happens with a move at most. -/
theorem driverEvents_cases (rig : Rig) (move : Move) : rig.driverEvents move = [] ∨
    rig.driverEvents move = [.reset] ∨
    (∃ message, rig.lock = some (.service (.done (some message))) ∧
      rig.driverEvents move = [.pushed message]) ∨
    ∃ message, rig.driverEvents move = [.taken message] := by
  unfold driverEvents
  split
  · exact .inr (.inl rfl)
  · next message hlock => exact .inr (.inr (.inl ⟨message, hlock, rfl⟩))
  · split
    · split
      · next message rest hqueue => exact .inr (.inr (.inr ⟨message, rfl⟩))
      · exact .inl rfl
    · exact .inl rfl
  · exact .inl rfl

theorem act_access {rig : Rig} {asked : Request} {rest : Bus Reply}
    (hlock : rig.lock = some (.request asked rest)) (hrest : ∀ reply, rest ≠ .done reply) :
    rig.act config .proceed = { rig with
      core := (rest.advance (rig.window config) rig.core).2
      lock := some (.request asked (rest.advance (rig.window config) rig.core).1) } := by
  cases rest with
  | done reply => exact absurd rfl (hrest reply)
  | _ => simp [act, proceed, hlock]

theorem act_returns {rig : Rig} {asked : Request} {reply : Reply}
    (hlock : rig.lock = some (.request asked (.done reply))) :
    rig.act config .proceed =
      { rig with lock := none, driver := rig.driver.finishRequest asked } := by
  simp [act, proceed, hlock]

/-- Only the passing of time moves the clock. -/
theorem act_now (rig : Rig) {move : Move} (hmove : ∀ duration, move ≠ .pass duration) :
    (rig.act config move).now = rig.now := by
  cases move with
  | pass duration => exact absurd rfl (hmove duration)
  | release =>
    simp only [act]
    split <;> rfl
  | request asked =>
    simp only [act, beginRequest]
    split <;> rfl
  | proceed =>
    simp only [act, proceed]
    split <;> rfl
  | serve =>
    simp only [act, serve, answerCall]
    split
    · rfl
    · rfl
    · split
      · split <;> rfl
      · split <;> rfl
  | search run =>
    simp only [act, search]
    split
    · split <;> rfl
    · rfl
  | read room =>
    simp only [act]
    split <;> rfl
  | _ => rfl

/-- Only opening and giving back change whether the handle is out. -/
theorem act_held (rig : Rig) {move : Move} (hacquire : move ≠ .acquire) (hrelease : move ≠ .release) :
    (rig.act config move).driver.held = rig.driver.held := by
  have hfinish : ∀ asked, (rig.driver.finishRequest asked).held = rig.driver.held := by
    intro asked
    cases asked <;> rfl
  have hreport : ∀ report, (rig.driver.finishService report).held = rig.driver.held := by
    intro report
    cases report <;> rfl
  cases move with
  | acquire => exact absurd rfl hacquire
  | release => exact absurd rfl hrelease
  | request asked =>
    simp only [act, beginRequest]
    split <;> rfl
  | proceed =>
    simp only [act, proceed]
    split
    · exact hfinish _
    · rfl
    · rfl
  | serve =>
    simp only [act, serve, answerCall]
    split
    · exact hreport _
    · rfl
    · split
      · split <;> rfl
      · split <;> rfl
  | search run =>
    simp only [act, search]
    split
    · split <;> rfl
    · rfl
  | read room =>
    simp only [act, DriverState.tryRead]
    split
    · split
      · rfl
      · split <;> rfl
    · rfl
  | _ => rfl

end Rig

end NonceSearch
