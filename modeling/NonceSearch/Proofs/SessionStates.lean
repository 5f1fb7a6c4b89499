import NonceSearch.Proofs.Remainders
import NonceSearch.Session.Basic

/-!
# What a session knows about its core

A session sees its core only in the replies to its own requests, and the core goes on by itself: a reset
comes to its end, a search goes on and ends, a stall may stop it. `SessionState.Suits` says which cores
go with which state of a session. Nothing that the core does by itself leads out of it, and neither
does what the session has it do: while a request has the lock, the core goes with the state before it
until the last access is made, and with the state after it from then on (`Rig.InStep`).
-/

namespace NonceSearch

variable {stalls : Prop} {config : CoreConfig} {state : SessionState}

/-! ### States of sessions and cores -/

/-- The core goes with the state of the session. Where stalls are possible it may have been stopped
    unseen. -/
def SessionState.Suits (stalls : Prop) (state : SessionState) (core : Core) : Prop :=
  match state with
  | .unknown => True
  | .resetting => core.status = .empty ∨ core.status = .ready
  | .ready => core.readyAt = none ∧ (core.status = .ready ∨ stalls ∧ core.status = .empty)
  | .running => core.readyAt = none ∧ (core.status = .running ∨ core.status = .found ∨
      core.status = .exhausted ∨ stalls ∧ core.status = .empty)
  | .stopped => core.readyAt = none ∧
      (core.status = .found ∨ core.status = .exhausted ∨ stalls ∧ core.status = .empty)

namespace SessionState

variable {core next : Core} {now : Nat}

theorem Suits.same (h : state.Suits stalls core) (hready : next.readyAt = core.readyAt)
    (hstatus : next.status = core.status) : state.Suits stalls next := by
  cases state with
  | unknown => trivial
  | resetting => rwa [Suits, hstatus]
  | ready => rwa [Suits, hready, hstatus]
  | running => rwa [Suits, hready, hstatus]
  | stopped => rwa [Suits, hready, hstatus]

/-- Only a session that does not know, or knows of a search, goes with a core that is searching. -/
theorem Suits.job (h : state.Suits stalls core) (hcore : core.Consistent) (hunknown : state ≠ .unknown)
    (hrunning : state ≠ .running) : core.job = none := by
  cases hjob : core.job with
  | none => rfl
  | some job =>
    have hstatus : core.status = .running := hcore.running.mp (by rw [hjob]; rfl)
    cases state with
    | unknown => exact absurd rfl hunknown
    | running => exact absurd rfl hrunning
    | resetting =>
      rw [Suits, hstatus] at h
      exact absurd h (by decide)
    | ready =>
      rw [Suits, hstatus] at h
      exact absurd h (by simp [Status.running, Status.ready, Status.empty])
    | stopped =>
      rw [Suits, hstatus] at h
      exact absurd h (by simp [Status.running, Status.found, Status.exhausted, Status.empty])

/-- What the core does by itself does not lead out of the state: a reset comes to its end, a search goes
    on and ends. -/
theorem Suits.change (h : state.Suits stalls core) (hcore : core.Consistent)
    (hchange : core.Change next) (hidle : core.job = none → next.job = none) :
    state.Suits stalls next := by
  cases hchange with
  | kept hsame => exact h.same hsame.readyAt hsame.status
  | called hsame => exact h.same hsame.readyAt hsame.status
  | readied hpending hsame =>
    cases state with
    | unknown => trivial
    | resetting => exact .inr hsame.status
    | ready => exact absurd hpending (by simp [h.1])
    | running => exact absurd hpending (by simp [h.1])
    | stopped => exact absurd hpending (by simp [h.1])
  | started job hready hsame =>
    -- a search can only start on a core without one, and there the core does not start one by itself
    have hjob : core.job = none := by
      rcases hready with hready | hpending
      · cases hjob : core.job with
        | none => rfl
        | some job =>
          have hrunning := hcore.running.mp (by rw [hjob]; rfl)
          rw [hready] at hrunning
          exact absurd hrunning (by decide)
      · exact hcore.job_of_resetting hpending
    have hnone := hidle hjob
    rw [hsame.job] at hnone
    exact absurd hnone nofun
  | advanced job reached current hsearching hsame => exact h.same hsame.readyAt hsame.status
  | ended job outcome current candidate hsearching houtcome hsame =>
    by_cases hunknown : state = .unknown
    · subst hunknown
      trivial
    · by_cases hrunning : state = .running
      · subst hrunning
        refine ⟨hsame.readyAt.trans h.1, .inr ?_⟩
        rw [hsame.status]
        rcases houtcome with rfl | rfl
        · exact .inl rfl
        · exact .inr (.inl rfl)
      · rw [h.job hcore hunknown hrunning] at hsearching
        exact absurd hsearching nofun

theorem Suits.stall (h : state.Suits stalls core) (hstalls : stalls) :
    state.Suits stalls core.stall := by
  cases state with
  | unknown => trivial
  | resetting => exact .inl rfl
  | ready => exact ⟨h.1, .inr ⟨hstalls, rfl⟩⟩
  | running => exact ⟨h.1, .inr (.inr (.inr ⟨hstalls, rfl⟩))⟩
  | stopped => exact ⟨h.1, .inr (.inr ⟨hstalls, rfl⟩)⟩

theorem Suits.refresh (h : state.Suits stalls core) (hcore : core.Consistent) :
    state.Suits stalls (core.refresh now) :=
  h.change hcore Core.refresh_change fun hjob => Core.refresh_job.trans hjob

/-! ### Calls that move the state -/

theorem suits_reset : Suits stalls .resetting (core.reset config now) := by
  obtain ⟨-, -, hready | hempty⟩ := @Core.reset_search config core now
  · exact .inr hready
  · exact .inl hempty

/-- A core that goes with READY obeys a start, unless it has been stopped. -/
theorem Suits.start (h : Suits stalls .ready core) :
    Suits stalls .running (core.start config now) := by
  obtain ⟨hready, hstatus⟩ := h
  unfold Core.start
  rw [Core.refresh_of_readyAt hready]
  rcases hstatus with hstatus | ⟨hstalls, hempty⟩
  · have hisReady : core.status.isReady = true := by rw [hstatus]; decide
    simp only [hisReady, if_true]
    exact ⟨hready, .inl rfl⟩
  · have hisReady : core.status.isReady = false := by rw [hempty]; decide
    simp only [hisReady, Bool.false_eq_true, if_false]
    exact ⟨hready, .inr (.inr (.inr ⟨hstalls, hempty⟩))⟩

/-- READY ends a reset for the session, and a status that does not say RUNNING ends a search. -/
theorem Suits.status (h : state.Suits stalls core) (hcore : core.Consistent) :
    (SessionCall.status.advance state (.word (core.refresh now).status.bits)).Suits stalls
      (core.refresh now) := by
  have hrefreshed : state.Suits stalls (core.refresh now) := h.refresh hcore
  have hconsistent := (@Core.refresh_change core now).consistent hcore
  generalize core.refresh now = seen at hrefreshed hconsistent ⊢
  cases state with
  | unknown => trivial
  | ready => exact hrefreshed
  | stopped => exact hrefreshed
  | resetting =>
    rcases hrefreshed with hempty | hready
    · rw [hempty]
      exact .inl hempty
    · have hnone : seen.readyAt = none := by
        cases hpending : seen.readyAt with
        | none => rfl
        | some due =>
          have hempty := hconsistent.resetting (by rw [hpending]; rfl)
          rw [hready] at hempty
          exact absurd hempty (by decide)
      rw [hready]
      exact ⟨hnone, .inl hready⟩
  | running =>
    obtain ⟨hnone, hstatus⟩ := hrefreshed
    rcases hstatus with hrunning | hfound | hexhausted | ⟨hstalls, hempty⟩
    · rw [hrunning]
      exact ⟨hnone, .inl hrunning⟩
    · rw [hfound]
      exact ⟨hnone, .inl hfound⟩
    · rw [hexhausted]
      exact ⟨hnone, .inr (.inl hexhausted)⟩
    · rw [hempty]
      exact ⟨hnone, .inr (.inr ⟨hstalls, hempty⟩)⟩

end SessionState

/-! ### Errands -/

/-- Whether a request sets what is searched for. -/
def Request.loads : Request → Bool
  | .setStateIn _ | .setTail _ | .setDifficultyMask _ | .setLeadingZeros _ => true
  | _ => false

/-- What a session asks of its device at a time: a call, or for a status line a look at the status that
    leaves the session where it is. -/
inductive Errand where
  | call (call : SessionCall)
  | glance
  deriving DecidableEq

namespace Errand

def request : Errand → Request
  | .call made => made.request
  | .glance => .getStatus

def allowed (state : SessionState) : Errand → Bool
  | .call made => made.allowed state
  | .glance => true

def settle (state : SessionState) (errand : Errand) (result : Except DeviceError Reply) :
    SessionState :=
  match errand with
  | .call made => (made.settle state result).2
  | .glance => state

/-- The state that goes with the core when so much of the errand's request is left: the state moves with
    the last access. -/
def midway (state : SessionState) (errand : Errand) : Bus Reply → SessionState
  | .done reply => errand.settle state (.ok reply)
  | _ => state

def moves : Errand → Bool
  | .call .reset | .call .status | .call .start => true
  | _ => false

theorem settle_of_not_moves {errand : Errand} (h : errand.moves = false)
    (result : Except DeviceError Reply) : errand.settle state result = state := by
  cases errand with
  | glance => rfl
  | call made =>
    unfold settle SessionCall.settle
    dsimp only
    split
    · cases made with
      | reset => exact absurd h nofun
      | status => exact absurd h nofun
      | start => exact absurd h nofun
      | _ => rfl
    · rfl

theorem midway_of_not_moves {errand : Errand} (h : errand.moves = false) (rest : Bus Reply) :
    errand.midway state rest = state := by
  cases rest with
  | done reply => exact settle_of_not_moves h (.ok reply)
  | _ => rfl

theorem midway_of_unfinished {errand : Errand} {rest : Bus Reply} (h : ∀ reply, rest ≠ .done reply) :
    errand.midway state rest = state := by
  cases rest with
  | done reply => exact absurd rfl (h reply)
  | _ => rfl

/-- An errand that moves the state has an access to make. -/
theorem midway_program {errand : Errand} {layout : RegisterLayout} {program : Bus Reply}
    (h : Driver.program layout errand.request = .ok program) : errand.midway state program = state := by
  cases hmoves : errand.moves with
  | false => exact midway_of_not_moves hmoves program
  | true =>
    refine midway_of_unfinished fun reply hdone => ?_
    subst hdone
    cases errand with
    | glance => exact absurd hmoves nofun
    | call made =>
      cases made with
      | reset => exact absurd ((Driver.program_command layout rfl).symm.trans h) nofun
      | start => exact absurd ((Driver.program_command layout rfl).symm.trans h) nofun
      | status => exact absurd ((Driver.program_status layout).symm.trans h) nofun
      | _ => exact absurd hmoves nofun

theorem settle_error (errand : Errand) (cause : DeviceError) :
    errand.settle state (.error cause) = state := by
  cases errand <;> rfl

theorem request_of_not_moves {errand : Errand} (h : errand.moves = false) :
    errand.request ≠ .reset ∧ errand.request ≠ .start := by
  cases errand with
  | glance => exact ⟨nofun, nofun⟩
  | call made =>
    cases made with
    | reset => exact absurd h nofun
    | start => exact absurd h nofun
    | setDifficulty difficulty => cases difficulty <;> exact ⟨nofun, nofun⟩
    | _ => exact ⟨nofun, nofun⟩

theorem ready_of_start {errand : Errand} (h : errand.allowed state) (hstart : errand.request = .start) :
    state = .ready ∧ errand = .call .start := by
  cases errand with
  | glance => exact absurd hstart nofun
  | call made =>
    cases made with
    | start => exact ⟨eq_of_beq h, rfl⟩
    | setDifficulty difficulty => cases difficulty <;> exact absurd hstart nofun
    | _ => exact absurd hstart nofun

end Errand

/-! ### Sessions on a rig -/

namespace Rig

variable {rig : Rig} {past : List Event} {move : Move} {errand : Option Errand}

/-- Nothing leads out of the state but a reset or a start that has the lock. -/
theorem Reached.suits_act (h : Reached config rig past) (hsuits : state.Suits stalls rig.core)
    (hstall : move = .stall → stalls)
    (hproceed : move = .proceed → ∀ asked rest, rig.lock = some (.request asked rest) →
      asked ≠ .reset ∧ asked ≠ .start) :
    state.Suits stalls (rig.act config move).core := by
  rcases h.sound.core_step (act_step rig move) with hchange | ⟨hmove, hstalled⟩
    | ⟨hmove, hresetting, -⟩
  · refine hsuits.change h.sound.consistent hchange fun hjob => ?_
    by_contra hnext
    obtain ⟨hmove, -, hlock⟩ := h.job_of_idle hjob hnext
    exact (hproceed hmove _ _ hlock).2 rfl
  · rw [hstalled]
    exact hsuits.stall (hstall hmove)
  · unfold isResetting at hresetting
    split at hresetting
    · next hlock => exact absurd rfl (hproceed hmove _ _ hlock).1
    · exact absurd hresetting nofun

/-- The moves that are not about requests. -/
def Move.Aside (move : Move) : Prop := move ≠ .proceed ∧ ∀ asked, move ≠ .request asked

/-- They leave a request that has the lock there, and give it to none. -/
theorem Move.Aside.lock (h : move.Aside) (asked : Request) (rest : Bus Reply) :
    (rig.act config move).lock = some (.request asked rest) ↔
      rig.lock = some (.request asked rest) := by
  have hstep := @act_step config rig move
  generalize rig.act config move = next, rig.driverEvents move = events at hstep
  cases hstep with
  | elsewhere core lock => rw [lock]
  | begins => exact absurd rfl (h.2 _)
  | accesses => exact absurd rfl h.1
  | returns => exact absurd rfl h.1
  | answers called free => simp [free]
  | inspects lock => simp [lock]
  | reports lock => simp [lock]
  | takes => rfl
  | reads => rfl
  | unlocked => rfl
  | stalls => rfl

/-- A session keeps step with its rig. -/
inductive InStep (stalls : Prop) (state : SessionState) (rig : Rig) : Option Errand → Prop where
  /-- No request has the lock, and the errand, if there is one, is still to get it. -/
  | free {errand : Option Errand} (lock : ∀ asked rest, rig.lock ≠ some (.request asked rest))
    (allowed : ∀ waiting, errand = some waiting → waiting.allowed state)
    (suits : state.Suits stalls rig.core) : InStep stalls state rig errand
  | busy {present : Errand} {rest : Bus Reply} (allowed : present.allowed state)
    (lock : rig.lock = some (.request present.request rest))
    (suits : (present.midway state rest).Suits stalls rig.core) : InStep stalls state rig (some present)

/-- A session that knows nothing yet, on a device that it has just opened. -/
theorem Reached.inStep (h : Reached config rig past) (hfree : rig.driver.held = false) :
    InStep stalls .unknown (rig.act config .acquire) none := by
  refine .free (fun asked rest hlock => ?_) nofun trivial
  have hheld := h.held_of_request hlock
  rw [hfree] at hheld
  exact absurd hheld nofun

theorem InStep.aside (h : InStep stalls state rig errand) (hreached : Reached config rig past)
    (hmove : move.Aside) (hstall : move = .stall → stalls) :
    InStep stalls state (rig.act config move) errand := by
  have hsuits : ∀ {state : SessionState}, state.Suits stalls rig.core →
      state.Suits stalls (rig.act config move).core := fun hsuits =>
    hreached.suits_act hsuits hstall fun hproceed => absurd hproceed hmove.1
  cases h with
  | free lock allowed suits =>
    exact .free (fun asked rest hlock => lock asked rest ((hmove.lock asked rest).mp hlock)) allowed
      (hsuits suits)
  | busy allowed lock suits => exact .busy allowed ((hmove.lock _ _).mpr lock) (hsuits suits)

theorem InStep.takes (h : InStep stalls state rig none) {next : Errand}
    (hallowed : next.allowed state) : InStep stalls state rig (some next) := by
  cases h with
  | free lock allowed suits =>
    refine .free lock (fun waiting hwaiting => ?_) suits
    obtain rfl := Option.some.inj hwaiting
    exact hallowed

/-- The errand asks for the lock. -/
theorem InStep.asks {present : Errand} (h : InStep stalls state rig (some present)) :
    InStep stalls state (rig.act config (.request present.request)) (some present) := by
  simp only [act, beginRequest]
  split
  · next program hheld hfree hprogram =>
    cases h with
    | free lock allowed suits =>
      exact .busy (allowed _ rfl) rfl (by rwa [Errand.midway_program hprogram])
    | busy allowed lock suits =>
      rw [hfree] at lock
      cases lock
  · exact h

/-- An access of the errand's request takes the core along with the session. -/
theorem Reached.midway_access (h : Reached config rig past) {present : Errand} {rest : Bus Reply}
    (hallowed : present.allowed state) (hlock : rig.lock = some (.request present.request rest))
    (hrest : ∀ reply, rest ≠ .done reply) (hsuits : state.Suits stalls rig.core) :
    (present.midway state (rest.advance (rig.window config) rig.core).1).Suits stalls
      (rest.advance (rig.window config) rig.core).2 := by
  cases hmoves : present.moves with
  | false =>
    obtain ⟨hreset, hstart⟩ := Errand.request_of_not_moves hmoves
    have hnext : state.Suits stalls (rig.act config .proceed).core := by
      refine h.suits_act hsuits (by simp) fun _ asked left hother => ?_
      obtain ⟨rfl, -⟩ : present.request = asked ∧ _ := by simpa [hlock] using hother
      exact ⟨hreset, hstart⟩
    rw [Errand.midway_of_not_moves hmoves]
    rwa [act_access hlock hrest] at hnext
  | true =>
    -- the three requests that move the state make one access each, and the state moves with it
    cases present with
    | glance => cases hmoves
    | call made =>
      cases made with
      | reset =>
        rcases h.command_rest rfl hlock with rfl | rfl
        · have hnext := @Core.write_reset config rig.core rig.now
          simp only [Bus.advance, window, Core.registerFile, hnext]
          exact SessionState.suits_reset
        · exact absurd rfl (hrest _)
      | start =>
        obtain ⟨rfl, -⟩ := Errand.ready_of_start hallowed rfl
        rcases h.command_rest rfl hlock with rfl | rfl
        · have hnext := @Core.write_start config rig.core rig.now
          simp only [Bus.advance, window, Core.registerFile, hnext]
          exact hsuits.start
        · exact absurd rfl (hrest _)
      | status =>
        rcases h.status_rest hlock with rfl | ⟨word, rfl⟩
        · have hread : rig.core.read config rig.now (Driver.statusWord config.layout) = _ :=
            Driver.read_statusWord config rig.now rig.core
          simp only [Bus.advance, window, Core.registerFile, hread]
          exact hsuits.status h.sound.consistent
        · exact absurd rfl (hrest _)
      | _ => cases hmoves

/-- Whoever has the lock goes on with a request, and is not answered yet. -/
theorem InStep.proceeds (h : InStep stalls state rig errand) (hreached : Reached config rig past)
    (hunanswered : ∀ asked reply, rig.lock ≠ some (.request asked (.done reply))) :
    InStep stalls state (rig.act config .proceed) errand := by
  cases h with
  | free lock allowed suits =>
    have hsame : rig.act config .proceed = rig := by
      simp only [act, proceed]
    rw [hsame]
    exact .free lock allowed suits
  | @busy present rest allowed lock suits =>
    have hrest : ∀ reply, rest ≠ .done reply := by
      rintro reply rfl
      exact hunanswered _ _ lock
    rw [Errand.midway_of_unfinished hrest] at suits
    rw [act_access lock hrest]
    exact .busy allowed rfl (hreached.midway_access allowed lock hrest suits)

/-- An errand that the layout lacks never gets the lock. -/
theorem InStep.refused {present : Errand} (h : InStep stalls state rig (some present))
    (hreached : Reached config rig past) {cause : DeviceError}
    (hprogram : Driver.program config.layout present.request = .error cause) :
    InStep stalls state rig none := by
  cases h with
  | free lock allowed suits => exact .free lock nofun suits
  | busy allowed lock suits =>
    obtain ⟨program, hgranted, -⟩ := hreached.request_rest lock
    rw [hprogram] at hgranted
    exact absurd hgranted nofun

/-- All requests are those of errands. -/
theorem InStep.at_work (h : InStep stalls state rig errand) {asked : Request} {rest : Bus Reply}
    (hlock : rig.lock = some (.request asked rest)) :
    ∃ present : Errand, errand = some present ∧ present.request = asked ∧ present.allowed state ∧
      (present.midway state rest).Suits stalls rig.core := by
  cases h with
  | free lock allowed suits => exact absurd hlock (lock _ _)
  | @busy present left allowed lock suits =>
    obtain ⟨rfl, rfl⟩ : asked = _ ∧ rest = left := by simpa [hlock] using lock
    exact ⟨present, rfl, rfl, allowed, suits⟩

/-- The errand is answered, and the session goes on from the state after it. -/
theorem InStep.returns {present : Errand} (h : InStep stalls state rig (some present))
    {asked : Request} {reply : Reply} (hlock : rig.lock = some (.request asked (.done reply))) :
    InStep stalls (present.settle state (.ok reply)) (rig.act config .proceed) none := by
  obtain ⟨_, hpresent, -, -, hsuits⟩ := h.at_work hlock
  obtain rfl := Option.some.inj hpresent
  rw [act_returns hlock]
  exact .free nofun nofun hsuits

/-- Until the errand is about to return, the core goes with the state as it is. -/
theorem InStep.suits (h : InStep stalls state rig errand)
    (hunanswered : errand = none ∨ ∀ asked reply, rig.lock ≠ some (.request asked (.done reply))) :
    state.Suits stalls rig.core := by
  cases h with
  | free lock allowed suits => exact suits
  | busy allowed lock suits =>
    rcases hunanswered with hnone | hunanswered
    · exact absurd hnone nofun
    · rwa [Errand.midway_of_unfinished] at suits
      rintro reply rfl
      exact hunanswered _ _ lock

end Rig

end NonceSearch
