import NonceSearch.Proofs.Configuration
import NonceSearch.Proofs.SessionStates

/-!
# A session and its core

A tenure is the time for which a session has its device. The session is about one errand at a time,
under a lock of its own; around it time passes, interrupts are served, searchers work and somebody reads
the messages. Whatever came before, the state that the session is in goes with what its core is doing,
and so a start that is not refused starts a search.
-/

namespace NonceSearch

/-- The status that a core may show in a state of its session. -/
def SessionState.Shows (state : SessionState) (status : Status) : Prop :=
  match state with
  | .unknown => True
  | .resetting => status = .empty ∨ status = .ready
  | .ready => status = .ready
  | .running => status = .running ∨ status = .found ∨ status = .exhausted
  | .stopped => status = .found ∨ status = .exhausted

/-- Without stalls a core that goes with the state shows it. -/
theorem SessionState.Suits.shows {state : SessionState} {core : Core}
    (h : state.Suits False core) : state.Shows core.status := by
  cases state with
  | unknown => trivial
  | resetting => exact h
  | ready => exact h.2.resolve_right And.left
  | running =>
    rcases h.2 with hrunning | hfound | hexhausted | ⟨hstalls, -⟩
    · exact .inl hrunning
    · exact .inr (.inl hfound)
    · exact .inr (.inr hexhausted)
    · exact hstalls.elim
  | stopped =>
    rcases h.2 with hfound | hexhausted | ⟨hstalls, -⟩
    · exact .inl hfound
    · exact .inr hexhausted
    · exact hstalls.elim

/-! ### Starts -/

namespace Rig

variable {config : CoreConfig} {rig : Rig} {past : List Event} {state : SessionState}
  {errand : Option Errand}

/-- A start that has the lock finds the core ready. -/
theorem InStep.starts {rest : Bus Reply}
    (h : InStep False state rig errand) (hreached : Reached config rig past)
    (hlock : rig.lock = some (.request .start rest)) (hrest : ∀ reply, rest ≠ .done reply) :
    ∃ job, rig.events config .proceed = [.started job] := by
  obtain ⟨present, -, hasked, hallowed, hsuits⟩ := h.at_work hlock
  obtain ⟨rfl, rfl⟩ := Errand.ready_of_start hallowed hasked
  rw [Errand.midway_of_unfinished hrest] at hsuits
  have hjob := hsuits.job hreached.sound.consistent nofun nofun
  obtain ⟨hready, hstatus⟩ := hsuits
  have hisReady : rig.core.status.isReady = true := by
    rw [hstatus.resolve_right And.left]
    decide
  have hrefresh := Core.refresh_of_readyAt hready rig.now
  rcases hreached.command_rest rfl hlock with rfl | rfl
  · have hcore := @Core.write_start config rig.core rig.now
    refine ⟨rig.core.newJob config, ?_⟩
    simp [events, driverEvents, hlock, act_access hlock hrest, Bus.advance, window,
      Core.registerFile, hcore, Core.start, hrefresh, hisReady, searchEvents, hjob, Core.newJob]
  · exact absurd rfl (hrest _)

/-- Where RUNNING goes with the core, a search has been started since the last reset. -/
theorem searches_of_running {asked : Request} {reply : Reply}
    (hreached : Reached config rig past) (hlock : rig.lock = some (.request asked (.done reply)))
    (hasked : asked ≠ .reset) (hsuits : SessionState.running.Suits False rig.core) :
    ∃ job, .started job ∈ searches past := by
  have hholding := hreached.sound.holding
  rw [hlock] at hholding
  have hepoch := hholding.epoch_of_done hasked
  have hcore := hreached.sound.consistent
  have hcompletion : rig.core.status.isCompletion → ∃ job, .started job ∈ searches past := by
    intro hover
    obtain ⟨-, -, job, hsearches⟩ := hepoch.of_completion hcore hover
    exact ⟨job, by rw [hsearches]; simp⟩
  rcases hsuits.shows with hrunning | hfound | hexhausted
  · have hjob := hcore.running.mpr hrunning
    generalize searches past = history at hepoch
    cases hepoch with
    | idle job status => simp [job] at hjob
    | searching started job => exact ⟨started, List.mem_cons_self⟩
    | broken started job readyAt status => simp [job] at hjob
    | concluded started message job readyAt completion result => simp [job] at hjob
  · exact hcompletion (by rw [hfound]; decide)
  · exact hcompletion (by rw [hexhausted]; decide)

/-- A start that has been answered has started a search. -/
theorem InStep.started {reply : Reply}
    (h : InStep False state rig errand) (hreached : Reached config rig past)
    (hlock : rig.lock = some (.request .start (.done reply))) :
    ∃ job, .started job ∈ searches past := by
  obtain ⟨present, -, hasked, hallowed, hsuits⟩ := h.at_work hlock
  obtain ⟨rfl, rfl⟩ := Errand.ready_of_start hallowed hasked
  exact searches_of_running hreached hlock nofun hsuits

end Rig

/-! ### Tenures -/

/-- A session, what it is about, and the rig that its device is on. -/
structure Tenure where
  rig : Rig
  state : SessionState := .unknown
  errand : Option Errand := none

namespace Tenure

inductive Move where
  /-- Somebody makes a call, or has a status line made. -/
  | take (errand : Errand)
  | rig (move : Rig.Move)
  deriving DecidableEq

variable (config : CoreConfig)

/-- Take on an errand, unless there is another. One that is out of turn does not reach the device, and
    one that the layout lacks fails at once. -/
def take (errand : Errand) (tenure : Tenure) : Tenure :=
  if tenure.errand.isNone && errand.allowed tenure.state then
    match Driver.program config.layout errand.request with
    | .ok _ => { tenure with errand := some errand }
    | .error cause => { tenure with state := errand.settle tenure.state (.error cause) }
  else tenure

/-- Whether a move of the rig may be made: all requests are the session's, the device stays open, and
    nothing stalls. -/
def permits (tenure : Tenure) : Rig.Move → Bool
  | .request asked => tenure.errand.any fun errand => errand.request == asked
  | .release | .stall => false
  | _ => true

/-- Let the rig go on. An errand is over when its request returns. -/
def goOn (move : Rig.Move) (tenure : Tenure) : Tenure :=
  match move, tenure.errand, tenure.rig.returning with
  | .proceed, some errand, some (_, reply) =>
    { rig := tenure.rig.act config .proceed, state := errand.settle tenure.state (.ok reply) }
  | _, _, _ => { tenure with rig := tenure.rig.act config move }

def act (move : Move) (tenure : Tenure) : Tenure :=
  match move with
  | .take errand => tenure.take config errand
  | .rig move => if tenure.permits move then tenure.goOn config move else tenure

def events (move : Move) (tenure : Tenure) : List Rig.Event :=
  match move with
  | .take _ => []
  | .rig move => if tenure.permits move then tenure.rig.events config move else []

/-- A tenure can be reached from the opening of the device, whatever has been done with it before, and
    what has happened on the way, latest first. -/
inductive Reached : Tenure → List Rig.Event → Prop where
  | opened {rig : Rig} {past : List Rig.Event} (earlier : Rig.Reached config rig past)
    (free : rig.driver.held = false) :
    Reached { rig := rig.act config .acquire } (rig.events config .acquire ++ past)
  | move {tenure : Tenure} {past : List Rig.Event} (move : Move) :
    Reached tenure past → Reached (tenure.act config move) (tenure.events config move ++ past)

def follow : List Move → Tenure → List Rig.Event → Tenure × List Rig.Event
  | [], tenure, past => (tenure, past)
  | move :: moves, tenure, past =>
    follow moves (tenure.act config move) (tenure.events config move ++ past)

variable {config} {tenure : Tenure} {past : List Rig.Event}

theorem Reached.follow (h : Reached config tenure past) (moves : List Move) :
    Reached config (follow config moves tenure past).1 (follow config moves tenure past).2 := by
  induction moves generalizing tenure past with
  | nil => exact h
  | cons move moves ih => exact ih (.move move h)

/-! ### The rig of a tenure -/

theorem goOn_rig (move : Rig.Move) : (tenure.goOn config move).rig = tenure.rig.act config move := by
  unfold goOn
  split <;> rfl

theorem take_rig (errand : Errand) : (tenure.take config errand).rig = tenure.rig := by
  unfold take
  split
  · split <;> rfl
  · rfl

theorem Reached.rig (h : Reached config tenure past) : Rig.Reached config tenure.rig past := by
  induction h with
  | opened earlier free => exact .move .acquire earlier
  | @move tenure past move _ ih =>
    cases move with
    | take errand =>
      simp only [act, take_rig]
      exact ih
    | rig move =>
      simp only [act, events]
      split
      · rw [goOn_rig]
        exact .move move ih
      · exact ih

/-! ### Keeping step -/

theorem take_inStep {errand : Errand} (h : Rig.InStep False tenure.state tenure.rig tenure.errand) :
    Rig.InStep False (tenure.take config errand).state (tenure.take config errand).rig
      (tenure.take config errand).errand := by
  unfold take
  split
  · next hturn =>
    obtain ⟨hidle, hallowed⟩ : tenure.errand = none ∧ errand.allowed tenure.state = true := by
      simpa using hturn
    split
    · rw [hidle] at h
      exact h.takes hallowed
    · rw [errand.settle_error]
      exact h
  · exact h

theorem goOn_inStep {move : Rig.Move} (h : Rig.InStep False tenure.state tenure.rig tenure.errand)
    (hreached : Rig.Reached config tenure.rig past) (hpermits : tenure.permits move = true) :
    Rig.InStep False (tenure.goOn config move).state (tenure.goOn config move).rig
      (tenure.goOn config move).errand := by
  cases move with
  | proceed =>
    unfold goOn
    split
    · next errand asked reply herrand hreturning =>
      rw [herrand] at h
      exact h.returns (Rig.lock_of_returning hreturning)
    · next hunanswered =>
      refine h.proceeds hreached fun asked reply hlock => ?_
      have hreturning : tenure.rig.returning = some (asked, reply) := by simp [Rig.returning, hlock]
      -- a request that is answered is that of an errand
      cases herrand : tenure.errand with
      | none =>
        rw [herrand] at h
        cases h with
        | free lock => exact lock _ _ hlock
      | some errand => exact hunanswered errand asked reply rfl herrand hreturning
  | request asked =>
    obtain ⟨errand, herrand, rfl⟩ : ∃ errand, tenure.errand = some errand ∧ errand.request = asked := by
      cases herrand : tenure.errand with
      | none => simp [permits, herrand] at hpermits
      | some errand => exact ⟨errand, rfl, by simpa [permits, herrand] using hpermits⟩
    rw [herrand] at h
    simp only [goOn, herrand]
    exact h.asks
  | stall => exact absurd hpermits nofun
  | release => exact absurd hpermits nofun
  | _ =>
    simp only [goOn]
    exact h.aside hreached ⟨nofun, nofun⟩ nofun

theorem Reached.inStep (h : Reached config tenure past) :
    Rig.InStep False tenure.state tenure.rig tenure.errand := by
  induction h with
  | opened earlier free => exact earlier.inStep free
  | @move tenure past move hreached ih =>
    cases move with
    | take errand => exact take_inStep ih
    | rig move =>
      simp only [act]
      split
      · next hpermits => exact goOn_inStep ih hreached.rig hpermits
      · exact ih

/-! ### The session and its core -/

def lateCount : CoreConfig := { layout := .count, latency := 2, lastNonce := 0, batch := 1 }

def carryOut (errand : Errand) (accesses : Nat) : List Move :=
  .take errand :: .rig (.request errand.request) :: List.replicate (accesses + 1) (.rig .proceed)

def fresh (config : CoreConfig) : Tenure := { rig := Rig.act config .acquire {} }

def untilStart : List Move :=
  carryOut (.call .reset) 1 ++ carryOut (.call .status) 1 ++ [.rig (.pass 2)] ++
    carryOut (.call .status) 1 ++ carryOut (.call (.setDifficulty (.leadingZeros 255))) 1 ++
    [.take (.call .start), .rig (.request .start)]

def starting : Tenure × List Rig.Event := follow lateCount untilStart (fresh lateCount) []

def searched : Tenure × List Rig.Event :=
  follow lateCount (untilStart ++ [.rig .proceed, .rig .proceed, .rig (.search 1), .rig (.search 1)] ++
    carryOut (.call .status) 1) (fresh lateCount) []

theorem fresh_reached (config : CoreConfig) : Reached config (fresh config) [] :=
  .opened .bound rfl

end Tenure

end NonceSearch
