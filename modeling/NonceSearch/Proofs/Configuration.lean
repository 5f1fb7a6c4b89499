import NonceSearch.Proofs.RegisterDumps
import NonceSearch.Proofs.Trial

/-!
# What has been set is what is searched for

Beside a rig a list is kept of the requests that have been carried out. Unless a request is just about
to store another value, the core's parameters are what these requests come to, whatever else goes on:
services and dumps, which move the bank and its cursor, searchers and hooks. `Rig.Configured` says what
whoever holds the lock is going to make of the parameters.
-/

namespace NonceSearch

namespace Rig

variable {config : CoreConfig} {rig : Rig} {carriedOut : List Request} {move : Move}

/-! ### Requests that have been carried out -/

def returned (move : Move) (rig : Rig) : List Request :=
  match move, rig.lock with
  | .proceed, some (.request asked (.done _)) => [asked]
  | _, _ => []

variable (config) in
/-- A rig can be reached from a core and a driver that have just been set up, and these requests have
    been carried out on the way, latest first. -/
inductive Served : Rig → List Request → Prop where
  | bound : Served {} []
  | move {rig : Rig} {carriedOut : List Request} (move : Move) :
    Served rig carriedOut → Served (rig.act config move) (rig.returned move ++ carriedOut)

theorem Served.reached (h : Served config rig carriedOut) : ∃ past, Reached config rig past := by
  induction h with
  | bound => exact ⟨[], .bound⟩
  | move move _ ih =>
    obtain ⟨past, hreached⟩ := ih
    exact ⟨_, hreached.move move⟩

def serveAll (config : CoreConfig) : List Move → Rig → List Request → Rig × List Request
  | [], rig, carriedOut => (rig, carriedOut)
  | move :: moves, rig, carriedOut =>
    serveAll config moves (rig.act config move) (rig.returned move ++ carriedOut)

theorem Served.serveAll (h : Served config rig carriedOut) (moves : List Move) :
    Served config (serveAll config moves rig carriedOut).1 (serveAll config moves rig carriedOut).2 := by
  induction moves generalizing rig carriedOut with
  | nil => exact h
  | cons move moves ih => exact ih (.move move h)

/-- Either a request returns with a move, or nothing is carried out with it. -/
theorem returned_cases (rig : Rig) (move : Move) :
    (∃ asked reply, move = .proceed ∧ rig.lock = some (.request asked (.done reply)) ∧
      rig.returned move = [asked] ∧ rig.act config move =
        { rig with lock := none, driver := rig.driver.finishRequest asked }) ∨
      rig.returned move = [] ∧
        ∀ asked reply, move = .proceed → rig.lock ≠ some (.request asked (.done reply)) := by
  by_cases hdone : ∃ asked reply, move = .proceed ∧ rig.lock = some (.request asked (.done reply))
  · obtain ⟨asked, reply, rfl, hlock⟩ := hdone
    exact .inl ⟨asked, reply, rfl, hlock, by simp [returned, hlock], act_returns hlock⟩
  · right
    have hnever : ∀ asked reply, move = .proceed → rig.lock ≠ some (.request asked (.done reply)) :=
      fun asked reply hmove hlock => hdone ⟨asked, reply, hmove, hlock⟩
    refine ⟨?_, hnever⟩
    unfold returned
    split
    · next hlock => exact absurd hlock (hnever _ _ rfl)
    · rfl

/-! ### Who holds the lock -/

variable (config) in
/-- What the holder of the driver's lock is going to make of the parameters. -/
inductive Configured (core : Core) (parameters : Parameters) : Option LockHolder → Prop where
  | free (has : core.Has parameters) : Configured core parameters none
  /-- Another value is on its way. -/
  | setting {asked : Request} {rest : Bus Reply} (sets : Parameters.isSetBy asked = true)
    (secures : rest.Secures config (fun _ => True) Core.Drifts
      (fun _ => Core.Has (parameters.accept asked)) core) :
    Configured core parameters (some (.request asked rest))
  | asking {asked : Request} {rest : Bus Reply} (plain : Parameters.isSetBy asked = false)
    (has : core.Has parameters) (keeps : rest.Keeps config Core.Drifts (Core.Has parameters) core)
    (reports : asked = .getDebugRegisters → rest.Secures config (fun _ => True) Core.Drifts
      (fun reply _ => ∃ words, reply = .registers words ∧
        Parameters.unpack config.layout words = parameters) core) :
    Configured core parameters (some (.request asked rest))
  | serving {rest : Bus (Option CompletionMessage)} (has : core.Has parameters)
    (keeps : rest.Keeps config Core.Drifts (Core.Has parameters) core) :
    Configured core parameters (some (.service rest))

section Holders

variable {core next : Core} {parameters : Parameters} {lock : Option LockHolder}

theorem Configured.drift (h : Configured config core parameters lock) (hdrift : core.Drifts next) :
    Configured config next parameters lock := by
  have htrans : ∀ a b c : Core, a.Drifts b → b.Drifts c → a.Drifts c := fun _ _ _ => .trans
  cases h with
  | free has => exact .free (has.drift hdrift)
  | setting sets secures => exact .setting sets (secures.drift htrans hdrift)
  | asking plain has keeps reports =>
    exact .asking plain (has.drift hdrift) (keeps.drift htrans hdrift)
      fun hasked => (reports hasked).drift htrans hdrift
  | serving has keeps => exact .serving (has.drift hdrift) (keeps.drift htrans hdrift)

/-- A request that gets the lock finds the parameters as they have been set. -/
theorem Configured.begins (h : Configured config core parameters none)
    (hon : parameters.On config.layout) {asked : Request} {program : Bus Reply}
    (hprogram : Driver.program config.layout asked = .ok program) :
    Configured config core parameters (some (.request asked program)) := by
  cases h with
  | free has =>
    cases hasked : Parameters.isSetBy asked with
    | true => exact .setting hasked (Driver.program_secures hprogram has)
    | false =>
      refine .asking hasked has (Driver.program_keeps hprogram hasked has) ?_
      rintro rfl
      obtain rfl : _ = program := Except.ok.inj hprogram
      refine Bus.Secures.bind ((Driver.dump_secures hon has).mono ?_) .refl
      exact fun words core hwords last hlast => ⟨words, rfl, hwords⟩

theorem Configured.access_request {asked : Request} {rest left : Bus Reply}
    (h : Configured config core parameters (some (.request asked rest))) (now : Nat)
    (haccess : rest.advance (Core.registerFile config now) core = (left, next)) :
    Configured config next parameters (some (.request asked left)) := by
  obtain ⟨rfl, rfl⟩ := Prod.mk.inj haccess
  cases h with
  | setting sets secures => exact .setting sets (secures.advance .refl now trivial)
  | asking plain has keeps reports =>
    obtain ⟨hhas, hkeeps⟩ := keeps.advance .refl has now
    exact .asking plain hhas hkeeps fun hasked => (reports hasked).advance .refl now trivial

theorem Configured.access_service {rest left : Bus (Option CompletionMessage)}
    (h : Configured config core parameters (some (.service rest))) (now : Nat)
    (haccess : rest.advance (Core.registerFile config now) core = (left, next)) :
    Configured config next parameters (some (.service left)) := by
  obtain ⟨rfl, rfl⟩ := Prod.mk.inj haccess
  cases h with
  | serving has keeps =>
    obtain ⟨hhas, hkeeps⟩ := keeps.advance .refl has now
    exact .serving hhas hkeeps

/-- A request that returns has done what it says. -/
theorem Configured.returns {asked : Request} {reply : Reply}
    (h : Configured config core parameters (some (.request asked (.done reply)))) :
    core.Has (parameters.accept asked) := by
  cases h with
  | setting sets secures => exact secures core (.refl core)
  | asking plain has keeps reports => rwa [parameters.accept_of_not_isSetBy plain]

end Holders

/-! ### The invariant -/

theorem Configured.step {next : Rig} {events : List Event} {parameters : Parameters}
    (h : Configured config rig.core parameters rig.lock) (hon : parameters.On config.layout)
    (hstep : Step config rig move next events)
    (hnever : ∀ asked reply, move = .proceed → rig.lock ≠ some (.request asked (.done reply))) :
    Configured config next.core parameters next.lock := by
  cases hstep with
  | elsewhere core lock =>
    rw [core, lock]
    exact h
  | begins held free granted =>
    rw [free] at h
    exact h.begins hon granted
  | accesses lock unfinished access =>
    rw [lock] at h
    exact h.access_request rig.now access
  | returns lock => exact absurd lock (hnever _ _ rfl)
  | takes => exact h
  | answers called free =>
    rw [free] at h
    cases h with
    | free has => exact .serving has (Driver.service_keeps has)
  | inspects lock unfinished access =>
    rw [lock] at h
    exact h.access_service rig.now access
  | reports lock =>
    rw [lock] at h
    cases h with
    | serving has => exact .free has
  | reads => exact h
  | unlocked drifts => exact h.drift drifts
  | stalls => exact h.drift Core.stall_drifts

theorem Served.configured (h : Served config rig carriedOut) :
    (Parameters.after carriedOut).On config.layout ∧
      Configured config rig.core (.after carriedOut) rig.lock := by
  induction h with
  | bound =>
    refine ⟨?_, .free rfl⟩
    cases config.layout with
    | count => exact ⟨rfl, rfl⟩
    | mask => rfl
  | @move rig carriedOut move hserved ih =>
    obtain ⟨hon, hconfigured⟩ := ih
    rcases @returned_cases config rig move with ⟨asked, reply, -, hlock, hreturned, hact⟩
      | ⟨hreturned, hnever⟩
    · rw [hreturned, List.singleton_append, Parameters.after_cons, hact]
      obtain ⟨past, hreached⟩ := hserved.reached
      obtain ⟨program, hprogram, -⟩ := hreached.request_rest hlock
      rw [hlock] at hconfigured
      exact ⟨hon.accept hprogram, .free hconfigured.returns⟩
    · rw [hreturned, List.nil_append]
      exact ⟨hon, hconfigured.step hon (act_step rig move) hnever⟩

def isSetting (rig : Rig) : Bool :=
  match rig.lock with
  | some (.request asked _) => Parameters.isSetBy asked
  | _ => false

theorem Configured.has {core : Core} {parameters : Parameters} {lock : Option LockHolder}
    (h : Configured config core parameters lock)
    (hplain : ∀ asked rest, lock = some (.request asked rest) → Parameters.isSetBy asked = false) :
    core.Has parameters := by
  cases h with
  | free has => exact has
  | setting sets secures => exact absurd (hplain _ _ rfl) (by simp [sets])
  | asking plain has => exact has
  | serving has => exact has

/-- What an unsupported request is answered, on any window, and on one that keeps a list of the accesses
    to it as well. -/
theorem refused_request {asked : Request} {cause : DeviceError} {σ : Type} {file : RegisterFile σ}
    {layout : RegisterLayout} {driver : DriverState} {registers : σ}
    (h : (driver.request file layout asked registers).1 = .error cause) :
    cause = .unsupported (.onLayout asked.code layout) ∧
      (driver.request file layout asked registers).2 = (driver, registers) := by
  unfold DriverState.request at h ⊢
  split at h
  · next other hprogram =>
    obtain rfl := Except.error.inj h
    refine ⟨?_, rfl⟩
    cases layout <;> cases asked <;> first
      | exact (Except.error.inj hprogram).symm
      | exact absurd hprogram nofun
  · exact absurd h nofun

theorem refused_answer {asked : Request} {cause : DeviceError} {since : Nat}
    (h : (rig.answer? config since (.request asked)).2 = some (.error cause)) :
    (rig.answer? config since (.request asked)).1 = rig := by
  unfold answer? at h ⊢
  dsimp only at h ⊢
  split at h
  · rfl
  · exact absurd h nofun
  · exact absurd h nofun
  · exact absurd h nofun
  · rfl

def returning (rig : Rig) : Option (Request × Reply) :=
  match rig.lock with
  | some (.request asked (.done reply)) => some (asked, reply)
  | _ => none

theorem lock_of_returning {asked : Request} {reply : Reply} (h : rig.returning = some (asked, reply)) :
    rig.lock = some (.request asked (.done reply)) := by
  unfold returning at h
  split at h
  · next hlock =>
    obtain ⟨rfl, rfl⟩ := Prod.mk.inj (Option.some.inj h)
    exact hlock
  · exact absurd h nofun

/-- **What has been set is what is searched for.** -/
theorem parameters_reach_the_core (h : Served config rig carriedOut) :
    (rig.isSetting = false → rig.core.parameters = .after carriedOut) ∧
    (∀ move job, .started job ∈ rig.events config move →
      job = (Parameters.after carriedOut).newJob config.layout) ∧
    (∀ reply, rig.returning = some (.getDebugRegisters, reply) →
      ∃ words, reply = .registers words ∧
        Parameters.unpack config.layout words = .after carriedOut) ∧
    (∀ asked cause,
      (∀ since, (rig.answer? config since (.request asked)).2 = some (.error cause) →
        (rig.answer? config since (.request asked)).1 = rig) ∧
      ∀ (σ : Type) (file : RegisterFile σ) (driver : DriverState) (registers : σ),
        (driver.request file config.layout asked registers).1 = .error cause →
        cause = .unsupported (.onLayout asked.code config.layout) ∧
          (driver.request file config.layout asked registers).2 = (driver, registers)) := by
  obtain ⟨-, hconfigured⟩ := h.configured
  refine ⟨fun hplain => ?_, fun move job hstarted => ?_, fun reply hreply => ?_, fun asked cause => ?_⟩
  · refine hconfigured.has fun asked rest hlock => ?_
    simpa [isSetting, hlock] using hplain
  · obtain ⟨past, hreached⟩ := h.reached
    obtain ⟨-, hjob, hlock⟩ := hreached.started hstarted
    have hhas : rig.core.parameters = .after carriedOut := by
      refine hconfigured.has fun asked rest hholds => ?_
      obtain ⟨rfl, -⟩ : asked = .start ∧ _ := by simpa [hlock, eq_comm] using hholds
      rfl
    rw [hjob, Core.newJob_eq, hhas]
  · rw [lock_of_returning hreply] at hconfigured
    cases hconfigured with
    | setting sets secures => exact absurd sets nofun
    | asking plain has keeps reports => exact reports rfl rig.core (.refl _)
  · exact ⟨fun since => refused_answer, fun σ file driver registers => refused_request⟩

/-! A mask core has its clock set and is reset, told what to search for, and looked at twice: by the
service of an interrupt and by a dump of its registers. Then it is started. -/

def singleNonceMask : CoreConfig := { layout := .mask, latency := 0, lastNonce := 0, batch := 1 }

def chosenParameters : Parameters :=
  { stateIn := .ofNatLE 32 0x123456789a, tail := .ofNatLE 12 0xbcdef, mask := .ofNatBE 32 (15 <<< 252)
    clock := 110 }

def carryingOut (asked : Request) (accesses : Nat) : List Move :=
  .request asked :: List.replicate (accesses + 1) .proceed

def configuredMoves : List Move :=
  [.acquire] ++ carryingOut (.setClockSpeed chosenParameters.clock) 2 ++ carryingOut .reset 1 ++
    carryingOut (.setStateIn chosenParameters.stateIn) 9 ++
    carryingOut (.setTail chosenParameters.tail) 4 ++
    carryingOut (.setDifficultyMask chosenParameters.mask) 9 ++
    [.raiseSpurious, .serve, .serve, .serve, .serve] ++ carryingOut .getDebugRegisters 33

def configuredRun : Rig × List Request := serveAll singleNonceMask configuredMoves {} []

def startingRun : Rig × List Request :=
  serveAll singleNonceMask (configuredMoves ++ [.proceed, .request .start]) {} []

theorem configured_run_starts_as_set :
    Served singleNonceMask configuredRun.1 configuredRun.2 ∧
      (∃ words, configuredRun.1.returning = some (.getDebugRegisters, .registers words) ∧
        Parameters.unpack .mask words = chosenParameters) ∧
      Served singleNonceMask startingRun.1 startingRun.2 ∧
      startingRun.1.core.parameters = chosenParameters ∧
      (∃ job, .started job ∈ startingRun.1.events singleNonceMask .proceed) ∧
      ∀ job, .started job ∈ startingRun.1.events singleNonceMask .proceed →
        job = chosenParameters.newJob .mask := by
  have hconfigured : Served singleNonceMask configuredRun.1 configuredRun.2 := Served.bound.serveAll _
  have hserved : Served singleNonceMask startingRun.1 startingRun.2 := Served.bound.serveAll _
  have hrun : startingRun.1.isSetting = false ∧ Parameters.after configuredRun.2 = chosenParameters ∧
      Parameters.after startingRun.2 = chosenParameters ∧
      .started (chosenParameters.newJob .mask) ∈ startingRun.1.events singleNonceMask .proceed ∧
      configuredRun.1.returning.map Prod.fst = some .getDebugRegisters := by
    decide +kernel
  obtain ⟨hplain, hbefore, hafter, hstarted, hreturning⟩ := hrun
  obtain ⟨⟨_, reply⟩, hreply, rfl⟩ := Option.map_eq_some_iff.mp hreturning
  obtain ⟨-, -, hdump, -⟩ := parameters_reach_the_core hconfigured
  obtain ⟨hparameters, hjob, -, -⟩ := parameters_reach_the_core hserved
  obtain ⟨words, rfl, hwords⟩ := hdump reply hreply
  rw [hbefore] at hwords
  rw [hafter] at hparameters hjob
  exact ⟨hconfigured, ⟨words, hreply, hwords⟩, hserved, hparameters hplain, ⟨_, hstarted⟩,
    hjob .proceed⟩

end Rig

end NonceSearch
