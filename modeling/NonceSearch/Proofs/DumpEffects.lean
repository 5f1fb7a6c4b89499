import NonceSearch.Proofs.Boards
import NonceSearch.Proofs.OngoingSearches
import NonceSearch.Proofs.Onlookers

/-!
# What a dump does to a core

A dump halts the core, reads all registers and lets the core run again. The parameters, the search and
its counters are what they were, and so is the status for everybody who reads it. But a dump does not ask
whether the core was halted before, and lets it run in any case: a core that is held and stepped has to
be halted again after each dump (`Rig.dump_keeps_all_but_the_mode`).
-/

namespace NonceSearch

namespace Core

variable {config : CoreConfig} {layout : RegisterLayout} {core next last : Core} {now : Nat}

/-! ### Banks and cursors -/

/-- Two cores that are the same, apart from the selected bank and its cursor if the layout has banks. -/
def UpToPlace (layout : RegisterLayout) (core next : Core) : Prop :=
  ∃ bank cursor, next = { core with bank := bank, cursor := cursor } ∧
    (layout = .count → bank = core.bank ∧ cursor = core.cursor)

theorem UpToPlace.refl (layout : RegisterLayout) (core : Core) : UpToPlace layout core core :=
  ⟨core.bank, core.cursor, rfl, fun _ => ⟨rfl, rfl⟩⟩

theorem UpToPlace.trans (h : UpToPlace layout core next) (h' : UpToPlace layout next last) :
    UpToPlace layout core last := by
  obtain ⟨bank, cursor, rfl, hplace⟩ := h
  obtain ⟨bank', cursor', rfl, hplace'⟩ := h'
  refine ⟨bank', cursor', rfl, fun hcount => ?_⟩
  obtain ⟨hbank, hcursor⟩ := hplace hcount
  obtain ⟨hbank', hcursor'⟩ := hplace' hcount
  exact ⟨hbank'.trans hbank, hcursor'.trans hcursor⟩

theorem UpToPlace.setHalted (h : UpToPlace layout core next) (halted : Bool) :
    UpToPlace layout (core.setHalted halted) (next.setHalted halted) := by
  obtain ⟨bank, cursor, rfl, hplace⟩ := h
  exact ⟨bank, cursor, rfl, hplace⟩

theorem upToPlace_select (hlayout : layout = .mask) (bank : Option Bank) (cursor : Nat) :
    UpToPlace layout core { core with bank := bank, cursor := cursor } :=
  ⟨bank, cursor, rfl, fun hcount => nomatch hlayout.symm.trans hcount⟩

theorem refresh_place (bank : Option Bank) (cursor : Nat) :
    ({ core with bank := bank, cursor := cursor } : Core).refresh now =
      { core.refresh now with bank := bank, cursor := cursor } := by
  unfold refresh
  dsimp only
  split
  · split <;> rfl
  · rfl

/-- A core that has noticed what there is to notice has done so in any bank. -/
theorem UpToPlace.noticed (h : UpToPlace layout core next) (hnoticed : core.refresh now = core) :
    next.refresh now = next := by
  obtain ⟨bank, cursor, rfl, -⟩ := h
  rw [refresh_place, hnoticed]

theorem refresh_refresh {later : Nat} (h : now ≤ later) :
    (core.refresh now).refresh later = core.refresh later :=
  (noticed_refresh.later h).refresh

/-! ### Reading -/

theorem read_upToPlace (word : Nat) :
    UpToPlace config.layout (core.refresh now) (core.read config now word).2 := by
  cases hlayout : config.layout with
  | count =>
    have hread : (core.read config now word).2 = core.refresh now := by
      rw [read, hlayout]
    rw [hread]
    exact .refl _ _
  | mask =>
    rcases @read_snd config core now word with h | h
    · rw [h]
      exact .refl _ _
    · rw [h]
      exact upToPlace_select rfl _ _

/-- Once a core has noticed what there is to notice, a reading program moves the cursor and nothing
    else. -/
theorem run_selects {α : Type} {program : Bus α} (h : program.Writes (Driver.Selects config))
    (hnoticed : core.refresh now = core) :
    UpToPlace config.layout core (program.run (registerFile config now) core).2 := by
  induction program generalizing core with
  | done value => exact .refl _ _
  | read word next ih =>
    have hread := @read_upToPlace config core now word
    rw [hnoticed] at hread
    exact hread.trans (ih _ (h _) (hread.noticed hnoticed))
  | write word value next ih =>
    obtain ⟨⟨hlayout, rfl, bank, rfl⟩, hrest⟩ := h
    have hselect := @upToPlace_select config.layout core hlayout (some bank) 0
    have hnext := ih hrest (hselect.noticed hnoticed)
    rw [← @write_select config core now hlayout bank] at hselect hnext
    exact hselect.trans hnext
  | writeByte word value next ih =>
    obtain ⟨⟨hlayout, rfl, bank, hvalue⟩, hrest⟩ := h
    have hselect := @upToPlace_select config.layout core hlayout (some bank) 0
    have hnext := ih hrest (hselect.noticed hnoticed)
    rw [← @write_select config core now hlayout bank, ← hvalue] at hselect hnext
    exact hselect.trans hnext

/-- All registers are read after the core has noticed that its reset is over. -/
theorem run_readAll_upToPlace : UpToPlace config.layout (core.refresh now)
    ((Driver.readAll config.layout).run (registerFile config now) core).2 := by
  have hselects := Driver.readAll_selects config
  obtain ⟨word, next, hread⟩ : ∃ word next, Driver.readAll config.layout = .read word next := by
    cases config.layout with
    | count => exact ⟨_, _, rfl⟩
    | mask => exact ⟨_, _, Driver.readAll_mask⟩
  rw [hread] at hselects ⊢
  -- It is the first read that notices; what comes after it is up to the place.
  have hfirst := @read_upToPlace config core now word
  have hnoticed := hfirst.noticed (refresh_refresh (Nat.le_refl now))
  exact hfirst.trans (run_selects (hselects _) hnoticed)

/-! ### Halting and letting run -/

theorem refresh_setHalted (halted : Bool) :
    (core.setHalted halted).refresh now = (core.refresh now).setHalted halted := by
  unfold refresh setHalted
  dsimp only
  split
  · split <;> rfl
  · rfl

theorem refresh_kept : (core.refresh now).nonceCurrent = core.nonceCurrent ∧
    (core.refresh now).nonceCandidate = core.nonceCandidate ∧ (core.refresh now).run = core.run ∧
    (core.refresh now).bank = core.bank ∧ (core.refresh now).cursor = core.cursor := by
  unfold refresh
  split
  · split <;> exact ⟨rfl, rfl, rfl, rfl, rfl⟩
  · exact ⟨rfl, rfl, rfl, rfl, rfl⟩

theorem UpToPlace.refresh (h : UpToPlace layout core next) (now : Nat) :
    UpToPlace layout (core.refresh now) (next.refresh now) := by
  obtain ⟨-, -, -, hbank, hcursor⟩ := @refresh_kept core now
  obtain ⟨bank, cursor, rfl, hplace⟩ := h
  refine ⟨bank, cursor, refresh_place bank cursor, fun hcount => ?_⟩
  rw [hbank, hcursor]
  exact hplace hcount

theorem run_setDebugEnable (enabled : Bool) : UpToPlace config.layout (core.setHalted !enabled)
    ((Driver.setDebugEnable config.layout enabled).run (registerFile config now) core).2 := by
  cases hlayout : config.layout with
  | count =>
    have hrun : ((Driver.setDebugEnable .count enabled).run (registerFile config now) core).2 =
        core.setHalted !enabled := by
      change core.write config now CountWindow.debugEnable _ = _
      rw [write, hlayout]
      cases enabled <;> rfl
    rw [hrun]
    exact .refl _ _
  | mask =>
    have hrun : ((Driver.setDebugEnable .mask enabled).run (registerFile config now) core).2 =
        { core.setHalted !enabled with bank := some .debugEnable, cursor := 1 } := by
      change (core.write config now MaskWindow.command Bank.debugEnable.select).write config now
        MaskWindow.data _ = _
      rw [write_select hlayout, write_data hlayout]
      cases enabled <;> rfl
    rw [hrun]
    exact upToPlace_select rfl _ _

/-- All that a dump does is to notice that a reset is over, and to let the core run. -/
theorem run_dump (config : CoreConfig) (now : Nat) (core : Core) :
    ∃ program words next, Driver.program config.layout .getDebugRegisters = .ok program ∧
      program.run (registerFile config now) core = (.registers words, next) ∧
      UpToPlace config.layout ((core.refresh now).setHalted false) next := by
  let file := registerFile config now
  let halted := ((Driver.setDebugEnable config.layout false).run file core).2
  let words := ((Driver.readAll config.layout).run file halted).1
  let seen := ((Driver.readAll config.layout).run file halted).2
  have hhalted : UpToPlace config.layout (core.setHalted true) halted := run_setDebugEnable false
  have hseen : UpToPlace config.layout (halted.refresh now) seen := run_readAll_upToPlace
  have hreleased := @run_setDebugEnable config seen now true
  refine ⟨_, words, ((Driver.setDebugEnable config.layout true).run file seen).2,
    Driver.program_dump config.layout, ?_, ?_⟩
  · simp only [Driver.afterHalt, Driver.closing, Bus.run_bind, Bus.run]
    rfl
  · have hnoticed := (hhalted.refresh now).trans hseen
    rw [refresh_setHalted] at hnoticed
    exact (hnoticed.setHalted false).trans hreleased

/-! ### Steps between dumps -/

theorem UpToPlace.stands (h : UpToPlace layout core next) : core.Stands next := by
  obtain ⟨bank, cursor, rfl, -⟩ := h
  exact ⟨rfl, rfl, rfl, rfl, rfl, rfl⟩

theorem UpToPlace.raised (h : UpToPlace layout core next) : next.raised = core.raised := by
  obtain ⟨bank, cursor, rfl, -⟩ := h
  rfl

theorem UpToPlace.halted (h : UpToPlace layout core next) : next.halted = core.halted := by
  obtain ⟨bank, cursor, rfl, -⟩ := h
  rfl

theorem UpToPlace.parameters (h : UpToPlace layout core next) :
    next.parameters = core.parameters := by
  obtain ⟨bank, cursor, rfl, -⟩ := h
  rfl

theorem UpToPlace.place (h : UpToPlace layout core next) (hcount : layout = .count) :
    next.bank = core.bank ∧ next.cursor = core.cursor := by
  obtain ⟨bank, cursor, rfl, hplace⟩ := h
  exact hplace hcount

/-- Who reads the status from the dump on sees what it would have been without. -/
theorem UpToPlace.status_later {later : Nat} (hlater : now ≤ later)
    (h : UpToPlace layout ((core.refresh now).setHalted false) next) :
    (next.refresh later).status = (core.refresh later).status := by
  have hsame := (h.refresh later).stands.status
  rw [refresh_setHalted, refresh_refresh hlater] at hsame
  exact hsame

theorem stands_setHalted (core : Core) (halted : Bool) : core.Stands (core.setHalted halted) :=
  ⟨rfl, rfl, rfl, rfl, rfl, rfl⟩

/-- A search that has begun stands where it is when its core is dumped. -/
theorem UpToPlace.stands_of_dump (hcore : core.Unready)
    (h : UpToPlace layout ((core.refresh now).setHalted false) next) :
    core.Stands next ∧ next.raised = core.raised := by
  rw [refresh_of_readyAt hcore.readyAt] at h
  exact ⟨(stands_setHalted core false).trans h.stands, h.raised⟩

/-- A search has been halted, stepped and dumped: one more nonce has been tried, unless the search was
    over before. -/
theorem Tries.round {task : Job} {tried ended : Nat} (h : Tries config task core tried ended)
    (hnext : UpToPlace layout ((((core.setHalted true).step config).refresh now).setHalted false) next) :
    ∃ later again, Tries config task next later again ∧ next.raised + ended = core.raised + again ∧
      later ≤ tried + 1 ∧ (again = 0 → later = tried + 1 ∧ ended = 0) := by
  cases h with
  | goesOn searching =>
    have hheld : Searching config task (core.setHalted true) tried :=
      searching.stands (stands_setHalted core true)
    obtain ⟨again, hstepped, hraised⟩ := hheld.step rfl
    obtain ⟨hstands, hsame⟩ := UpToPlace.stands_of_dump hstepped.unready hnext
    exact ⟨tried + 1, again, hstepped.stands hstands, hsame.trans hraised, Nat.le_refl _,
      fun _ => ⟨rfl, rfl⟩⟩
  | closed hended =>
    have hidle : (core.setHalted true).step config = core.setHalted true := by
      unfold step
      have hjob : (core.setHalted true).job = none := hended.job
      rw [hjob]
    rw [hidle] at hnext
    have hheld : Tries config task (core.setHalted true) tried 1 :=
      .closed (hended.stands (stands_setHalted core true))
    obtain ⟨hstands, hsame⟩ := UpToPlace.stands_of_dump hheld.unready hnext
    exact ⟨tried, 1, hheld.stands hstands, congrArg (· + 1) hsame, Nat.le_succ _, nofun⟩

end Core

namespace Rig

variable {config : CoreConfig} {rig : Rig} {past : List Event}

/-! ### Requests carried out at once -/

variable (config) in
/-- A request of whoever has the handle that is carried out with nothing in between. There is no reply
    if the handle is closed, if the lock is taken or if the layout lacks the request. -/
def carryOut (asked : Request) (rig : Rig) : Option Reply × Rig :=
  match rig.driver.held, rig.lock, Driver.program config.layout asked with
  | true, none, .ok program =>
    let (reply, core) := program.run (rig.window config) rig.core
    (some reply, { rig with core := core, driver := rig.driver.finishRequest asked })
  | _, _, _ => (none, rig)

/-- It is begun, makes its accesses and returns. -/
theorem carryOut_comes (asked : Request) (rig : Rig) :
    Comes config (fun move => move = .request asked ∨ move = .proceed) rig
      (rig.carryOut config asked).2 := by
  unfold carryOut
  split
  · next program hheld hfree hprogram =>
    have hbegins : rig.act config (.request asked) =
        { rig with lock := some (.request asked program) } := by
      simp [act, beginRequest, hheld, hfree, hprogram]
    have haccesses := @accesses_run config rig asked program rig.core
    -- The lock is taken from the first access to the return, and free again in the end.
    have hreturns : { rig with
        core := (program.run (rig.window config) rig.core).2
        lock := some (.request asked (.done (program.run (rig.window config) rig.core).1)) }.act config
          .proceed = { rig with
        core := (program.run (rig.window config) rig.core).2
        driver := rig.driver.finishRequest asked } := by
      refine (act_returns rfl).trans ?_
      simp only [hfree]
    refine .head ⟨_, .inl rfl, hbegins⟩
      (.tail (Relation.ReflTransGen.mono ?_ _ _ haccesses) ⟨_, .inr rfl, hreturns⟩)
    rintro before after ⟨-, rest, -, -, hact⟩
    exact ⟨_, .inr rfl, hact⟩
  · exact .refl

variable (config) in
def debugRound (rig : Rig) : Rig :=
  (((rig.act config (.setHalted true)).carryOut config .step).2.carryOut config .getDebugRegisters).2

section Requests

variable (hheld : rig.driver.held = true) (hfree : rig.lock = none)
include hheld hfree

theorem carryOut_step : (rig.carryOut config .step).2 = { rig with core := rig.core.step config } := by
  have hprogram : Driver.program config.layout .step =
      .ok (Driver.andDone (Driver.command config.layout Control.step)) := by
    cases config.layout <;> rfl
  have hrun : ((Driver.andDone (Driver.command config.layout Control.step)).run (rig.window config)
      rig.core).2 = rig.core.step config := Core.write_step
  simp only [carryOut, hheld, hfree, hprogram, hrun]
  rfl

theorem carryOut_dump : ∃ words core,
    rig.carryOut config .getDebugRegisters = (some (.registers words), { rig with core := core }) ∧
      Core.UpToPlace config.layout ((rig.core.refresh rig.now).setHalted false) core := by
  obtain ⟨program, words, core, hprogram, hrun, hcore⟩ := Core.run_dump config rig.now rig.core
  refine ⟨words, core, ?_, hcore⟩
  simp only [carryOut, hheld, hfree, hprogram, window, hrun]
  rfl

theorem debugRound_spec : ∃ core, rig.debugRound config = { rig with core := core } ∧
    Core.UpToPlace config.layout
      ((((rig.core.setHalted true).step config).refresh rig.now).setHalted false) core := by
  have hstep : ((rig.act config (.setHalted true)).carryOut config .step).2 =
      { rig with core := (rig.core.setHalted true).step config } :=
    @carryOut_step config (rig.act config (.setHalted true)) hheld hfree
  obtain ⟨words, core, hdump, hcore⟩ := @carryOut_dump config
    { rig with core := (rig.core.setHalted true).step config } hheld hfree
  refine ⟨core, ?_, hcore⟩
  rw [debugRound, hstep, hdump]

/-- Round by round one more nonce is tried, until the search is over. -/
theorem debugRounds_spec {task : Job} {tried : Nat}
    (h : Core.Searching config task rig.core tried) (rounds : Nat) :
    ∃ core later ended, (debugRound config)^[rounds] rig = { rig with core := core } ∧
      Core.Tries config task core later ended ∧ core.raised = rig.core.raised + ended ∧
      later ≤ tried + rounds ∧ (ended = 0 → later = tried + rounds) := by
  induction rounds with
  | zero => exact ⟨rig.core, tried, 0, rfl, .goesOn h, rfl, Nat.le_refl _, fun _ => rfl⟩
  | succ rounds ih =>
    obtain ⟨core, later, ended, hrounds, htries, hraised, hle, hgoing⟩ := ih
    obtain ⟨next, hround, hcore⟩ := @debugRound_spec config { rig with core := core } hheld hfree
    obtain ⟨last, again, hnext, hcount, hlast, hagain⟩ := htries.round hcore
    -- Interrupts and nonces add up over the rounds.
    refine ⟨next, last, again, ?_, hnext, by omega, by omega, fun hzero => ?_⟩
    · rw [Function.iterate_succ_apply', hrounds, hround]
    · obtain ⟨hone, hbefore⟩ := hagain hzero
      rw [hone, hgoing hbefore, Nat.add_assoc]

end Requests

/-- A dump that is carried out with nothing in between leaves everything but the core as it is, and of
    the core the parameters and the clock, the job, the counters, and the status for everybody who reads
    it from then on; only the selected bank and its cursor may move, where there are banks. But it lets
    the core run, halted or not, and so a step does nothing after a dump. If the core is halted again for
    each step, steps and dumps can alternate as long as anybody likes: each step tries the next nonce,
    until the search is over. -/
theorem dump_keeps_all_but_the_mode (h : Reached config rig past) (hheld : rig.driver.held = true)
    (hfree : rig.lock = none) :
    let dumped := (rig.carryOut config .getDebugRegisters).2
    (∃ words, (rig.carryOut config .getDebugRegisters).1 = some (.registers words)) ∧
    Comes config (fun move => move = .request .getDebugRegisters ∨ move = .proceed) rig dumped ∧
    dumped = { rig with core := dumped.core } ∧
    dumped.core.parameters = rig.core.parameters ∧
    (∀ now, rig.now ≤ now → (dumped.core.read config now (Driver.statusWord config.layout)).1 =
      (rig.core.read config now (Driver.statusWord config.layout)).1) ∧
    dumped.core.job = rig.core.job ∧ dumped.core.nonceCurrent = rig.core.nonceCurrent ∧
    dumped.core.nonceCandidate = rig.core.nonceCandidate ∧ dumped.core.run = rig.core.run ∧
    dumped.core.raised = rig.core.raised ∧
    (config.layout = .count → dumped.core.bank = rig.core.bank ∧ dumped.core.cursor = rig.core.cursor) ∧
    dumped.core.halted = false ∧ (dumped.carryOut config .step).2 = dumped ∧
    ∀ job, rig.core.job = some job → ∀ rounds,
      ∃ core tried ended, (debugRound config)^[rounds] rig = { rig with core := core } ∧
        Core.Tries config job core tried ended ∧ core.raised = rig.core.raised + ended ∧
        tried ≤ job.next + rounds ∧ (ended = 0 → tried = job.next + rounds) := by
  obtain ⟨words, core, hdump, hcore⟩ := @carryOut_dump config rig hheld hfree
  have hcomes := @carryOut_comes config .getDebugRegisters rig
  obtain ⟨hcurrent, hcandidate, hrun, hbank, hcursor⟩ := @Core.refresh_kept rig.core rig.now
  have hreleased : core.halted = false := hcore.halted
  have hstep := @carryOut_step config { rig with core := core } hheld hfree
  rw [Core.step_of_released hreleased] at hstep
  rw [hdump] at hcomes ⊢
  refine ⟨⟨words, rfl⟩, hcomes, rfl, ?_, ?_, ?_, ?_, ?_, ?_, ?_, ?_, hreleased, hstep, ?_⟩
  · exact hcore.parameters.trans Core.refresh_parameters
  · intro now hlater
    rw [Driver.read_statusWord, Driver.read_statusWord]
    exact congrArg Status.bits (hcore.status_later hlater)
  · exact hcore.stands.job.trans Core.refresh_job
  · exact hcore.stands.nonceCurrent.trans hcurrent
  · exact hcore.stands.nonceCandidate.trans hcandidate
  · exact hcore.stands.run.trans hrun
  · exact hcore.raised.trans Core.refresh_raised
  · intro hcount
    obtain ⟨hsame, hsame'⟩ := hcore.place hcount
    exact ⟨hsame.trans hbank, hsame'.trans hcursor⟩
  · intro job hjob rounds
    exact debugRounds_spec hheld hfree (h.engine.searching hjob) rounds

/-! A core that accepts next to nothing is halted before it is started. -/

def fourNonces : CoreConfig := { layout := .count, latency := 0, lastNonce := 3, batch := 1 }

def heldRun : Rig × List Event :=
  follow fourNonces
    ([.acquire] ++ carryingOut .reset 1 ++ carryingOut (.setLeadingZeros 255) 1 ++ [.setHalted true] ++
      carryingOut .start 1) {} []

theorem held_core_is_halted_for_each_step :
    Reached fourNonces heldRun.1 heldRun.2 ∧ heldRun.1.core.halted = true ∧
      (∃ job, heldRun.1.core.job = some job ∧
        (heldRun.1.carryOut fourNonces .getDebugRegisters).2.core.job = some job) ∧
      (heldRun.1.carryOut fourNonces .getDebugRegisters).2.core.halted = false ∧
      (heldRun.1.carryOut fourNonces .getDebugRegisters).2.core.status = .running ∧
      ((debugRound fourNonces)^[2] heldRun.1).core.nonceCurrent.toNat = 2 := by
  have hreached : Reached fourNonces heldRun.1 heldRun.2 := Reached.bound.follow _
  have hrun : heldRun.1.driver.held = true ∧ heldRun.1.lock.isNone ∧ heldRun.1.core.halted = true ∧
      heldRun.1.core.job = some (heldRun.1.core.newJob fourNonces) ∧
      (heldRun.1.carryOut fourNonces .getDebugRegisters).2.core.status = .running ∧
      ((debugRound fourNonces)^[2] heldRun.1).core.job.isSome := by
    decide +kernel
  obtain ⟨hheld, hfree, hhalted, hjob, hstatus, htwice⟩ := hrun
  obtain ⟨-, -, -, -, -, hdumped, -, -, -, -, -, hreleased, -, hrounds⟩ :=
    dump_keeps_all_but_the_mode hreached hheld (Option.isNone_iff_eq_none.mp hfree)
  obtain ⟨core, tried, ended, htwo, htries, -, -, hgoing⟩ := hrounds _ hjob 2
  rw [htwo] at htwice ⊢
  refine ⟨hreached, hhalted, ⟨_, hjob, hdumped.trans hjob⟩, hreleased, hstatus, ?_⟩
  cases htries with
  | closed hended =>
    have hnone : core.job = none := hended.job
    rw [hnone] at htwice
    cases htwice
  | goesOn searching => exact searching.current.trans (hgoing rfl)

/-- The core is stepped and dumped, and then it is not halted any more, and the next step does nothing. -/
theorem dump_lets_a_held_core_run :
    Reached fourNonces heldRun.1 heldRun.2 ∧ heldRun.1.driver.held = true ∧ heldRun.1.lock.isNone ∧
      heldRun.1.core.halted = true ∧ heldRun.1.core.status = .running ∧
      let stepped := (heldRun.1.carryOut fourNonces .step).2
      let dumped := (stepped.carryOut fourNonces .getDebugRegisters).2
      let again := (dumped.carryOut fourNonces .step).2
      stepped.core.nonceCurrent = 1 ∧ ¬ dumped.core.halted = stepped.core.halted ∧
        again.core.status = .running ∧ ¬ again.core.nonceCurrent = dumped.core.nonceCurrent + 1 := by
  have hreached : Reached fourNonces heldRun.1 heldRun.2 := Reached.bound.follow _
  refine ⟨hreached, ?_⟩
  decide +kernel

end Rig

end NonceSearch
