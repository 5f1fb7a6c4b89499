import NonceSearch.Proofs.Backlog
import NonceSearch.Proofs.Liveness
import NonceSearch.Proofs.Loading

/-!
# Turns

What the next turn of a scan comes to depends on its phase alone: it begins a call, goes on with one,
or is answered. Between its turns the others have theirs. They keep whatever they keep of the core,
they never touch a request that has the driver's lock, and what is in the queue stays there.
-/

namespace NonceSearch

/-! ### The turns of the others -/

namespace Rig

/-- The moves that are not the scan's. -/
inductive Other : Move → Prop where
  | pass (duration : Nat) : Other (.pass duration)
  | serve : Other .serve
  | search (run : Nat) : Other (.search run)

variable {config : CoreConfig} {work : WorkItem} {rig : Rig} {past : List Event} {move : Move}

theorem Other.not_read (h : Other move) (room : Nat) : move ≠ .read room := by
  cases h <;> exact nofun

theorem Other.held (h : Other move) : (rig.act config move).driver.held = rig.driver.held := by
  cases h <;> exact act_held rig nofun nofun

/-- A request that has the lock keeps it, and no other gets it. -/
theorem Other.lock (h : Other move) (asked : Request) (rest : Bus Reply) :
    (rig.act config move).lock = some (.request asked rest) ↔
      rig.lock = some (.request asked rest) := by
  cases h with
  | pass duration => rfl
  | serve =>
    simp only [act, Rig.serve, Rig.answerCall]
    split
    · next hlock => simp [hlock]
    · next hlock => simp [hlock]
    · split
      · split
        · next hlock => simp [hlock]
        · rfl
      · split <;> rfl
  | search run =>
    simp only [act, Rig.search]
    split
    · split <;> rfl
    · rfl

/-- What is in the queue stays there. -/
theorem Other.queue (h : Other move) (hready : rig.driver.queue.isReady) :
    (rig.act config move).driver.queue.isReady := by
  cases h with
  | pass duration => exact hready
  | serve =>
    simp only [act, Rig.serve, Rig.answerCall]
    split
    · next report hlock =>
      cases report with
      | none => exact hready
      | some message => simp [DriverState.finishService, CompletionQueue.isReady]
    · exact hready
    · split
      · split <;> exact hready
      · split <;> exact hready
  | search run =>
    simp only [act, Rig.search]
    split
    · split <;> exact hready
    · exact hready

/-- What a turn of the service thread does to the core. -/
theorem Reached.serve_core (h : Reached config rig past) :
    (rig.act config .serve).core = rig.core ∨ (rig.act config .serve).core = rig.core.refresh rig.now ∨
      rig.core.Change (rig.act config .serve).core ∧ ∃ message started,
        Epoch rig.core [.latched message, .started started] := by
  simp only [act, Rig.serve, Rig.answerCall]
  split
  · exact .inl rfl
  · next rest hrest hlock => exact .inr (h.sound.inspected hlock hrest rfl)
  · split
    · split <;> exact .inl rfl
    · split <;> exact .inl rfl

/-- Whatever is kept of the core is kept. -/
theorem Reached.other_kept (h : Reached config rig past) {holds : Core → Prop}
    (hkept : Kept config work holds) (hother : Other move) (hcore : holds rig.core) :
    holds (rig.act config move).core := by
  cases hother with
  | pass duration => exact hcore
  | serve =>
    rcases h.serve_core with hsame | hrefresh | ⟨hchange, message, started, hepoch⟩
    · rwa [hsame]
    · rw [hrefresh]
      exact hkept.refreshing _ rig.now hcore
    · exact hkept.reporting _ _ message started hcore hepoch hchange
  | search run => exact hkept.searching _ _ hcore (h.search_meanwhile work run)

/-- While a request has the lock, only the searchers reach the core. -/
theorem Reached.other_meanwhile (h : Reached config rig past) (hother : Other move) {asked : Request}
    {rest : Bus Reply} (hlock : rig.lock = some (.request asked rest)) :
    rig.core.Meanwhile config work (rig.act config move).core := by
  cases hother with
  | pass duration => exact .refl _
  | serve =>
    simp only [act, Rig.serve, Rig.answerCall, hlock]
    split
    · exact .refl _
    · split <;> exact .refl _
  | search run => exact h.search_meanwhile work run

/-- Others make the backlog smaller, or leave it, and the lock and the queue with it. -/
theorem Reached.other_backlog (h : Reached config rig past)
    (hfree : ∀ asked rest, rig.lock ≠ some (.request asked rest)) (hother : Other move) :
    (rig.act config move).backlog < rig.backlog ∨ (rig.act config move).backlog = rig.backlog ∧
      (rig.act config move).lock = rig.lock ∧ (rig.act config move).driver = rig.driver := by
  cases hother with
  | pass duration => exact .inr ⟨rfl, rfl, rfl⟩
  | serve =>
    rcases h.serve_backlog hfree with hless | ⟨hsame, -⟩
    · exact .inl hless
    · refine .inr ?_
      simp only [act]
      rw [hsame]
      exact ⟨rfl, rfl, rfl⟩
  | search run =>
    rcases lt_or_eq_of_le (@search_backlog config rig run) with hless | hsame
    · exact .inl hless
    · refine .inr ⟨hsame, ?_⟩
      simp only [act, Rig.search]
      split
      · split <;> exact ⟨rfl, rfl⟩
      · exact ⟨rfl, rfl⟩

end Rig

namespace Trial

variable {config : CoreConfig}

/-- A move that is not the scan's is one of the others'. -/
theorem act_other (trial : Trial) {move : Move} (hmove : move ≠ .scan) : ∃ other, Rig.Other other ∧
    trial.act config move = { trial with rig := trial.rig.act config other } ∧
    trial.rig.now ≤ (trial.rig.act config other).now := by
  cases move with
  | scan => exact absurd rfl hmove
  | serve => exact ⟨.serve, .serve, rfl, (@Rig.act_now config trial.rig .serve nofun).ge⟩
  | search run =>
    exact ⟨.search run, .search run, rfl, (@Rig.act_now config trial.rig (.search run) nofun).ge⟩
  | pass duration => exact ⟨.pass duration, .pass duration, rfl, Nat.le_add_right _ _⟩

end Trial

/-! ### The turns of the scan -/

/-- A status call that is answered with a word succeeds with it. -/
theorem Scan.called_status {scan : Scan} {call : ScanCall} (hcall : scan.sessionCall call = .status)
    (bits : UInt32) (moment : Moment) :
    scan.called call (.ok (.word bits)) moment =
      Scan.proceed { scan with session := SessionCall.status.advance scan.session (.word bits) } call
        (.word bits) moment := by
  unfold called
  rw [hcall]
  rfl

namespace Trial

variable {config : CoreConfig}

section Turns

theorem goOn_answered {trial : Trial} {rig : Rig} {answer : trial.scan.demand.Answer}
    (h : trial.rig.answer? config trial.since trial.scan.demand = (rig, some answer)) :
    trial.goOn config =
      { rig := rig, scan := (trial.scan.resume ⟨rig.now, false⟩ answer).1, since := rig.now } := by
  unfold goOn
  rw [h]

theorem goOn_unanswered {trial : Trial} {rig : Rig}
    (h : trial.rig.answer? config trial.since trial.scan.demand = (rig, none)) :
    trial.goOn config = { trial with rig := rig } := by
  unfold goOn
  rw [h]

variable {rig : Rig} {scan : Scan} {since : Nat}

theorem goOn_opening (hfree : rig.driver.held = false) :
    goOn config ⟨rig, { scan with phase := .opening }, since⟩ =
      ⟨rig.act config .acquire, (Scan.opened { scan with phase := .opening } (.ok ())).1, rig.now⟩ := by
  have hanswer : rig.answer? config since .acquire = (rig.act config .acquire, some (.ok ())) := by
    simp [Rig.answer?, DriverState.openHandle, hfree]
  exact goOn_answered hanswer

section Calls

variable {call : ScanCall} {program : Bus Reply}
  (hprogram : Driver.program config.layout (scan.sessionCall call).request = .ok program)
include hprogram

theorem goOn_begins (hlock : rig.lock = none) :
    goOn config ⟨rig, { scan with phase := .calling call }, since⟩ =
      ⟨rig.act config (.request (scan.sessionCall call).request), { scan with phase := .calling call },
        since⟩ := by
  have hanswer : rig.answer? config since (.request (scan.sessionCall call).request) =
      (rig.act config (.request (scan.sessionCall call).request), none) := by
    simp [Rig.answer?, hprogram, hlock]
  exact goOn_unanswered hanswer

theorem goOn_blocked {rest : Bus (Option CompletionMessage)} (hlock : rig.lock = some (.service rest)) :
    goOn config ⟨rig, { scan with phase := .calling call }, since⟩ =
      ⟨rig, { scan with phase := .calling call }, since⟩ := by
  have hanswer : rig.answer? config since (.request (scan.sessionCall call).request) = (rig, none) := by
    simp [Rig.answer?, hprogram, hlock]
  exact goOn_unanswered hanswer

theorem goOn_accesses {asked : Request} {rest : Bus Reply}
    (hlock : rig.lock = some (.request asked rest))
    (hrest : ∀ reply, rest ≠ .done reply) :
    goOn config ⟨rig, { scan with phase := .calling call }, since⟩ =
      ⟨rig.act config .proceed, { scan with phase := .calling call }, since⟩ := by
  have hanswer : rig.answer? config since (.request (scan.sessionCall call).request) =
      (rig.act config .proceed, none) := by
    cases rest with
    | done reply => exact absurd rfl (hrest reply)
    | _ => simp [Rig.answer?, hprogram, hlock]
  exact goOn_unanswered hanswer

theorem goOn_returns {asked : Request} {reply : Reply}
    (hlock : rig.lock = some (.request asked (.done reply))) :
    goOn config ⟨rig, { scan with phase := .calling call }, since⟩ =
      ⟨rig.act config .proceed,
        (Scan.called { scan with phase := .calling call } call (.ok reply) ⟨rig.now, false⟩).1,
        rig.now⟩ := by
  have hanswer : rig.answer? config since (.request (scan.sessionCall call).request) =
      (rig.act config .proceed, some (.ok reply)) := by
    simp [Rig.answer?, hprogram, hlock]
  have hnow : (rig.act config .proceed).now = rig.now := by simp [Rig.act, Rig.proceed, hlock]
  have hgoOn := @goOn_answered config ⟨rig, { scan with phase := .calling call }, since⟩ _ _ hanswer
  rw [hnow] at hgoOn
  exact hgoOn

end Calls

theorem goOn_pausing {deadline : Nat} :
    goOn config ⟨rig, { scan with phase := .pausing deadline }, since⟩ =
      if since + scan.config.readyPoll ≤ rig.now then
        ⟨rig, (Scan.enter { scan with phase := .pausing deadline } (.poll deadline)).1, rig.now⟩
      else ⟨rig, { scan with phase := .pausing deadline }, since⟩ := by
  by_cases hdue : since + scan.config.readyPoll ≤ rig.now
  · rw [if_pos hdue]
    have hanswer : rig.answer? config since (.pause scan.config.readyPoll) = (rig, some ()) :=
      congrArg (Prod.mk rig) (if_pos hdue)
    exact goOn_answered hanswer
  · rw [if_neg hdue]
    have hanswer : rig.answer? config since (.pause scan.config.readyPoll) = (rig, none) :=
      congrArg (Prod.mk rig) (if_neg hdue)
    exact goOn_unanswered hanswer

theorem goOn_announced {last : Bool} (hready : rig.driver.queue.isReady) :
    goOn config ⟨rig, { scan with phase := .waiting last }, since⟩ =
      ⟨rig, { scan with phase := .reading last }, rig.now⟩ := by
  have hanswer (timeout : Nat) :
      rig.answer? config since (.readable timeout) = (rig, some (some (.ok ()))) :=
    congrArg (Prod.mk rig) (if_pos hready)
  exact @goOn_answered config ⟨rig, { scan with phase := .waiting last }, since⟩ rig (some (.ok ()))
    (hanswer _)

section Waits

variable {last : Bool} (hready : rig.driver.queue.isReady = false)
include hready

/-- A wait that has nothing to read ends with the tick or the grace. -/
theorem goOn_lapses
    (hdue : since + (if last then scan.config.stopGrace else scan.config.waitTick) ≤ rig.now) :
    goOn config ⟨rig, { scan with phase := .waiting last }, since⟩ =
      ⟨rig, (Scan.lapse { scan with phase := .waiting last } last ⟨rig.now, false⟩).1, rig.now⟩ := by
  have hqueue : ¬ rig.driver.queue.isReady = true := by simp [hready]
  exact @goOn_answered config ⟨rig, { scan with phase := .waiting last }, since⟩ rig none
    (congrArg (Prod.mk rig) ((if_neg hqueue).trans (if_pos hdue)))

theorem goOn_waits
    (hdue : ¬ since + (if last then scan.config.stopGrace else scan.config.waitTick) ≤ rig.now) :
    goOn config ⟨rig, { scan with phase := .waiting last }, since⟩ =
      ⟨rig, { scan with phase := .waiting last }, since⟩ := by
  have hqueue : ¬ rig.driver.queue.isReady = true := by simp [hready]
  exact @goOn_unanswered config ⟨rig, { scan with phase := .waiting last }, since⟩ rig
    (congrArg (Prod.mk rig) ((if_neg hqueue).trans (if_neg hdue)))

end Waits

end Turns

end Trial

end NonceSearch
