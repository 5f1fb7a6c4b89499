import NonceSearch.Proofs.Calls

/-!
# From the opening to the search

A scan opens the device, programs the clock if it is told to, resets the core and asks until it is
ready, loads the parameters and starts the search. Call by call this goes through, whatever the core
was doing before the reset. The device is ready in time: it is asked again and again, time goes on,
and what a scan allows for a reset is enough for its latency and for one such question besides. A
question that took longer could find the device not ready, and come back after the deadline.
-/

namespace NonceSearch

namespace Trial

variable {config : CoreConfig} {scan : Scan} {schedule : Nat → Move} {start : Trial}

variable (config scan) in
structure Opening (trial : Trial) : Prop where
  present : trial.scan = { scan with session := .unknown, phase := .opening }
  reached : ∃ past, Rig.Reached config trial.rig past
  held : trial.rig.driver.held = false

variable (config scan) in
/-- The scan begins a call of which nothing is known but that the device is open. -/
def Begun (call : ScanCall) : Trial → Prop :=
  In config (fun _ _ => True) (fun _ => True) { scan with session := .unknown, phase := .calling call }

theorem Opening.turn {trial : Trial} (h : Opening config scan trial) :
    (∃ mhz, scan.config.clockSpeed = some mhz ∧
      Begun config scan (.clock mhz) (trial.act config .scan)) ∨
      Begun config scan .reset (trial.act config .scan) := by
  obtain ⟨rig, present, since⟩ := trial
  obtain ⟨hscan, ⟨past, hreached⟩, hheld⟩ := h
  dsimp only at hscan hreached hheld
  subst hscan
  have hreached' := hreached.move .acquire
  have hact : rig.act config .acquire = { rig with driver := { rig.driver with held := true } } := by
    simp [Rig.act, DriverState.openHandle, hheld]
  have hfree : ∀ asked rest, rig.lock ≠ some (.request asked rest) := by
    intro asked rest hlock
    rw [hreached.held_of_request hlock] at hheld
    exact absurd hheld (by decide)
  have hturn := @goOn_opening config rig { scan with session := .unknown } since hheld
  rw [act, hturn]
  rw [hact] at hreached' ⊢
  cases hclock : scan.config.clockSpeed with
  | some mhz =>
    refine .inl ⟨mhz, rfl, ?_, ⟨_, hreached', trivial⟩, rfl, hfree, trivial, Nat.le_refl _⟩
    simp only [Scan.opened, hclock]
    rfl
  | none =>
    refine .inr ⟨?_, ⟨_, hreached', trivial⟩, rfl, hfree, trivial, Nat.le_refl _⟩
    simp only [Scan.opened, hclock]
    rfl

variable (config scan) in
/-- The scan is about to ask whether the core is ready, which it will be so long before the deadline. -/
def Polling (lag deadline : Nat) : Trial → Prop :=
  In config Rig.Untaken (Core.Cleared (deadline - lag))
    { scan with session := .resetting, phase := .calling (.poll deadline) }

variable (config scan) in
/-- The core has not been ready by some moment before the deadline, and the scan waits before it asks
    again. -/
def Pausing (lag deadline : Nat) : Trial → Prop :=
  In config Rig.Untaken (Core.Cleared (deadline - lag))
    { scan with session := .resetting, phase := .pausing deadline }

/-- A look whether the core is ready is answered within the lag. -/
theorem Prompt.within {lag : Nat} (hprompt : Prompt config lag schedule start) (deadline : Nat) :
    Within config schedule start (.poll deadline) fun since ends => ends ≤ since + lag := by
  intro n hscan hphase
  have hlook := hprompt.look n hscan
  rw [tardy, hphase] at hlook
  simpa using hlook

/-- A pause goes on until its time is over. -/
theorem Pausing.step {trial : Trial} {lag deadline : Nat} (h : Pausing config scan lag deadline trial)
    (move : Move) :
    Polling config scan lag deadline (trial.act config move) ∨
      Pausing config scan lag deadline (trial.act config move) ∧
        (trial.act config move).since = trial.since ∧
        (move = .scan → trial.rig.now < trial.since + scan.config.readyPoll) := by
  by_cases hmove : move = .scan
  · subst hmove
    obtain ⟨rig, present, since⟩ := trial
    obtain ⟨hscan, hreached, hheld, hfree, hcore, hsince⟩ := h
    dsimp only at hscan
    subst hscan
    have hturn := @goOn_pausing config rig { scan with session := .resetting } since deadline
    rw [act, hturn]
    split
    · exact .inl ⟨rfl, hreached, hheld, hfree, hcore, Nat.le_refl _⟩
    · next hearly => exact .inr ⟨⟨rfl, hreached, hheld, hfree, hcore, hsince⟩, rfl,
        fun _ => Nat.lt_of_not_le hearly⟩
  · obtain ⟨hin, hsince, -⟩ :=
      In.other h .untaken (@Rig.Kept.cleared config scan.work (deadline - lag)) hmove
    exact .inr ⟨hin, hsince, fun hscan => absurd hscan hmove⟩

variable (config scan) in
/-- The scan waits for a completion, and the core is at its search or done with it. -/
def Waiting (holds : Core → Prop) (session : SessionState) (last : Bool) : Trial → Prop :=
  In config Rig.Untaken holds { scan with session := session, phase := .waiting last }

end Trial

end NonceSearch
