import NonceSearch.Proofs.Completions
import NonceSearch.Proofs.SearchVerdict

/-!
# What goes on while a program holds the lock

Searchers of old runs are still hashing when a new search starts, and come back to find the core in a
run of its own; a searcher of the present run comes back with a batch of the present job
(`Rig.Hashed`). So while somebody else has a turn, a core without a job stays as it is, and the search
for a work item remains one (`Core.Meanwhile`).
-/

namespace NonceSearch

namespace Rig

variable {config : CoreConfig}

/-! ### What the searchers are hashing -/

/-- What the searchers are hashing: nothing of a run to come, and in the present run nothing but the
    job of the core. -/
structure Hashed (rig : Rig) : Prop where
  old : ∀ run job, rig.hashing run = some job → run ≤ rig.core.run
  present : ∀ job, rig.hashing rig.core.run = some job → rig.core.readyAt = none ∧
    rig.core.status ≠ .ready ∧ ∀ now, rig.core.job = some now → now = { job with next := now.next }

section Hashed

variable {rig next : Rig}

theorem Hashed.of_change (h : Hashed rig)
    (hchange : rig.core.Change next.core) (hhashing : ∀ run job, next.hashing run = some job →
      rig.hashing run = some job) : Hashed next where
  old run job hjob := by
    rw [hchange.run]
    exact h.old run job (hhashing run job hjob)
  present job hjob := by
    rw [hchange.run] at hjob
    obtain ⟨hready, hstatus, hsame⟩ := h.present job (hhashing _ job hjob)
    cases hchange with
    | kept same =>
      rw [same.readyAt, same.status, same.job]
      exact ⟨hready, hstatus, hsame⟩
    | called same =>
      rw [same.readyAt, same.status, same.job]
      exact ⟨hready, hstatus, hsame⟩
    | readied pending same => simp [hready] at pending
    | started started ready same =>
      rcases ready with ready | ready
      · exact absurd ready hstatus
      · simp [hready] at ready
    | advanced searched reached current searching same =>
      rw [same.readyAt, same.status, same.job]
      refine ⟨hready, hstatus, fun now hnow => ?_⟩
      obtain rfl := Option.some.inj hnow
      rw [hsame searched searching]
    | ended searched outcome current candidate searching outcomes same =>
      have houtcome : outcome ≠ .ready := by rcases outcomes with rfl | rfl <;> decide
      rw [same.readyAt, same.status, same.job]
      exact ⟨hready, houtcome, nofun⟩

theorem Hashed.of_new_run (h : Hashed rig) (hrun : rig.core.run < next.core.run)
    (hhashing : next.hashing = rig.hashing) : Hashed next where
  old run job hjob := by
    rw [hhashing] at hjob
    exact Nat.le_of_lt (Nat.lt_of_le_of_lt (h.old run job hjob) hrun)
  present job hjob := by
    rw [hhashing] at hjob
    exact absurd (h.old _ job hjob) (Nat.not_le_of_lt hrun)

theorem act_hashing (rig : Rig) {move : Move} (hmove : ∀ run, move ≠ .search run) :
    (rig.act config move).hashing = rig.hashing := by
  cases move with
  | search run => exact absurd rfl (hmove run)
  | release =>
    simp only [act]
    split <;> rfl
  | request asked =>
    simp only [act, beginRequest]
    split <;> rfl
  | proceed =>
    simp only [act, proceed]
    split <;> rfl
  | serve =>
    simp only [act, serve, answerCall]
    split
    · rfl
    · rfl
    · split
      · split <;> rfl
      · split <;> rfl
  | read room =>
    simp only [act]
    split <;> rfl
  | _ => rfl

theorem Hashed.search (h : Hashed rig) (hcore : rig.core.Consistent) (run : Nat) :
    Hashed (rig.search config run) := by
  unfold Rig.search
  split
  · next hidle =>
    split
    · next job htaken =>
      obtain ⟨rfl, hjob, -⟩ := Core.take_batch htaken
      have hsome : rig.core.job.isSome := by rw [hjob]; rfl
      constructor
      · intro other found hfound
        by_cases hsame : other = rig.core.run
        · exact Nat.le_of_eq hsame
        · exact h.old other found (by simpa [Function.update_of_ne hsame] using hfound)
      · intro found hfound
        obtain rfl : job = found := by simpa using hfound
        refine ⟨hcore.readyAt_of_job hsome, ?_, fun now hnow => ?_⟩
        · rw [show rig.core.status = .running from hcore.running.mp hsome]
          decide
        · have hnow : rig.core.job = some now := hnow
          rw [hjob] at hnow
          rw [Option.some.inj hnow]
    · exact h
  · next job hhashing =>
    apply h.of_change (Core.commit_change run _ _)
    intro other found hfound
    by_cases hsame : other = run
    · subst hsame
      simp at hfound
    · simpa [Function.update_of_ne hsame] using hfound

/-- What the searchers are hashing, in every rig that can be reached. -/
theorem Reached.hashed {past : List Event} (h : Reached config rig past) : Hashed rig := by
  induction h with
  | bound => exact ⟨nofun, nofun⟩
  | @move rig past move hreached ih =>
    by_cases hsearch : ∃ run, move = .search run
    · obtain ⟨run, rfl⟩ := hsearch
      exact ih.search hreached.sound.consistent run
    · have hhashing := @act_hashing config rig move fun run hmove => hsearch ⟨run, hmove⟩
      rcases hreached.sound.core_step (act_step rig move) with hchange | ⟨-, hstall⟩ | ⟨-, -, hreset⟩
      · exact ih.of_change hchange fun run job hjob => hhashing ▸ hjob
      · exact ih.of_new_run (by rw [hstall]; exact Nat.lt_succ_self _) hhashing
      · exact ih.of_new_run (by rw [hreset, Core.reset_run]; exact Nat.lt_succ_self _) hhashing

end Hashed

/-! ### Handles -/

/-- Only whoever has the handle has a request going on. -/
theorem Reached.held_of_request {rig : Rig} {past : List Event} (h : Reached config rig past)
    {asked : Request} {rest : Bus Reply} (hlock : rig.lock = some (.request asked rest)) :
    rig.driver.held = true := by
  induction h generalizing asked rest with
  | bound => cases hlock
  | @move rig past move hreached ih =>
    by_cases hacquire : move = .acquire
    · subst hacquire
      simp only [act, DriverState.openHandle]
      split
      · next hheld => exact hheld
      · rfl
    · by_cases hrelease : move = .release
      · subst hrelease
        simp only [act] at hlock ⊢
        split at hlock
        · exact ih hlock
        · next hother => exact absurd hlock (hother _ _)
      · rw [act_held rig hacquire hrelease]
        have hstep := @act_step config rig move
        generalize rig.act config move = next at hstep hlock
        generalize rig.driverEvents move = happened at hstep
        cases hstep with
        | elsewhere core lock => exact ih (lock ▸ hlock)
        | begins held => exact held
        | accesses lock => exact ih lock
        | reads => exact ih hlock
        | takes => exact ih hlock
        | unlocked => exact ih hlock
        | stalls => exact ih hlock
        | returns => cases hlock
        | answers => cases hlock
        | inspects => cases hlock
        | reports => cases hlock

/-! ### Turns of others -/

/-- The turn of a searcher, whatever run it is of. -/
theorem Reached.search_meanwhile {rig : Rig} {past : List Event} (h : Reached config rig past)
    (work : WorkItem) (run : Nat) :
    rig.core.Meanwhile config work (rig.search config run).core := by
  unfold Rig.search
  split
  · split <;> exact .refl _
  · next job hhashing =>
    dsimp only
    constructor
    · intro hnone
      unfold Core.commit
      rw [if_pos (.inr (by simp [hnone]))]
    · intro n hunderway
      by_cases hturn : rig.core.run = run ∧ n = job.next
      · obtain ⟨rfl, rfl⟩ := hturn
        have hsame : work.job config.layout job.next = job :=
          (h.hashed.present job hhashing).2.2 _ hunderway.job
        have hcommit := hunderway.commit
        rw [hsame] at hcommit
        rcases hcommit with ⟨later, hlater, hnext⟩ | hover
        · exact .inl ⟨later, Nat.le_of_lt hlater, hnext⟩
        · exact .inr hover
      · left
        refine ⟨n, Nat.le_refl n, ?_⟩
        unfold Core.commit
        rw [if_pos]
        · exact hunderway
        · by_contra hboth
          simp only [ne_eq, not_or, Decidable.not_not, hunderway.job, WorkItem.job, Option.map_some,
            Option.some.injEq] at hboth
          exact hturn hboth

/-- The turn of a service that has the lock: it notices that a reset is over, or reports a search that
    is over. -/
theorem Sound.inspected {rig : Rig} {past : List Event} (h : Sound config rig past)
    {rest left : Bus (Option CompletionMessage)} {core : Core} (hlock : rig.lock = some (.service rest))
    (hrest : ∀ report, rest ≠ .done report)
    (haccess : rest.advance (rig.window config) rig.core = (left, core)) :
    core = rig.core.refresh rig.now ∨ rig.core.Change core ∧ ∃ message started,
      Epoch rig.core [.latched message, .started started] := by
  have hholding := h.holding
  rw [hlock] at hholding
  have hchange := (hholding.access_service h.consistent hrest rig.now haccess).2.2.1
  generalize searches past = history at hholding
  cases hholding with
  | looking epoch =>
    left
    rw [Driver.service_eq] at haccess
    simp only [Bus.advance, window, Core.registerFile, Driver.read_statusWord, Prod.mk.injEq] at haccess
    exact haccess.2.symm
  | spurious epoch => exact absurd rfl (hrest _)
  | reporting writes secures epoch => exact .inr ⟨hchange, _, _, epoch⟩

variable (config) in
/-- What holds of the core, and of everything that the others make of it. -/
structure Kept (work : WorkItem) (holds : Core → Prop) : Prop where
  searching : ∀ core next, holds core → core.Meanwhile config work next → holds next
  refreshing : ∀ core now, holds core → holds (core.refresh now)
  reporting : ∀ core next message started, holds core →
    Epoch core [.latched message, .started started] → core.Change next → holds next

end Rig

end NonceSearch
