import NonceSearch.Proofs.Likeness
import NonceSearch.Proofs.Plays

/-!
# The layouts are interchangeable

Every schedule can be gone by on either layout, and what comes of it is the same on both: the session's
state, the results of its calls, the messages, the counters and the words that it can read. There are
two differences. A difficulty that is loaded out of turn is refused by the name that its request has on
the layout; and once an item with the target zero or one has been loaded, the core of the count layout
may find a nonce whose digest is one.
-/

namespace NonceSearch

/-- What holds of a program that is done, and of one if it holds of what an access leaves of it, holds of
    every program. -/
theorem Bus.access_induction {α σ : Type} {motive : Bus α → Prop}
    (done : ∀ value, motive (.done value))
    (access : ∀ rest : Bus α, (∀ value, rest ≠ .done value) →
      (∀ (file : RegisterFile σ) (s : σ), motive (rest.advance file s).1) → motive rest)
    (rest : Bus α) : motive rest := by
  induction rest with
  | done value => exact done value
  | read word next ih => exact access _ nofun fun file s => ih _
  | write word value next ih => exact access _ nofun fun file s => ih
  | writeByte word value next ih => exact access _ nofun fun file s => ih

namespace Play

variable {config : CoreConfig} {play : Play}

/-! ### Schedules -/

/-- The schedule can go on with a deal. -/
def Ready (config : CoreConfig) (play : Play) (deal : Deal) : Prop :=
  ∃ next, Reached config next ∧ next.schedule = play.schedule ∧
    next.tenure.rig.transfers config.layout deal = false

/-- It can when it can after a transfer. -/
theorem Reached.ready_of_transfer (h : Reached config play) {deal : Deal}
    (hafter : play.tenure.rig.transfers config.layout deal = true →
      (play.act config deal).Ready config deal) : play.Ready config deal := by
  by_cases htransfers : play.tenure.rig.transfers config.layout deal = true
  · obtain ⟨next, hreached, hschedule, hvisible⟩ := hafter htransfers
    refine ⟨next, hreached, hschedule.trans ?_, hvisible⟩
    simp [act, htransfers]
  · exact ⟨play, h, rfl, Bool.not_eq_true _ ▸ htransfers⟩

theorem Reached.ready_of_request (h : Reached config play) {asked : Request} {rest : Bus Reply}
    (hlock : play.tenure.rig.lock = some (.request asked rest)) : play.Ready config .proceed := by
  induction rest using @Bus.access_induction _ Core generalizing play with
  | done reply => exact ⟨play, h, rfl, by simp [Rig.transfers, hlock]⟩
  | access rest hrest ih =>
    refine h.ready_of_transfer fun _ => ih (play.tenure.rig.window config) play.tenure.rig.core
      (h.deal .proceed) ?_
    have hgoes : (play.act config .proceed).tenure.rig = play.tenure.rig.act config .proceed :=
      Tenure.goOn_rig .proceed
    rw [hgoes, Rig.act_access hlock hrest]

theorem Reached.ready_of_service (h : Reached config play) {rest : Bus (Option CompletionMessage)}
    (hlock : play.tenure.rig.lock = some (.service rest)) : play.Ready config .serve := by
  induction rest using @Bus.access_induction _ Core generalizing play with
  | done report => exact ⟨play, h, rfl, by simp [Rig.transfers, hlock]⟩
  | access rest hrest ih =>
    refine h.ready_of_transfer fun _ => ih (play.tenure.rig.window config) play.tenure.rig.core
      (h.deal .serve) ?_
    have hgoes : (play.act config .serve).tenure.rig = play.tenure.rig.act config .serve := rfl
    rw [hgoes, Rig.act_inspects hlock hrest]

/-- A schedule can always go on. -/
theorem Reached.ready (h : Reached config play) (deal : Deal) : play.Ready config deal := by
  cases htransfers : play.tenure.rig.transfers config.layout deal with
  | false => exact ⟨play, h, rfl, htransfers⟩
  | true =>
    rcases h.fits.tenure.of_transfers htransfers with ⟨ask, rest, rfl, -, hlock, -⟩
      | ⟨bank, access, rfl, -, hlock, -⟩
    · exact h.ready_of_request hlock
    · exact h.ready_of_service hlock

def carryOut (ask : Ask) (accesses : Nat) : List Deal :=
  .ask ask :: .lock :: List.replicate (accesses + 1) .proceed

end Play

end NonceSearch
