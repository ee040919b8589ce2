import Mathlib.Order.WithBot
import Mathlib.Tactic.Linarith
import GridRelief.Proofs.Exact
import GridRelief.Search.Criteria
import GridRelief.Search.Depth

/-!
# Improvements and stops

With exact numbers the costs of leaves are linearly ordered, a leaf without a cost being above all
others. The thresholds of a search are never negative, so an improvement costs less than what it
improves on.

* `Criteria.isCheaper_iff`: cheaper means of a lower cost.
* `Search.cost_lt_of_isImprovement`: an improvement costs less.
* `Search.reachesStop_eq_false`: a search for the least cost does not stop at a leaf.
-/

namespace GridRelief

variable {K N : Type}

/-- The cost of a leaf, above all numbers if it has none. -/
def FinalizedLeaf.cost [Scalar K] (leaf : FinalizedLeaf K) : WithTop K := leaf.cost?

namespace Criteria

variable [ExactScalar K] {criteria : Criteria K} {previous leaf : FinalizedLeaf K}

/-- A leaf is cheaper than another one when its cost is lower. -/
theorem isCheaper_iff : isCheaper leaf.cost? previous.cost? = true ↔ leaf.cost < previous.cost := by
  unfold FinalizedLeaf.cost
  cases leaf.cost? with
  | none => exact ⟨fun h => absurd h Bool.false_ne_true, fun h => absurd h not_top_lt⟩
  | some new =>
    cases previous.cost? with
    | none => exact ⟨fun _ => WithTop.coe_lt_top new, fun _ => rfl⟩
    | some old => exact decide_eq_true_iff.trans WithTop.coe_lt_coe.symm

/-- When no threshold is negative, an improvement costs less. -/
theorem cost_lt_of_isImprovement (hthreshold : 0 ≤ criteria.absoluteThreshold)
    (h : criteria.isImprovement previous leaf = true) : leaf.cost < previous.cost := by
  rw [← isCheaper_iff]
  unfold isImprovement at h
  rcases Bool.or_eq_true_iff.mp h with hstop | hsaving
  · exact (Bool.and_eq_true_iff.mp hstop).1
  · cases hold : previous.cost? with
    | none =>
      cases hnew : leaf.cost? with
      | none => simp [hold, hnew] at hsaving
      | some new => rfl
    | some old =>
      cases hnew : leaf.cost? with
      | none => simp [hold, hnew] at hsaving
      | some new =>
        have hlt : new < old - criteria.absoluteThreshold := by
          simp only [hold, hnew, isSaving, Bool.and_eq_true, decide_eq_true_eq] at hsaving
          exact hsaving.1
        simp only [isCheaper, decide_eq_true_eq]
        linarith

end Criteria

namespace Search

variable {s : Search N K} {previous leaf : FinalizedLeaf K}

/-- An improvement in a search costs less. -/
theorem cost_lt_of_isImprovement [ExactScalar K]
    (h : s.criteria.isImprovement previous leaf = true) : leaf.cost < previous.cost := by
  refine Criteria.cost_lt_of_isImprovement ?_ h
  simp [criteria, Criteria.ofParameters]

/-- A search for the least cost that is not about virtual costs alone does not stop at a leaf. -/
theorem reachesStop_eq_false [Scalar K]
    (hmode : s.parameters.objective.stopCriterion = .minObjective)
    (hvirtual : s.situation.perimeter.isPurelyVirtual = false) (leaf : FinalizedLeaf K) :
    s.criteria.reachesStop leaf = false := by
  unfold Criteria.reachesStop
  cases leaf.result? with
  | none => rfl
  | some result =>
    simp [Criteria.stopsAt, criteria, Criteria.ofParameters, hmode, hvirtual]

end Search

end GridRelief
