import Mathlib.Tactic.SplitIfs
import GridRelief.Parameters

/-!
# Usable parameters

Parameters are checked once, before the search.

* `Parameters.validate_eq_ok_iff`: parameters are usable if they have no fault.
* `Parameters.not_zonalSumFloor_le_zero`: a bound that usable parameters keep.
* `Parameters.integerFeature?_eq_none`: what usable parameters for a solver without integers lack.
-/

namespace GridRelief

variable {K : Type} [Scalar K]

namespace Parameters

variable {parameters : Parameters K}

theorem validate_eq_ok_iff : parameters.validate = .ok () ↔ parameters.fault? = none := by
  unfold validate
  cases parameters.fault? <;> simp

/-- Usable parameters whose solver does not handle integers have no feature that needs them. -/
theorem integerFeature?_eq_none (hvalid : parameters.validate = .ok ())
    (hsolver : parameters.optimizer.solver.supportsIntegers = false) :
    parameters.integerFeature? = none := by
  have hfault := validate_eq_ok_iff.mp hvalid
  unfold fault? at hfault
  simp only [hsolver, Bool.false_eq_true, if_false] at hfault
  cases hfeature : parameters.integerFeature? with
  | none => rfl
  | some feature =>
    rw [hfeature] at hfault
    split_ifs at hfault

/-- The floor of zonal sums in usable parameters is positive. -/
theorem not_zonalSumFloor_le_zero (hvalid : parameters.validate = .ok ()) :
    ¬parameters.optimizer.zonalSumFloor ≤ 0 := by
  intro hfloor
  have hfault := validate_eq_ok_iff.mp hvalid
  unfold fault? notPositive at hfault
  simp only [decide_eq_true hfloor, if_true] at hfault
  split_ifs at hfault

omit [Scalar K] in
/-- What parameters without a feature that needs integers are like. -/
theorem features_of_integerFeature?_eq_none (h : parameters.integerFeature? = none) :
    parameters.optimizer.pstModel ≠ .approximatedIntegers ∧
      parameters.unoptimized.isActive = false ∧ parameters.limits.isEmpty = true := by
  unfold integerFeature? at h
  split_ifs at h with htaps hactive hlimits
  exact ⟨htaps, by simpa using hactive, by simpa using hlimits⟩

end Parameters

end GridRelief
