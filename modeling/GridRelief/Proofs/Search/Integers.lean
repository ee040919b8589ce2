import GridRelief.Proofs.Formulation.Written
import GridRelief.Proofs.Parameters
import GridRelief.Proofs.Search.RangeLimits

/-!
# Integers and solvers

Three parts of a formulation write variables that take integers only: tap moves, elements that
count under a condition, and limits on use. Whether they are there is decided by each part for
itself, while the check of parameters decides in one place whether the solver has to handle
integers. Both agree for every leaf: a problem of usable parameters has integers only if its solver
handles them, however often it is adapted, so no solve is given up for that reason.

* `Formulation.Column.feature`: which parts write integers.
* `Leaf.supportsIntegers_of_written`: problems with integers have a solver that handles them.
-/

namespace GridRelief

variable {K N : Type} [Scalar K]

/-- Three features make a formulation write integers. -/
theorem Formulation.Column.feature {f : Formulation K} {data : Variable K} (h : f.Column data)
    (hkind : data.kind ≠ .continuous) :
    f.byTaps = true ∨ f.parameters.unoptimized.isActive = true ∨ f.budget.isSome = true := by
  cases h with
  | moves htaps | moving htaps => exact .inl htaps
  | counts hactive => exact .inr (.inl hactive)
  | used hbudget => exact .inr (.inr hbudget)
  | _ => exact absurd rfl hkind

/-- A problem is handed to a solver unless it has integers that the solver does not handle. -/
theorem LinearProblem.toModel_ne_abnormal {p : LinearProblem K}
    (h : p.hasIntegers = true → p.solver.supportsIntegers = true) :
    p.toModel ≠ .error .abnormal := by
  unfold toModel
  split
  · next hunsupported =>
    rw [Bool.and_eq_true, Bool.not_eq_true'] at hunsupported
    rw [h hunsupported.1] at hunsupported
    cases hunsupported.2
  · split <;> exact nofun

/-- With usable parameters a problem of a leaf, written and then adapted and solved any number of
times, has integers only if its solver handles them. -/
theorem Leaf.supportsIntegers_of_written [Network N K] {leaf : Leaf N K} {s : Situation N K}
    {parameters : Parameters K} {outcome : Outcome K} {p : LinearProblem K}
    (hvalid : parameters.validate = .ok ())
    (hp : (leaf.optimizer s parameters outcome).formulation.Written p) :
    (p.hasIntegers = true → p.solver.supportsIntegers = true) ∧ p.toModel ≠ .error .abnormal := by
  have hcomplete := hp.complete
  have hsupports : p.hasIntegers = true → p.solver.supportsIntegers = true := by
    intro hintegers
    obtain ⟨data, hdata, hkind⟩ := List.any_eq_true.mp hintegers
    have hfeature := (hcomplete.obeys.columns data hdata).feature (by simpa using hkind)
    by_contra hsolver
    rw [hcomplete.solver_eq, Bool.not_eq_true] at hsolver
    obtain ⟨htaps, hactive, hlimits⟩ := Parameters.features_of_integerFeature?_eq_none
      (Parameters.integerFeature?_eq_none hvalid hsolver)
    rcases hfeature with h | h | h
    · exact htaps (beq_iff_eq.mp h)
    · exact absurd (hactive.symm.trans h) nofun
    · change (parameters.limits.budget? leaf.applied).isSome = true at h
      unfold UsageLimits.budget? at h
      rw [if_pos hlimits] at h
      cases h
  exact ⟨hsupports, LinearProblem.toModel_ne_abnormal hsupports⟩

/-- A root with a limit on its one range action has a variable that is zero or one, and a solver
that handles it. -/
theorem OneShift.supportsIntegers_of_root :
    let s := search 0 { maxRa := some 1 }
    let o := (Leaf.root s.situation).optimizer s.situation s.parameters s.situation.outcome
    ∃ p, o.formulation.Written p ∧ p.hasIntegers = true ∧ p.solver.supportsIntegers = true ∧
      p.toModel ≠ .error .abnormal := by
  intro s o
  have hfirst : o.firstProblem.toOption.any (·.hasIntegers) = true := by decide +kernel
  obtain ⟨p, hfirst, hintegers⟩ := exists_ok_of_any hfirst
  have hp : o.formulation.Written p := .fill (Optimizer.succeeds_of_write hfirst)
  have hvalid : s.parameters.validate = .ok () :=
    Parameters.validate_eq_ok_iff.mpr (Option.isNone_iff_eq_none.mp (by decide +kernel))
  obtain ⟨hsolver, hmodel⟩ := Leaf.supportsIntegers_of_written hvalid hp
  exact ⟨p, hp, hintegers, hsolver hintegers, hmodel⟩

end GridRelief
