import GridRelief.Proofs.Formulation.Room
import GridRelief.Proofs.Optimizer.Boundedness
import GridRelief.Proofs.Problem.Feasibility

/-!
# The first problem is feasible

The problem of the first round can be met by moving nothing, if the set-points before the
optimisation are within the ranges. No row asks for a move: flows follow the set-points wherever
these are, margins and violations have as much room as they need, and limits on use allow what does
not move, however small they are.

* `Formulation.satisfiable_at_rest`: the first problem is feasible with all set-points as before
  the optimisation, and its solve does not end as infeasible.
-/

namespace GridRelief

open LinearProblem Writing

variable {K N σ : Type} [ExactScalar K] {f : Formulation K} {point : Linearization K} {u : PUnit}
  {p : LinearProblem K}

/-- Once all parts are written, each range action has a set-point from before the optimisation, and
a variable for the one to be found. -/
theorem Formulation.measures_of_fill {q : LinearProblem K}
    (h : Succeeds (f.parts.forM (·.fill point)) q u p) :
    ∀ r ∈ f.perimeter.rangeActions, f.movement.Measures p r := by
  obtain ⟨a, hmovement, hgrows⟩ := exists_movement_of_fill h
  intro r hr
  exact ((Movement.measures_of_fill hmovement).1 r hr).of_extends hgrows

/-- With usable parameters, set-points that do not follow tap moves, no element that counts under a
condition, positive voltages and set-points that start within their ranges, the problem that all
parts have written has a feasible point, whatever budget and penalties there are: one at which each
set-point is as before the optimisation. So a solver that calls a model infeasible only if nothing
meets it does not do so in the first round. -/
theorem Formulation.satisfiable_at_rest (hroot : (0 : K) < Scalar.sqrtThree)
    (hvalid : f.parameters.validate = .ok ())
    (hmodel : f.parameters.optimizer.pstModel = .continuous)
    (hunconditional : f.parameters.unoptimized.isActive = false)
    (hvoltage : ∀ c ∈ f.perimeter.cnecs, 0 < c.voltage)
    (hrange : ∀ r ∈ f.perimeter.rangeActions, ∀ x, f.baseline.setpoints.get r.id = .ok x →
      r.min ≤ x ∧ x ≤ r.max)
    (hfill : Succeeds (f.parts.forM (·.fill point)) (.empty f.parameters.optimizer.solver) u p) :
    (∃ x, p.Satisfies x ∧ ∀ r ∈ f.perimeter.rangeActions, ∃ v,
      p.variableId? (.setpoint r.id) = some v ∧ f.baseline.setpoints.get r.id = .ok (x v)) ∧
    ∀ services : Services N K σ, services.ProvesInfeasible →
      ∀ state, (p.solve services.solve state).1.status ≠ .infeasible := by
  have hroom : f.HasRoom :=
    ⟨fun c hc => Cnec.conversion_pos hroot (hvoltage c hc) _,
      not_le.mp (Parameters.not_zonalSumFloor_le_zero hvalid), by
        unfold byTaps
        rw [hmodel]
        rfl, hunconditional⟩
  obtain ⟨room, hmeets⟩ := hroom.exists_meets hrange hfill
  refine ⟨⟨_, hmeets.satisfies, fun r hr => ?_⟩, fun services hservices =>
    status_solve_ne_infeasible hservices (List.length_map _) hmeets.satisfies⟩
  obtain ⟨hvariable, reference, hreference, -⟩ := f.measures_of_fill hfill r hr
  have hvalue := p.reads_values (f.atRest point room) _ _ (namesVariable_of_variableId? hvariable)
  have hrest := (Movement.reference_eq hreference).symm.trans hvalue.symm
  exact ⟨_, hvariable, hreference.trans (congrArg _ hrest)⟩

/-! ### A range action that may not be used -/

namespace OneWatched

/-- What optimises the set-point when no range action may be used any more. -/
def unused : Optimizer ℚ :=
  let o := optimizer [TwoSwitches.line, watched]
  { o with formulation := { o.formulation with budget := some { maxRa := some 0 } } }

/-- Its first problem is feasible with the set-point as it was, and the monitored line overloaded
as it is. -/
theorem satisfiable_unused :
    let f := unused.formulation
    let services := services []
    ∃ p, Succeeds (f.parts.forM (·.fill unused.start)) (.empty f.parameters.optimizer.solver) ⟨⟩ p ∧
      (p.rowId? .maxRa).isSome = true ∧
      (∃ x v, p.Satisfies x ∧ p.variableId? (.setpoint "shift") = some v ∧ x v = 0) ∧
        (p.solve services.solve ()).1.status ≠ .infeasible := by
  intro f services
  have hfirst : unused.firstProblem.toOption.any (fun p => (p.rowId? .maxRa).isSome) = true := by
    decide +kernel
  obtain ⟨p, hfirst, hlimit⟩ := exists_ok_of_any hfirst
  have hfill := Optimizer.succeeds_of_write hfirst
  have hvalid : f.parameters.validate = .ok () :=
    Parameters.validate_eq_ok_iff.mpr (Option.isNone_iff_eq_none.mp (by decide +kernel))
  have hservices : services.ProvesInfeasible := by
    intro model state h
    change (if model.IsMetBy _ then Answer.solved _ else .failed) = _ at h
    split at h <;> cases h
  have hreference : (baseline.setpoints.get "shift").toOption.any (· == (0 : ℚ)) = true := by
    decide +kernel
  obtain ⟨reference, hget, hzero⟩ := exists_ok_of_any hreference
  obtain rfl := beq_iff_eq.mp hzero
  have hrange : ∀ r ∈ f.perimeter.rangeActions, ∀ x, f.baseline.setpoints.get r.id = .ok x →
      r.min ≤ x ∧ x ≤ r.max := by
    intro r hr x hx
    obtain rfl : r = shift := List.mem_singleton.mp hr
    obtain rfl : 0 = x := Except.ok.inj (hget.symm.trans hx)
    decide +kernel
  obtain ⟨⟨x, hx, hsetpoints⟩, hsolve⟩ := Formulation.satisfiable_at_rest
    (N := LinearNetwork ℚ) (σ := Unit) (by decide +kernel) hvalid rfl rfl (by decide +kernel) hrange
    hfill
  obtain ⟨v, hv, hvalue⟩ := hsetpoints shift List.mem_cons_self
  have hx0 : (0 : ℚ) = x v := Except.ok.inj (hget.symm.trans hvalue)
  exact ⟨p, hfill, hlimit, ⟨x, v, hx, hv, hx0.symm⟩, hsolve services hservices ()⟩

end OneWatched

end GridRelief
