import GridRelief.Proofs.Formulation.Boundedness
import GridRelief.Proofs.Optimizer.Trials
import GridRelief.Proofs.Parameters
import GridRelief.Proofs.Search.RangeLimits

/-!
# Rounds over bounded problems

The problems of the rounds are those of a formulation. If they are bounded, no solve of them ends
as unbounded, and neither do the rounds.

* `Optimizer.chooses_written`: the problems of the rounds are those of the formulation.
* `Optimizer.Chooses.status_ne_unbounded_of_rounds`: the rounds end as unbounded only if a solve
  does.
* `Formulation.isBounded_iff`: a feasible problem is bounded if and only if something limits the
  smallest margin.
-/

namespace GridRelief

open LinearProblem

variable {K N σ : Type}

namespace Optimizer

section Rounds

variable [Scalar K] [Network N K] {o : Optimizer K} {services : Services N K σ}
  {s t : Session N σ} {progress : Progress K} {trial : Trial K} {best : Optimized K}
  {iteration left : Nat}

omit [Network N K] in
/-- The problems of the rounds are those of the formulation. -/
theorem chooses_written : o.Chooses services o.formulation.Written fun _ => True where
  first _ hp := .fill (succeeds_of_write hp)
  adjust _ _ _ hp hq := hp.adjust (succeeds_of_write hq)
  next _ _ _ hp hq := hp.refresh (succeeds_of_write hq)
  solve p state hp := by
    unfold LinearProblem.solve
    cases p.toModel with
    | error status => exact hp.solve _ _
    | ok model =>
      simp only [bind, StateT.bind]
      rcases services.solve model state with ⟨answer, after⟩
      cases answer <;> exact hp.solve _ _
  rounded _ _ _ _ _ _ := trivial

/-- A trial is unsolved with the status of the solve. -/
theorem status_solve_of_trial {status : SolveStatus}
    (h : Succeeds (o.trial services progress) s (.unsolved status) t) :
    (progress.problem.solve services.solve s.services).1.status = status := by
  unfold trial at h
  rw [succeeds_bind_iff] at h
  obtain ⟨_, _, hsolve, h⟩ := h
  obtain ⟨rfl, -⟩ := Working.succeeds_solve_iff.mp hsolve
  split at h
  · exact Trial.unsolved.inj (succeeds_pure_iff.mp h).1
  · simp only [succeeds_bind_iff] at h
    obtain ⟨_, _, -, _, _, -, h⟩ := h
    split at h
    · simp only [succeeds_bind_iff] at h
      obtain ⟨_, _, -, outcome, _, -, h⟩ := h
      split at h <;> cases (succeeds_pure_iff.mp h).1
    · cases (succeeds_pure_iff.mp h).1

/-- A round ends as unbounded only if its solve has. -/
theorem status_ne_unbounded_of_conclude {roundEnd : RoundEnd K} (hbest : best.status ≠ .unbounded)
    (htrial : trial ≠ .unsolved .unbounded)
    (h : Succeeds (o.conclude iteration best trial : Working N K σ (RoundEnd K)) s roundEnd t) :
    roundEnd.best.status ≠ .unbounded := by
  cases trial with
  | unsolved status =>
    obtain ⟨rfl, -⟩ := succeeds_pure_iff.mp h
    change (if iteration = 1 then OptimizationStatus.ofSolve status else .feasible) ≠ _
    split
    · cases status with
      | unbounded => exact absurd rfl htrial
      | _ => rintro ⟨⟩
    · rintro ⟨⟩
  | unchanged =>
    obtain ⟨rfl, -⟩ := succeeds_pure_iff.mp h
    exact hbest
  | uncomputed =>
    obtain ⟨_, _, -, hstop⟩ := succeeds_bind_iff.mp h
    obtain ⟨rfl, -⟩ := succeeds_pure_iff.mp hstop
    rintro ⟨⟩
  | reached problem point =>
    rcases compare_cases h with ⟨-, -, q, -, rfl⟩ | ⟨-, -, rfl | ⟨q, -, rfl⟩⟩
    · rintro ⟨⟩
    · exact hbest
    · exact hbest

/-- By induction on the number of rounds that are left: they end as unbounded only if a solve of
one of their problems does. -/
theorem Chooses.status_ne_unbounded_of_rounds {P : LinearProblem K → Prop}
    {A : Activation K → Prop} {result : Optimized K} (h : o.Chooses services P A)
    (hsolve : ∀ p state, P p → (p.solve services.solve state).1.status ≠ .unbounded)
    (hp : P progress.problem) (hbest : progress.best.status ≠ .unbounded)
    (hrounds : Succeeds (o.rounds services left iteration progress) s result t) :
    result.status ≠ .unbounded := by
  induction left generalizing iteration progress s with
  | zero =>
    unfold Optimizer.rounds at hrounds
    obtain ⟨rfl, -⟩ := succeeds_pure_iff.mp hrounds
    rintro ⟨⟩
  | succ left ih =>
    unfold Optimizer.rounds at hrounds
    obtain ⟨roundEnd, _, hround, hrest⟩ := succeeds_bind_iff.mp hrounds
    have hproblem := h.round (Q := fun _ _ => True) (fun _ _ _ _ _ => trivial) hp trivial hround
    rw [round_eq] at hround
    obtain ⟨trial, _, htrial, hconclude⟩ := succeeds_bind_iff.mp hround
    have hsolved : trial ≠ .unsolved .unbounded := by
      rintro rfl
      exact hsolve _ _ hp (status_solve_of_trial htrial)
    have hcounted : (counted progress iteration).status ≠ .unbounded := hbest
    have hstatus := status_ne_unbounded_of_conclude hcounted hsolved hconclude
    cases roundEnd with
    | stop last =>
      obtain ⟨rfl, -⟩ := succeeds_pure_iff.mp hrest
      exact hstatus
    | next further => exact ih hproblem.1 hstatus hrest

end Rounds

end Optimizer

/-! ### Bounded problems -/

variable [ExactScalar K] [Network N K] {f : Formulation K} {p : LinearProblem K}

/-- With costs that are not negative and positive voltages, the objective of a problem of a
formulation is bounded over its feasible points if and only if something limits the smallest margin
or there are none. If something does, neither a solve nor the rounds end as unbounded. -/
theorem Formulation.isBounded_iff (hroot : (0 : K) < Scalar.sqrtThree)
    (hvoltage : ∀ c ∈ f.perimeter.cnecs, 0 < c.voltage) (hcosts : f.HasNonnegativeCosts)
    (hp : f.Written p) :
    (p.IsBounded ↔ (p.IsFeasible → f.BoundsMargin)) ∧
      (f.BoundsMargin → ∀ services : Services N K σ, services.ProvesUnbounded →
        (∀ state, (p.solve services.solve state).1.status ≠ .unbounded) ∧
          ∀ (o : Optimizer K) before result after, o.formulation = f →
            Succeeds (o.optimize services) before result after → result.status ≠ .unbounded) := by
  have hcomplete := hp.complete
  refine ⟨⟨fun hbounded hfeasible => ?_, fun h => ?_⟩, fun hbounds services hservices => ?_⟩
  · by_contra hbounds
    exact hcomplete.not_isBounded hbounds hfeasible hbounded
  · by_cases hfeasible : p.IsFeasible
    · exact isBounded_of_hasLowerBound
        (hcomplete.hasLowerBound_objective hroot hvoltage hcosts (h hfeasible))
    · exact ⟨0, fun x hx => absurd ⟨x, hx⟩ hfeasible⟩
  · have hsolve : ∀ q state, f.Written q →
        (q.solve services.solve state).1.status ≠ .unbounded := fun q state hq =>
      status_solve_ne_unbounded hservices
        (hq.complete.hasLowerBound_objective hroot hvoltage hcosts hbounds) state
    refine ⟨fun state => hsolve p state hp, ?_⟩
    rintro o before result after rfl hoptimize
    unfold Optimizer.optimize at hoptimize
    simp only [succeeds_bind_iff, succeeds_ofExcept_iff] at hoptimize
    obtain ⟨first, _, ⟨hfirst, rfl⟩, hrounds⟩ := hoptimize
    have hchooses : o.Chooses services o.formulation.Written fun _ => True := o.chooses_written
    refine hchooses.status_ne_unbounded_of_rounds hsolve (hchooses.first first hfirst) ?_ hrounds
    rintro ⟨⟩

/-! ### A line that is only monitored -/

namespace OneWatched

/-- The line that is monitored. Its margin does not count for the objective. -/
def watched : Cnec ℚ := { TwoSwitches.line.asMonitored with id := "watched" }

/-- The range action on the injection. -/
def shift : RangeAction ℚ := .injection "shift" "unit" (-200) 200

/-- The flows and the set-point before any action: the monitored line carries less than it may. -/
def baseline : Baseline ℚ where
  flows := { flows := Table.ofPairs [("watched", 700), ("line", 500)] }
  setpoints := ⟨Table.ofPairs [("shift", 0)]⟩

/-- The grid after some action: the monitored line carries 100 MW more than it may, and the
injection adds to it. -/
def network : LinearNetwork ℚ :=
  ({ id := "grid" } : LinearNetwork ℚ)
    |>.withBaseFlow "watched" 900
    |>.withBaseFlow "line" 500
    |>.withInjection "unit" 0
    |>.withSensitivity "unit" "watched" 1

/-- The parameters, which price what a monitored line carries more than it may. -/
def parameters : Parameters ℚ := { Parameters.default with mnec := some ⟨0, 10, 0⟩ }

/-- What optimises the set-point in view of some lines. -/
def optimizer (cnecs : List (Cnec ℚ)) : Optimizer ℚ :=
  let perimeter := .ofLists .preventive cnecs [] [shift]
  let computer : LinearComputer ℚ := ⟨cnecs, [shift], []⟩
  { formulation := { parameters, perimeter, baseline }
    objective := MarginObjective.evaluate
      { MarginObjective.ofPerimeter perimeter .megawatt with mnec := some ⟨baseline.flows, 0, 10⟩ }
    start := ⟨computer.flows network, computer.sensitivities network,
      .ofReference baseline.setpoints⟩ }

/-- Services that compute the flows on both lines, and propose some values for every model that
these meet. -/
def services (values : List ℚ) : Services (LinearNetwork ℚ) ℚ Unit :=
  { OneShift.proposing values with
    compute := fun network =>
      return LinearComputer.compute ⟨[TwoSwitches.line, watched], [shift], []⟩ network }

/-- No cost is negative. -/
theorem hasNonnegativeCosts (cnecs : List (Cnec ℚ)) :
    (optimizer cnecs).formulation.HasNonnegativeCosts where
  pst := show 0 ≤ parameters.optimizer.pstPenalty by decide +kernel
  hvdc := show 0 ≤ parameters.optimizer.hvdcPenalty by decide +kernel
  injection := show 0 ≤ parameters.optimizer.injectionPenalty by decide +kernel
  mnec := by
    rintro _ ⟨⟩
    decide +kernel
  loopFlow := by rintro _ ⟨⟩

/-- With another line whose margin counts, the problem is bounded, and the rounds do not end as
unbounded. -/
theorem isBounded_of_line :
    let o := optimizer [TwoSwitches.line, watched]
    let services := services [-100, 100, 500, 800, 300, 0]
    ∃ p result after, o.formulation.Written p ∧ p.IsFeasible ∧ p.IsBounded ∧
      Succeeds (o.optimize services) ⟨network, ()⟩ result after ∧ result.status ≠ .unbounded ∧
        result.point.activation.get "shift" = .ok (-100) := by
  intro o services
  have hfirst : o.firstProblem.toOption.any (fun p =>
      decide (p.Satisfies fun v => [-100, 100, 500, 800, 300, (0 : ℚ)].getD v 0)) = true := by
    decide +kernel
  obtain ⟨p, hfirst, hpoint⟩ := exists_ok_of_any hfirst
  have hrun : ((o.optimize services).run ⟨network, ()⟩).1.toOption.any (fun result =>
      (result.point.activation.get "shift").toOption.any (· == -100)) = true := by
    decide +kernel
  obtain ⟨result, after, hresult, hshift⟩ := exists_succeeds_of_any hrun
  obtain ⟨x, hx, hvalue⟩ := exists_ok_of_any hshift
  have hbounds : o.formulation.BoundsMargin :=
    .inr ⟨TwoSwitches.line, List.mem_cons_self, .above, rfl⟩
  have hp : o.formulation.Written p := .fill (Optimizer.succeeds_of_write hfirst)
  obtain ⟨hiff, hends⟩ := Formulation.isBounded_iff (N := LinearNetwork ℚ) (σ := Unit)
    (by decide +kernel) (by decide +kernel) (hasNonnegativeCosts _) hp
  have hservices : services.ProvesUnbounded := by
    intro model state h
    change (if model.IsMetBy _ then Answer.solved _ else .failed) = _ at h
    split at h <;> cases h
  refine ⟨p, result, after, hp, ⟨_, of_decide_eq_true hpoint⟩, hiff.mpr fun _ => hbounds, hresult,
    (hends hbounds services hservices).2 o _ result after rfl hresult, ?_⟩
  rw [hx, beq_iff_eq.mp hvalue]

/-- With the monitored line alone nothing limits the smallest margin. -/
theorem not_isBounded_of_monitored :
    ¬ ∀ (f : Formulation ℚ) point u p, f.parameters.validate = .ok () →
      f.HasNonnegativeCosts → (∀ c ∈ f.perimeter.cnecs, 0 < c.voltage) →
        Succeeds (f.parts.forM (·.fill point)) (.empty f.parameters.optimizer.solver) u p →
          p.IsBounded := by
  intro h
  have hfirst : (optimizer [watched]).firstProblem.toOption.any (fun p =>
      decide (p.Satisfies fun v => [0, 0, 900, 0, (100 : ℚ)].getD v 0)) = true := by
    decide +kernel
  obtain ⟨p, hfirst, hpoint⟩ := exists_ok_of_any hfirst
  have hfill := Optimizer.succeeds_of_write hfirst
  have hvalid : (optimizer [watched]).formulation.parameters.validate = .ok () :=
    Parameters.validate_eq_ok_iff.mpr (Option.isNone_iff_eq_none.mp (by decide +kernel))
  have hbounds : ¬(optimizer [watched]).formulation.BoundsMargin := by
    rintro (hrelative | ⟨c, hc, -⟩)
    · cases hrelative
    · cases hc
  exact (Formulation.complete_of_fill hfill).not_isBounded hbounds ⟨_, of_decide_eq_true hpoint⟩
    (h _ _ ⟨⟩ p hvalid (hasNonnegativeCosts _) (by decide +kernel) hfill)

end OneWatched

end GridRelief
