import Mathlib.Order.Bounds.Basic
import GridRelief.Proofs.LinearNetwork
import GridRelief.Proofs.Optimizer.Ranges
import GridRelief.Proofs.Optimizer.Trials

/-!
# What the rounds leave behind

The rounds end in many ways, and on most of them the network has been moved away from the best point
and has to be moved back. Whatever the way, the network is left at the best point, which is the one
of least cost of all that have been evaluated.

* `Optimizer.KeepsBest`: the better of a point and those that have been evaluated after it.
* `Optimizer.Rests`: the network at a point, seen from the network at the start.
* `Optimizer.rests_of_optimize`: the network is left at the best point.
* `Optimizer.exit_of_optimize`: network, flows and cost at the end.
-/

namespace GridRelief

variable {K N σ : Type}

namespace Optimizer

/-- The cost of a point. -/
def costAt [Scalar K] (o : Optimizer K) (point : Linearization K) : Cost K :=
  o.objective point.flows point.activation point.sensitivities point.sensitivities.status

/-! ### Least costs -/

section Cost

variable [ExactScalar K] {o : Optimizer K} {best middle later : Optimized K}
  {points further : List (Linearization K)}

/-- A best point is kept, or replaced by one of the points evaluated after it, whichever costs
least. -/
structure KeepsBest (o : Optimizer K) (best : Optimized K) (points : List (Linearization K))
    (later : Optimized K) : Prop where
  le_best : later.cost.total ≤ best.cost.total
  le : ∀ point ∈ points, later.cost.total ≤ (o.costAt point).total
  eq : later.point = best.point ∧ later.cost = best.cost ∨
    later.point ∈ points ∧ later.cost = o.costAt later.point

namespace KeepsBest

theorem of_eq (hpoint : later.point = best.point) (hcost : later.cost = best.cost) :
    o.KeepsBest best [] later :=
  ⟨by rw [hcost], by simp, .inl ⟨hpoint, hcost⟩⟩

theorem trans (h : o.KeepsBest best points middle) (hlater : o.KeepsBest middle further later) :
    o.KeepsBest best (points ++ further) later := by
  refine ⟨hlater.le_best.trans h.le_best, fun point hpoint => ?_, ?_⟩
  · rcases List.mem_append.mp hpoint with hpoint | hpoint
    · exact hlater.le_best.trans (h.le point hpoint)
    · exact hlater.le point hpoint
  · rcases hlater.eq with ⟨hpoint, hcost⟩ | ⟨hpoint, hcost⟩
    · rw [hpoint, hcost]
      rcases h.eq with hbest | ⟨hmem, hcost⟩
      · exact .inl hbest
      · exact .inr ⟨List.mem_append_left _ hmem, hcost⟩
    · exact .inr ⟨List.mem_append_right _ hpoint, hcost⟩

/-- Counting a round does not change the best point. -/
theorem of_counted {progress : Progress K} {iteration : Nat}
    (h : o.KeepsBest (counted progress iteration) points later) :
    o.KeepsBest progress.best points later :=
  ⟨h.le_best, h.le, h.eq⟩

/-- If the cost of the first point is that of its evaluation, so is that of the last one, which is
the least cost of all. -/
theorem isLeast {start : Linearization K} (h : o.KeepsBest best points later)
    (hpoint : best.point = start) (hcost : best.cost = o.costAt start) :
    later.cost = o.costAt later.point ∧
      IsLeast {c | ∃ point ∈ start :: points, (o.costAt point).total = c} later.cost.total := by
  have hmem : later.point ∈ start :: points ∧ later.cost = o.costAt later.point := by
    rcases h.eq with ⟨hkept, hcost'⟩ | ⟨hmem, hcost'⟩
    · rw [hkept, hcost', hpoint]
      exact ⟨List.mem_cons_self, hcost⟩
    · exact ⟨List.mem_cons_of_mem _ hmem, hcost'⟩
  refine ⟨hmem.2, ⟨later.point, hmem.1, by rw [hmem.2]⟩, ?_⟩
  rintro _ ⟨point, hpoint', rfl⟩
  rcases List.mem_cons.mp hpoint' with rfl | hpoint'
  · rw [← hcost]
    exact h.le_best
  · exact h.le point hpoint'

end KeepsBest

variable [Network N K] {services : Services N K σ} {s t : Session N σ} {iteration : Nat}

/-- Concluding a round keeps the better of the best point and the one that has been reached. -/
theorem keepsBest_of_conclude {trial : Trial K} {roundEnd : RoundEnd K}
    (h : Succeeds (o.conclude iteration best trial : Working N K σ (RoundEnd K)) s roundEnd t) :
    o.KeepsBest best trial.point?.toList roundEnd.best := by
  cases trial with
  | unsolved status =>
    obtain ⟨rfl, -⟩ := succeeds_pure_iff.mp h
    exact .of_eq rfl rfl
  | unchanged =>
    obtain ⟨rfl, -⟩ := succeeds_pure_iff.mp h
    exact .of_eq rfl rfl
  | uncomputed =>
    obtain ⟨_, _, -, hstop⟩ := succeeds_bind_iff.mp h
    obtain ⟨rfl, -⟩ := succeeds_pure_iff.mp hstop
    exact .of_eq rfl rfl
  | reached problem point =>
    have hstays : ¬(o.costAt point).total < best.cost.total →
        o.KeepsBest best [point] best := by
      intro hdearer
      refine ⟨le_rfl, ?_, .inl ⟨rfl, rfl⟩⟩
      intro _ hmem
      obtain rfl := List.mem_singleton.mp hmem
      exact not_lt.mp hdearer
    rcases compare_cases h with ⟨hcheaper, -, q, -, rfl⟩ | ⟨hdearer, -, rfl | ⟨q, -, rfl⟩⟩
    · refine ⟨hcheaper.le, ?_, .inr ⟨List.mem_cons_self, rfl⟩⟩
      intro _ hmem
      obtain rfl := List.mem_singleton.mp hmem
      exact le_rfl
    · exact hstays hdearer
    · exact hstays hdearer

/-- The rounds keep the best of the points that they evaluate. -/
theorem keepsBest_of_rounds {left : Nat} {progress : Progress K} {result : Optimized K}
    (h : Succeeds (o.rounds services left iteration progress) s result t) :
    o.KeepsBest progress.best (o.evaluatedFrom services left iteration progress s) result := by
  refine rounds_induction (P := fun left iteration progress s =>
    o.KeepsBest progress.best (o.evaluatedFrom services left iteration progress s) result)
    ?_ ?_ ?_ h
  · rintro iteration progress rfl
    exact .of_eq rfl rfl
  · intro left iteration progress s trial middle htrial hconclude
    rw [evaluatedFrom_of_stop htrial hconclude]
    exact (keepsBest_of_conclude hconclude).of_counted
  · intro left iteration progress s trial middle further after htrial hconclude hrest
    rw [evaluatedFrom_of_next htrial hconclude]
    exact (keepsBest_of_conclude hconclude).of_counted.trans hrest

/-- The cost at the end is that of the last point, and the least of all points evaluated. -/
theorem isLeast_cost_of_optimize {result : Optimized K}
    (h : Succeeds (o.optimize services) s result t) :
    result.cost = o.costAt result.point ∧
      IsLeast {c | ∃ point ∈ o.start :: o.evaluated services s, (o.costAt point).total = c}
        result.cost.total := by
  unfold Optimizer.optimize at h
  simp only [succeeds_bind_iff, succeeds_ofExcept_iff] at h
  obtain ⟨problem, _, ⟨hproblem, rfl⟩, hrounds⟩ := h
  have hkeeps := keepsBest_of_rounds hrounds
  unfold evaluated
  rw [hproblem]
  exact hkeeps.isLeast rfl rfl

end Cost

/-! ### The network -/

section Network

variable [Scalar K] {o : Optimizer K} {services : Services (LinearNetwork K) K σ}
  {origin network : LinearNetwork K} {point : Linearization K}

/-- A network that is at a point of the rounds that have started on another network. -/
inductive Rests (o : Optimizer K) (services : Services (LinearNetwork K) K σ)
    (origin : LinearNetwork K) : Linearization K → LinearNetwork K → Prop
  /-- It has not been moved from the start. -/
  | start : o.Rests services origin o.start origin
  /-- It has been moved back to the start. -/
  | back {network : LinearNetwork K}
      (hback : o.start.activation.applyAll o.rangeActions origin = (network, .ok ())) :
      o.Rests services origin o.start network
  /-- It has been moved to a point, whose flows have been computed on it. -/
  | reached {point : Linearization K} {network : LinearNetwork K} {state : σ}
      (happly : point.activation.applyAll o.rangeActions origin = (network, .ok ()))
      (hcompute : (services.compute network state).1 = ⟨point.flows, point.sensitivities⟩) :
      o.Rests services origin point network

namespace Rests

/-- The networks of the rounds agree off the elements of the range actions. -/
theorem agreesOff (h : o.Rests services origin point network) :
    origin.AgreesOff o.rangeActions network := by
  cases h with
  | start => exact .refl _
  | back hback => exact LinearNetwork.agreesOff_of_applyAll (fun _ => id) hback
  | reached happly _ => exact LinearNetwork.agreesOff_of_applyAll (fun _ => id) happly

/-- A network that has been moved away and back to a point is at it. -/
theorem moveBack {away : LinearNetwork K} (h : o.Rests services origin point network)
    (haway : network.AgreesOff o.rangeActions away) {later : LinearNetwork K}
    (hback : point.activation.applyAll o.rangeActions away = (later, .ok ())) :
    o.Rests services origin point later := by
  have horigin := (h.agreesOff.trans haway).symm.applyAll_eq hback
  cases h with
  | start => exact .back horigin
  | back _ => exact .back horigin
  | reached happly hcompute =>
    obtain ⟨rfl, -⟩ := Prod.mk.inj (happly.symm.trans horigin)
    exact .reached happly hcompute

/-- A point that a trial has reached is where the network is. -/
theorem moveOn {further : Linearization K} {later : LinearNetwork K} {state : σ}
    (h : o.Rests services origin point network)
    (happly : further.activation.applyAll o.rangeActions network = (later, .ok ()))
    (hcompute : (services.compute later state).1 = ⟨further.flows, further.sensitivities⟩) :
    o.Rests services origin further later :=
  .reached (h.agreesOff.symm.applyAll_eq happly) hcompute

/-- Concluding a round leaves the network at the best point. -/
theorem conclude {best : Optimized K} {iteration : Nat} {trial : Trial K} {roundEnd : RoundEnd K}
    {middle after : Session (LinearNetwork K) σ}
    (h : o.Rests services origin best.point network)
    (htrial : trial.Leaves services o.rangeActions network middle.network)
    (hconclude : Succeeds (o.conclude iteration best trial) middle roundEnd after) :
    o.Rests services origin roundEnd.best.point after.network := by
  cases trial with
  | unsolved status =>
    obtain ⟨rfl, rfl⟩ := succeeds_pure_iff.mp hconclude
    rwa [show middle.network = network from htrial]
  | unchanged =>
    obtain ⟨rfl, rfl⟩ := succeeds_pure_iff.mp hconclude
    rwa [show middle.network = network from htrial]
  | uncomputed =>
    obtain ⟨a, haway⟩ := htrial
    obtain ⟨_, _, hback, hstop⟩ := succeeds_bind_iff.mp hconclude
    obtain ⟨rfl, rfl⟩ := succeeds_pure_iff.mp hstop
    have haway := LinearNetwork.agreesOff_of_applyAll (fun _ => id) haway
    exact h.moveBack haway (Working.succeeds_moveTo_iff.mp hback).1
  | reached problem further =>
    obtain ⟨happly, state, hcompute⟩ := htrial
    rcases compare_cases hconclude with ⟨-, rfl, q, -, rfl⟩ | ⟨-, ⟨u, hback⟩, hend⟩
    · exact h.moveOn happly hcompute
    · have haway := LinearNetwork.agreesOff_of_applyAll (fun _ => id) happly
      have hrests := h.moveBack haway (Working.succeeds_moveTo_iff.mp hback).1
      rcases hend with rfl | ⟨q, -, rfl⟩
      · exact hrests
      · exact hrests

/-- The rounds leave the network at the best point. -/
theorem rounds {left iteration : Nat} {progress : Progress K} {result : Optimized K}
    {s t : Session (LinearNetwork K) σ} (h : o.Rests services origin progress.best.point s.network)
    (hrounds : Succeeds (o.rounds services left iteration progress) s result t) :
    o.Rests services origin result.point t.network := by
  refine rounds_induction (P := fun _ _ progress s =>
    o.Rests services origin progress.best.point s.network →
      o.Rests services origin result.point t.network) ?_ ?_ ?_ hrounds h
  · rintro iteration progress rfl hrests
    exact hrests
  · intro left iteration progress s trial middle htrial hconclude hrests
    have hbest : o.Rests services origin (counted progress iteration).point s.network := hrests
    exact hbest.conclude (leaves_of_trial htrial) hconclude
  · intro left iteration progress s trial middle further after htrial hconclude hrest hrests
    have hbest : o.Rests services origin (counted progress iteration).point s.network := hrests
    exact hrest (hbest.conclude (leaves_of_trial htrial) hconclude)

end Rests

/-- Optimising leaves the network at the best point. -/
theorem rests_of_optimize {before after : Session (LinearNetwork K) σ} {result : Optimized K}
    (h : Succeeds (o.optimize services) before result after) :
    o.Rests services before.network result.point after.network := by
  unfold Optimizer.optimize at h
  simp only [succeeds_bind_iff, succeeds_ofExcept_iff] at h
  obtain ⟨problem, _, ⟨-, rfl⟩, hrounds⟩ := h
  exact Rests.rounds .start hrounds

/-- From a network that has the set-points of the start, a network at a point is the one that the
set-points of the point lead to, and it has the flows of the point. -/
theorem Rests.applyAll_eq (h : o.Rests services origin point network)
    (hnetwork : o.start.activation.applyAll o.rangeActions origin = (origin, .ok ()))
    (hstart : ∃ state,
      (services.compute origin state).1 = ⟨o.start.flows, o.start.sensitivities⟩) :
    point.activation.applyAll o.rangeActions origin = (network, .ok ()) ∧
      ∃ state, (services.compute network state).1 = ⟨point.flows, point.sensitivities⟩ := by
  cases h with
  | start => exact ⟨hnetwork, hstart⟩
  | back hback =>
    obtain ⟨rfl, -⟩ := Prod.mk.inj (hnetwork.symm.trans hback)
    exact ⟨hnetwork, hstart⟩
  | reached happly hcompute => exact ⟨happly, _, hcompute⟩

end Network

/-- Let the network have the set-points of the start and its flows, and let the same flows be
computed on the same network. Whatever the solver answers, and whichever way the rounds end, the
network is left where the set-points of the result lead, the flows of the result are those on it,
and the cost of the result is that of its evaluation and the least of all points evaluated. -/
theorem exit_of_optimize [ExactScalar K] {o : Optimizer K}
    {services : Services (LinearNetwork K) K σ} {outcomeOn : LinearNetwork K → Outcome K}
    {before after : Session (LinearNetwork K) σ} {result : Optimized K}
    (hcompute : ∀ network state, (services.compute network state).1 = outcomeOn network)
    (hnetwork : o.start.activation.applyAll o.rangeActions before.network =
      (before.network, .ok ()))
    (hstart : outcomeOn before.network = ⟨o.start.flows, o.start.sensitivities⟩)
    (h : Succeeds (o.optimize services) before result after) :
    result.point.activation.applyAll o.rangeActions before.network = (after.network, .ok ()) ∧
      outcomeOn after.network = ⟨result.point.flows, result.point.sensitivities⟩ ∧
      result.cost = o.costAt result.point ∧
      IsLeast {c | ∃ point ∈ o.start :: o.evaluated services before, (o.costAt point).total = c}
        result.cost.total := by
  have hbefore := hcompute before.network before.services
  obtain ⟨happly, state, hflows⟩ :=
    (rests_of_optimize h).applyAll_eq hnetwork ⟨before.services, hbefore.trans hstart⟩
  rw [hcompute] at hflows
  exact ⟨happly, hflows, isLeast_cost_of_optimize h⟩

end Optimizer

/-! ### A shift that is optimised -/

namespace OneShift

/-- The set-point before any action is the one on the network. -/
theorem applyAll_setpoints (low : ℚ) :
    (Activation.ofReference setpoints).applyAll (optimizer low).rangeActions (network 0) =
      (network 0, .ok ()) := by
  refine Activation.applyAll_cons_eq_ok_iff.mpr ⟨0, network 0, ?_, ?_, rfl⟩
  · rw [Activation.get_ofReference, Setpoints.get_eq_ok_iff]
    exact Table.getElem?_ofPairs (by simp) List.mem_cons_self
  · exact RangeAction.apply_eq_self_of_no_taps rfl (Std.ExtTreeMap.getElem?_insert_self)

/-- The network is left at a set-point of -15 MW with a flow of 497 MW, at the least cost of the
two points evaluated. -/
theorem exit_at_integer_end : ∃ result after,
    Succeeds ((optimizer (-15)).optimize (proposing [-15, 15, 497, 303])) ⟨network 0, ()⟩ result
      after ∧ result.cost.total = -303 ∧
      result.point.activation.applyAll [shift] (network 0) = (after.network, .ok ()) ∧
      computer.compute after.network = ⟨result.point.flows, result.point.sensitivities⟩ ∧
      result.cost = (optimizer (-15)).costAt result.point ∧
      IsLeast {c | ∃ point ∈ (optimizer (-15)).start :: (optimizer (-15)).evaluated
        (proposing [-15, 15, 497, 303]) ⟨network 0, ()⟩,
          ((optimizer (-15)).costAt point).total = c} result.cost.total := by
  have hrun : (((optimizer (-15)).optimize (proposing [-15, 15, 497, 303])).run
      ⟨network 0, ()⟩).1.toOption.any (fun result => result.cost.total == -303) = true := by
    decide +kernel
  obtain ⟨result, after, hresult, hcost⟩ := exists_succeeds_of_any hrun
  have hcompute : ∀ network state, ((proposing [-15, 15, 497, 303]).compute network state).1 =
      computer.compute network := fun _ _ => rfl
  exact ⟨result, after, hresult, beq_iff_eq.mp hcost,
    Optimizer.exit_of_optimize hcompute (applyAll_setpoints (-15)) rfl hresult⟩

end OneShift

end GridRelief
