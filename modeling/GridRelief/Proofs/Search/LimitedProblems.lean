import GridRelief.Proofs.Formulation.TapLimits
import GridRelief.Proofs.Formulation.Written
import GridRelief.Proofs.Problem.Boundedness
import GridRelief.Proofs.Search.RangeLimits

/-!
# Limits on use in the linear problem

What a leaf's network actions leave of the limits on use is a budget, and the rows of the budget
bound what an assignment may move. So every assignment that satisfies the problem of a leaf keeps
the limits together with the network actions, whatever linearisations and rounded set-points the
problem has been adapted to. The limits on elementary actions are kept where set-points follow tap
moves: the rows of the taps moved are adapted along with these.

* `Part.Written`: the problems that some parts are written into.
* `Formulation.limitedParts`: the parts of a problem whose limits on use come last.
* `Formulation.boundsTaps_of_written`: the taps of an operator are bounded all the way.
* `Formulation.KeepsLimits`: an assignment keeps the limits; `keepsLimits_of_satisfies`.
* `Leaf.keepsLimits_of_written`: so does every assignment that satisfies the problem of a leaf;
  `Leaf.exists_keepsLimits`: whatever its rounds have written.
-/

namespace GridRelief

open LinearProblem Writing

variable {K : Type}

/-! ### Written problems -/

/-- The problems that some parts are written into, by all of them, and adapted and solved any number
of times, with the set-points that they have last been written for or adapted to. -/
inductive Part.Written [Scalar K] (parts : List (Part K)) : Activation K → LinearProblem K → Prop
  | fill {solver : SolverKind} {point : Linearization K} {u : PUnit} {p : LinearProblem K}
    (h : Succeeds (parts.forM (·.fill point)) (.empty solver) u p) :
    Written parts point.activation p
  | refresh {activation : Activation K} {point : Linearization K} {iteration : Nat} {u : PUnit}
    {p q : LinearProblem K} (hp : Written parts activation p)
    (h : Succeeds (parts.forM (·.refresh point iteration)) p u q) :
    Written parts point.activation q
  | adjust {activation later : Activation K} {u : PUnit} {p q : LinearProblem K}
    (hp : Written parts activation p) (h : Succeeds (parts.forM (·.adjust later)) p u q) :
    Written parts later q
  | solve {activation : Activation K} {p : LinearProblem K} (hp : Written parts activation p)
    (solution : Option (List K)) (status : SolveStatus) :
    Written parts activation { p with solution, status }

/-- A written problem has grown from one that the parts have been written into once. -/
theorem Part.Written.exists_fill [Scalar K] {parts : List (Part K)} {touched : RowKey → Prop}
    {activation : Activation K} {p : LinearProblem K}
    (hparts : ∀ part ∈ parts, part.Extends touched) (h : Written parts activation p) :
    ∃ solver point filled, Succeeds (parts.forM (·.fill point)) (.empty solver) ⟨⟩ filled ∧
      filled.Extends touched p := by
  induction h with
  | fill h => exact ⟨_, _, _, h, .refl _⟩
  | refresh _ h ih =>
    obtain ⟨solver, point, filled, hfill, hgrows⟩ := ih
    exact ⟨solver, point, filled, hfill,
      hgrows.trans (extends_forM h fun part hpart _ _ _ ht => (hparts part hpart).refresh ht)⟩
  | adjust _ h ih =>
    obtain ⟨solver, point, filled, hfill, hgrows⟩ := ih
    exact ⟨solver, point, filled, hfill,
      hgrows.trans (extends_forM h fun part hpart _ _ _ ht => (hparts part hpart).adjust ht)⟩
  | solve _ solution status ih =>
    obtain ⟨solver, point, filled, hfill, hgrows⟩ := ih
    exact ⟨solver, point, filled, hfill, hgrows.trans (.of_eq rfl rfl)⟩

/-! ### Parts -/

/-- Without limits there is nothing to adapt. -/
theorem Usage.adapt_of_not_isLimited [Scalar K] {w : Usage K} (h : ¬w.budget.isLimited)
    (activation : Activation K) : w.adapt activation = pure () := by
  obtain ⟨-, -, -, -, helementary⟩ := UsageBudget.eq_none_of_not_isLimited h
  unfold adapt
  rw [helementary]
  rfl

namespace Formulation

section Parts

variable [Scalar K]

/-- The parts of a problem whose limits on use come last. -/
def limitedParts (f : Formulation K) (others : List (Part K)) : List (Part K) :=
  f.firstParts others ++ (f.budget.map fun budget => (f.usage budget).part).toList

variable {f : Formulation K} {others : List (Part K)} {part : Part K}
  (hothers : ∀ part ∈ others, part.Extends RowKey.IsAdaptedElsewhere)
include hothers

theorem extends_of_mem_limitedParts (h : part ∈ f.limitedParts others) :
    part.Extends RowKey.IsAdapted := by
  rw [limitedParts, List.mem_append, Option.mem_toList, Option.map_eq_some_iff] at h
  rcases h with hfirst | ⟨budget, -, rfl⟩
  · exact (extends_of_mem_firstParts hothers hfirst).mono RowKey.isAdapted_of_isAdaptedElsewhere
  · exact Usage.part_extends fun _ _ => trivial

omit hothers

/-- Work by the parts of a formulation is work by these parts, if it does nothing to limits on use
that limit nothing. -/
theorem succeeds_limitedParts {work : Part K → Writing K PUnit} {p q : LinearProblem K} {u : PUnit}
    (hidle : ∀ budget, ¬budget.isLimited → work (f.usage budget).part = pure ())
    (h : Succeeds (f.parts.forM work) p u q) :
    Succeeds ((f.limitedParts f.otherParts).forM work) p u q := by
  rw [parts_eq] at h
  obtain ⟨s, hfirst, hlimits⟩ := succeeds_forM_append_iff.mp h
  refine succeeds_forM_append_iff.mpr ⟨s, hfirst, ?_⟩
  cases hbudget : f.budget with
  | none =>
    rw [hbudget] at hlimits
    exact hlimits
  | some budget =>
    rw [hbudget] at hlimits
    dsimp only at hlimits
    unfold partIf at hlimits
    split at hlimits
    · exact hlimits
    · next hlimited =>
      refine succeeds_forM_cons_iff.mpr ⟨s, ?_, hlimits⟩
      rw [hidle budget hlimited]
      exact succeeds_pure_iff.mpr ⟨rfl, rfl⟩

/-- The problems of a formulation are written by such parts. -/
theorem Written.exists_limitedParts {p : LinearProblem K} (h : f.Written p) :
    ∃ activation, Part.Written (f.limitedParts f.otherParts) activation p := by
  induction h with
  | fill h =>
    exact ⟨_, .fill (succeeds_limitedParts (fun budget hlimited => if_neg hlimited) h)⟩
  | refresh _ h ih =>
    obtain ⟨_, ih⟩ := ih
    exact ⟨_, ih.refresh (succeeds_limitedParts
      (fun budget hlimited => Usage.adapt_of_not_isLimited hlimited _) h)⟩
  | adjust _ h ih =>
    obtain ⟨_, ih⟩ := ih
    exact ⟨_, ih.adjust (succeeds_limitedParts
      (fun budget hlimited => Usage.adapt_of_not_isLimited hlimited _) h)⟩
  | solve _ solution status ih =>
    obtain ⟨activation, ih⟩ := ih
    exact ⟨activation, ih.solve solution status⟩

end Parts

variable [ExactScalar K] {f : Formulation K} {others : List (Part K)} {budget : UsageBudget}
  {operator : String} {limit : Nat} {activation later : Activation K} {point : Linearization K}
  {p q : LinearProblem K} {u : PUnit}
  (hothers : ∀ part ∈ others, part.Extends RowKey.IsAdaptedElsewhere)
include hothers

/-! ### Writing -/

/-- Once the parts before the limits on use are written, phase shifters that follow tap moves have
variables for these. -/
theorem hasVariable_of_firstParts (hbyTaps : f.byTaps = true)
    (h : Succeeds ((f.firstParts others).forM (·.fill point)) p u q) {r : RangeAction K}
    (hr : r ∈ f.perimeter.rangeActions.filter RangeAction.isPst) (direction : TapDirection) :
    q.HasVariable (.tapVariation r.id direction) := by
  obtain ⟨a, -, hrest⟩ := succeeds_forM_cons_iff.mp h
  obtain ⟨b, htaps, hrest⟩ := succeeds_forM_append_iff.mp hrest
  have hbq : b.Extends RowKey.IsAdapted q := extends_forM hrest fun part hpart _ _ _ ht =>
    ((hothers part hpart).mono RowKey.isAdapted_of_isAdaptedElsewhere).fill ht
  rw [hbyTaps] at htaps
  obtain ⟨c, hfill, hnil⟩ := succeeds_forM_cons_iff.mp htaps
  obtain ⟨-, rfl⟩ := succeeds_pure_iff.mp hnil
  exact ((TapMoves.hasVariable_of_fill hfill r hr direction).of_extends hbq).1

omit hothers in
/-- Work by all parts ends with that by the limits on use. -/
theorem exists_firstParts {work : Part K → Writing K PUnit} (hbudget : f.budget = some budget)
    (h : Succeeds ((f.limitedParts others).forM work) p u q) :
    ∃ s, Succeeds ((f.firstParts others).forM work) p ⟨⟩ s ∧
      Succeeds (work (f.usage budget).part) s ⟨⟩ q := by
  unfold limitedParts at h
  rw [hbudget] at h
  obtain ⟨s, hfirst, hlimits⟩ := succeeds_forM_append_iff.mp h
  obtain ⟨t, husage, hnil⟩ := succeeds_forM_cons_iff.mp hlimits
  obtain ⟨-, rfl⟩ := succeeds_pure_iff.mp hnil
  exact ⟨s, hfirst, husage⟩

/-- Once all parts are written, the range actions whose set-points are far away keep the budget. -/
theorem forces_covers_of_limitedParts (hbudget : f.budget = some budget)
    (h : Succeeds ((f.limitedParts others).forM (·.fill point)) p u q) :
    q.Forces RowKey.IsAdapted fun y => budget.Covers ((f.usage budget).shifted y) := by
  obtain ⟨s, hfirst, hlimits⟩ := exists_firstParts hbudget h
  obtain ⟨hmeasures, hnodup⟩ := measures_of_firstParts hothers hfirst
  exact Usage.forces_covers_of_fill (m := f.movement) rfl hmeasures hnodup hlimits

/-- Once all parts are written, the taps of each operator with a limit on elementary actions are
bounded, if set-points follow tap moves. -/
theorem boundsTaps_of_limitedParts (hbyTaps : f.byTaps = true) (hbudget : f.budget = some budget)
    (hlimit : budget.maxElementaryPerTso[operator]? = some limit)
    (h : Succeeds ((f.limitedParts others).forM (·.fill point)) p u q) :
    (f.usage budget).BoundsTaps point.activation operator limit q := by
  obtain ⟨s, hfirst, hlimits⟩ := exists_firstParts hbudget h
  obtain ⟨-, hnodup⟩ := measures_of_firstParts hothers hfirst
  change Succeeds (if budget.isLimited then _ else _) s _ q at hlimits
  split at hlimits
  · refine Usage.boundsTaps_of_write hnodup (fun r hr => ?_) hlimits hlimit
    obtain ⟨hoperator, hpst⟩ := List.mem_filter.mp hr
    exact hasVariable_of_firstParts hothers hbyTaps hfirst
      (List.mem_filter.mpr ⟨List.mem_of_mem_filter hoperator, hpst⟩)
  · next hlimited =>
    obtain ⟨-, -, -, -, helementary⟩ := UsageBudget.eq_none_of_not_isLimited hlimited
    rw [helementary] at hlimit
    cases hlimit

/-! ### Adapting -/

/-- Adapting all parts to other set-points bounds the taps from these. -/
theorem boundsTaps_of_work {work : Part K → Writing K PUnit}
    (hwork : ∀ part, part.Extends RowKey.IsAdaptedElsewhere → ∀ {s t : LinearProblem K},
      Succeeds (work part) s ⟨⟩ t → s.Extends RowKey.IsAdaptedElsewhere t)
    (hadapts : work (f.usage budget).part = (f.usage budget).adapt later)
    (hbudget : f.budget = some budget)
    (hnodup : (f.perimeter.rangeActions.map RangeAction.id).Nodup)
    (hlimit : budget.maxElementaryPerTso[operator]? = some limit)
    (hp : (f.usage budget).BoundsTaps activation operator limit p)
    (h : Succeeds ((f.limitedParts others).forM work) p u q) :
    (f.usage budget).BoundsTaps later operator limit q := by
  obtain ⟨s, hfirst, husage⟩ := exists_firstParts hbudget h
  have hps : p.Extends RowKey.IsAdaptedElsewhere s := extends_forM hfirst fun part hpart _ _ _ ht =>
    hwork part (extends_of_mem_firstParts hothers hpart) ht
  rw [hadapts] at husage
  exact (hp.of_extends hps).of_adapt hnodup hlimit husage

/-- By induction on its history, every problem written by these parts bounds the taps from the
set-points that it has last been written for or adapted to. -/
theorem boundsTaps_of_written (hbyTaps : f.byTaps = true) (hbudget : f.budget = some budget)
    (hnodup : (f.perimeter.rangeActions.map RangeAction.id).Nodup)
    (hlimit : budget.maxElementaryPerTso[operator]? = some limit)
    (h : Part.Written (f.limitedParts others) activation p) :
    (f.usage budget).BoundsTaps activation operator limit p := by
  induction h with
  | fill h => exact boundsTaps_of_limitedParts hothers hbyTaps hbudget hlimit h
  | refresh _ h ih =>
    exact boundsTaps_of_work hothers (fun _ hpart _ _ ht => hpart.refresh ht) rfl hbudget hnodup
      hlimit ih h
  | adjust _ h ih =>
    exact boundsTaps_of_work hothers (fun _ hpart _ _ ht => hpart.adjust ht) rfl hbudget hnodup
      hlimit ih h
  | solve _ solution status ih => exact ih.of_extends (.of_eq rfl rfl)

/-! ### What is kept -/

/-- In every written problem distances are measured, and the names of range actions differ. -/
theorem measures_of_written (h : Part.Written (f.limitedParts others) activation p) :
    (∀ r ∈ f.perimeter.rangeActions, f.movement.Measures p r) ∧
      (f.perimeter.rangeActions.map RangeAction.id).Nodup := by
  obtain ⟨solver, point, filled, hfill, hgrows⟩ :=
    h.exists_fill fun _ => extends_of_mem_limitedParts hothers
  obtain ⟨s, hfirst, hlimits⟩ := succeeds_forM_append_iff.mp hfill
  obtain ⟨hmeasures, hnodup⟩ := measures_of_firstParts hothers hfirst
  have hsf : s.Extends RowKey.IsAdapted filled := extends_forM hlimits fun part hpart _ _ _ ht =>
    (extends_of_mem_limitedParts hothers (List.mem_append_right _ hpart)).fill ht
  exact ⟨fun r hr => (hmeasures r hr).of_extends (hsf.trans hgrows), hnodup⟩

/-- In every written problem the range actions whose set-points are far away keep the budget. -/
theorem covers_of_written (hbudget : f.budget = some budget)
    (h : Part.Written (f.limitedParts others) activation p) {x : VariableId → K}
    (hx : p.Keeps x) : budget.Covers ((f.usage budget).shifted (p.valueOf x)) := by
  obtain ⟨solver, point, filled, hfill, hgrows⟩ :=
    h.exists_fill fun _ => extends_of_mem_limitedParts hothers
  exact forces_covers_of_limitedParts hothers hbudget hfill p hgrows x hx

omit hothers in
/-- An assignment of a problem keeps limits together with network actions: the range actions whose
set-points it has farther away than their slacks from the ones before the optimisation keep the
limits on numbers, and where set-points follow tap moves, the taps that are moved since before the
optimisation once it moves those of an activation keep the limits on elementary actions. -/
structure KeepsLimits (f : Formulation K) (limits : UsageLimits) (applied : ActionSet K)
    (activation : Activation K) (p : LinearProblem K) (x : VariableId → K) : Prop where
  usage : ∃ reference : RangeAction K → K,
    (∀ r ∈ f.perimeter.rangeActions, p.HasVariable (.setpoint r.id) ∧
      f.baseline.setpoints.get r.id = .ok (reference r)) ∧
    limits.Permits applied (f.perimeter.rangeActions.filter fun r =>
      decide ((f.usage {}).slack r < |p.valueOf x (.setpoint r.id) - reference r|))
  elementary : f.byTaps = true → ∀ operator most,
    limits.maxElementaryPerTso[operator]? = some most → applied.sizeOf operator ≤ most →
      ∃ present start : RangeAction K → Int,
        (∀ r ∈ (f.usage {}).shiftersOf operator,
          (∀ direction, p.HasVariable (.tapVariation r.id direction)) ∧
          activation.tap r = .ok (present r) ∧ f.baseline.setpoints.tap r = .ok (start r)) ∧
        (applied.sizeOf operator : K) + (((f.usage {}).shiftersOf operator).map fun r =>
          |(present r : K) + p.valueOf x (.tapVariation r.id .upward) -
            p.valueOf x (.tapVariation r.id .downward) - start r|).sum ≤ most

/-- Where set-points follow tap moves, every assignment that keeps the problem of a leaf keeps the
limits on elementary actions that its network actions keep by themselves. -/
theorem sizeOf_add_sum_le {limits : UsageLimits} {applied : ActionSet K} {most : Nat}
    (hbyTaps : f.byTaps = true) (hbudget : f.budget = limits.budget? applied)
    (hp : Part.Written (f.limitedParts others) activation p) {x : VariableId → K} (hx : p.Keeps x)
    (hmost : limits.maxElementaryPerTso[operator]? = some most)
    (happlied : applied.sizeOf operator ≤ most) :
    ∃ present start : RangeAction K → Int,
      (∀ r ∈ (f.usage {}).shiftersOf operator,
        (∀ direction, p.HasVariable (.tapVariation r.id direction)) ∧
        activation.tap r = .ok (present r) ∧ f.baseline.setpoints.tap r = .ok (start r)) ∧
      (applied.sizeOf operator : K) + (((f.usage {}).shiftersOf operator).map fun r =>
        |(present r : K) + p.valueOf x (.tapVariation r.id .upward) -
          p.valueOf x (.tapVariation r.id .downward) - start r|).sum ≤ most := by
  cases hsome : limits.budget? applied with
  | none =>
    obtain ⟨-, -, -, -, hnone⟩ :=
      UsageLimits.eq_none_of_isEmpty (UsageLimits.isEmpty_of_budget?_eq_none hsome)
    rw [hnone] at hmost
    cases hmost
  | some budget =>
    have hleft : budget.maxElementaryPerTso[operator]? =
        some (most - applied.sizeOf operator) := by
      unfold UsageLimits.budget? at hsome
      split at hsome
      · cases hsome
      · obtain rfl := Option.some.inj hsome
        exact Table.getElem?_mapValues hmost
    have hbounds := boundsTaps_of_written hothers hbyTaps (hbudget.trans hsome)
      (measures_of_written hothers hp).2 hleft hp
    obtain ⟨present, start, htaps, hsum⟩ := hbounds.sum_le hx
    refine ⟨present, start, htaps, ?_⟩
    rw [Nat.cast_sub happlied] at hsum
    exact le_sub_iff_add_le'.mp hsum

/-- Every assignment that satisfies a problem with the budget that network actions leave keeps the
limits together with these. -/
theorem keepsLimits_of_satisfies {limits : UsageLimits} {applied : ActionSet K}
    (happlied : limits.Permits applied []) (hbudget : f.budget = limits.budget? applied)
    (hp : Part.Written (f.limitedParts others) activation p) {x : VariableId → K}
    (hx : p.Satisfies x) : f.KeepsLimits limits applied activation p x := by
  obtain ⟨hmeasures, -⟩ := measures_of_written hothers hp
  have hreference : ∀ r ∈ f.perimeter.rangeActions, ∃ reference,
      f.baseline.setpoints.get r.id = .ok reference := fun r hr =>
    (hmeasures r hr).forces.imp fun _ h => h.1
  choose! reference hreference using hreference
  refine ⟨⟨reference, fun r hr => ⟨(hmeasures r hr).setpoint, hreference r hr⟩, ?_⟩, ?_⟩
  · cases hsome : limits.budget? applied with
    | none => exact UsageLimits.permits_of_budget?_eq_none hsome
    | some budget =>
      have hshifted : (f.usage budget).shifted (p.valueOf x) =
          f.perimeter.rangeActions.filter fun r =>
            decide ((f.usage {}).slack r < |p.valueOf x (.setpoint r.id) - reference r|) := by
        refine List.filter_congr fun r hr => ?_
        unfold Usage.isShifted
        rw [show (f.usage budget).initial.get r.id = .ok (reference r) from hreference r hr]
        rfl
      rw [← hshifted]
      exact UsageLimits.permits_of_covers happlied hsome
        (covers_of_written hothers (hbudget.trans hsome) hp hx.keeps)
  · intro hbyTaps operator most hmost hsize
    exact sizeOf_add_sum_le hothers hbyTaps hbudget hp hx.keeps hmost hsize

end Formulation

/-! ### Leaves -/

namespace Leaf

variable {N : Type} [ExactScalar K] {leaf : Leaf N K} {s : Situation N K}
  {parameters : Parameters K} {outcome : Outcome K} {activation : Activation K}
  {p : LinearProblem K} {x : VariableId → K}

/-- If the network actions of a leaf keep the limits, so does every assignment that satisfies the
problem that set-points, tap moves where these are followed, and limits on use are written into,
whatever the problem has been adapted to. -/
theorem keepsLimits_of_written (happlied : parameters.limits.Permits leaf.applied [])
    (hp : Part.Written ((leaf.optimizer s parameters outcome).formulation.limitedParts [])
      activation p)
    (hx : p.Satisfies x) : (leaf.optimizer s parameters outcome).formulation.KeepsLimits
      parameters.limits leaf.applied activation p x :=
  Formulation.keepsLimits_of_satisfies (fun _ h => absurd h List.not_mem_nil) happlied rfl hp hx

/-- The same of every problem that the rounds of a leaf write, adapt and solve. -/
theorem exists_keepsLimits (happlied : parameters.limits.Permits leaf.applied [])
    (hp : (leaf.optimizer s parameters outcome).formulation.Written p) :
    ∃ activation, ∀ x, p.Satisfies x → (leaf.optimizer s parameters outcome).formulation.KeepsLimits
      parameters.limits leaf.applied activation p x := by
  obtain ⟨activation, hwritten⟩ := hp.exists_limitedParts
  exact ⟨activation, fun x hx => Formulation.keepsLimits_of_satisfies
    (fun _ => Formulation.extends_of_mem_otherParts) happlied rfl hwritten hx⟩

end Leaf

/-! ### A grid with two phase shifters -/

namespace TwoShifters

/-- A phase shifter of the operator with three taps, one degree apart. -/
def shifter (id : String) : RangeAction ℚ :=
  { RangeAction.pst id id (TapTable.ofPairs [(-1, -1), (0, 0), (1, 1)]) with
    operator := some "owner" }

/-- The line and the phase shifters. -/
def perimeter : Perimeter ℚ :=
  .ofLists .preventive [TwoSwitches.line] [] [shifter "left", shifter "right"]

/-- The grid: the line carries 500 MW, and the left phase shifter adds to it. -/
def network : LinearNetwork ℚ :=
  ({ id := "grid" } : LinearNetwork ℚ)
    |>.withBaseFlow "line" 500
    |>.withPst (shifter "left") 0
    |>.withPst (shifter "right") 0
    |>.withSensitivity "left" "line" 10

/-- The situation before any action. -/
def situation : Situation (LinearNetwork ℚ) ℚ where
  network
  perimeter
  outcome := LinearComputer.compute ⟨perimeter.cnecs, perimeter.rangeActions, []⟩ network
  setpoints := ⟨Table.ofPairs [("left", 0), ("right", 0)]⟩
  objective := (MarginObjective.ofPerimeter perimeter .megawatt).evaluate
  borders := .empty
  detected := []

/-- The parameters: set-points follow tap moves, and everything is limited. -/
def parameters : Parameters ℚ :=
  { Parameters.default with
    optimizer.pstModel := .approximatedIntegers
    limits :=
      { maxRa := some 2, maxTso := some 1, maxRaPerTso := Table.ofPairs [("owner", 2)]
        maxPstPerTso := Table.ofPairs [("owner", 1)]
        maxElementaryPerTso := Table.ofPairs [("owner", 3)] } }

/-- The action of the operator that opens two switches. -/
def opening : NetworkAction ℚ :=
  { id := "open-both", operator := some "owner"
    parts := [.topology "first" false, .topology "second" false] }

/-- The leaf with this action. -/
def leaf : Leaf (LinearNetwork ℚ) ℚ where
  network
  applied := .ofList [opening]
  start := .ofReference situation.setpoints
  phase := .created

/-- What optimises the set-points of the leaf. -/
def optimizer : Optimizer ℚ := leaf.optimizer situation parameters situation.outcome

/-- The set-points after the left phase shifter has moved by one tap. -/
def moved : Activation ℚ := leaf.start.set "left" 1

/-- The action keeps the limits by itself. -/
theorem permits_opening : parameters.limits.Permits leaf.applied [] := by
  have hcount : ∀ entry ∈ parameters.limits.maxRaPerTso.toList,
      leaf.applied.countOf entry.1 ≤ entry.2 := by decide +kernel
  constructor
  · rintro _ ⟨⟩
    decide +kernel
  · intro operator most hmost
    exact hcount (operator, most) (Std.ExtTreeMap.mem_toList_iff_getElem?_eq_some.mpr hmost)
  · intro _ most _
    exact Nat.zero_le most
  · rintro _ ⟨⟩
    decide +kernel

/-- What the network action leaves of the limits: one range action, and one tap. -/
def budget : UsageBudget where
  maxRa := some 1
  maxTso := some 0
  involved := NameSet.ofNames ["owner"]
  maxRaPerTso := Table.ofPairs [("owner", 1)]
  maxPstPerTso := Table.ofPairs [("owner", 1)]
  maxElementaryPerTso := Table.ofPairs [("owner", 1)]

/-- The limits on use. -/
def usage : Usage ℚ := optimizer.formulation.usage budget

/-- The parts that the problem of the leaf is written by. -/
theorem limitedParts_eq : optimizer.formulation.limitedParts [] =
    [optimizer.formulation.movement.part, TapMoves.part [shifter "left", shifter "right"],
      usage.part] := by
  have hbudget : parameters.limits.budget? leaf.applied = some budget := by
    unfold UsageLimits.budget?
    rw [if_neg (by decide +kernel)]
    rfl
  unfold Formulation.limitedParts
  change _ ++ (Option.map _ (parameters.limits.budget? leaf.applied)).toList = _
  rw [hbudget]
  rfl

theorem byTaps_usage : usage.byTaps = true := by decide +kernel

theorem span_shifter (id : String) : (shifter id).taps?.bind Usage.span? = some 2 := by
  change Usage.span? (TapTable.ofPairs [(-1, (-1 : ℚ)), (0, 0), (1, 1)]) = some 2
  unfold Usage.span?
  rw [Std.ExtTreeMap.minKey?_eq_head?_keys, Std.ExtTreeMap.maxKey?_eq_getLast?_keys]
  decide +kernel

theorem checkSpan_shifter (id : String) : usage.checkSpan (shifter id) = .ok () := by
  unfold Usage.checkSpan
  rw [if_pos byTaps_usage, span_shifter]
  rfl

/-- Three tenths of a degree do not count as a move. -/
theorem slack_shifter (id : String) : usage.slack (shifter id) = 3 / 10 := by
  have hstep : (shifter id).taps?.bind Usage.meanStep? = some 1 := by
    change (Usage.span? _).map _ = _
    rw [show Usage.span? _ = some 2 from span_shifter id]
    decide +kernel
  unfold Usage.slack
  rw [if_pos byTaps_usage, hstep]
  decide +kernel

/-- Write whether a phase shifter moves. -/
def writeMoves (r : RangeAction ℚ) : Writing ℚ Unit := do
  let moves ← addBinary (.variation r.id)
  let distance ← requireVariable (.absoluteVariation r.id)
  let _ ← addRow (.variation r.id) .negInf (.ofScalar (3 / 10))
    [(distance, 1), (moves, -(r.max + Usage.tolerance - r.min))]

theorem forM_writeMoves : usage.rangeActions.forM usage.writeMoves =
    [shifter "left", shifter "right"].forM writeMoves := by
  have hmoves : ∀ id, usage.writeMoves (shifter id) = writeMoves (shifter id) := by
    intro id
    unfold Usage.writeMoves writeMoves
    rw [slack_shifter, checkSpan_shifter]
    rfl
  change ([shifter "left", shifter "right"].forM usage.writeMoves) = _
  simp only [List.forM_eq_forM, List.forM_cons, List.forM_nil, hmoves]

/-- The values of an assignment: the left phase shifter moves by a degree. -/
def values : VariableId → ℚ :=
  fun v => [1, 1, 0, 0, 510, 0, 0, 0, 0, 0, 0, 0, 0, 1, 0, 1, 0].getD v 0

/-- Once a tap has been moved and the problem has been adapted to that, an assignment moves no other
range action, and the limits on range actions and on taps are kept as they are reached. -/
theorem keepsLimits_after_tap :
    let f := optimizer.formulation
    f.byTaps = true ∧ leaf.applied.sizeOf "owner" = 2 ∧ ∃ p,
      Part.Written (f.limitedParts []) moved p ∧ p.Satisfies values ∧
        p.valueOf values (.setpoint "left") = 1 ∧
          f.KeepsLimits parameters.limits leaf.applied moved p values := by
  intro f
  have hwork : (ExceptT.run (m := StateM (LinearProblem ℚ)) (do
      (f.limitedParts []).forM (·.fill optimizer.start)
      (f.limitedParts []).forM (·.adjust moved)
      get) (.empty .microlp)).1.toOption.any (fun p =>
        decide (p.Satisfies values ∧ p.valueOf values (.setpoint "left") = 1)) = true := by
    rw [limitedParts_eq]
    simp only [Usage.part, Usage.write, forM_writeMoves]
    decide +kernel
  obtain ⟨p, _, h, hpoint⟩ := exists_succeeds_of_any hwork
  simp only [succeeds_bind_iff, succeeds_get_iff] at h
  obtain ⟨_, s, hfill, _, _, hadjust, rfl, -⟩ := h
  obtain ⟨hsatisfies, hleft⟩ := of_decide_eq_true hpoint
  have hwritten := (Part.Written.fill hfill).adjust hadjust
  exact ⟨by decide +kernel, by decide +kernel, _, hwritten, hsatisfies, hleft,
    Leaf.keepsLimits_of_written permits_opening hwritten hsatisfies⟩

end TwoShifters

end GridRelief
