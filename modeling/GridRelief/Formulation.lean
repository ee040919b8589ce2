import GridRelief.Formulation.Conditional
import GridRelief.Formulation.Margin
import GridRelief.Formulation.Movement
import GridRelief.Formulation.Penalty
import GridRelief.Formulation.TapMoves
import GridRelief.Formulation.Usage
import GridRelief.Perimeter

/-!
# The linear problem of an optimisation

Which parts the linear problem of a perimeter has follows from the parameters, from what the
perimeter holds and from what may still be used. Set-points and flows come first, since all other
parts look them up, and limits on use come last.

## Main definitions

* `Baseline K`: flows and set-points before the optimisation.
* `Formulation K`: what a linear problem is written from.
* `Formulation.parts`: its parts.
-/

namespace GridRelief

variable {K : Type} [Scalar K]

/-- The flows and set-points before any action of a perimeter. -/
structure Baseline (K : Type) where
  flows : Flows K
  setpoints : Setpoints K

/-- What a linear problem is written from. -/
structure Formulation (K : Type) where
  parameters : Parameters K
  perimeter : Perimeter K
  baseline : Baseline K
  /-- What range actions may still use, if that is limited. -/
  budget : Option UsageBudget := none

namespace Formulation

/-- Whether the set-points of phase shifters follow tap moves. -/
def byTaps (f : Formulation K) : Bool :=
  f.parameters.optimizer.pstModel == .approximatedIntegers

/-- The unit of the objective. -/
def unit (f : Formulation K) : FlowUnit := f.parameters.objective.unit

/-- Set-points and flows. -/
def movement (f : Formulation K) : Movement K where
  cnecs := f.perimeter.cnecs
  rangeActions := f.perimeter.rangeActions
  initial := f.baseline.setpoints
  optimizer := f.parameters.optimizer
  shrinking := f.parameters.tree.rangeShrinking

/-- The smallest margin. -/
def absoluteMargin (f : Formulation K) : Part K :=
  Margin.absolutePart f.perimeter.optimizedCnecs f.unit

/-- The smallest relative margin. -/
def relativeMargin (f : Formulation K) : Part K :=
  Margin.relativePart f.perimeter.optimizedCnecs f.baseline.flows f.unit
    f.parameters.optimizer.zonalSumFloor

/-- The elements that count under a condition. -/
def conditional (f : Formulation K) : Conditional K :=
  .ofParameters f.perimeter.optimizedCnecs f.perimeter.rangeActions f.baseline.flows
    f.parameters.unoptimized

/-- The limits of monitored elements. -/
def monitored (f : Formulation K) (p : MnecParameters K) : Part K :=
  Penalty.monitoredPart p f.perimeter.monitoredCnecs f.baseline.flows f.unit

/-- The limits of the loop flows of some elements. -/
def loopFlow (f : Formulation K) (p : LoopFlowParameters K) (cnecs : List (Cnec K)) :
    LoopFlowRule K :=
  ⟨cnecs, f.baseline.flows, p⟩

/-- The limits on use. -/
def usage (f : Formulation K) (budget : UsageBudget) : Usage K :=
  ⟨f.perimeter.rangeActions, f.baseline.setpoints, budget, f.byTaps⟩

/-- A part that is there only under a condition. -/
def partIf (condition : Bool) (part : Part K) : List (Part K) := if condition then [part] else []

/-- The parts of a linear problem, in the order in which they are written. -/
def parts (f : Formulation K) : List (Part K) :=
  [f.movement.part]
  ++ partIf f.byTaps (TapMoves.part f.perimeter.rangeActions)
  ++ [if f.parameters.objective.kind.isRelative then f.relativeMargin else f.absoluteMargin]
  ++ partIf f.parameters.unoptimized.isActive f.conditional.part
  ++ (match f.parameters.mnec with
    | some p => partIf (!f.perimeter.monitoredCnecs.isEmpty) (f.monitored p)
    | none => [])
  ++ (match f.parameters.loopFlow with
    | some p =>
      let cnecs := f.perimeter.loopFlowCnecs
      partIf (!cnecs.isEmpty) (f.loopFlow p cnecs).part
    | none => [])
  ++ (match f.budget with
    | some budget => partIf budget.isLimited (f.usage budget).part
    | none => [])

end Formulation

end GridRelief
