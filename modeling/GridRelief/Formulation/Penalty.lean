import GridRelief.Formulation.Writing
import GridRelief.Parameters

/-!
# Penalties

Monitored elements and loop flows have limits that may be exceeded at a cost: a variable takes up
what is beyond the limit, and the objective pays for it. A monitored element may exceed its
threshold as far as an accepted fall of its margin goes. A loop flow, the flow without what comes
from scheduled exchanges, may be as large as its threshold or somewhat larger than it was.

## Main definitions

* `Penalty.monitoredPart`: the limits of monitored elements.
* `LoopFlowRule.part`: the limits of loop flows.
-/

namespace GridRelief

variable {K : Type} [Scalar K]

namespace Penalty

open Writing

/-! ### Monitored elements -/

/-- The greatest flow that is free of cost: the threshold, or the accepted increase above the flow
before the optimisation. -/
def highestFlow (p : MnecParameters K) (initial upper : K) : K :=
  Scalar.max upper (initial + p.acceptableDecrease) - p.adjustment

/-- The least flow that is free of cost. -/
def lowestFlow (p : MnecParameters K) (initial lower : K) : K :=
  Scalar.min lower (initial - p.acceptableDecrease) + p.adjustment

/-- Write the limits of a monitored element. -/
def writeMonitored (p : MnecParameters K) (initial : Flows K) (unit : FlowUnit) (c : Cnec K) :
    Writing K Unit := do
  let initialFlow ← ofExcept (initial.megawatts c.id)
  let flow ← requireVariable (.flow c.id)
  let excess ← addVariable (.mnecViolation c.id) (.finite 0) .posInf .continuous
  c.upper.forM fun upper => do
    let _ ← addRow (.mnecViolation c.id .above) .negInf
      (.ofScalar (highestFlow p initialFlow upper))
      [(flow, 1), (excess, -1)]
  c.lower.forM fun lower => do
    let _ ← addRow (.mnecViolation c.id .below) (.ofScalar (lowestFlow p initialFlow lower)) .posInf
      [(flow, 1), (excess, 1)]
  setObjective excess (p.violationCost * c.conversion unit)

/-- The limits of monitored elements as a part of a linear problem. -/
def monitoredPart (p : MnecParameters K) (cnecs : List (Cnec K)) (initial : Flows K)
    (unit : FlowUnit) : Part K where
  name := "mnec"
  fill _ := cnecs.forM (writeMonitored p initial unit)

end Penalty

/-! ### Loop flows -/

/-- What the limits of loop flows are written from. -/
structure LoopFlowRule (K : Type) where
  cnecs : List (Cnec K)
  /-- The flows before the optimisation. -/
  initial : Flows K
  parameters : LoopFlowParameters K

namespace LoopFlowRule

open Writing

/-- A loop flow may exceed its limit by this much, in megawatts, so that rounding costs nothing. -/
def tolerance : K := Scalar.ofDecimal 1 2

/-- The greatest absolute loop flow that is free of cost. -/
def limit (rule : LoopFlowRule K) (c : Cnec K) : Except (Fault K) K := do
  let some threshold := c.loopFlowThreshold | .error (.noLoopFlowThreshold c.id)
  let initial := Scalar.abs (← rule.initial.loopFlow c.id)
  return Scalar.max threshold (initial + rule.parameters.acceptableIncrease)
    - rule.parameters.adjustment

/-- Write the rows of a loop flow, at first without bounds. -/
def write (rule : LoopFlowRule K) (c : Cnec K) : Writing K Unit := do
  let flow ← requireVariable (.flow c.id)
  let excess ← addVariable (.loopFlowViolation c.id) (.finite 0) .posInf .continuous
  let _ ← addRow (.loopFlowViolation c.id .positive) .negInf .posInf [(flow, 1), (excess, -1)]
  let _ ← addRow (.loopFlowViolation c.id .negative) .negInf .posInf [(flow, 1), (excess, 1)]
  setObjective excess rule.parameters.violationCost

/-- Adapt the bounds of a loop flow's rows to scheduled exchanges. -/
def adapt (rule : LoopFlowRule K) (flows : Flows K) (c : Cnec K) : Writing K Unit := do
  let limit ← ofExcept (rule.limit c)
  let commercial := flows.commercialFlow c.id
  let positive ← requireRow (.loopFlowViolation c.id .positive)
  let negative ← requireRow (.loopFlowViolation c.id .negative)
  setRowBounds positive .negInf (.ofScalar (limit + commercial + tolerance))
  setRowBounds negative (.ofScalar (-limit + commercial - tolerance)) .posInf

/-- The limits of loop flows as a part of a linear problem. -/
def part (rule : LoopFlowRule K) : Part K where
  name := "max-loop-flow"
  fill point := do
    rule.cnecs.forM rule.write
    rule.cnecs.forM (rule.adapt point.flows)
  refresh point _ := rule.cnecs.forM (rule.adapt point.flows)

end LoopFlowRule

end GridRelief
