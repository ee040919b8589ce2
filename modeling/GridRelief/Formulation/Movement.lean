import GridRelief.Formulation.Writing
import GridRelief.Parameters

/-!
# Set-points and flows

The set-point of each range action is a variable within its range, and a second variable is at
least its distance from the set-point before the optimisation. The flow on each critical element
is a variable that follows the set-points: with the flow `f` and the sensitivities `s` at the
set-points `x`, it is `f + ∑ s * (S - x)` over the range actions whose sensitivity is not below a
threshold. The range left for a set-point may shrink from one linearisation to the next.

## Main definitions

* `Movement K`: what these variables and rows are written from.
* `Movement.part`: the part that writes them.
-/

namespace GridRelief

variable {K : Type} [Scalar K]

/-- The sensitivity below which a range action does not count for a flow. -/
def OptimizerParameters.sensitivityThreshold (p : OptimizerParameters K) (r : RangeAction K) : K :=
  match r.kind with
  | .pst _ => p.pstSensitivityThreshold
  | .hvdc => p.hvdcSensitivityThreshold
  | .injection => p.injectionSensitivityThreshold

/-- The cost of moving the set-point of a range action by one. -/
def OptimizerParameters.penalty (p : OptimizerParameters K) (r : RangeAction K) : K :=
  match r.kind with
  | .pst _ => p.pstPenalty
  | .hvdc => p.hvdcPenalty
  | .injection => p.injectionPenalty

/-- What the variables of set-points and flows are written from. -/
structure Movement (K : Type) where
  cnecs : List (Cnec K)
  rangeActions : List (RangeAction K)
  /-- The set-points before the optimisation. -/
  initial : Setpoints K
  optimizer : OptimizerParameters K
  /-- Whether ranges shrink. -/
  shrinking : Bool

namespace Movement

open Writing

/-! ### Set-points -/

/-- Write the set-point of a range action, its distance and the cost of the distance. -/
def writeSetpoint (m : Movement K) (r : RangeAction K) : Writing K Unit := do
  let initial ← ofExcept (m.initial.get r.id)
  let setpoint ← addVariable (.setpoint r.id) (.ofScalar r.min) (.ofScalar r.max) .continuous
  let distance ← addVariable (.absoluteVariation r.id) (.finite 0) .posInf .continuous
  let _ ← addRow (.absoluteVariation r.id .negative) (.ofScalar (-initial)) .posInf
    [(distance, 1), (setpoint, -1)]
  let _ ← addRow (.absoluteVariation r.id .positive) (.ofScalar initial) .posInf
    [(distance, 1), (setpoint, 1)]
  setObjective distance (m.optimizer.penalty r)

/-- The part of the whole range that is left after each linearisation. -/
def shrinkRate : K := Scalar.ofDecimal 667 3

/-- Keep the set-point of a range action near its present one after so many iterations. -/
def shrinkRange (activation : Activation K) (iteration : Nat) (r : RangeAction K) :
    Writing K Unit := do
  let current ← ofExcept (activation.get r.id)
  let range := (Scalar.abs r.min + Scalar.abs r.max) * Scalar.power shrinkRate iteration
  let lower : Bound K := .ofScalar (current - range)
  let upper : Bound K := .ofScalar (current + range)
  match ← rowId? (.shrink r.id) with
  | some row => setRowBounds row lower upper
  | none =>
    let setpoint ← requireVariable (.setpoint r.id)
    let _ ← addRow (.shrink r.id) lower upper [(setpoint, 1)]

/-! ### Flows -/

/-- Write the flow on an element; its row is adapted to the set-points afterwards. -/
def writeFlow (point : Linearization K) (c : Cnec K) : Writing K Unit := do
  let flow ← addVariable (.flow c.id) .negInf .posInf .continuous
  let reference ← ofExcept (point.flows.megawatts c.id)
  let _ ← addRow (.flow c.id) (.ofScalar reference) (.ofScalar reference) [(flow, 1)]

/-- Write the term of a range action in the row of a flow, and take what it gives at the present
set-point off the constant of the row. -/
def writeTerm (m : Movement K) (point : Linearization K) (c : Cnec K) (row : RowId)
    (constant : K) (r : RangeAction K) : Writing K K := do
  let setpoint ← requireVariable (.setpoint r.id)
  let sensitivity := point.sensitivities.get c.id r.id
  if m.optimizer.sensitivityThreshold r ≤ Scalar.abs sensitivity then
    let current ← ofExcept (point.activation.get r.id)
    setCoefficient row setpoint (-sensitivity)
    return constant - sensitivity * current
  else
    setCoefficient row setpoint 0
    return constant

/-- Adapt the row of a flow to a linearisation. -/
def adaptFlow (m : Movement K) (point : Linearization K) (c : Cnec K) : Writing K Unit := do
  let row ← requireRow (.flow c.id)
  let reference ← ofExcept (point.flows.megawatts c.id)
  let constant ← m.rangeActions.foldlM (m.writeTerm point c row) reference
  setRowBounds row (.ofScalar constant) (.ofScalar constant)

/-! ### The part -/

/-- Set-points and flows as a part of a linear problem. -/
def part (m : Movement K) : Part K where
  name := "core"
  fill point := do
    m.rangeActions.forM m.writeSetpoint
    m.cnecs.forM (writeFlow point)
    m.cnecs.forM (m.adaptFlow point)
  refresh point iteration := do
    m.cnecs.forM (m.adaptFlow point)
    if m.shrinking && decide (0 < iteration) then
      m.rangeActions.forM (shrinkRange point.activation iteration)

end Movement

end GridRelief
