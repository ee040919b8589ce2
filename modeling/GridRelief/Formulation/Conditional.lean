import GridRelief.Formulation.Writing
import GridRelief.Parameters

/-!
# Elements that count under a condition

Some optimised elements count for the smallest margin only under a condition. An element of an
operator to be ignored counts when its margin falls below what it was before the optimisation. An
element in series with a phase shifter counts when the phase shifter alone cannot bring its flow
within the thresholds. A binary variable of the element says whether it counts: while it is zero,
the rows of the smallest margins are relaxed and the rows of the condition must hold.

## Main definitions

* `Condition K`: when an element counts.
* `Conditional.ofParameters`: the elements of a perimeter that count under a condition.
* `Conditional.part`: the part that writes them.
-/

namespace GridRelief

variable {K : Type} [Scalar K]

/-- When an element counts for the smallest margin. -/
inductive Condition (K : Type) where
  /-- When its margin falls. -/
  | marginFalls
  /-- When a phase shifter cannot relieve it. -/
  | beyond (shifter : RangeAction K)

/-- The elements that count under a condition. -/
structure Conditional (K : Type) where
  cnecs : List (Cnec K × Condition K)
  /-- The flows before the optimisation. -/
  initial : Flows K
  /-- What a condition's rows are relaxed by when the element counts, in megawatts. -/
  conditionSlack : K
  /-- What the rows of the smallest margin are relaxed by when it does not, in megawatts. -/
  marginSlack : K

namespace Conditional

open Writing

/-! ### Which elements -/

/-- The condition under which an element counts, if it does not always count. -/
def condition? (rangeActions : List (RangeAction K)) (p : UnoptimizedParameters K) (c : Cnec K) :
    Option (Condition K) :=
  match (p.inSeries[c.id]?).bind fun id => rangeActions.find? (·.id == id) with
  | some shifter => some (.beyond shifter)
  | none => if c.operator.any p.operators.contains then some .marginFalls else none

/-- The elements that count under a condition, among the optimised elements of a perimeter. -/
def ofParameters (cnecs : List (Cnec K)) (rangeActions : List (RangeAction K))
    (initial : Flows K) (p : UnoptimizedParameters K) : Conditional K where
  cnecs := cnecs.filterMap fun c => (condition? rangeActions p c).map (c, ·)
  initial
  conditionSlack := p.relaxation.marginDecrease * largestThreshold cnecs
  marginSlack := p.relaxation.minimumMargin * largestThreshold cnecs

/-! ### The rows of a condition -/

/-- Require that neither margin of an element is below its margin before the optimisation, unless
the element counts. -/
def writeMarginFalls (u : Conditional K) (c : Cnec K) (counts : VariableId) : Writing K Unit := do
  let flow ← requireVariable (.flow c.id)
  let margin ← ofExcept (u.initial.margin c .megawatt)
  c.lower.forM fun lower => do
    let _ ← addRow (.dontOptimizeCnec c.id .below) (.ofScalar (margin + lower)) .posInf
      [(flow, 1), (counts, u.conditionSlack)]
  c.upper.forM fun upper => do
    let _ ← addRow (.dontOptimizeCnec c.id .above) (.ofScalar (margin - upper)) .posInf
      [(flow, -1), (counts, u.conditionSlack)]

/-- The greatest contribution of a phase shifter to a flow. -/
def greatestContribution (shifter : RangeAction K) (sensitivity : K) : K :=
  if 0 ≤ sensitivity then shifter.max * sensitivity else shifter.min * sensitivity

/-- The least contribution of a phase shifter to a flow. -/
def leastContribution (shifter : RangeAction K) (sensitivity : K) : K :=
  if 0 ≤ sensitivity then shifter.min * sensitivity else shifter.max * sensitivity

/-- Require that the flow without a phase shifter's contribution, and with its most favourable
one instead, is within the thresholds, unless the element counts. -/
def writeBeyond (u : Conditional K) (s : Sensitivities K) (c : Cnec K) (shifter : RangeAction K)
    (counts : VariableId) : Writing K Unit := do
  let flow ← requireVariable (.flow c.id)
  let setpoint ← requireVariable (.setpoint shifter.id)
  let sensitivity := s.get c.id shifter.id
  c.lower.forM fun lower =>
    putRow (.dontOptimizeCnec c.id .below)
      (.ofScalar (lower - greatestContribution shifter sensitivity)) .posInf
      [(flow, 1), (setpoint, -sensitivity), (counts, u.conditionSlack)]
  c.upper.forM fun upper =>
    putRow (.dontOptimizeCnec c.id .above)
      (.ofScalar (-upper + leastContribution shifter sensitivity)) .posInf
      [(flow, -1), (setpoint, sensitivity), (counts, u.conditionSlack)]

/-! ### The rows of the smallest margins -/

/-- Relax a row, if there is one of that name, unless an element counts. -/
def relaxRow (u : Conditional K) (counts : VariableId) (key : RowKey) : Writing K Unit := do
  let some row ← rowId? key | return
  let (_, upper) := (← get).rowBounds row
  setCoefficient row counts u.marginSlack
  modify (·.setRowUpper row (upper.shift u.marginSlack))

/-- Relax the rows of the smallest margins, unless an element counts. -/
def relaxMargins (u : Conditional K) (c : Cnec K) (counts : VariableId) : Writing K Unit :=
  [ThresholdSide.below, .above].forM fun side => do
    u.relaxRow counts (.minimumMargin c.id side)
    u.relaxRow counts (.minimumRelativeMargin c.id side)

/-! ### The part -/

/-- Write an element that counts under a condition. -/
def write (u : Conditional K) (point : Linearization K) (entry : Cnec K × Condition K) :
    Writing K Unit := do
  let (c, condition) := entry
  let counts ← addBinary (.optimizeCnec c.id)
  match condition with
  | .marginFalls => u.writeMarginFalls c counts
  | .beyond shifter => u.writeBeyond point.sensitivities c shifter counts
  u.relaxMargins c counts

/-- Adapt the rows of an element to new sensitivities. -/
def adapt (u : Conditional K) (point : Linearization K) (entry : Cnec K × Condition K) :
    Writing K Unit :=
  match entry with
  | (_, .marginFalls) => pure ()
  | (c, .beyond shifter) => do
    let counts ← requireVariable (.optimizeCnec c.id)
    u.writeBeyond point.sensitivities c shifter counts

/-- The elements that count under a condition as a part of a linear problem. -/
def part (u : Conditional K) : Part K where
  name := "unoptimized-cnec"
  fill point := u.cnecs.forM (u.write point)
  refresh point _ := u.cnecs.forM (u.adapt point)

end Conditional

end GridRelief
