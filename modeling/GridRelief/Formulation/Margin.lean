import GridRelief.Formulation.Writing

/-!
# Smallest margins

The smallest margin is a variable that is at most the margin of every optimised element, and the
objective makes it as large as possible. For relative margins it is kept at zero or below, so it
matters only while some element is overloaded, and a second variable is at most every margin over
the zonal sum of its element.

## Main definitions

* `Margin.absolutePart`: the smallest margin.
* `Margin.relativePart`: the smallest margin and the smallest relative margin.
-/

namespace GridRelief

namespace Margin

variable {K : Type} [Scalar K]

open Writing

/-- Keep a variable, times a factor of each element, at most the margins of some elements. -/
def writeRows (cnecs : List (Cnec K)) (margin : VariableId)
    (name : String → ThresholdSide → RowKey) (factor : Cnec K → K) : Writing K Unit :=
  cnecs.forM fun c => do
    let flow ← requireVariable (.flow c.id)
    c.lower.forM fun lower => do
      let _ ← addRow (name c.id .below) .negInf (.ofScalar (-lower))
        [(flow, -1), (margin, factor c)]
    c.upper.forM fun upper => do
      let _ ← addRow (name c.id .above) .negInf (.ofScalar upper) [(flow, 1), (margin, factor c)]

/-- Write the rows of the smallest margin in a unit. -/
def writeAbsoluteRows (cnecs : List (Cnec K)) (unit : FlowUnit) (margin : VariableId) :
    Writing K Unit :=
  writeRows cnecs margin .minimumMargin fun c => 1 / c.conversion unit

/-- The smallest margin of some elements in a unit as a part of a linear problem. -/
def absolutePart (cnecs : List (Cnec K)) (unit : FlowUnit) : Part K where
  name := "max-min-margin"
  fill _ := do
    let margin ← addVariable .minimumMargin .negInf .posInf .continuous
    writeAbsoluteRows cnecs unit margin
    setObjective margin (-1)

/-- The zonal sum of an element before the optimisation, at least a floor. -/
def zonalSum (initial : Flows K) (floor : K) (c : Cnec K) : K :=
  Scalar.max (initial.zonalSum c.id) floor

/-- A relative margin that no element within its thresholds exceeds. -/
def largestRelativeMargin (cnecs : List (Cnec K)) (unit : FlowUnit) (floor : K) : K :=
  largestThreshold cnecs * (cnecs.map (·.conversion unit)).foldl Scalar.max 1 / floor

/-- The smallest relative margin of some elements in a unit as a part of a linear problem. -/
def relativePart (cnecs : List (Cnec K)) (initial : Flows K) (unit : FlowUnit) (floor : K) :
    Part K where
  name := "max-min-relative-margin"
  fill _ := do
    let margin ← addVariable .minimumMargin .negInf (.finite 0) .continuous
    let relative ← addVariable .minimumRelativeMargin .negInf
      (.ofScalar (largestRelativeMargin cnecs unit floor)) .continuous
    writeAbsoluteRows cnecs unit margin
    writeRows cnecs relative .minimumRelativeMargin fun c =>
      zonalSum initial floor c / c.conversion unit
    setObjective margin (-1)
    setObjective relative (-1)

end Margin

end GridRelief
