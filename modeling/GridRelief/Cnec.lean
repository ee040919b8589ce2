import GridRelief.Scalar
import GridRelief.State

/-!
# Critical elements

A critical network element, looked at in a state, has thresholds that its flow should keep to. The
margin of a flow is its distance to the nearer threshold, negative when a threshold is exceeded.
Thresholds are in megawatts; the other unit is reached through the nominal voltage.

## Main definitions

* `FlowUnit`: megawatts or amperes.
* `Cnec K`: a critical element.
* `Cnec.margin`: the distance of a flow to the nearer threshold.
* `largestThreshold`: the largest absolute threshold of some elements.
-/

namespace GridRelief

/-- A unit of flows. -/
inductive FlowUnit where
  | megawatt
  | ampere
  deriving DecidableEq, Repr

/-- One of the two thresholds of a critical element. -/
inductive Threshold where
  | lower
  | upper
  deriving DecidableEq, Repr

/-- A network element in a state, with thresholds on its flow. -/
structure Cnec (K : Type) where
  id : String
  /-- The network element. -/
  element : String
  operator : Option String := none
  state : State := .preventive
  /-- Whether its margin counts for the objective. -/
  optimized : Bool := true
  /-- Whether its margin must not fall by more than an accepted amount. -/
  monitored : Bool := false
  /-- The least flow, in megawatts. -/
  lower : Option K := none
  /-- The greatest flow, in megawatts. -/
  upper : Option K := none
  /-- The nominal voltage, in kilovolts. -/
  voltage : K
  /-- The greatest loop flow, in megawatts. -/
  loopFlowThreshold : Option K := none
  deriving BEq, Repr

namespace Cnec

variable {K : Type} [Scalar K]

/-- The same element, monitored and not optimised. -/
def asMonitored (c : Cnec K) : Cnec K := { c with optimized := false, monitored := true }

/-- The factor that turns megawatts on an element into a unit: for three phases, a current is a
power over the voltage times the square root of three. -/
def conversion (c : Cnec K) : FlowUnit → K
  | .megawatt => 1
  | .ampere => Scalar.ofInt 1000 / (Scalar.sqrtThree * c.voltage)

/-- A threshold in a unit. -/
def bound (c : Cnec K) (side : Threshold) (unit : FlowUnit) : Option K :=
  (match side with
    | .lower => c.lower
    | .upper => c.upper).map (· * c.conversion unit)

/-- The distance of a flow to the nearer threshold, in megawatts; the largest number for an
element without thresholds. -/
def distance (c : Cnec K) (flow : K) : K :=
  let above := (c.lower.map (flow - ·)).getD Scalar.largest
  let below := (c.upper.map (· - flow)).getD Scalar.largest
  Scalar.min above below

/-- The margin of a flow in megawatts, in a unit; the largest number stays itself. -/
def margin (c : Cnec K) (flow : K) (unit : FlowUnit) : K :=
  let distance := c.distance flow
  if distance == Scalar.largest then distance else distance * c.conversion unit

/-- The larger absolute threshold, in megawatts. -/
def largestThreshold (c : Cnec K) : K :=
  Scalar.max ((c.lower.map Scalar.abs).getD 0) ((c.upper.map Scalar.abs).getD 0)

end Cnec

/-- The largest absolute threshold of some elements, in megawatts. -/
def largestThreshold {K : Type} [Scalar K] (cnecs : List (Cnec K)) : K :=
  (cnecs.map Cnec.largestThreshold).foldl Scalar.max 0

end GridRelief
