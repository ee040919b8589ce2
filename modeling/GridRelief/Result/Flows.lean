import GridRelief.Cnec
import GridRelief.Fault
import GridRelief.Table

/-!
# Flows and sensitivities

A computation on a network gives the flow on each critical element and the change of each flow
with each set-point. A flow is read off in a unit; a margin may be measured relative to how much
exchanges between zones load the element.

## Main definitions

* `Flows K`: the flows, commercial flows and zonal sums of a computation.
* `Sensitivities K`: the change of flows with set-points.
* `Outcome K`: both results of one computation.
-/

namespace GridRelief

variable {K : Type} [Scalar K]

/-- Whether a computation succeeded. -/
inductive ComputationStatus where
  | success
  | failure
  deriving DecidableEq, Repr, Inhabited

/-- The flows on critical elements, in megawatts. -/
structure Flows (K : Type) where
  flows : Table K := ∅
  /-- The part of the flows that comes from scheduled exchanges. -/
  commercial : Table K := ∅
  /-- How much exchanges between zones load an element. -/
  zonalSums : Table K := ∅
  status : ComputationStatus := .success
  deriving BEq

namespace Flows

/-- The results of a computation that failed. -/
def failed : Flows K := { status := .failure }

/-- The flow on an element, in megawatts. -/
def megawatts (f : Flows K) (cnec : String) : Except (Fault K) K :=
  match f.flows[cnec]? with
  | some flow => .ok flow
  | none => .error (.missingFlow cnec)

/-- The flow on an element, in a unit. -/
def flow (f : Flows K) (c : Cnec K) (unit : FlowUnit) : Except (Fault K) K := do
  return (← f.megawatts c.id) * c.conversion unit

/-- The margin of an element, in a unit. -/
def margin (f : Flows K) (c : Cnec K) (unit : FlowUnit) : Except (Fault K) K := do
  return c.margin (← f.megawatts c.id) unit

/-- The absolute zonal sum of an element, one if none is known. -/
def zonalSum (f : Flows K) (cnec : String) : K := (f.zonalSums[cnec]?.map Scalar.abs).getD 1

/-- The margin of an element over its zonal sum; a negative margin is kept as it is. -/
def relativeMargin (f : Flows K) (c : Cnec K) (unit : FlowUnit) : Except (Fault K) K := do
  let margin ← f.margin c unit
  return if 0 < margin then margin / f.zonalSum c.id else margin

/-- The flow on an element that comes from scheduled exchanges, zero if none is known. -/
def commercialFlow (f : Flows K) (cnec : String) : K := f.commercial[cnec]?.getD 0

/-- The flow on an element that does not come from scheduled exchanges. -/
def loopFlow (f : Flows K) (cnec : String) : Except (Fault K) K := do
  return (← f.megawatts cnec) - f.commercialFlow cnec

end Flows

/-- The change of the flow on a critical element with the set-point of a range action. -/
structure Sensitivities (K : Type) where
  values : Table (Table K) := ∅
  status : ComputationStatus := .success
  deriving BEq

namespace Sensitivities

/-- The results of a computation that failed. -/
def failed : Sensitivities K := { status := .failure }

/-- The change of a flow with a set-point, zero if none is known. -/
def get (s : Sensitivities K) (cnec rangeAction : String) : K :=
  ((s.values[cnec]?).bind (·[rangeAction]?)).getD 0

/-- Record the change of a flow with a set-point. -/
def set (s : Sensitivities K) (cnec rangeAction : String) (value : K) : Sensitivities K :=
  { s with values := s.values.insert cnec ((s.values[cnec]?.getD ∅).insert rangeAction value) }

end Sensitivities

/-- The results of one computation on a network. -/
structure Outcome (K : Type) where
  flows : Flows K
  sensitivities : Sensitivities K

namespace Outcome

/-- The results of a computation that failed. -/
def failed : Outcome K := ⟨.failed, .failed⟩

/-- Whether the computation succeeded. -/
def status (o : Outcome K) : ComputationStatus := o.sensitivities.status

end Outcome

end GridRelief
