import GridRelief.Perimeter
import GridRelief.Result.Activation
import GridRelief.Result.Cost
import GridRelief.Result.Flows

/-!
# The margin objective

An objective turns the results of a computation into a cost. The margin objective has the opposite
of the worst margin among the optimised elements as its functional part, so a lower cost is a
larger worst margin. A failed computation and a margin that falls too much on a monitored element
are virtual parts.

## Main definitions

* `Objective K`: what a cost is computed from.
* `MarginObjective K`: the settings of the margin objective.
* `MarginObjective.evaluate`: its cost.
-/

namespace GridRelief

variable {K : Type} [Scalar K]

/-- A cost computed from flows, chosen set-points and sensitivities. -/
abbrev Objective (K : Type) : Type :=
  Flows K → Activation K → Sensitivities K → ComputationStatus → Cost K

/-- How much the margins of monitored elements may fall. -/
structure MnecRule (K : Type) where
  /-- The flows that a fall is measured from. -/
  initial : Flows K
  /-- The accepted fall, in megawatts. -/
  acceptable : K
  /-- The cost of a megawatt beyond it. -/
  cost : K

/-- The settings of the margin objective. -/
structure MarginObjective (K : Type) where
  optimized : List (Cnec K)
  monitored : List (Cnec K)
  unit : FlowUnit := .megawatt
  /-- Whether positive margins count relative to zonal sums. -/
  relative : Bool := false
  /-- The cost of a failed computation. -/
  failureCost : K
  mnec : Option (MnecRule K) := none

namespace MarginObjective

/-- The name of the cost of a failed computation. -/
def failurePart : String := "sensitivity-failure-cost"

/-- The name of the cost of monitored elements. -/
def mnecPart : String := "mnec-cost"

/-- The objective of a perimeter, with the usual cost of a failed computation. -/
def ofPerimeter (p : Perimeter K) (unit : FlowUnit) : MarginObjective K :=
  { optimized := p.optimizedCnecs
    monitored := p.monitoredCnecs
    unit
    failureCost := Scalar.ofInt 10000 }

/-- The margin of an element, if its flow is known and it has a threshold. -/
def margin? (o : MarginObjective K) (flows : Flows K) (c : Cnec K) : Option K :=
  let margin := if o.relative then flows.relativeMargin c o.unit else flows.margin c o.unit
  match margin with
  | .ok m => if m < Scalar.largest then some m else none
  | .error _ => none

/-- The order of named numbers: by number, then by name. -/
def byMargin (a b : String × K) : Bool :=
  ((Scalar.order a.2 b.2).then (compare a.1 b.1)).isLE

/-- The margins of the optimised elements, the worst first. -/
def margins (o : MarginObjective K) (flows : Flows K) : List (String × K) :=
  (o.optimized.filterMap fun c => (o.margin? flows c).map (c.id, ·)).mergeSort byMargin

/-- How far a margin is below the one that is accepted: a margin may fall by the accepted amount,
and may always fall to zero. -/
def MnecRule.violation? (rule : MnecRule K) (flows : Flows K) (c : Cnec K) : Option K :=
  match rule.initial.margin c .megawatt, flows.margin c .megawatt with
  | .ok initial, .ok current =>
    let allowed := Scalar.min (initial - rule.acceptable) 0
    let violation := Scalar.max (allowed - current) 0
    if 0 < violation then some violation else none
  | _, _ => none

/-- The monitored elements whose margin falls too much, the worst first. -/
def violations (o : MarginObjective K) (rule : MnecRule K) (flows : Flows K) :
    List (String × K) :=
  (o.monitored.filterMap fun c => (MnecRule.violation? rule flows c).map (c.id, ·)).mergeSort
    fun a b => (Scalar.order b.2 a.2).isLE

/-- The cost of a situation. -/
def evaluate (o : MarginObjective K) : Objective K := fun flows _ _ status =>
  let margins := o.margins flows
  let failure := if status = .failure then o.failureCost else 0
  let cost : Cost K :=
    { functional := (margins.head?.map fun worst => -worst.2).getD 0
      virtualParts := Table.ofPairs [(failurePart, failure)]
      limiting := margins.map Prod.fst }
  match o.mnec with
  | none => cost
  | some rule =>
    let violations := o.violations rule flows
    { cost with
      virtualParts := cost.virtualParts.insert mnecPart
        (Scalar.sum (violations.map Prod.snd) * rule.cost)
      costly := Table.ofPairs [(mnecPart, violations.map Prod.fst)] }

end MarginObjective

end GridRelief
