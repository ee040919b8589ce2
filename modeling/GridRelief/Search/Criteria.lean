import GridRelief.Parameters
import GridRelief.Perimeter
import GridRelief.Search.LeafResult

/-!
# When a leaf is good enough

A leaf reaches the stop criterion when it costs less than the target of the search, or when there
is nothing but virtual costs to save and none are left; a leaf with virtual costs never does. A
leaf is an improvement when it saves more than some absolute and some relative part of the
previous cost; one that reaches the stop criterion only has to save something.

## Main definitions

* `Criteria K`: the criteria of a search.
* `Criteria.reachesStop`, `Criteria.isImprovement`: what they say of leaves.
-/

namespace GridRelief

variable {K : Type} [Scalar K]

/-- The criteria of a search. -/
structure Criteria (K : Type) where
  /-- Whether no element counts for the functional cost. -/
  purelyVirtual : Bool
  objective : ObjectiveParameters K
  /-- The cost that a network action has to save. -/
  absoluteThreshold : K
  /-- The part of the previous cost that a network action has to save. -/
  relativeThreshold : K

namespace Criteria

/-- The criteria that the parameters of a search ask for; a negative threshold counts as zero. -/
def ofParameters (perimeter : Perimeter K) (p : Parameters K) : Criteria K where
  purelyVirtual := perimeter.isPurelyVirtual
  objective := p.objective
  absoluteThreshold := Scalar.max p.tree.absoluteThreshold 0
  relativeThreshold := Scalar.max p.tree.relativeThreshold 0

/-- A virtual cost up to this much counts as none. -/
def tolerance : K := Scalar.ofDecimal 1 6

/-- Whether a cost reaches the stop criterion. -/
def stopsAt (c : Criteria K) (cost : Cost K) : Bool :=
  if tolerance < cost.virtual then false
  else if c.purelyVirtual && decide (cost.virtual < tolerance) then true
  else
    match c.objective.stopCriterion with
    | .minObjective => false
    | .atTarget => decide (cost.total < c.objective.target)

/-- Whether a leaf has results that reach the stop criterion. -/
def reachesStop (c : Criteria K) (leaf : FinalizedLeaf K) : Bool :=
  leaf.result?.any fun result => c.stopsAt result.cost

/-- Whether a new cost is below a previous one by more than the thresholds. -/
def isSaving (c : Criteria K) (previous new : K) : Bool :=
  decide (new < previous - c.absoluteThreshold) &&
    decide (new < (1 - Scalar.sign previous * c.relativeThreshold) * previous)

/-- Whether one cost is below another; what has no cost is above all. -/
def isCheaper (new old : Option K) : Bool :=
  match new, old with
  | some new, some old => decide (new < old)
  | some _, none => true
  | none, _ => false

/-- Whether a leaf is an improvement on a previous one. -/
def isImprovement (c : Criteria K) (previous leaf : FinalizedLeaf K) : Bool :=
  (isCheaper leaf.cost? previous.cost? && c.reachesStop leaf) ||
    match previous.cost?, leaf.cost? with
    | some previous, some new => c.isSaving previous new
    | none, some _ => true
    | _, none => false

end Criteria

end GridRelief
