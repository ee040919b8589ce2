import GridRelief.Decimal.Text
import GridRelief.Optimizer

/-!
# Results of a leaf

A leaf of the search tree stands for a set of network actions. What it reached is a point with its
cost, before or after the set-points of range actions have been optimised.

## Main definitions

* `LeafStatus`: how far a leaf has come.
* `LeafResult K`: what a leaf reached.
* `FinalizedLeaf K`: a leaf whose network has been given back.
-/

namespace GridRelief

variable {K : Type} [Scalar K]

/-- How far a leaf has come. -/
inductive LeafStatus where
  | created
  /-- Its flows have been computed. -/
  | evaluated
  /-- Its range actions have been optimised. -/
  | optimized
  /-- Its flows could not be computed. -/
  | failed
  deriving DecidableEq, Repr

/-- The name of a status. -/
def LeafStatus.label : LeafStatus → String
  | .created => "CREATED"
  | .evaluated => "EVALUATED"
  | .optimized => "OPTIMIZED"
  | .failed => "ERROR"

/-- What a leaf reached. -/
structure LeafResult (K : Type) where
  point : Linearization K
  cost : Cost K
  /-- The network actions in use. -/
  applied : ActionSet K
  /-- How the optimisation of range actions ended, if there was one. -/
  optimization : Option OptimizationStatus := none

namespace LeafResult

/-- The range actions in use. -/
def movedRangeActions (r : LeafResult K) : List String := r.point.activation.activated

/-- Whether a network action is in use. -/
def isApplied (r : LeafResult K) (action : NetworkAction K) : Bool := r.applied.contains action.id

/-- The operators of the range actions in use, once for each of them. -/
def movedOperators (r : LeafResult K) (perimeter : Perimeter K) : List String :=
  (r.movedRangeActions.filterMap perimeter.rangeAction?).filterMap RangeAction.operator

/-! ### The text of a result -/

/-- A virtual cost up to this much is not told. -/
def toldCost : Float := 1e-6

/-- The virtual costs worth telling, with two places each. -/
def virtualParts (cost : Cost Float) : List String :=
  (cost.virtualParts.toList.filter fun part => toldCost < part.2).map fun part =>
    part.1 ++ "=" ++ Decimal.fixed 2 part.2

/-- The text of a cost: its total and its parts with two places each. -/
def costText (cost : Cost Float) : String :=
  let parts := virtualParts cost
  ", cost: " ++ Decimal.fixed 2 cost.total ++ " (functional: " ++ Decimal.fixed 2 cost.functional
    ++ ", virtual: " ++ Decimal.fixed 2 cost.virtual
    ++ (if parts.isEmpty then ")" else " \x7b" ++ ", ".intercalate parts ++ "\x7d)")

/-- The text of the number of range actions in use. -/
def movedText (r : LeafResult Float) : String :=
  match r.movedRangeActions.length with
  | 0 => ", no range action(s) activated"
  | n => ", " ++ toString n ++ " range action(s) activated"

/-- The text of a result. -/
def text (r : LeafResult Float) : String :=
  (if r.optimization.isSome then r.movedText else "") ++ costText r.cost

end LeafResult

/-- The name of the leaf that some network actions stand for. -/
def leafName (applied : ActionSet K) : String :=
  if applied.isEmpty then "Root leaf" else "network action(s): " ++ ", ".intercalate applied.ids

/-- A leaf whose network has been given back. -/
structure FinalizedLeaf (K : Type) where
  applied : ActionSet K
  status : LeafStatus
  result? : Option (LeafResult K)

namespace FinalizedLeaf

/-- The name of a leaf. -/
def name (leaf : FinalizedLeaf K) : String := leafName leaf.applied

/-- Whether a leaf uses no network action. -/
def isRoot (leaf : FinalizedLeaf K) : Bool := leaf.applied.isEmpty

/-- What a leaf reached. -/
def result (leaf : FinalizedLeaf K) : Except (Fault K) (LeafResult K) :=
  match leaf.result? with
  | some result => .ok result
  | none => .error (.noResults leaf.name leaf.status.label)

/-- The cost of a leaf, if it has results. -/
def cost? (leaf : FinalizedLeaf K) : Option K := leaf.result?.map (·.cost.total)

/-- The text of a leaf. -/
def text (leaf : FinalizedLeaf Float) : String :=
  leaf.name ++ (leaf.result?.map LeafResult.text).getD ""

end FinalizedLeaf

end GridRelief
