import GridRelief.Action.NetworkAction
import GridRelief.Action.RangeAction
import GridRelief.Cnec

/-!
# Perimeters

A perimeter is what one optimisation looks at and acts on: critical elements, network actions and
range actions, each in the order of their names and, under one name, in the order of arrival.

## Main definitions

* `Perimeter K`: the elements and actions in scope.
* `insertById`: insertion that keeps the order.
-/

namespace GridRelief

/-- Insert behind all elements whose name is not above. -/
def insertById {α : Type} (id : α → String) (x : α) : List α → List α
  | [] => [x]
  | y :: rest => if compare (id x) (id y) = .lt then x :: y :: rest else y :: insertById id x rest

/-- The critical elements and remedial actions in scope for one optimisation. -/
structure Perimeter (K : Type) where
  /-- The state in which actions are looked for. -/
  mainState : State
  cnecs : List (Cnec K)
  networkActions : List (NetworkAction K)
  rangeActions : List (RangeAction K)

namespace Perimeter

variable {K : Type}

/-- The perimeter of a state with nothing in it. -/
def empty (mainState : State) : Perimeter K := ⟨mainState, [], [], []⟩

/-- A perimeter with one more critical element. -/
def withCnec (p : Perimeter K) (c : Cnec K) : Perimeter K :=
  { p with cnecs := insertById Cnec.id c p.cnecs }

/-- A perimeter with one more network action. -/
def withNetworkAction (p : Perimeter K) (a : NetworkAction K) : Perimeter K :=
  { p with networkActions := insertById NetworkAction.id a p.networkActions }

/-- A perimeter with one more range action. -/
def withRangeAction (p : Perimeter K) (r : RangeAction K) : Perimeter K :=
  { p with rangeActions := insertById RangeAction.id r p.rangeActions }

/-- The elements whose margin counts for the objective. -/
def optimizedCnecs (p : Perimeter K) : List (Cnec K) := p.cnecs.filter Cnec.optimized

/-- The elements whose margin must not fall too much. -/
def monitoredCnecs (p : Perimeter K) : List (Cnec K) := p.cnecs.filter Cnec.monitored

/-- The elements with a loop-flow threshold. -/
def loopFlowCnecs (p : Perimeter K) : List (Cnec K) :=
  p.cnecs.filter fun c => c.loopFlowThreshold.isSome

/-- Whether no element counts for the objective. -/
def isPurelyVirtual (p : Perimeter K) : Bool := p.optimizedCnecs.isEmpty

/-- The first critical element of a name. -/
def cnec? (p : Perimeter K) (id : String) : Option (Cnec K) := p.cnecs.find? (·.id == id)

/-- The first network action of a name. -/
def networkAction? (p : Perimeter K) (id : String) : Option (NetworkAction K) :=
  p.networkActions.find? (·.id == id)

/-- The first range action of a name. -/
def rangeAction? (p : Perimeter K) (id : String) : Option (RangeAction K) :=
  p.rangeActions.find? (·.id == id)

/-- A perimeter of some elements and actions, added one by one. -/
def ofLists (mainState : State) (cnecs : List (Cnec K)) (networkActions : List (NetworkAction K))
    (rangeActions : List (RangeAction K)) : Perimeter K :=
  let p := cnecs.foldl withCnec (empty mainState)
  let p := networkActions.foldl withNetworkAction p
  rangeActions.foldl withRangeAction p

end Perimeter

end GridRelief
