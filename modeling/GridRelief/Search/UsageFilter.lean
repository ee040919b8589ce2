import GridRelief.Search.Candidate

/-!
# Filters for limits on use

A combination is rejected when its network actions and those in use exceed a limit. When only the
range actions in use make the difference, they have to go back.

## Main definitions

* `UsageFilter.maxRa`, `UsageFilter.maxTso`: limits on actions and on operators.
* `UsageFilter.maxRaPerTso`, `UsageFilter.maxElementary`: limits for each operator.
-/

namespace GridRelief.UsageFilter

variable {K : Type} [Scalar K]

/-- Whether a number is within a limit, if there is one. -/
def within (limit : Option Nat) (n : Nat) : Bool := limit.all fun most => decide (n ≤ most)

/-- The number of remedial actions. -/
def maxRa (limit : Option Nat) : Filter K where
  name := "max-ra"
  judge leaf c :=
    let applied := c.size + leaf.applied.size
    .of (within limit applied) (!within limit (applied + leaf.movedRangeActions.length))

/-! ### Limits for each operator -/

/-- Whether the network actions of an operator, with those in use, are within the limits. -/
def actionsWithin (maxRa maxTopo : Table Nat) (leaf : LeafResult K) (c : Combination K)
    (operator : String) : Bool :=
  let room (limits : Table Nat) := limits[operator]?.map (· - leaf.applied.countOf operator)
  let count := c.actions.countOf operator
  within (room maxRa) count && within (room maxTopo) count

/-- Whether the network actions of an operator are within the limit together with its range
actions in use. -/
def allWithin (perimeter : Perimeter K) (maxRa : Table Nat) (leaf : LeafResult K)
    (c : Combination K) (operator : String) : Bool :=
  let moved := ((leaf.movedOperators perimeter).filter (· == operator)).length
  within maxRa[operator]? (leaf.applied.countOf operator + moved + c.actions.countOf operator)

/-- The numbers of remedial actions and of network actions of each operator. -/
def maxRaPerTso (perimeter : Perimeter K) (maxRa maxTopo : Table Nat) : Filter K where
  name := "max-ra-per-tso"
  judge leaf c :=
    .of (c.operators.all (actionsWithin maxRa maxTopo leaf c))
      (!c.operators.all (allWithin perimeter maxRa leaf c))

/-! ### Operators -/

/-- Whether the operators of a combination and some others are within a limit. -/
def operatorsWithin (limit : Option Nat) (c : Combination K) (others : List String) : Bool :=
  within limit (NameSet.ofNames (c.operators ++ others)).size

/-- The number of operators. -/
def maxTso (perimeter : Perimeter K) (limit : Option Nat) : Filter K where
  name := "max-tso"
  judge leaf c :=
    let applied := leaf.applied.operators.toList
    .of (operatorsWithin limit c applied)
      (!operatorsWithin limit c (applied ++ leaf.movedOperators perimeter))

/-! ### Elementary actions -/

/-- How many taps a phase shifter in use has moved, if both taps are known. -/
def movedTaps (initial : Setpoints K) (leaf : LeafResult K) (r : RangeAction K) : Nat :=
  match leaf.point.activation.tap r, initial.tap r with
  | .ok tap, .ok before => (tap - before).natAbs
  | _, _ => 0

/-- How many taps the phase shifters of an operator have moved. -/
def movedTapsOf (perimeter : Perimeter K) (initial : Setpoints K) (leaf : LeafResult K)
    (operator : String) : Nat :=
  let moved := leaf.movedRangeActions.filterMap perimeter.rangeAction?
  let shifters := moved.filter fun r => r.isPst && r.operator == some operator
  shifters.foldr (fun r total => movedTaps initial leaf r + total) 0

/-- The number of elementary actions of each operator, a tap counting as one. -/
def maxElementary (perimeter : Perimeter K) (initial : Setpoints K) (limits : Table Nat) :
    Filter K where
  name := "max-elementary-actions-per-tso"
  judge leaf c :=
    let size (operator : String) := c.actions.sizeOf operator
    .of (c.operators.all fun operator => within limits[operator]? (size operator))
      (!c.operators.all fun operator =>
        within limits[operator]? (size operator + movedTapsOf perimeter initial leaf operator))

end GridRelief.UsageFilter
