import GridRelief.Action.RangeAction
import GridRelief.Table

/-!
# Set-points and activations

The set-points of range actions at a moment, and an activation: set-points chosen by an
optimisation together with those it started from. A range action is activated when its set-point
has moved by more than a tolerance.

## Main definitions

* `Setpoints K`: set-points by range action.
* `Activation K`: chosen set-points beside reference ones.
* `Activation.activated`: the range actions that have moved.
-/

namespace GridRelief

variable {K N : Type} [Scalar K] [Network N K]

/-- The set-points of range actions. -/
structure Setpoints (K : Type) where
  values : Table K := ∅
  deriving BEq

namespace Setpoints

/-- The set-point of a range action. -/
def get (s : Setpoints K) (rangeAction : String) : Except (Fault K) K :=
  match s.values[rangeAction]? with
  | some setpoint => .ok setpoint
  | none => .error (.missingSetpoint rangeAction)

/-- The tap of a phase shifter. -/
def tap (s : Setpoints K) (r : RangeAction K) : Except (Fault K) Int := do
  r.tapOf (← s.get r.id)

/-- Read the set-points of some range actions off a network. -/
def ofNetwork (network : N) (rangeActions : List (RangeAction K)) :
    Except (Fault K) (Setpoints K) := do
  let entries ← rangeActions.mapM fun r => do
    return (r.id, ← r.currentSetpoint network)
  return ⟨Table.ofPairs entries⟩

end Setpoints

/-- Set-points chosen by an optimisation, beside the reference ones. -/
structure Activation (K : Type) where
  reference : Setpoints K := {}
  optimized : Table K := ∅
  deriving BEq

namespace Activation

/-- The activation that leaves every range action at its reference. -/
def ofReference (reference : Setpoints K) : Activation K := ⟨reference, reference.values⟩

/-- Choose the set-point of a range action. -/
def set (a : Activation K) (rangeAction : String) (setpoint : K) : Activation K :=
  { a with optimized := a.optimized.insert rangeAction setpoint }

/-- The chosen set-point of a range action, its reference if none was chosen. -/
def get (a : Activation K) (rangeAction : String) : Except (Fault K) K :=
  match a.optimized[rangeAction]? with
  | some setpoint => .ok setpoint
  | none => a.reference.get rangeAction

/-- The chosen tap of a phase shifter. -/
def tap (a : Activation K) (r : RangeAction K) : Except (Fault K) Int := do
  r.tapOf (← a.get r.id)

/-- Set-points that differ by at most this much count as the same. -/
def tolerance : K := Scalar.ofDecimal 1 6

/-- Whether a chosen set-point is away from its reference. -/
def isMoved (a : Activation K) (rangeAction : String) (setpoint : K) : Bool :=
  match a.reference.values[rangeAction]? with
  | some reference => decide (tolerance < Scalar.abs (setpoint - reference))
  | none => true

/-- The range actions that have moved, in order. -/
def activated (a : Activation K) : List String :=
  (a.optimized.toList.filter fun entry => a.isMoved entry.1 entry.2).map Prod.fst

/-- Apply range actions in order up to the first failure; the changes made before it stay. -/
def applyAll (a : Activation K) : List (RangeAction K) → N → N × Except (Fault K) Unit
  | [], network => (network, .ok ())
  | r :: rest, network =>
    match a.get r.id >>= r.apply network with
    | .ok changed => applyAll a rest changed
    | .error fault => (network, .error fault)

end Activation

end GridRelief
