import GridRelief.Formulation.Writing

/-!
# Tap moves

The set-point of a phase shifter follows whole numbers of taps moved up or down from the present
tap, one direction at a time. The angle is not linear in the tap: at first a move has the mean
step of the taps up to the end of the range, later that of the next tap alone.

## Main definitions

* `TapMoves.admissibleTaps`: the taps at the ends of the range.
* `TapMoves.part`: the part that writes the moves of some phase shifters.
-/

namespace GridRelief

variable {K : Type} [Scalar K]

namespace TapMoves

open Writing

/-- The least and the greatest tap within the range of a phase shifter. -/
def admissibleTaps (r : RangeAction K) : Except (Fault K) (Int × Int) := do
  let first ← r.tapOf r.min
  let last ← r.tapOf r.max
  return (min first last, max first last)

/-- Where a phase shifter stands: its angle, its tap and how many taps it may move either way. -/
structure Position (K : Type) where
  angle : K
  tap : Int
  /-- The lowest tap within the range. -/
  lowest : Int
  /-- The highest tap within the range. -/
  highest : Int
  /-- The number of taps down to the end of the range. -/
  roomBelow : Int
  /-- The number of taps up to the end of the range. -/
  roomAbove : Int

/-- The position of a phase shifter in an activation. -/
def Position.ofActivation (activation : Activation K) (r : RangeAction K) :
    Except (Fault K) (Position K) := do
  let angle ← activation.get r.id
  let tap ← activation.tap r
  let (lowest, highest) ← admissibleTaps r
  let below ← RangeAction.tapNumber (tap - lowest)
  let above ← RangeAction.tapNumber (highest - tap)
  return ⟨angle, tap, lowest, highest, max below 0, max above 0⟩

/-- The mean change of the angle over so many taps from one tap to another. -/
def meanStep (r : RangeAction K) (low high count : Int) : Except (Fault K) K := do
  return ((← r.angleOf high) - (← r.angleOf low)) / Scalar.ofInt count

/-- Write what a move to a side with room adds to the angle. -/
def writeStep (conversion : RowId) (moves : VariableId) (room : Int)
    (step : Except (Fault K) K) : Writing K Unit :=
  if 0 < room then do setCoefficient conversion moves (← ofExcept step) else pure ()

/-- Write the moves of a phase shifter. -/
def write (activation : Activation K) (r : RangeAction K) : Writing K Unit := do
  let at_ ← ofExcept (Position.ofActivation activation r)
  let reach ← ofExcept (RangeAction.tapNumber (at_.roomBelow + at_.roomAbove))
  let range : Bound K := .finite (Scalar.ofInt reach)
  let down ← addVariable (.tapVariation r.id .downward) (.finite 0) range .integer
  let up ← addVariable (.tapVariation r.id .upward) (.finite 0) range .integer
  let movesDown ← addBinary (.tapVariationBinary r.id .downward)
  let movesUp ← addBinary (.tapVariationBinary r.id .upward)
  let setpoint ← requireVariable (.setpoint r.id)
  let conversion ← addRow (.tapToAngle r.id) (.ofScalar at_.angle) (.ofScalar at_.angle)
    [(setpoint, 1)]
  writeStep conversion down at_.roomBelow (meanStep r at_.lowest at_.tap at_.roomBelow)
  writeStep conversion up at_.roomAbove
    ((meanStep r at_.tap at_.highest at_.roomAbove).map fun step => -step)
  let _ ← addRow (.upOrDown r.id) .negInf (.finite 1) [(movesDown, 1), (movesUp, 1)]
  let _ ← addRow (.variationInDirection r.id .downward) .negInf (.finite 0)
    [(down, 1), (movesDown, -Scalar.ofInt at_.roomBelow)]
  let _ ← addRow (.variationInDirection r.id .upward) .negInf (.finite 0)
    [(up, 1), (movesUp, -Scalar.ofInt at_.roomAbove)]

/-- Adapt what a move adds to the angle; at an end of the table, where there is no further tap, it
is left as it was. -/
def adaptStep (conversion : RowId) (moves : VariableId) (step : Except (Fault K) K) :
    Writing K Unit :=
  match step with
  | .ok step => setCoefficient conversion moves step
  | .error _ => pure ()

/-- Adapt the moves of a phase shifter to its present tap. -/
def adapt (activation : Activation K) (r : RangeAction K) : Writing K Unit := do
  let at_ ← ofExcept (Position.ofActivation activation r)
  let conversion ← requireRow (.tapToAngle r.id)
  let up ← requireVariable (.tapVariation r.id .upward)
  let down ← requireVariable (.tapVariation r.id .downward)
  let movesUp ← requireVariable (.tapVariationBinary r.id .upward)
  let movesDown ← requireVariable (.tapVariationBinary r.id .downward)
  let upward ← requireRow (.variationInDirection r.id .upward)
  let downward ← requireRow (.variationInDirection r.id .downward)
  setRowBounds conversion (.ofScalar at_.angle) (.ofScalar at_.angle)
  let angle ← ofExcept (r.angleOf at_.tap)
  let above ← ofExcept (RangeAction.tapNumber (at_.tap + 1))
  adaptStep conversion up ((r.angleOf above).map fun next => -(next - angle))
  let below ← ofExcept (RangeAction.tapNumber (at_.tap - 1))
  adaptStep conversion down ((r.angleOf below).map fun previous => angle - previous)
  setCoefficient downward movesDown (-Scalar.ofInt at_.roomBelow)
  setCoefficient upward movesUp (-Scalar.ofInt at_.roomAbove)

/-- The tap moves of the phase shifters among some range actions as a part of a linear problem. -/
def part (rangeActions : List (RangeAction K)) : Part K :=
  let shifters := rangeActions.filter RangeAction.isPst
  { name := "discrete-pst-tap"
    fill := fun point => shifters.forM (write point.activation)
    refresh := fun point _ => shifters.forM (adapt point.activation)
    adjust := fun activation => shifters.forM (adapt activation) }

end TapMoves

end GridRelief
