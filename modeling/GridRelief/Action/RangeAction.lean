import GridRelief.Fault
import GridRelief.Network
import GridRelief.Scalar
import GridRelief.Table

/-!
# Range actions

A range action moves a set-point within a range: the angle of a phase shifter in degrees, or the
set-point of a line or an injection in megawatts. A phase shifter has finitely many taps, and a
set-point of it is applied by moving to the nearest tap.

## Main definitions

* `RangeAction K`: a range action.
* `RangeAction.angleOf`, `RangeAction.tapOf`: between the taps and the angles of a phase shifter.
* `RangeAction.tapNumber`: the results of calculations with taps.
* `RangeAction.currentSetpoint`, `RangeAction.apply`: read and change the set-point on a network.
-/

namespace GridRelief

variable {K N : Type} [Scalar K] [Network N K]

/-- The device that a range action moves. -/
inductive RangeKind (K : Type) where
  /-- A phase shifter with the angle of each tap. -/
  | pst (taps : TapTable K)
  /-- A direct-current line. -/
  | hvdc
  /-- An injection. -/
  | injection
  deriving BEq

/-- A set-point that may be moved within a range. -/
structure RangeAction (K : Type) where
  id : String
  /-- The network element that is moved. -/
  element : String
  operator : Option String := none
  kind : RangeKind K
  /-- The least set-point. -/
  min : K
  /-- The greatest set-point. -/
  max : K
  deriving BEq

namespace RangeAction

/-- The least and the greatest angle of a table. -/
def angleRange (taps : TapTable K) : K × K :=
  let angles := taps.toList.map Prod.snd
  (angles.foldl Scalar.min Scalar.infinity, angles.foldl Scalar.max (-Scalar.infinity))

/-- A phase shifter over the whole range of its table. -/
def pst (id element : String) (taps : TapTable K) : RangeAction K :=
  let (min, max) := angleRange taps
  { id, element, kind := .pst taps, min, max }

/-- A direct-current line over a range. -/
def hvdc (id element : String) (min max : K) : RangeAction K :=
  { id, element, kind := .hvdc, min, max }

/-- An injection over a range. -/
def injection (id element : String) (min max : K) : RangeAction K :=
  { id, element, kind := .injection, min, max }

/-- The angles of the taps of a phase shifter. -/
def taps? (r : RangeAction K) : Option (TapTable K) :=
  match r.kind with
  | .pst taps => some taps
  | _ => none

/-- Whether a range action is a phase shifter. -/
def isPst (r : RangeAction K) : Bool := r.taps?.isSome

/-- The angle of a tap. -/
def angleOf (r : RangeAction K) (tap : Int) : Except (Fault K) K :=
  match r.taps?.bind (·[tap]?) with
  | some angle => .ok angle
  | none => .error (.undefinedTap tap r.id)

/-- The result of a calculation with taps, which is an integer of thirty-two bits with a sign like
they are. Those of one table may be too far apart for it, as nothing else keeps them close. -/
def tapNumber (number : Int) : Except (Fault K) Int :=
  if -2147483648 ≤ number ∧ number ≤ 2147483647 then .ok number else .error .tapsTooFarApart

omit [Scalar K] in
theorem tapNumber_eq_ok_iff {number result : Int} : tapNumber (K := K) number = .ok result ↔
    number = result ∧ -2147483648 ≤ number ∧ number ≤ 2147483647 := by
  unfold tapNumber
  split
  · next hfits => simp [hfits]
  · next hfits => simp [hfits]

/-- How far outside the range of a table, in degrees, an angle still has a tap. -/
def tapTolerance : K := Scalar.ofDecimal 1 3

/-- The tap whose angle is nearest to an angle, the first one of several. -/
def nearestTap (angle : K) : List (Int × K) → Option Int
  | [] => none
  | first :: rest =>
    let closer (best entry : Int × K) : Int × K :=
      if Scalar.abs (entry.2 - angle) < Scalar.abs (best.2 - angle) then entry else best
    some (rest.foldl closer first).1

/-- The tap nearest to an angle that is within tolerance of the range of the table. -/
def tapOf (r : RangeAction K) (angle : K) : Except (Fault K) Int :=
  match r.taps? with
  | none => .error (.notPhaseShifter r.id)
  | some taps =>
    let (low, high) := angleRange taps
    if angle < low - tapTolerance ∨ high + tapTolerance < angle then
      .error (.angleOutOfRange angle low high r.id)
    else
      match nearestTap angle taps.toList with
      | some tap => .ok tap
      | none => .error (.noTaps r.id)

/-- The set-point on a network. -/
def currentSetpoint (r : RangeAction K) (network : N) : Except (Fault K) K :=
  match r.kind with
  | .pst _ =>
    match Network.tap network r.element with
    | some tap => r.angleOf tap
    | none => .error (.unknownPhaseShifter r.element)
  | .hvdc | .injection =>
    match Network.setpoint network r.element with
    | some setpoint => .ok setpoint
    | none => .error (.unknownElement r.element)

/-- The network with a set-point applied, a phase shifter going to the nearest tap. -/
def apply (r : RangeAction K) (network : N) (setpoint : K) : Except (Fault K) N := do
  let changed ←
    match r.kind with
    | .pst _ => do
      let tap ← r.tapOf setpoint
      pure (Network.setTap? network r.element tap)
    | .hvdc | .injection => pure (Network.setSetpoint? network r.element setpoint)
  match changed with
  | some network => .ok network
  | none => .error (.setpointRefused setpoint r.id)

end RangeAction

end GridRelief
