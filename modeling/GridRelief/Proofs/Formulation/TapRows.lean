import Mathlib.Algebra.Order.Field.Basic
import GridRelief.Proofs.Formulation.Growth
import GridRelief.Proofs.Formulation.Statements

/-!
# Rows of tap moves

Four rows tie the set-point of a phase shifter to the taps that it moves. They are written around
one position and later adapted to others: the angle and the room for moves are set every time, the
step of a direction only where the table has a tap to that side, and the bounds of the variables
never. So after an adaptation the rows state what the last position makes them state, steps at the
ends of the table apart.

* `Position.room`: the room for moves in a direction.
* `TapMoves.Rows`: what a problem has of the taps of a phase shifter.
* `TapMoves.rows_of_write`, `TapMoves.rows_of_adapt`: what it has once this is written or adapted.
-/

namespace GridRelief

open LinearProblem Writing

variable {K : Type}

/-- The change of the tap by a move in a direction. -/
def TapDirection.sign : TapDirection → Int
  | .upward => 1
  | .downward => -1

/-- The rows of the taps of a phase shifter. -/
def RowKey.IsOfTaps (id : String) : RowKey → Prop
  | .tapToAngle other | .upOrDown other | .variationInDirection other _ => other = id
  | _ => False

namespace TapMoves

/-- The number of taps to the end of the range in a direction. -/
def Position.room (position : Position K) : TapDirection → Int
  | .upward => position.roomAbove
  | .downward => position.roomBelow

/-! ### Statements -/

section Statements

variable [ExactScalar K] {id : String} {angle : K} {step : TapDirection → K} {room : Int}
  {direction : TapDirection}

/-- The set-point is an angle changed by a step for each move. -/
def conversion (id : String) (angle : K) (step : TapDirection → K) : Statement K :=
  ⟨.ofScalar angle, .ofScalar angle, [(.setpoint id, 1),
    (.tapVariation id .downward, -step .downward), (.tapVariation id .upward, -step .upward)]⟩

/-- There are moves in one direction at most. -/
def oneDirection (id : String) : Statement K :=
  ⟨.negInf, .finite 1, [(.tapVariationBinary id .downward, 1), (.tapVariationBinary id .upward, 1)]⟩

/-- There are moves in a direction only if it is taken, and no more than there is room for. -/
def roomFor (id : String) (direction : TapDirection) (room : Int) : Statement K :=
  ⟨.negInf, .finite 0,
    [(.tapVariation id direction, 1), (.tapVariationBinary id direction, -Scalar.ofInt room)]⟩

theorem keys_conversion (id : String) (angle : K) (step : TapDirection → K)
    (direction : TapDirection) :
    .tapVariation id direction ∈ (conversion id angle step).terms.map Prod.fst := by
  cases direction <;> simp [conversion]

theorem conversion_withCoefficient (direction : TapDirection) (value : K) :
    (conversion id angle step).withCoefficient (.tapVariation id direction) (-value) =
      conversion id angle (Function.update step direction value) := by
  cases direction <;> simp [conversion, Statement.withCoefficient, Function.update]

theorem roomFor_withCoefficient (later : Int) :
    (roomFor id direction room : Statement K).withCoefficient (.tapVariationBinary id direction)
      (-Scalar.ofInt later) = roomFor id direction later := by
  simp [roomFor, Statement.withCoefficient]

theorem conversion_holdsAt_iff {y : VariableKey → K} : (conversion id angle step).HoldsAt y ↔
    y (.setpoint id) = angle + step .downward * y (.tapVariation id .downward) +
      step .upward * y (.tapVariation id .upward) := by
  simp only [Statement.HoldsAt, conversion, Bound.ofScalar_eq, within, List.map_cons, List.map_nil,
    List.sum_cons, List.sum_nil]
  constructor
  · rintro ⟨hlower, hupper⟩
    linarith only [hlower, hupper]
  · intro heq
    constructor <;> linarith only [heq]

theorem oneDirection_holdsAt_iff {y : VariableKey → K} : (oneDirection id : Statement K).HoldsAt y ↔
    y (.tapVariationBinary id .downward) + y (.tapVariationBinary id .upward) ≤ 1 := by
  simp [Statement.HoldsAt, oneDirection, within]

theorem roomFor_holdsAt_iff {y : VariableKey → K} :
    (roomFor id direction room : Statement K).HoldsAt y ↔
      y (.tapVariation id direction) ≤ room * y (.tapVariationBinary id direction) := by
  simp [Statement.HoldsAt, roomFor, within, ExactScalar.ofInt_eq]

end Statements

/-! ### Rows -/

section Rows

variable [ExactScalar K] {p q : LinearProblem K} {u : PUnit} {id : String} {reach : Int} {angle : K}
  {step : TapDirection → K} {room : TapDirection → Int} {touched : RowKey → Prop} {i : RowId}
  {v : VariableId} {direction : TapDirection} {r : RangeAction K} {activation : Activation K}

/-- What a problem has of the taps of a phase shifter: how far its variables reach at most, and what
its rows state. -/
structure Rows (p : LinearProblem K) (id : String) (reach : Int) (angle : K)
    (step : TapDirection → K) (room : TapDirection → Int) : Prop where
  moves : ∀ direction, p.Declares
    ⟨.tapVariation id direction, .finite 0, .finite (Scalar.ofInt reach), .integer⟩
  directions : ∀ direction, p.Declares
    ⟨.tapVariationBinary id direction, .finite 0, .finite 1, .binary⟩
  conversion : p.Shows (.tapToAngle id) (some (conversion id angle step))
  oneDirection : p.Shows (.upOrDown id) (some (oneDirection id))
  roomFor : ∀ direction, p.Shows (.variationInDirection id direction)
    (some (roomFor id direction (room direction)))

theorem Rows.of_extends (h : Rows p id reach angle step room) (hq : p.Extends touched q)
    (htouched : ∀ key, key.IsOfTaps id → ¬touched key) : Rows q id reach angle step room where
  moves direction := (h.moves direction).of_extends hq
  directions direction := (h.directions direction).of_extends hq
  conversion := h.conversion.of_extends hq (htouched _ rfl)
  oneDirection := h.oneDirection.of_extends hq (htouched _ rfl)
  roomFor direction := (h.roomFor direction).of_extends hq (htouched _ rfl)

/-! ### Steps -/

section Conversion

variable (hp : p.Shows (.tapToAngle id) (some (conversion id angle step)))
  (hi : p.rowId? (.tapToAngle id) = some i)
  (hv : p.variableId? (.tapVariation id direction) = some v)
include hp hi hv

/-- Setting the coefficient of a direction's moves sets its step. -/
theorem conversion_of_setCoefficient {value : K}
    (h : Succeeds (setCoefficient i v (-value)) p u q) :
    p.Extends (· = .tapToAngle id) q ∧ q.Shows (.tapToAngle id)
      (some (conversion id angle (Function.update step direction value))) := by
  refine ⟨extends_setCoefficient (namesRow_of_rowId? hi) rfl h, ?_⟩
  rw [← conversion_withCoefficient]
  exact shows_setCoefficient hp hi hv (keys_conversion id angle step direction) h

theorem conversion_of_writeStep {room : Int} {slope : Except (Fault K) K}
    (h : Succeeds (writeStep i v room slope) p u q) :
    p.Extends (· = .tapToAngle id) q ∧
      ∃ later, q.Shows (.tapToAngle id) (some (conversion id angle later)) := by
  unfold writeStep at h
  split at h
  · simp only [succeeds_bind_iff, succeeds_ofExcept_iff] at h
    obtain ⟨value, _, ⟨-, rfl⟩, hset⟩ := h
    rw [← neg_neg value] at hset
    obtain ⟨hgrows, hq⟩ := conversion_of_setCoefficient hp hi hv hset
    exact ⟨hgrows, _, hq⟩
  · obtain ⟨-, rfl⟩ := succeeds_pure_iff.mp h
    exact ⟨.refl p, step, hp⟩

/-- Adapting the step of a direction leaves that of the other as it is. -/
theorem conversion_of_adaptStep {slope : Except (Fault K) K}
    (h : Succeeds (adaptStep i v slope) p u q) :
    p.Extends (· = .tapToAngle id) q ∧
      ∃ later, q.Shows (.tapToAngle id) (some (conversion id angle later)) ∧
        (∀ other, other ≠ direction → later other = step other) ∧
          ∀ value, slope = .ok (-value) → later direction = value := by
  cases slope with
  | ok value =>
    rw [adaptStep, ← neg_neg value] at h
    obtain ⟨hgrows, hq⟩ := conversion_of_setCoefficient hp hi hv h
    refine ⟨hgrows, _, hq, fun other hne => Function.update_of_ne hne _ _, ?_⟩
    rintro value ⟨⟩
    rw [Function.update_self, neg_neg]
  | error fault =>
    obtain ⟨-, rfl⟩ := succeeds_pure_iff.mp h
    exact ⟨.refl p, step, hp, fun _ _ => rfl, nofun⟩

end Conversion

/-- Adapting the room in a direction. -/
theorem roomFor_of_setCoefficient {room later : Int}
    (hp : p.Shows (.variationInDirection id direction) (some (roomFor id direction room)))
    (hi : p.rowId? (.variationInDirection id direction) = some i)
    (hv : p.variableId? (.tapVariationBinary id direction) = some v)
    (h : Succeeds (setCoefficient i v (-Scalar.ofInt later)) p u q) :
    p.Extends (· = .variationInDirection id direction) q ∧
      q.Shows (.variationInDirection id direction) (some (roomFor id direction later)) := by
  refine ⟨extends_setCoefficient (namesRow_of_rowId? hi) rfl h, ?_⟩
  rw [← roomFor_withCoefficient]
  exact shows_setCoefficient hp hi hv (by simp [roomFor]) h

/-- The row of the angle is written with the term of the set-point alone. -/
theorem conversion_of_addRow (hsetpoint : p.HasVariable (.setpoint id))
    (hmoves : ∀ direction, p.HasVariable (.tapVariation id direction))
    (h : Succeeds (addRow (.tapToAngle id) (.ofScalar angle) (.ofScalar angle)
      [(p.number (.setpoint id), 1)]) p i q) :
    p.Extends (fun _ => False) q ∧ q.rowId? (.tapToAngle id) = some i ∧
      q.Shows (.tapToAngle id) (some (conversion id angle fun _ => 0)) := by
  have habout : Statement.IsAbout ⟨.ofScalar angle, .ofScalar angle, [(.setpoint id, (1 : K))]⟩ p :=
    ⟨List.forall_mem_singleton.mpr hsetpoint, by simp⟩
  obtain ⟨-, -, hi, hshows⟩ := shows_addRow habout h
  have hgrows : p.Extends (fun _ => False) q := extends_addRow h
  have hvariable := fun direction => ((hmoves direction).of_extends hgrows).1
  have hboth := (hshows.append_zero (hvariable .downward) (by simp)).append_zero
    (hvariable .upward) (by simp)
  have heq : (conversion id angle fun _ => 0) = ⟨.ofScalar angle, .ofScalar angle,
      [(.setpoint id, 1), (.tapVariation id .downward, 0), (.tapVariation id .upward, 0)]⟩ := by
    simp [conversion]
  rw [heq]
  exact ⟨hgrows, hi, hboth⟩

/-! ### Writing -/

/-- The variables of the taps of a phase shifter are added for both directions. -/
theorem declares_of_addVariables {a b c d : LinearProblem K} {range : Bound K}
    {down up movesDown movesUp : VariableId}
    (hdown : Succeeds (addVariable (.tapVariation id .downward) (.finite 0) range .integer)
      p down a)
    (hup : Succeeds (addVariable (.tapVariation id .upward) (.finite 0) range .integer) a up b)
    (hmovesDown : Succeeds (addBinary (.tapVariationBinary id .downward)) b movesDown c)
    (hmovesUp : Succeeds (addBinary (.tapVariationBinary id .upward)) c movesUp d) :
    (∀ direction, d.Declares ⟨.tapVariation id direction, .finite 0, range, .integer⟩) ∧
      (∀ direction, d.Declares ⟨.tapVariationBinary id direction, .finite 0, .finite 1, .binary⟩) ∧
        down = d.number (.tapVariation id .downward) ∧ up = d.number (.tapVariation id .upward) ∧
          movesDown = d.number (.tapVariationBinary id .downward) ∧
            movesUp = d.number (.tapVariationBinary id .upward) := by
  have hcd : c.Extends (fun _ => False) d := extends_addVariable hmovesUp
  have hbd : b.Extends (fun _ => False) d := (extends_addVariable hmovesDown).trans hcd
  have had : a.Extends (fun _ => False) d := (extends_addVariable hup).trans hbd
  obtain ⟨hdownward, rfl⟩ := declares_of_addVariable hdown
  obtain ⟨hupward, rfl⟩ := declares_of_addVariable hup
  obtain ⟨htakesDown, rfl⟩ := declares_of_addVariable hmovesDown
  obtain ⟨htakesUp, rfl⟩ := declares_of_addVariable hmovesUp
  refine ⟨?_, ?_, (hdownward.hasVariable.of_extends had).2.symm,
    (hupward.hasVariable.of_extends hbd).2.symm, (htakesDown.hasVariable.of_extends hcd).2.symm,
    rfl⟩
  · rintro (_ | _)
    exacts [hupward.of_extends hbd, hdownward.of_extends had]
  · rintro (_ | _)
    exacts [htakesUp, htakesDown.of_extends hcd]

theorem isAbout_roomFor (hmoves : p.HasVariable (.tapVariation id direction))
    (hdirection : p.HasVariable (.tapVariationBinary id direction)) (room : Int) :
    (roomFor id direction room : Statement K).IsAbout p :=
  ⟨by simp [roomFor, hmoves, hdirection], by simp [roomFor]⟩

/-- Once the moves of a phase shifter are written, they reach as far as the range. -/
theorem rows_of_write (h : Succeeds (write activation r) p u q) :
    ∃ position, Position.ofActivation activation r = .ok position ∧ ∃ step,
      Rows q r.id (position.roomBelow + position.roomAbove) position.angle step position.room := by
  unfold write at h
  simp only [succeeds_bind_iff, succeeds_ofExcept_iff, succeeds_requireVariable_iff,
    succeeds_pure_iff, and_assoc, exists_and_left, exists_eq_left'] at h
  obtain ⟨position, hposition, _, hreach, _, a, hdown, _, b, hup, _, c, hmovesDown, _, d, hmovesUp,
    _, hsetpoint, i, e, hadd, _, f, hbelow, _, g, habove, _, o, honce, _, s, hdownward, _, t,
    hupward, -, rfl⟩ := h
  obtain ⟨rfl, -⟩ := RangeAction.tapNumber_eq_ok_iff.mp hreach
  obtain ⟨hmoves, hdirections, rfl, rfl, rfl, rfl⟩ :=
    declares_of_addVariables hdown hup hmovesDown hmovesUp
  obtain ⟨hsetpoint, rfl⟩ := hasVariable_of_variableId? hsetpoint
  have hmove := fun direction => (hmoves direction).hasVariable
  have hdirection := fun direction => (hdirections direction).hasVariable
  -- the row of the angle, with the steps to the ends of the range
  obtain ⟨hde, hi, hshows⟩ := conversion_of_addRow hsetpoint hmove hadd
  obtain ⟨hef, _, hshows⟩ := conversion_of_writeStep hshows hi (hde.variableId? (hmove _)) hbelow
  have hdf : d.Extends (· = .tapToAngle r.id) f := (hde.mono fun _ => False.elim).trans hef
  obtain ⟨hfg, step, hshows⟩ :=
    conversion_of_writeStep hshows (hef.rowId? hi) (hdf.variableId? (hmove _)) habove
  have hdg := hdf.trans hfg
  -- the other rows
  have hone : (oneDirection r.id : Statement K).IsAbout d :=
    ⟨by simp [oneDirection, hdirection], by simp [oneDirection]⟩
  obtain ⟨hgo, hone⟩ := shows_addRow_of_extends hdg hone honce
  have hdo := hdg.trans (hgo.mono fun _ => False.elim)
  obtain ⟨hos, hbelow⟩ := shows_addRow_of_extends hdo
    (isAbout_roomFor (hmove .downward) (hdirection .downward) position.roomBelow) hdownward
  have hds := hdo.trans (hos.mono fun _ => False.elim)
  obtain ⟨hst, habove⟩ := shows_addRow_of_extends hds
    (isAbout_roomFor (hmove .upward) (hdirection .upward) position.roomAbove) hupward
  have hot := hos.trans hst
  have hdt := hds.trans (hst.mono fun _ => False.elim)
  refine ⟨position, hposition, step, fun direction => (hmoves direction).of_extends hdt,
    fun direction => (hdirections direction).of_extends hdt, hshows.of_extends (hgo.trans hot) id,
    hone.of_extends hot id, ?_⟩
  rintro (_ | _)
  exacts [habove, hbelow.of_extends hst id]

/-! ### Adapting -/

/-- Once the moves of a phase shifter are adapted, its rows state the angle and the room of its
position, and the steps to the taps on either side that the table has. -/
theorem rows_of_adapt (hp : Rows p r.id reach angle step room)
    (h : Succeeds (adapt activation r) p u q) :
    ∃ position, Position.ofActivation activation r = .ok position ∧ ∃ here,
      r.angleOf position.tap = .ok here ∧ ∃ later,
        Rows q r.id reach position.angle later position.room ∧
          ∀ direction next, r.angleOf (position.tap + direction.sign) = .ok next →
            later direction = next - here := by
  unfold adapt at h
  simp only [succeeds_bind_iff, succeeds_ofExcept_iff, succeeds_requireVariable_iff,
    succeeds_requireRow_iff, and_assoc, exists_and_left, exists_eq_left'] at h
  obtain ⟨position, hposition, i, hi, _, hup, _, hdown, _, htakesUp, _, htakesDown, above, habove,
    below, hbelow, _, a, hbounds, here, hhere, _, hnext, _, b, hstepUp, _, hprevious, _, c,
    hstepDown, _, d, hroomDown, hroomUp⟩ := h
  obtain ⟨rfl, -⟩ := RangeAction.tapNumber_eq_ok_iff.mp hnext
  obtain ⟨rfl, -⟩ := RangeAction.tapNumber_eq_ok_iff.mp hprevious
  -- the row of the angle
  have hpa : p.Extends (· = .tapToAngle r.id) a :=
    extends_setRowBounds (namesRow_of_rowId? hi) rfl hbounds
  have hshows : a.Shows (.tapToAngle r.id) (some (TapMoves.conversion r.id position.angle step)) :=
    shows_setRowBounds hp.conversion hi hbounds
  obtain ⟨hab, middle, hshows, -, hmiddle⟩ :=
    conversion_of_adaptStep hshows (hpa.rowId? hi) (hpa.variableId? hup) hstepUp
  have hpb := hpa.trans hab
  obtain ⟨hbc, later, hshows, hother, hlater⟩ :=
    conversion_of_adaptStep hshows (hpb.rowId? hi) (hpb.variableId? hdown) hstepDown
  have hpc := hpb.trans hbc
  -- the rows of the room for moves
  obtain ⟨hcd, hbelow⟩ := roomFor_of_setCoefficient
    ((hp.roomFor .downward).of_extends hpc (by simp)) (hpc.rowId? hbelow)
    (hpc.variableId? htakesDown) hroomDown
  obtain ⟨hdq, habove⟩ := roomFor_of_setCoefficient
    (((hp.roomFor .upward).of_extends hpc (by simp)).of_extends hcd (by simp))
    (hcd.rowId? (hpc.rowId? habove)) (hcd.variableId? (hpc.variableId? htakesUp)) hroomUp
  have hgrows : p.Extends (· ≠ .upOrDown r.id) q :=
    (hpc.mono (by simp)).trans ((hcd.mono (by simp)).trans (hdq.mono (by simp)))
  refine ⟨position, hposition, here, hhere, later, ⟨fun direction => ?_, fun direction => ?_,
    (hshows.of_extends hcd (by simp)).of_extends hdq (by simp),
    hp.oneDirection.of_extends hgrows (by simp), ?_⟩, ?_⟩
  · exact (hp.moves direction).of_extends hgrows
  · exact (hp.directions direction).of_extends hgrows
  · rintro (_ | _)
    exacts [habove, hbelow.of_extends hdq (by simp)]
  · rintro (_ | _) next hnext
    · rw [hother .upward (by simp)]
      refine hmiddle _ ?_
      change r.angleOf (position.tap + 1) = .ok next at hnext
      rw [hnext]
      rfl
    · refine hlater _ ?_
      change r.angleOf (position.tap - 1) = .ok next at hnext
      rw [hnext, neg_sub]
      rfl

end Rows

end TapMoves

end GridRelief
