import Mathlib.Algebra.Order.Field.Basic
import GridRelief.Proofs.Formulation.TapRows
import GridRelief.Proofs.Optimizer.Shown
import GridRelief.Proofs.Search.LimitedProblems

/-!
# The moves that are left to a phase shifter

Steps that an adaptation leaves as they were are those to taps that the table does not have. There
is no room for moves to that side then, so such a step counts for nothing, and neither do the bounds
of the variables, which reach over the whole range from the start. So once the rows of the taps of a
phase shifter have been adapted to a tap within its range, they leave exactly the moves from this
tap, whatever they have been adapted to before.

* `TapValues`: the values of the variables of a phase shifter.
* `TapValues.IsMove`: they are those of a move from a tap.
* `TapMoves.Keeps`: an assignment keeps what is required of these variables.
* `TapMoves.Calibrated`: the rows of a phase shifter state its position in an activation.
* `Part.Adapted`: the problems that have been adapted after having been written.
* `TapMoves.feasible_eq_moves`: the moves that are left.
-/

namespace GridRelief

open LinearProblem Writing

variable {K : Type} [ExactScalar K]

/-- A table has all taps between any two of its taps. -/
def TapTable.IsContiguous {V : Type} (taps : TapTable V) : Prop :=
  ∀ low tap high : Int, low ∈ taps → high ∈ taps → low ≤ tap → tap ≤ high → tap ∈ taps

/-! ### Moves -/

/-- The values of the variables of a phase shifter: its set-point, the taps that it moves in each
direction, and which directions it takes. -/
structure TapValues (K : Type) where
  setpoint : K
  moved : TapDirection → K
  takes : TapDirection → K

namespace TapValues

variable {v : TapValues K} {taps : TapTable K} {lowest tap highest reach : Int} {angle : K}
  {step : TapDirection → K} {room : TapDirection → Int}

/-- The values are those of a move by some taps up or down from a tap, within a range of taps. The
set-point follows the step to the next tap. -/
structure IsMove (taps : TapTable K) (lowest tap highest : Int) (angle : K) (v : TapValues K)
    (up down : Nat) : Prop where
  moved_up : v.moved .upward = up
  moved_down : v.moved .downward = down
  oneDirection : up = 0 ∨ down = 0
  lowest_le : lowest ≤ tap + up - down
  le_highest : tap + up - down ≤ highest
  stays : up = 0 → down = 0 → v.setpoint = angle
  goesUp : 0 < up → ∃ next, taps[tap + 1]? = some next ∧ v.setpoint = angle + up * (next - angle)
  goesDown : 0 < down → ∃ previous, taps[tap - 1]? = some previous ∧
    v.setpoint = angle - down * (angle - previous)
  takes : ∀ direction, v.takes direction = 0 ∨ v.takes direction = 1
  takesOne : v.takes .upward + v.takes .downward ≤ 1
  takesUp : 0 < up → v.takes .upward = 1
  takesDown : 0 < down → v.takes .downward = 1

/-- A move by at most one tap leads to the angle of the tap that is reached. -/
theorem IsMove.getElem?_of_le_one {up down : Nat}
    (h : v.IsMove taps lowest tap highest angle up down)
    (hangle : taps[tap]? = some angle) (hone : up + down ≤ 1) :
    taps[tap + up - down]? = some v.setpoint := by
  obtain ⟨rfl, rfl⟩ | ⟨rfl, rfl⟩ | ⟨rfl, rfl⟩ :
      (up = 0 ∧ down = 0) ∨ (up = 1 ∧ down = 0) ∨ (up = 0 ∧ down = 1) := by omega
  · rw [h.stays rfl rfl]
    simpa using hangle
  · obtain ⟨next, hnext, hsetpoint⟩ := h.goesUp one_pos
    rw [hsetpoint]
    simpa using hnext
  · obtain ⟨previous, hprevious, hsetpoint⟩ := h.goesDown one_pos
    rw [hsetpoint]
    simpa using hprevious

/-- What the rows and the variables of a phase shifter require of their values. -/
structure Fits (reach : Int) (angle : K) (step : TapDirection → K) (room : TapDirection → Int)
    (v : TapValues K) : Prop where
  moved : ∀ direction, 0 ≤ v.moved direction ∧ v.moved direction ≤ reach ∧
    ∃ n : Int, v.moved direction = n
  takes : ∀ direction, v.takes direction = 0 ∨ v.takes direction = 1
  takesOne : v.takes .downward + v.takes .upward ≤ 1
  room : ∀ direction, v.moved direction ≤ room direction * v.takes direction
  setpoint : v.setpoint =
    angle + step .downward * v.moved .downward + step .upward * v.moved .upward

/-- The taps moved in a direction are as many as there is room for at most, and none if the
direction is not taken. -/
theorem Fits.exists_count (h : v.Fits reach angle step room) (direction : TapDirection)
    (hroom : 0 ≤ room direction) :
    ∃ n : Nat, v.moved direction = n ∧ n ≤ room direction ∧ (0 < n → v.takes direction = 1) := by
  obtain ⟨hnonneg, -, n, hn⟩ := h.moved direction
  have hbound := h.room direction
  rw [hn] at hnonneg hbound
  lift n to Nat using (by exact_mod_cast hnonneg)
  refine ⟨n, by simpa using hn, ?_⟩
  rcases h.takes direction with htakes | htakes
  · rw [htakes, mul_zero] at hbound
    have hzero : n = 0 := Nat.le_zero.mp (by exact_mod_cast hbound)
    exact ⟨hzero ▸ hroom, fun hpos => absurd hzero hpos.ne'⟩
  · rw [htakes, mul_one] at hbound
    exact ⟨by exact_mod_cast hbound, fun _ => htakes⟩

/-- Values fit the rows of a position within the range just if they are those of a move from it. -/
theorem fits_iff (hlowest : lowest ≤ tap) (hhighest : tap ≤ highest)
    (hreach : highest - lowest ≤ reach) (hup : room .upward = highest - tap)
    (hdown : room .downward = tap - lowest)
    (hstep : ∀ direction, 0 < room direction → ∃ next, taps[tap + direction.sign]? = some next ∧
      step direction = next - angle) :
    v.Fits reach angle step room ↔ ∃ up down, v.IsMove taps lowest tap highest angle up down := by
  constructor
  · intro h
    obtain ⟨up, hmovedUp, hroomUp, htakesUp⟩ := h.exists_count .upward (by omega)
    obtain ⟨down, hmovedDown, hroomDown, htakesDown⟩ := h.exists_count .downward (by omega)
    have hsetpoint := h.setpoint
    rw [hmovedUp, hmovedDown] at hsetpoint
    have hone : up = 0 ∨ down = 0 := by
      by_contra hboth
      have htakes := h.takesOne
      rw [htakesUp (by omega), htakesDown (by omega)] at htakes
      norm_num at htakes
    refine ⟨up, down, ⟨hmovedUp, hmovedDown, hone, by omega, by omega, ?_, fun hpos => ?_,
      fun hpos => ?_, h.takes, add_comm (v.takes .downward) _ ▸ h.takesOne, htakesUp, htakesDown⟩⟩
    · rintro rfl rfl
      simpa using hsetpoint
    · obtain ⟨next, hnext, hslope⟩ := hstep .upward (by omega)
      obtain rfl : down = 0 := hone.resolve_left hpos.ne'
      refine ⟨next, hnext, ?_⟩
      rw [hsetpoint, hslope, Nat.cast_zero]
      ring
    · obtain ⟨previous, hprevious, hslope⟩ := hstep .downward (by omega)
      obtain rfl : up = 0 := hone.resolve_right hpos.ne'
      refine ⟨previous, hprevious, ?_⟩
      rw [hsetpoint, hslope, Nat.cast_zero]
      ring
  · rintro ⟨up, down, h⟩
    have hlow := h.lowest_le
    have hhigh := h.le_highest
    have hone := h.oneDirection
    have hcount : ∀ direction, ∃ n : Nat, v.moved direction = n ∧ n ≤ room direction ∧
        n ≤ reach ∧ (0 < n → v.takes direction = 1) := by
      rintro (_ | _)
      · exact ⟨up, h.moved_up, by omega, by omega, h.takesUp⟩
      · exact ⟨down, h.moved_down, by omega, by omega, h.takesDown⟩
    refine ⟨fun direction => ?_, h.takes, add_comm (v.takes .upward) _ ▸ h.takesOne,
      fun direction => ?_, ?_⟩
    · obtain ⟨n, hn, -, hle, -⟩ := hcount direction
      rw [hn]
      exact ⟨Nat.cast_nonneg n, by exact_mod_cast hle, n, by simp⟩
    · obtain ⟨n, hn, hle, -, htakes⟩ := hcount direction
      rw [hn]
      rcases Nat.eq_zero_or_pos n with rfl | hpos
      · have hroom : (0 : K) ≤ room direction := by exact_mod_cast hle
        rcases h.takes direction with htakes | htakes <;> simp [htakes, hroom]
      · rw [htakes hpos, mul_one]
        exact_mod_cast hle
    · rw [h.moved_up, h.moved_down]
      rcases Nat.eq_zero_or_pos up with rfl | hpos
      · rcases Nat.eq_zero_or_pos down with rfl | hpos
        · simpa using h.stays rfl rfl
        · obtain ⟨previous, hprevious, hsetpoint⟩ := h.goesDown hpos
          obtain ⟨_, hnext, hslope⟩ := hstep .downward (by omega)
          obtain rfl := Option.some.inj (hprevious.symm.trans hnext)
          rw [hsetpoint, hslope, Nat.cast_zero]
          ring
      · obtain rfl : down = 0 := hone.resolve_left hpos.ne'
        obtain ⟨next, hnext, hsetpoint⟩ := h.goesUp hpos
        obtain ⟨_, hnext', hslope⟩ := hstep .upward (by omega)
        obtain rfl := Option.some.inj (hnext.symm.trans hnext')
        rw [hsetpoint, hslope, Nat.cast_zero]
        ring

end TapValues

/-! ### Rows -/

/-- An assignment keeps the bounds and the kind of the variable of a name. -/
def LinearProblem.Admits (p : LinearProblem K) (x : VariableId → K) (key : VariableKey) : Prop :=
  ∀ data, p.columns[p.number key]? = some data →
    within data.lower data.upper (p.valueOf x key) ∧ kindAllows data.kind (p.valueOf x key)

theorem LinearProblem.Declares.admits_iff {p : LinearProblem K} {x : VariableId → K}
    {data : Variable K} (h : p.Declares data) : p.Admits x data.key ↔
      within data.lower data.upper (p.valueOf x data.key) ∧
        kindAllows data.kind (p.valueOf x data.key) := by
  obtain ⟨v, hv, hdata⟩ := h
  unfold Admits
  rw [(hasVariable_of_variableId? hv).2, hdata]
  simp

theorem LinearProblem.Satisfies.admits {p : LinearProblem K} {x : VariableId → K}
    (h : p.Satisfies x) (key : VariableKey) : p.Admits x key :=
  fun data hdata => h.1 _ data hdata

namespace TapMoves

variable {p q : LinearProblem K} {x : VariableId → K} {u : PUnit} {id : String} {reach : Int}
  {angle : K} {step : TapDirection → K} {room : TapDirection → Int}
  {r : RangeAction K} {activation later : Activation K} {m : Movement K}

/-- The values of the variables of a phase shifter in an assignment. -/
def values (p : LinearProblem K) (x : VariableId → K) (id : String) : TapValues K where
  setpoint := p.valueOf x (.setpoint id)
  moved direction := p.valueOf x (.tapVariation id direction)
  takes direction := p.valueOf x (.tapVariationBinary id direction)

/-- An assignment keeps the rows of the taps of a phase shifter, and the bounds and the integrality
of their variables. -/
structure Keeps (p : LinearProblem K) (x : VariableId → K) (id : String) : Prop where
  moved : ∀ direction, p.Admits x (.tapVariation id direction)
  takes : ∀ direction, p.Admits x (.tapVariationBinary id direction)
  rows : ∀ key, key.IsOfTaps id → p.RowHolds x key

theorem keeps_of_satisfies (h : p.Satisfies x) (id : String) : Keeps p x id :=
  ⟨fun _ => h.admits _, fun _ => h.admits _, fun key _ => h.rowHolds key⟩

/-- The values that the rows of the taps of a phase shifter leave. -/
def feasible (p : LinearProblem K) (id : String) : Set (TapValues K) :=
  {v | ∃ x, Keeps p x id ∧ values p x id = v}

theorem Rows.keeps_iff (h : Rows p id reach angle step room) :
    Keeps p x id ↔ (values p x id).Fits reach angle step room := by
  have hmoved : ∀ direction, p.Admits x (.tapVariation id direction) ↔
      0 ≤ (values p x id).moved direction ∧ (values p x id).moved direction ≤ reach ∧
        ∃ n : Int, (values p x id).moved direction = n := by
    intro direction
    rw [(h.moves direction).admits_iff]
    simp [within, kindAllows, values, ExactScalar.ofInt_eq, and_assoc]
  have htakes : ∀ direction, p.Admits x (.tapVariationBinary id direction) ↔
      (values p x id).takes direction = 0 ∨ (values p x id).takes direction = 1 := by
    intro direction
    rw [(h.directions direction).admits_iff]
    simp only [within, kindAllows, values]
    refine and_iff_right_of_imp ?_
    rintro (hzero | hone)
    · simp [hzero]
    · simp [hone]
  have hconversion : p.RowHolds x (.tapToAngle id) ↔ (values p x id).setpoint =
      angle + step .downward * (values p x id).moved .downward +
        step .upward * (values p x id).moved .upward := by
    rw [h.conversion.rowHolds_iff]
    simp [conversion_holdsAt_iff, values]
  have hone : p.RowHolds x (.upOrDown id) ↔
      (values p x id).takes .downward + (values p x id).takes .upward ≤ 1 := by
    rw [h.oneDirection.rowHolds_iff]
    simp [oneDirection_holdsAt_iff, values]
  have hroom : ∀ direction, p.RowHolds x (.variationInDirection id direction) ↔
      (values p x id).moved direction ≤ room direction * (values p x id).takes direction := by
    intro direction
    rw [(h.roomFor direction).rowHolds_iff]
    simp [roomFor_holdsAt_iff, values]
  constructor
  · intro hx
    exact ⟨fun direction => (hmoved direction).mp (hx.moved direction),
      fun direction => (htakes direction).mp (hx.takes direction), hone.mp (hx.rows _ rfl),
      fun direction => (hroom direction).mp (hx.rows _ rfl), hconversion.mp (hx.rows _ rfl)⟩
  · intro hv
    refine ⟨fun direction => (hmoved direction).mpr (hv.moved direction),
      fun direction => (htakes direction).mpr (hv.takes direction), fun key hkey => ?_⟩
    cases key with
    | tapToAngle _ => exact hkey ▸ hconversion.mpr hv.setpoint
    | upOrDown _ => exact hkey ▸ hone.mpr hv.takesOne
    | variationInDirection _ direction => exact hkey ▸ (hroom direction).mpr (hv.room direction)
    | _ => exact hkey.elim

/-- Any values of these variables are those in an assignment. -/
theorem Rows.exists_values (h : Rows p id reach angle step room) (v : TapValues K) :
    ∃ x, values p x id = v := by
  obtain ⟨x, hx⟩ := p.exists_valueOf fun key =>
    match key with
    | .tapVariation _ direction => v.moved direction
    | .tapVariationBinary _ direction => v.takes direction
    | _ => v.setpoint
  have hsetpoint := (h.conversion.isAbout _ rfl).named _ List.mem_cons_self
  refine ⟨x, ?_⟩
  rw [TapValues.mk.injEq]
  exact ⟨hx _ hsetpoint, funext fun direction => hx _ (h.moves direction).hasVariable,
    funext fun direction => hx _ (h.directions direction).hasVariable⟩

/-! ### Positions -/

/-- What a position is, once it is found. -/
theorem eq_of_ofActivation {position : Position K}
    (h : Position.ofActivation activation r = .ok position) :
    activation.get r.id = .ok position.angle ∧ r.tapOf position.angle = .ok position.tap ∧
      admissibleTaps r = .ok (position.lowest, position.highest) ∧
        position.roomBelow = max (position.tap - position.lowest) 0 ∧
          position.roomAbove = max (position.highest - position.tap) 0 := by
  unfold Position.ofActivation Activation.tap at h
  simp only [bind_eq_ok_iff, RangeAction.tapNumber_eq_ok_iff] at h
  obtain ⟨angle, hangle, tap, ⟨_, hsame, htap⟩, ⟨lowest, highest⟩, hrange, _, ⟨rfl, -⟩, _,
    ⟨rfl, -⟩, hposition⟩ := h
  obtain rfl := Except.ok.inj (hangle.symm.trans hsame)
  obtain rfl := Except.ok.inj hposition
  exact ⟨hangle, htap, hrange, rfl, rfl⟩

omit [ExactScalar K] in
theorem angleOf_eq_ok_iff {taps : TapTable K} (htaps : r.taps? = some taps) {tap : Int} :
    r.angleOf tap = .ok angle ↔ taps[tap]? = some angle := by
  unfold RangeAction.angleOf
  rw [htaps, Option.bind_some]
  cases taps[tap]? <;> simp

/-- The taps at the ends of the range are in the table. -/
theorem mem_of_admissibleTaps {taps : TapTable K} (htaps : r.taps? = some taps)
    {lowest highest : Int} (h : admissibleTaps r = .ok (lowest, highest)) :
    lowest ∈ taps ∧ highest ∈ taps := by
  have hmem : ∀ {angle : K} {tap : Int}, r.tapOf angle = .ok tap → tap ∈ taps := by
    intro angle tap htap
    obtain ⟨nearest, hnearest, -⟩ :=
      RangeAction.exists_of_nearestTap (RangeAction.nearestTap_of_tapOf htaps htap)
    exact Std.ExtTreeMap.mem_iff_isSome_getElem?.mpr
      (Option.isSome_of_eq_some (Std.ExtTreeMap.mem_toList_iff_getElem?_eq_some.mp hnearest))
  unfold admissibleTaps at h
  simp only [bind_eq_ok_iff] at h
  obtain ⟨first, hfirst, last, hlast, hends⟩ := h
  obtain ⟨rfl, rfl⟩ := Prod.mk.inj (Except.ok.inj hends)
  rcases le_total first last with hle | hle
  · rw [min_eq_left hle, max_eq_right hle]
    exact ⟨hmem hfirst, hmem hlast⟩
  · rw [min_eq_right hle, max_eq_left hle]
    exact ⟨hmem hlast, hmem hfirst⟩

/-- The variables of a phase shifter reach over its range, and its rows are there. -/
def Reaches (r : RangeAction K) (p : LinearProblem K) : Prop :=
  ∃ reach angle step room, Rows p r.id reach angle step room ∧
    ∀ lowest highest, admissibleTaps r = .ok (lowest, highest) → highest - lowest ≤ reach

/-- The rows of a phase shifter state its position in an activation, with the steps to the next taps
on either side, as far as the table has them. -/
def Calibrated (activation : Activation K) (r : RangeAction K) (p : LinearProblem K) : Prop :=
  ∃ position, Position.ofActivation activation r = .ok position ∧ ∃ here,
    r.angleOf position.tap = .ok here ∧ ∃ reach step,
      Rows p r.id reach position.angle step position.room ∧
        position.highest - position.lowest ≤ reach ∧
          ∀ direction next, r.angleOf (position.tap + direction.sign) = .ok next →
            step direction = next - here

theorem Reaches.of_extends {touched : RowKey → Prop} (h : Reaches r p) (hq : p.Extends touched q)
    (htouched : ∀ key, key.IsOfTaps r.id → ¬touched key) : Reaches r q := by
  obtain ⟨reach, angle, step, room, hrows, hreach⟩ := h
  exact ⟨reach, angle, step, room, hrows.of_extends hq htouched, hreach⟩

theorem Calibrated.of_extends {touched : RowKey → Prop} (h : Calibrated activation r p)
    (hq : p.Extends touched q) (htouched : ∀ key, key.IsOfTaps r.id → ¬touched key) :
    Calibrated activation r q := by
  obtain ⟨position, hposition, here, hhere, reach, step, hrows, hrest⟩ := h
  exact ⟨position, hposition, here, hhere, reach, step, hrows.of_extends hq htouched, hrest⟩

theorem Calibrated.reaches (h : Calibrated activation r p) : Reaches r p := by
  obtain ⟨position, hposition, _, -, reach, step, hrows, hreach, -⟩ := h
  obtain ⟨-, -, hends, -⟩ := eq_of_ofActivation hposition
  refine ⟨reach, _, step, _, hrows, fun lowest highest hrange => ?_⟩
  obtain ⟨rfl, rfl⟩ := Prod.mk.inj (Except.ok.inj (hends.symm.trans hrange))
  exact hreach

/-- The room for moves both ways covers the range, wherever the tap is. -/
theorem reaches_of_write (h : Succeeds (write activation r) p u q) : Reaches r q := by
  obtain ⟨position, hposition, step, hrows⟩ := rows_of_write h
  obtain ⟨-, -, hends, hbelow, habove⟩ := eq_of_ofActivation hposition
  refine ⟨_, _, step, _, hrows, fun lowest highest hrange => ?_⟩
  obtain ⟨rfl, rfl⟩ := Prod.mk.inj (Except.ok.inj (hends.symm.trans hrange))
  omega

theorem calibrated_of_adapt (hp : Reaches r p) (h : Succeeds (adapt activation r) p u q) :
    Calibrated activation r q := by
  obtain ⟨reach, angle, step, room, hrows, hreach⟩ := hp
  obtain ⟨position, hposition, here, hhere, later, hlater, hstep⟩ := rows_of_adapt hrows h
  obtain ⟨-, -, hends, -⟩ := eq_of_ofActivation hposition
  exact ⟨position, hposition, here, hhere, reach, later, hlater, hreach _ _ hends, hstep⟩

/-! ### Parts -/

/-- The rows of one phase shifter are not those of another. -/
theorem not_isOfTaps {other : String} (hne : other ≠ id) (key : RowKey) (hkey : key.IsOfTaps id) :
    ¬key.IsOfTaps other := by
  cases key with
  | tapToAngle _ | upOrDown _ | variationInDirection _ _ => exact hkey ▸ hne.symm
  | _ => exact hkey.elim

theorem extends_of_write (h : Succeeds (write activation r) p u q) :
    p.Extends (RowKey.IsOfTaps r.id) q :=
  extends_write rfl h

theorem extends_of_adapt (h : Succeeds (adapt activation r) p u q) :
    p.Extends (RowKey.IsOfTaps r.id) q :=
  extends_adapt rfl (fun _ => rfl) h

/-- Once tap moves are written, the variables of all phase shifters reach over their ranges. -/
theorem reaches_of_writes {shifters : List (RangeAction K)}
    (hids : (shifters.map RangeAction.id).Nodup)
    (h : Succeeds (shifters.forM (write activation)) p u q) : ∀ r ∈ shifters, Reaches r q := by
  intro r hr
  refine h.forM_turn hids hr (P := fun _ => True) (fun _ _ _ _ _ _ _ => trivial)
    (fun s t _ ht => reaches_of_write ht) (fun other _ hne s t hs ht => ?_) trivial
  exact hs.of_extends (extends_of_write ht) fun key hkey => not_isOfTaps hne key hkey

/-- Once tap moves are adapted, the rows of all phase shifters state their positions. -/
theorem calibrated_of_adapts {shifters : List (RangeAction K)}
    (hids : (shifters.map RangeAction.id).Nodup) (hp : ∀ r ∈ shifters, Reaches r p)
    (h : Succeeds (shifters.forM (adapt activation)) p u q) :
    ∀ r ∈ shifters, Calibrated activation r q := by
  intro r hr
  refine h.forM_turn hids hr (fun other _ hne s t hs ht => ?_)
    (fun s t hs ht => calibrated_of_adapt hs ht) (fun other _ hne s t hs ht => ?_) (hp r hr)
  · exact hs.of_extends (extends_of_adapt ht) fun key hkey => not_isOfTaps hne key hkey
  · exact hs.of_extends (extends_of_adapt ht) fun key hkey => not_isOfTaps hne key hkey

end TapMoves

/-! ### Histories -/

/-- The problems that some parts are written into, and adapted to set-points at least once after any
history, with the set-points that they have last been adapted to. -/
inductive Part.Adapted (parts : List (Part K)) : Activation K → LinearProblem K → Prop
  | refresh {activation : Activation K} {point : Linearization K} {iteration : Nat} {u : PUnit}
    {p q : LinearProblem K} (hp : Part.Written parts activation p)
    (h : Succeeds (parts.forM (·.refresh point iteration)) p u q) :
    Adapted parts point.activation q
  | adjust {activation later : Activation K} {u : PUnit} {p q : LinearProblem K}
    (hp : Part.Written parts activation p) (h : Succeeds (parts.forM (·.adjust later)) p u q) :
    Adapted parts later q
  | solve {activation : Activation K} {p : LinearProblem K} (hp : Adapted parts activation p)
    (solution : Option (List K)) (status : SolveStatus) :
    Adapted parts activation { p with solution, status }

namespace TapMoves

variable {p q : LinearProblem K} {x : VariableId → K} {u : PUnit} {r : RangeAction K}
  {activation later : Activation K} {m : Movement K}

omit [ExactScalar K] in
theorem nodup_shifters (hids : (m.rangeActions.map RangeAction.id).Nodup) :
    ((m.rangeActions.filter RangeAction.isPst).map RangeAction.id).Nodup :=
  (List.filter_sublist.map _).nodup hids

/-- The part of set-points and flows leaves the rows of taps as they are. -/
theorem movement_extends (m : Movement K) :
    m.part.Extends fun key => ∀ id, ¬key.IsOfTaps id :=
  Movement.part_extends (fun _ _ => id) fun _ _ => id

/-- Once set-points and tap moves are adapted, the rows of all phase shifters state their positions,
if their variables reached over the ranges. -/
theorem calibrated_of_work {work : Part K → Writing K PUnit}
    (hmovement : ∀ s t, Succeeds (work m.part) s ⟨⟩ t →
      s.Extends (fun key => ∀ id, ¬key.IsOfTaps id) t)
    (htaps : work (part m.rangeActions) =
      (m.rangeActions.filter RangeAction.isPst).forM (adapt later))
    (hids : (m.rangeActions.map RangeAction.id).Nodup)
    (hp : ∀ r ∈ m.rangeActions.filter RangeAction.isPst, Reaches r p)
    (h : Succeeds ([m.part, part m.rangeActions].forM work) p u q) :
    ∀ r ∈ m.rangeActions.filter RangeAction.isPst, Calibrated later r q := by
  obtain ⟨s, hfirst, hadapts⟩ := succeeds_forM_pair_iff.mp h
  rw [htaps] at hadapts
  refine calibrated_of_adapts (nodup_shifters hids) (fun r hr => ?_) hadapts
  exact (hp r hr).of_extends (hmovement p s hfirst) fun key hkey hnot => hnot r.id hkey

/-- By induction on its history: in every written problem the variables of phase shifters reach over
their ranges. -/
theorem reaches_of_written
    (h : Part.Written [m.part, part m.rangeActions] activation p) :
    (m.rangeActions.map RangeAction.id).Nodup ∧
      ∀ r ∈ m.rangeActions.filter RangeAction.isPst, Reaches r p := by
  induction h with
  | fill h =>
    obtain ⟨s, hfirst, hwrites⟩ := succeeds_forM_pair_iff.mp h
    have hids := (Movement.measures_of_fill hfirst).2
    exact ⟨hids, reaches_of_writes (nodup_shifters hids) hwrites⟩
  | refresh _ h ih =>
    have hall := calibrated_of_work (fun _ _ => (movement_extends m).refresh) rfl ih.1 ih.2 h
    exact ⟨ih.1, fun r hr => (hall r hr).reaches⟩
  | adjust _ h ih =>
    have hall := calibrated_of_work (fun _ _ => (movement_extends m).adjust) rfl ih.1 ih.2 h
    exact ⟨ih.1, fun r hr => (hall r hr).reaches⟩
  | @solve _ p _ solution status ih =>
    have hsame : p.Extends (fun _ => False) { p with solution, status } := .of_eq rfl rfl
    exact ⟨ih.1, fun r hr => (ih.2 r hr).of_extends hsame fun _ _ => id⟩

/-- In every problem that has been adapted, the rows of phase shifters state their positions. -/
theorem calibrated_of_adapted (h : Part.Adapted [m.part, part m.rangeActions] activation q) :
    ∀ r ∈ m.rangeActions.filter RangeAction.isPst, Calibrated activation r q := by
  induction h with
  | refresh hp h =>
    obtain ⟨hids, hreaches⟩ := reaches_of_written hp
    exact calibrated_of_work (fun _ _ => (movement_extends m).refresh) rfl hids hreaches h
  | adjust hp h =>
    obtain ⟨hids, hreaches⟩ := reaches_of_written hp
    exact calibrated_of_work (fun _ _ => (movement_extends m).adjust) rfl hids hreaches h
  | @solve _ p _ solution status ih =>
    have hsame : p.Extends (fun _ => False) { p with solution, status } := .of_eq rfl rfl
    exact fun r hr => (ih r hr).of_extends hsame fun _ _ => id

/-! ### What is left -/

section Feasible

variable {p q : LinearProblem K} {x : VariableId → K} {r : RangeAction K}
  {activation : Activation K} {m : Movement K} {taps : TapTable K} {lowest tap highest : Int}
  {angle : K}
  (htaps : r.taps? = some taps) (hcontiguous : taps.IsContiguous)
  (hinjective : r.HasInjectiveTaps) (hrange : admissibleTaps r = .ok (lowest, highest))
  (hlowest : lowest ≤ tap) (hhighest : tap ≤ highest) (hangle : taps[tap]? = some angle)
  (hget : activation.get r.id = .ok angle)
include htaps hcontiguous hinjective hrange hlowest hhighest hangle hget

/-- Rows that state a position on a tap within the range leave the moves from it, with any values of
these variables. -/
theorem Calibrated.keeps_iff (h : Calibrated activation r p) :
    (∀ x, Keeps p x r.id ↔
      ∃ up down, (values p x r.id).IsMove taps lowest tap highest angle up down) ∧
        ∀ v, ∃ x, values p x r.id = v := by
  obtain ⟨position, hposition, here, hhere, reach, step, hrows, hreach, hstep⟩ := h
  obtain ⟨hpositionAngle, hpositionTap, hends, hbelow, habove⟩ := eq_of_ofActivation hposition
  obtain ⟨presentAngle, presentTap, low, high, roomBelow, roomAbove⟩ := position
  obtain rfl : presentAngle = angle := Except.ok.inj (hpositionAngle.symm.trans hget)
  obtain ⟨rfl, rfl⟩ : low = lowest ∧ high = highest :=
    Prod.mk.inj (Except.ok.inj (hends.symm.trans hrange))
  have hontap : r.OnTap presentAngle := by
    intro table htable
    obtain rfl := Option.some.inj (htaps.symm.trans htable)
    exact ⟨tap, hangle⟩
  obtain rfl : presentTap = tap := hinjective taps htaps _ _ _
    (RangeAction.getElem?_tapOf htaps hontap hpositionTap) hangle
  obtain rfl : here = presentAngle :=
    Option.some.inj (((angleOf_eq_ok_iff htaps).mp hhere).symm.trans hangle)
  obtain ⟨hlow, hhigh⟩ := mem_of_admissibleTaps htaps hrange
  -- with room for a move the table has the next tap
  have hnext : ∀ next : Int, low ≤ next → next ≤ high → ∃ angle, taps[next]? = some angle :=
    fun next hbelow habove => Option.isSome_iff_exists.mp (Std.ExtTreeMap.mem_iff_isSome_getElem?.mp
      (hcontiguous low next high hlow hhigh hbelow habove))
  have hup : roomAbove = high - presentTap :=
    habove.trans (max_eq_left (Int.sub_nonneg.mpr hhighest))
  have hdown : roomBelow = presentTap - low :=
    hbelow.trans (max_eq_left (Int.sub_nonneg.mpr hlowest))
  refine ⟨fun x => hrows.keeps_iff.trans (TapValues.fits_iff hlowest hhighest hreach hup hdown
    fun direction hroom => ?_), hrows.exists_values⟩
  obtain ⟨next, hnext⟩ : ∃ next, taps[presentTap + direction.sign]? = some next := by
    cases direction with
    | upward =>
      change 0 < roomAbove at hroom
      exact hnext (presentTap + 1) (by omega) (by omega)
    | downward =>
      change 0 < roomBelow at hroom
      exact hnext (presentTap - 1) (by omega) (by omega)
  exact ⟨next, hnext, hstep direction next ((angleOf_eq_ok_iff htaps).mpr hnext)⟩

/-- Once the rows of a phase shifter have been adapted to a tap within its range, the values that
they leave are those of the moves from this tap, whatever they have been adapted to before. Those of
a move by one tap have the angle of the tap that is reached. -/
theorem feasible_eq_moves (h : Part.Adapted [m.part, part m.rangeActions] activation q)
    (hr : r ∈ m.rangeActions) :
    (∀ x, Keeps q x r.id → ∃ up down,
      (values q x r.id).IsMove taps lowest tap highest angle up down ∧
        (up + down ≤ 1 → taps[tap + up - down]? = some (q.valueOf x (.setpoint r.id)))) ∧
    feasible q r.id = {v | ∃ up down, v.IsMove taps lowest tap highest angle up down} ∧
    ∀ other s, Part.Adapted [m.part, part m.rangeActions] other s → other.get r.id = .ok angle →
      feasible s r.id = feasible q r.id := by
  have hshifter : r ∈ m.rangeActions.filter RangeAction.isPst :=
    List.mem_filter.mpr ⟨hr, RangeAction.isPst_of_taps htaps⟩
  have hleft : ∀ other s, Part.Adapted [m.part, part m.rangeActions] other s →
      other.get r.id = .ok angle →
        feasible s r.id = {v | ∃ up down, v.IsMove taps lowest tap highest angle up down} := by
    intro other s hs hother
    obtain ⟨hkeeps, hvalues⟩ := (calibrated_of_adapted hs r hshifter).keeps_iff htaps
      hcontiguous hinjective hrange hlowest hhighest hangle hother
    refine Set.ext fun v => ⟨?_, fun hv => ?_⟩
    · rintro ⟨x, hx, rfl⟩
      exact (hkeeps x).mp hx
    · obtain ⟨x, rfl⟩ := hvalues v
      exact ⟨x, (hkeeps x).mpr hv, rfl⟩
  have hq := hleft activation q h hget
  refine ⟨fun x hx => ?_, hq, fun other s hs hother => (hleft other s hs hother).trans hq.symm⟩
  have hmem : values q x r.id ∈ feasible q r.id := ⟨x, hx, rfl⟩
  rw [hq] at hmem
  obtain ⟨up, down, hmove⟩ := hmem
  exact ⟨up, down, hmove, hmove.getElem?_of_le_one hangle⟩

end Feasible

end TapMoves

/-! A phase shifter whose angles rise and fall, and whose range has some of its taps only. Its rows
are written off this range, then adapted to the end of the table and at last to a tap in between. -/

namespace WindingTable

/-- The angles of six taps. -/
def angles : List (Int × ℚ) := [(-2, 0), (-1, 3), (0, 1), (1, 2), (2, -1), (3, 7)]

/-- Their table. -/
def table : TapTable ℚ := .ofPairs angles

/-- A phase shifter with angles from those of the tap two to that of the tap minus one. -/
def shifter : RangeAction ℚ :=
  { id := "turn", element := "transformer", min := -1, max := 3, kind := .pst table }

/-- The set-point of the phase shifter alone. -/
def movement : Movement ℚ where
  cnecs := []
  rangeActions := [shifter]
  initial := ⟨Table.ofPairs [("turn", 0)]⟩
  optimizer := OptimizerParameters.default
  shrinking := true

/-- The phase shifter at an angle. -/
def present (angle : ℚ) : Activation ℚ := ⟨{}, Table.ofPairs [("turn", angle)]⟩

/-- The linearisation at an angle. -/
def point (angle : ℚ) : Linearization ℚ := ⟨{}, {}, present angle⟩

/-- Two taps up from the tap zero. -/
def values : VariableId → ℚ := fun v => [3, 3, 0, 2, 0, 1].getD v 0

theorem mem_angles {tap : Int} {angle : ℚ} (h : table[tap]? = some angle) :
    (tap, angle) ∈ angles := by
  have hlist : table.toList = angles := by decide +kernel
  rw [← hlist]
  exact Std.ExtTreeMap.mem_toList_iff_getElem?_eq_some.mpr h

theorem isContiguous_table : table.IsContiguous := by
  have hends : ∀ tap : Int, tap ∈ table → -2 ≤ tap ∧ tap ≤ 3 := by
    intro tap htap
    obtain ⟨angle, hangle⟩ :=
      Option.isSome_iff_exists.mp (Std.ExtTreeMap.mem_iff_isSome_getElem?.mp htap)
    have hangles : ∀ entry ∈ angles, -2 ≤ entry.1 ∧ entry.1 ≤ 3 := by decide +kernel
    exact hangles _ (mem_angles hangle)
  intro low tap high hlow hhigh hle hge
  have hbelow := (hends low hlow).1
  have habove := (hends high hhigh).2
  obtain rfl | rfl | rfl | rfl | rfl | rfl :
      tap = -2 ∨ tap = -1 ∨ tap = 0 ∨ tap = 1 ∨ tap = 2 ∨ tap = 3 := by omega
  all_goals decide +kernel

theorem hasInjectiveTaps_shifter : shifter.HasInjectiveTaps := by
  rintro _ ⟨⟩ tap other angle htap hother
  have hangles : ∀ entry ∈ angles, ∀ entry' ∈ angles, entry.2 = entry'.2 → entry.1 = entry'.1 := by
    decide +kernel
  exact hangles _ (mem_angles htap) _ (mem_angles hother) rfl

theorem admissibleTaps_shifter : TapMoves.admissibleTaps shifter = .ok (-1, 2) := by
  have hends : (TapMoves.admissibleTaps shifter).toOption.any (· == (-1, 2)) = true := by
    decide +kernel
  obtain ⟨ends, hends, hsame⟩ := exists_ok_of_any hends
  rw [hends, eq_of_beq hsame]

theorem two_taps_up :
    ∃ q, Part.Adapted [movement.part, TapMoves.part movement.rangeActions] (present 1) q ∧
      q.Satisfies values ∧
        ∃ up down, (TapMoves.values q values "turn").IsMove table (-1) 0 2 1 up down ∧ up = 2 := by
  have hrun : (ExceptT.run (m := StateM (LinearProblem ℚ)) (do
      [movement.part, TapMoves.part movement.rangeActions].forM (·.fill (point 0))
      [movement.part, TapMoves.part movement.rangeActions].forM (·.adjust (present 7))
      [movement.part, TapMoves.part movement.rangeActions].forM (·.refresh (point 1) 1)
      get) (.empty .microlp)).1.toOption.any (fun q => decide (q.Satisfies values ∧
        q.valueOf values (.tapVariation "turn" .upward) = 2)) = true := by
    decide +kernel
  obtain ⟨_, _, h, hpoint⟩ := exists_succeeds_of_any hrun
  simp only [succeeds_bind_iff, succeeds_get_iff] at h
  obtain ⟨⟨⟩, s, hfill, ⟨⟩, t, hadjust, ⟨⟩, q, hrefresh, rfl, rfl⟩ := h
  obtain ⟨hsatisfies, htwo⟩ := of_decide_eq_true hpoint
  have hadapted : Part.Adapted [movement.part, TapMoves.part movement.rangeActions] (present 1) q :=
    .refresh ((Part.Written.fill hfill).adjust hadjust) hrefresh
  obtain ⟨hmoves, -, -⟩ := TapMoves.feasible_eq_moves (r := shifter) (m := movement) rfl
    isContiguous_table hasInjectiveTaps_shifter admissibleTaps_shifter (by decide : (-1 : Int) ≤ 0)
    (by decide : (0 : Int) ≤ 2) (by decide +kernel) rfl hadapted List.mem_cons_self
  obtain ⟨up, down, hmove, -⟩ := hmoves values (TapMoves.keeps_of_satisfies hsatisfies "turn")
  refine ⟨q, hadapted, hsatisfies, up, down, hmove, ?_⟩
  have hup : (2 : ℚ) = up := htwo.symm.trans hmove.moved_up
  exact_mod_cast hup.symm

end WindingTable

end GridRelief
