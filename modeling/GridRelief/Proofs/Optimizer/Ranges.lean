import Mathlib.Order.Monotone.Basic
import GridRelief.Proofs.Search.RangeLimits

/-!
# Ranges of set-points

The variable of a set-point is within the range of its range action, but the set-point that is
applied is rounded afterwards, to the nearest tap or to the nearest integer. Rounding keeps the
order of set-points. So it brings none out of a range exactly if it brings neither end of the range
out of it, and then all set-points that the rounds find are within their ranges.

* `RangeAction.Allows`: a set-point is within the range.
* `RangeAction.RoundsInward`: rounding does not bring the ends of the range out of it.
* `RangeAction.roundsInward_iff`: this is so exactly if no set-point is brought out of it.
* `Formulation.forces_ranges`: set-points of a linear problem are within their ranges.
* `Optimizer.setpoints_of_optimize`: the set-points that are found are within the range, or rounded
  from one that is.
-/

namespace GridRelief

open LinearProblem Writing

variable {K N σ : Type} [ExactScalar K]

/-! ### Rounding -/

/-- Rounding rational numbers to the nearest integer keeps their order. -/
theorem monotone_round : Monotone (Scalar.round : ℚ → ℚ) := by
  intro a b hab
  change (if 0 ≤ a then ((a + 1 / 2).floor : ℚ) else (a - 1 / 2).ceil) ≤
    if 0 ≤ b then ((b + 1 / 2).floor : ℚ) else (b - 1 / 2).ceil
  split
  · next ha =>
    rw [if_pos (ha.trans hab)]
    exact_mod_cast Rat.floor_monotone (by linarith only [hab])
  · next ha =>
    have hnonpos : (a - 1 / 2).ceil ≤ 0 := by
      refine Rat.ceil_le_iff.mpr ?_
      push_cast
      linarith only [not_le.mp ha]
    split
    · next hb =>
      have hnonneg : 0 ≤ (b + 1 / 2).floor := by
        refine Rat.le_floor_iff.mpr ?_
        push_cast
        linarith only [hb]
      exact_mod_cast hnonpos.trans hnonneg
    · exact_mod_cast Rat.ceil_le_iff.mpr (by linarith only [hab, Rat.le_ceil (x := b - 1 / 2)])

namespace RangeAction

variable {r : RangeAction K} {a b x y : K}

theorem tapTolerance_nonneg : (0 : K) ≤ tapTolerance := by
  unfold tapTolerance
  rw [ExactScalar.ofDecimal_eq]
  positivity

/-- A set-point is within the range. -/
def Allows (r : RangeAction K) (x : K) : Prop := r.min ≤ x ∧ x ≤ r.max

/-- Rounding the ends of the range does not bring them out of it. -/
structure RoundsInward (r : RangeAction K) : Prop where
  lower : ∀ x, r.roundSetpoint r.min = .ok x → r.min ≤ x
  upper : ∀ x, r.roundSetpoint r.max = .ok x → x ≤ r.max

/-- A set-point that optimising may find: one within the range, or one rounded from such. -/
def Reaches (r : RangeAction K) (x : K) : Prop :=
  r.Allows x ∨ ∃ setpoint, r.Allows setpoint ∧ r.roundSetpoint setpoint = .ok x

/-- Of two angles the smaller one does not have a nearest tap with the larger angle. -/
theorem nearest_mono {entries : List (Int × K)} {low high : Int} (hab : a < b)
    (hlow : nearestTap a entries = some low) (hhigh : nearestTap b entries = some high) :
    ∃ x y, (low, x) ∈ entries ∧ (high, y) ∈ entries ∧ x ≤ y := by
  obtain ⟨x, hx, hxbest⟩ := exists_of_nearestTap hlow
  obtain ⟨y, hy, hybest⟩ := exists_of_nearestTap hhigh
  refine ⟨x, y, hx, hy, ?_⟩
  have hxy := hxbest _ hy
  have hyx := hybest _ hx
  dsimp only at hxy hyx
  by_contra hlt
  rw [not_le] at hlt
  have habove : x + y ≤ a + a := by
    by_contra hbelow
    have hcloser : |y - a| < x - a := abs_lt.mpr ⟨by linarith only [not_le.mp hbelow], by linarith⟩
    exact absurd (hxy.trans_lt hcloser) (not_lt.mpr (le_abs_self _))
  have hbelow : b + b ≤ x + y := by
    by_contra habove
    have hcloser : |x - b| < b - y := abs_lt.mpr ⟨by linarith, by linarith only [not_le.mp habove]⟩
    refine absurd (hyx.trans_lt hcloser) (not_lt.mpr ?_)
    rw [abs_sub_comm]
    exact le_abs_self _
  linarith only [habove, hbelow, hab]

/-- Rounding keeps the order of set-points. -/
theorem roundSetpoint_mono (hround : Monotone (Scalar.round : K → K)) (hab : a ≤ b)
    (ha : r.roundSetpoint a = .ok x) (hb : r.roundSetpoint b = .ok y) : x ≤ y := by
  rcases hab.eq_or_lt with rfl | hab
  · rw [ha] at hb
    exact (Except.ok.inj hb).le
  cases htaps : r.taps? with
  | none =>
    unfold roundSetpoint isPst at ha hb
    rw [htaps] at ha hb
    rw [← Except.ok.inj ha, ← Except.ok.inj hb]
    exact hround hab.le
  | some taps =>
    obtain ⟨low, hlow, hx⟩ := exists_of_roundSetpoint htaps ha
    obtain ⟨high, hhigh, hy⟩ := exists_of_roundSetpoint htaps hb
    obtain ⟨x', y', hx', hy', hle⟩ := nearest_mono hab hlow hhigh
    rw [Std.ExtTreeMap.mem_toList_iff_getElem?_eq_some] at hx' hy'
    rw [hx, Option.some.injEq] at hx'
    rw [hy, Option.some.injEq] at hy'
    rwa [hx', hy']

/-- An angle has a tap if it is near the range of the table. -/
theorem exists_tapOf_iff {taps : TapTable K} (htaps : r.taps? = some taps) :
    (∃ tap, r.tapOf a = .ok tap) ↔ taps.toList ≠ [] ∧
      (angleRange taps).1 - tapTolerance ≤ a ∧ a ≤ (angleRange taps).2 + tapTolerance := by
  constructor
  · rintro ⟨tap, htap⟩
    refine ⟨fun hempty => ?_, ?_⟩
    · have hnearest := nearestTap_of_tapOf htaps htap
      rw [hempty] at hnearest
      cases hnearest
    · unfold tapOf at htap
      simp only [htaps] at htap
      split at htap
      · cases htap
      · next hnear =>
        obtain ⟨hlow, hhigh⟩ := not_or.mp hnear
        exact ⟨not_lt.mp hlow, not_lt.mp hhigh⟩
  · rintro ⟨hsome, hlow, hhigh⟩
    have hnear : ¬(a < (angleRange taps).1 - tapTolerance ∨
        (angleRange taps).2 + tapTolerance < a) := not_or.mpr ⟨not_lt.mpr hlow, not_lt.mpr hhigh⟩
    obtain ⟨tap, htap⟩ : ∃ tap, nearestTap a taps.toList = some tap := by
      cases hentries : taps.toList with
      | nil => exact absurd hentries hsome
      | cons first rest => exact ⟨_, rfl⟩
    refine ⟨tap, ?_⟩
    unfold tapOf
    simp only [htaps, hnear, htap, if_false]

/-- A set-point of a phase shifter can be rounded if it is near the range of the table. -/
theorem exists_roundSetpoint_iff {taps : TapTable K} (htaps : r.taps? = some taps) :
    (∃ x, r.roundSetpoint a = .ok x) ↔ taps.toList ≠ [] ∧
      (angleRange taps).1 - tapTolerance ≤ a ∧ a ≤ (angleRange taps).2 + tapTolerance := by
  rw [← exists_tapOf_iff htaps]
  unfold roundSetpoint isPst
  rw [htaps, Option.isSome_some, if_pos rfl]
  cases htap : r.tapOf a with
  | error fault => simp [bind, Except.bind]
  | ok tap =>
    obtain ⟨angle, hangle, -⟩ := exists_of_nearestTap (nearestTap_of_tapOf htaps htap)
    rw [Std.ExtTreeMap.mem_toList_iff_getElem?_eq_some] at hangle
    simp [angleOf, htaps, hangle, bind, Except.bind]

/-- An angle of a table is within the range of the table. -/
theorem angleRange_allows {taps : TapTable K} {tap : Int} {angle : K}
    (h : taps[tap]? = some angle) :
    (angleRange taps).1 ≤ angle ∧ angle ≤ (angleRange taps).2 := by
  have hmem : angle ∈ taps.toList.map Prod.snd :=
    List.mem_map.mpr ⟨_, Std.ExtTreeMap.mem_toList_iff_getElem?_eq_some.mpr h, rfl⟩
  have hmin : ∀ a b : K, Scalar.min a b ≤ a ∧ Scalar.min a b ≤ b := by simp
  exact ⟨(foldl_le hmin _ _).2 _ hmem, (le_foldl_max _ _).2 _ hmem⟩

/-- A set-point below one that can be rounded can be rounded too, or it is below all taps. -/
theorem exists_roundSetpoint_or_lt (hab : a ≤ b) (hb : r.roundSetpoint b = .ok y) :
    (∃ x, r.roundSetpoint a = .ok x) ∨ a < y := by
  cases htaps : r.taps? with
  | none =>
    left
    unfold roundSetpoint isPst
    rw [htaps]
    exact ⟨_, rfl⟩
  | some taps =>
    obtain ⟨hsome, -, hhigh⟩ := (exists_roundSetpoint_iff htaps).mp ⟨y, hb⟩
    by_cases hlow : (angleRange taps).1 - tapTolerance ≤ a
    · exact .inl ((exists_roundSetpoint_iff htaps).mpr ⟨hsome, hlow, hab.trans hhigh⟩)
    · obtain ⟨tap, -, hy⟩ := exists_of_roundSetpoint htaps hb
      have hrange := (angleRange_allows hy).1
      right
      linarith only [hrange, not_le.mp hlow, tapTolerance_nonneg (K := K)]

/-- A set-point above one that can be rounded can be rounded too, or it is above all taps. -/
theorem exists_roundSetpoint_or_gt (hab : a ≤ b) (ha : r.roundSetpoint a = .ok x) :
    (∃ y, r.roundSetpoint b = .ok y) ∨ x < b := by
  cases htaps : r.taps? with
  | none =>
    left
    unfold roundSetpoint isPst
    rw [htaps]
    exact ⟨_, rfl⟩
  | some taps =>
    obtain ⟨hsome, hlow, -⟩ := (exists_roundSetpoint_iff htaps).mp ⟨x, ha⟩
    by_cases hhigh : b ≤ (angleRange taps).2 + tapTolerance
    · exact .inl ((exists_roundSetpoint_iff htaps).mpr ⟨hsome, hlow.trans hab, hhigh⟩)
    · obtain ⟨tap, -, hx⟩ := exists_of_roundSetpoint htaps ha
      have hrange := (angleRange_allows hx).2
      right
      linarith only [hrange, not_le.mp hhigh, tapTolerance_nonneg (K := K)]

/-- If rounding does not bring the ends of a range out of it, it brings no set-point out of it. -/
theorem RoundsInward.allows (hround : Monotone (Scalar.round : K → K)) (h : r.RoundsInward)
    (ha : r.Allows a) (hx : r.roundSetpoint a = .ok x) : r.Allows x := by
  constructor
  · rcases exists_roundSetpoint_or_lt ha.1 hx with ⟨low, hlow⟩ | hlt
    · exact (h.lower low hlow).trans (roundSetpoint_mono hround ha.1 hlow hx)
    · exact hlt.le
  · rcases exists_roundSetpoint_or_gt ha.2 hx with ⟨high, hhigh⟩ | hlt
    · exact (roundSetpoint_mono hround ha.2 hx hhigh).trans (h.upper high hhigh)
    · exact hlt.le

/-- It is the ends of a range that decide whether rounding brings set-points out of it. -/
theorem roundsInward_iff (hround : Monotone (Scalar.round : K → K)) (hrange : r.min ≤ r.max) :
    r.RoundsInward ↔ ∀ a x, r.Allows a → r.roundSetpoint a = .ok x → r.Allows x := by
  constructor
  · intro h a x ha hx
    exact h.allows hround ha hx
  · intro h
    constructor
    · intro x hx
      exact (h r.min x ⟨le_rfl, hrange⟩ hx).1
    · intro x hx
      exact (h r.max x ⟨hrange, le_rfl⟩ hx).2

theorem Reaches.allows (hround : Monotone (Scalar.round : K → K)) (h : r.Reaches x)
    (hinward : r.RoundsInward) : r.Allows x := by
  rcases h with hx | ⟨a, ha, hx⟩
  · exact hx
  · exact hinward.allows hround ha hx

end RangeAction

/-! ### The variables of set-points -/

namespace Movement

variable {m : Movement K} {r : RangeAction K} {p q : LinearProblem K} {u : PUnit}

/-- The variable of a set-point within the range of its range action. -/
def setpointVariable (r : RangeAction K) : Variable K :=
  ⟨.setpoint r.id, .finite r.min, .finite r.max, .continuous⟩

theorem declares_of_writeSetpoint (h : Succeeds (m.writeSetpoint r) p u q) :
    q.Declares (setpointVariable r) := by
  unfold writeSetpoint at h
  simp only [succeeds_bind_iff, succeeds_ofExcept_iff, Bound.ofScalar_eq] at h
  obtain ⟨_, _, ⟨-, rfl⟩, _, s, hsetpoint, _, t, hdistance, _, t', hnegative, _, t'', hpositive,
    hobjective⟩ := h
  have hgrows : s.Extends RowKey.IsAdapted q :=
    (extends_addVariable hdistance).trans <| (extends_addRow hnegative).trans <|
      (extends_addRow hpositive).trans (extends_setObjective hobjective)
  exact (declares_of_addVariable hsetpoint).1.of_extends hgrows

/-- Once set-points and flows are written, all set-points are within their ranges. -/
theorem declares_of_fill {point : Linearization K} (h : Succeeds (m.part.fill point) p u q) :
    ∀ r ∈ m.rangeActions, q.Declares (setpointVariable r) := by
  unfold part at h
  simp only [succeeds_bind_iff] at h
  obtain ⟨_, s, hsetpoints, _, t, hflows, hadapts⟩ := h
  have hall := hsetpoints.forM_each (P := fun _ => True)
    (Q := fun r p => p.Declares (setpointVariable r)) ?_ trivial
  · intro r hr
    have hst : s.Extends RowKey.IsAdapted t :=
      extends_forM hflows fun c _ s t _ ht => extends_writeFlow ht
    have htq : t.Extends RowKey.IsAdapted q :=
      extends_forM hadapts fun c _ s t _ ht => extends_adaptFlow trivial ht
    exact (hall.2.1 r hr).of_extends (hst.trans htq)
  · intro r _ p q _ hwrite
    have hgrows : p.Extends RowKey.IsAdapted q := extends_writeSetpoint hwrite
    exact ⟨trivial, declares_of_writeSetpoint hwrite, fun _ h => h.of_extends hgrows⟩

end Movement

/-- Once all parts are written, all set-points are within their ranges, and the names of the range
actions are different. -/
theorem Formulation.forces_ranges {f : Formulation K} {point : Linearization K}
    {p q : LinearProblem K} {u : PUnit} (h : Succeeds (f.parts.forM (·.fill point)) p u q) :
    (f.perimeter.rangeActions.map RangeAction.id).Nodup ∧ ∀ r ∈ f.perimeter.rangeActions,
      q.Forces RowKey.IsAdapted fun y => r.Allows (y (.setpoint r.id)) := by
  obtain ⟨s, hmovement, hgrows⟩ := exists_movement_of_fill h
  refine ⟨(Movement.measures_of_fill hmovement).2, fun r hr => ?_⟩
  have hdeclared := (Movement.declares_of_fill hmovement r hr).of_extends hgrows
  intro later hlater x hx
  exact ⟨hdeclared.forces_lower rfl later hlater x hx,
    hdeclared.forces_upper rfl later hlater x hx⟩

/-! ### The set-points of the rounds -/

/-- The set-points of some range actions are known, each within its range. -/
def WithinRanges (rangeActions : List (RangeAction K)) (setpoint : String → Except (Fault K) K) :
    Prop :=
  ∀ r ∈ rangeActions, ∃ x, setpoint r.id = .ok x ∧ r.Allows x

/-- The set-points of some range actions are known, and such as optimising may find. -/
def Activation.Reaches (a : Activation K) (rangeActions : List (RangeAction K)) : Prop :=
  ∀ r ∈ rangeActions, ∃ x, a.get r.id = .ok x ∧ r.Reaches x

theorem WithinRanges.reaches {a : Activation K} {rangeActions : List (RangeAction K)}
    (h : WithinRanges rangeActions a.get) : a.Reaches rangeActions := by
  intro r hr
  obtain ⟨x, hx, hallows⟩ := h r hr
  exact ⟨x, hx, .inl hallows⟩

namespace LinearProblem

variable {p : LinearProblem K} {values : List K} {initial : Setpoints K}
  {rangeActions : List (RangeAction K)}

/-- Rounding a solution within the ranges gives set-points such as optimising may find. -/
theorem reaches_of_roundedActivation (hsolution : p.solution = some values)
    (hnodup : (rangeActions.map RangeAction.id).Nodup)
    (hallows : ∀ r ∈ rangeActions,
      r.Allows (p.valueOf (fun v => values.getD v 0) (.setpoint r.id)))
    (hinitial : WithinRanges rangeActions initial.get) {a : Activation K}
    (h : p.roundedActivation initial rangeActions = .ok a) : a.Reaches rangeActions := by
  intro r hr
  rcases get_of_roundedActivation hnodup h r hr with hkept | ⟨found, x, hfound, hx, hrounded⟩
  · obtain ⟨x, hx, hallows⟩ := hinitial r hr
    exact ⟨x, hkept.trans hx, .inl hallows⟩
  · rw [hsolution, Option.some.injEq] at hfound
    subst hfound
    exact ⟨x, hx, .inr ⟨_, hallows r hr, hrounded⟩⟩

end LinearProblem

namespace Optimizer

variable {o : Optimizer K} {services : Services N K σ}

/-- The first problem has its set-points within the ranges, and so has every later one. So the
set-points that are read off a solution are such as optimising may find. -/
theorem chooses_reaches (hservices : services.SolvesModels)
    (hbaseline : WithinRanges o.rangeActions o.formulation.baseline.setpoints.get) :
    o.Chooses services
      (fun p => (o.rangeActions.map RangeAction.id).Nodup ∧ ∀ r ∈ o.rangeActions,
        p.Forces RowKey.IsAdapted fun y => r.Allows (y (.setpoint r.id)))
      fun a => a.Reaches o.rangeActions := by
  constructor
  · intro p hp
    exact Formulation.forces_ranges (succeeds_of_write hp)
  · intro activation p q hp hq
    refine ⟨hp.1, fun r hr => (hp.2 r hr).of_extends ?_⟩
    exact extends_forM (succeeds_of_write hq) fun part hpart s t _ ht =>
      (Formulation.extends_of_mem_parts hpart).adjust ht
  · intro reached p q hp hq
    refine ⟨hp.1, fun r hr => (hp.2 r hr).of_extends ?_⟩
    exact extends_forM (succeeds_of_write hq) fun part hpart s t _ ht =>
      (Formulation.extends_of_mem_parts hpart).refresh ht
  · intro p state hp
    obtain ⟨hcolumns, hrows⟩ := p.columns_rows_solve services state
    exact ⟨hp.1, fun r hr => (hp.2 r hr).of_extends (.of_eq hcolumns hrows)⟩
  · intro p state a hp hstatus hrounded
    obtain ⟨hcolumns, hrows⟩ := p.columns_rows_solve services state
    obtain ⟨values, hsolution, hkeeps⟩ := keeps_of_optimal hservices hstatus
    refine reaches_of_roundedActivation hsolution hp.1 (fun r hr => ?_) hbaseline hrounded
    exact hp.2 r hr _ (.of_eq hcolumns hrows) _ (hkeeps.of_eq hcolumns hrows)

/-- From set-points within the ranges, every set-point that is found is within its range or rounded
from one that is. It is within its range if rounding does not bring the ends of the range out of
it. -/
theorem setpoints_of_optimize (hround : Monotone (Scalar.round : K → K))
    (hservices : services.SolvesModels)
    (hbaseline : WithinRanges o.rangeActions o.formulation.baseline.setpoints.get)
    (hstart : WithinRanges o.rangeActions o.start.activation.get) [Network N K]
    {before after : Session N σ} {result : Optimized K}
    (h : Succeeds (o.optimize services) before result after) :
    ∀ r ∈ o.rangeActions, ∃ x, result.point.activation.get r.id = .ok x ∧
      r.Reaches x ∧ (r.RoundsInward → r.Allows x) := by
  have hreaches : result.point.activation.Reaches o.rangeActions := by
    refine (chooses_reaches hservices hbaseline).optimize_induction
      (Q := fun point _ => point.activation.Reaches o.rangeActions) ?_ hstart.reaches h
    intro _ reached _ hreached _
    exact hreached
  intro r hr
  obtain ⟨x, hx, hreached⟩ := hreaches r hr
  exact ⟨x, hx, hreached, hreached.allows hround⟩

end Optimizer

/-! ### A shift within a range -/

namespace OneShift

/-- The set-point of the injection before any action. -/
def setpoints : Setpoints ℚ := ⟨Table.ofPairs [("shift", 0)]⟩

/-- What optimises the set-point of the injection down to some least set-point. -/
def optimizer (low : ℚ) : Optimizer ℚ where
  formulation :=
    { parameters := (search 0 {}).parameters
      perimeter := .ofLists .preventive [TwoSwitches.line] [] [{ shift with min := low }]
      baseline := ⟨computer.flows (network 0), setpoints⟩ }
  objective := (search 0 {}).situation.objective
  start := ⟨computer.flows (network 0), computer.sensitivities (network 0), .ofReference setpoints⟩

/-- The set-point before any action is within the range. -/
theorem withinRanges_setpoints (low : ℚ) (h : low ≤ 0) :
    WithinRanges (optimizer low).rangeActions setpoints.get := by
  intro r hr
  obtain rfl : r = { shift with min := low } := List.mem_singleton.mp hr
  refine ⟨0, Setpoints.get_eq_ok_iff.mpr ?_, h, ?_⟩
  · exact Table.getElem?_ofPairs (by simp) List.mem_cons_self
  · show (0 : ℚ) ≤ 12
    norm_num

/-- A range that ends at an integer is not left. -/
theorem setpoint_at_integer_end : ∃ result after,
    Succeeds ((optimizer (-15)).optimize (proposing [-15, 15, 497, 303])) ⟨network 0, ()⟩ result
      after ∧ result.iterations = 2 ∧ shift.RoundsInward ∧
      ∃ x, result.point.activation.get "shift" = .ok x ∧ shift.Allows x := by
  have hrun : (((optimizer (-15)).optimize (proposing [-15, 15, 497, 303])).run
      ⟨network 0, ()⟩).1.toOption.any (fun result => result.iterations == 2) = true := by
    decide +kernel
  obtain ⟨result, after, hresult, hiterations⟩ := exists_succeeds_of_any hrun
  have hinward : shift.RoundsInward := by
    constructor
    · rintro x hx
      obtain rfl := Except.ok.inj hx
      decide +kernel
    · rintro x hx
      obtain rfl := Except.ok.inj hx
      decide +kernel
  have hwithin := withinRanges_setpoints (-15) (by norm_num)
  obtain ⟨x, hx, -, hallows⟩ := Optimizer.setpoints_of_optimize monotone_round (solvesModels _)
    hwithin (by rwa [← Activation.get_ofReference] at hwithin) hresult shift List.mem_cons_self
  exact ⟨result, after, hresult, beq_iff_eq.mp hiterations, hinward, x, hx, hallows hinward⟩

/-- A range that does not end at an integer is left by rounding. -/
theorem range_left_by_rounding :
    ¬ ∀ (o : Optimizer ℚ) (services : Services (LinearNetwork ℚ) ℚ Unit) before result after,
      services.SolvesModels → WithinRanges o.rangeActions o.formulation.baseline.setpoints.get →
        WithinRanges o.rangeActions o.start.activation.get →
          Succeeds (o.optimize services) before result after →
            WithinRanges o.rangeActions result.point.activation.get := by
  intro h
  have hrun : (((optimizer (-78 / 5)).optimize (proposing
      [-78 / 5, 78 / 5, 12422 / 25, 7578 / 25])).run ⟨network 0, ()⟩).1.toOption.any (fun result =>
        (result.point.activation.get "shift").toOption == some (-16)) = true := by
    decide +kernel
  obtain ⟨result, after, hresult, hmoved⟩ := exists_succeeds_of_any hrun
  have hwithin := withinRanges_setpoints (-78 / 5) (by norm_num)
  obtain ⟨x, hx, hallows⟩ := h (optimizer (-78 / 5)) _ _ _ _ (solvesModels _) hwithin
    (by rwa [← Activation.get_ofReference] at hwithin) hresult _ List.mem_cons_self
  rw [show result.point.activation.get "shift" = .ok x from hx, beq_iff_eq] at hmoved
  obtain rfl := Option.some.inj hmoved
  exact absurd hallows.1 (by decide +kernel)

end OneShift

end GridRelief
