import Mathlib.Data.Set.Finite.Lemmas
import GridRelief.Proofs.Formulation.Margins

/-!
# Smallest relative margins

For given flows with positive margins, the smallest margin is best at zero, and the smallest
relative margin at the least margin over its zonal sum. The rows keep zonal sums above a floor, so
that small ones do not count for too much, and the variable has a bound of its own. The relative
objective has neither. So both come to the same number where the floor and the bound do not matter.

* `Margin.succeeds_relativePart`: what both smallest margins say.
* `Margin.isGreatest_marginSums`: their largest sum for given flows.
* `Margin.best_sum_eq_iff`: when it is the opposite of the functional cost.
-/

namespace GridRelief

open LinearProblem Writing

variable {K : Type} [ExactScalar K]

namespace Margin

variable {cnecs : List (Cnec K)} {p q : LinearProblem K} {u : PUnit} {unit : FlowUnit}
  {point : Linearization K} {initial : Flows K} {floor : K}

/-! ### What is written -/

/-- What both smallest margins add to a problem: one of them is zero at most and the other has a
bound, and the flow of every element keeps its multiples of both as distances. -/
theorem succeeds_relativePart
    (h : Succeeds ((relativePart cnecs initial unit floor).fill point) p u q) :
    p.Extends (fun _ => False) q ∧ q.HasVariable .minimumMargin ∧
      q.HasVariable .minimumRelativeMargin ∧ ∀ x, q.SatisfiesSince p x ↔
        (q.valueOf x .minimumMargin ≤ 0 ∧
          q.valueOf x .minimumRelativeMargin ≤ largestRelativeMargin cnecs unit floor) ∧
        (∀ c ∈ cnecs, c.KeepsDistance (q.valueOf x (.flow c.id))
          (1 / c.conversion unit * q.valueOf x .minimumMargin)) ∧
        ∀ c ∈ cnecs, c.KeepsDistance (q.valueOf x (.flow c.id))
          (zonalSum initial floor c / c.conversion unit *
            q.valueOf x .minimumRelativeMargin) := by
  have hfill := h
  unfold relativePart writeAbsoluteRows at hfill
  simp only [succeeds_bind_iff] at hfill
  obtain ⟨margin, a, hmargin, relative, b, hrelative, _, d, hrows, _, e, hrelativeRows, _, e',
    hobjective, hrelativeObjective⟩ := hfill
  have hab : a.Extends (fun _ => False) b := extends_addVariable hrelative
  obtain ⟨hdeclares, hnumber⟩ := declares_of_addVariable hmargin
  obtain ⟨hdeclaresRelative, hnumberRelative⟩ := declares_of_addVariable hrelative
  have hbd : b.Extends (fun _ => False) d := extends_writeRows hrows
  obtain ⟨rows, hd, hholds⟩ := succeeds_writeRows
    ((namesVariable_of_addVariable hmargin).of_extends hab) (by simp) hrows
  obtain ⟨relativeRows, he, hrelativeHolds⟩ := succeeds_writeRows
    ((namesVariable_of_addVariable hrelative).of_extends hbd) (by simp) hrelativeRows
  obtain ⟨-, hlast, ha⟩ := succeeds_addVariable hmargin
  obtain ⟨-, hlastRelative, hb⟩ := succeeds_addVariable hrelative
  rw [Writing.setObjective, succeeds_modify_iff] at hobjective hrelativeObjective
  have hdb : d.columns = b.columns := by rw [hd]
  have hqb : q.columns = b.columns := by
    rw [← hrelativeObjective, ← hobjective, he]
    exact hdb
  have hqp : q.rows = p.rows ++ (rows ++ relativeRows) := by
    rw [← hrelativeObjective, ← hobjective, he, hd, hb, ha]
    exact List.append_assoc _ _ _
  have hvalue : ∀ x, q.valueOf x .minimumMargin = x margin := by
    intro x
    rw [valueOf_congr hqb, valueOf_of_extends hdeclares.hasVariable hab, valueOf, hnumber]
  have hrelativeValue : ∀ x, q.valueOf x .minimumRelativeMargin = x relative := by
    intro x
    rw [valueOf_congr hqb, valueOf, hnumberRelative]
  refine ⟨relativePart_extends.fill h,
    (hasVariable_congr hqb).mpr (hdeclares.hasVariable.of_extends hab).1,
    (hasVariable_congr hqb).mpr hdeclaresRelative.hasVariable, fun x => ?_⟩
  rw [satisfiesSince_iff (hqb.trans (by rw [hb, ha, List.append_assoc])) hqp,
    List.forall_mem_append, hholds, hrelativeHolds, hvalue, hrelativeValue]
  simp [within, kindAllows, valueOf_congr hqb, valueOf_congr hdb, hlast, hlastRelative, ha]

/-- Both smallest margins can be added to a problem that has none. -/
theorem exists_succeeds_relativePart (hids : (cnecs.map Cnec.id).Nodup)
    (hfresh : p.variableId? .minimumMargin = none)
    (hfreshRelative : p.variableId? .minimumRelativeMargin = none)
    (hp : Awaits p cnecs .minimumMargin) (hpRelative : Awaits p cnecs .minimumRelativeMargin) :
    ∃ q, Succeeds ((relativePart cnecs initial unit floor).fill point) p ⟨⟩ q := by
  have hlargest : Bound.isInterval .negInf (.ofScalar (largestRelativeMargin cnecs unit floor)) =
      true := by simp
  obtain ⟨a, ha⟩ := exists_succeeds_addVariable .continuous hfresh (Bound.isInterval_below 0)
  have hother : a.variableId? .minimumRelativeMargin = none :=
    variableId?_eq_none_of_addVariable_ne ha hfreshRelative (by simp)
  obtain ⟨b, hb⟩ := exists_succeeds_addVariable .continuous hother hlargest
  obtain ⟨d, hd⟩ := exists_succeeds_writeRows hids
    (fun _ _ _ _ heq => by cases heq; exact ⟨rfl, rfl⟩) ((hp.addVariable ha).addVariable hb)
  have hbd : b.Extends (fun _ => False) d := extends_writeRows hd
  have hawaits : Awaits d cnecs .minimumRelativeMargin :=
    ((hpRelative.addVariable ha).addVariable hb).of_extends hbd fun id side hrow =>
      rowId?_eq_none_of_writeRows hd hrow (by simp)
  obtain ⟨e, he⟩ := exists_succeeds_writeRows hids
    (fun _ _ _ _ heq => by cases heq; exact ⟨rfl, rfl⟩) hawaits
  unfold relativePart writeAbsoluteRows
  simp only [succeeds_bind_iff]
  exact ⟨_, _, a, ha, _, b, hb, ⟨⟩, d, hd, ⟨⟩, e, he, ⟨⟩, _, succeeds_modify_iff.mpr rfl,
    succeeds_modify_iff.mpr rfl⟩

/-! ### The best sum -/

/-- The sums of both smallest margins that are allowed beyond an earlier problem, for the flows of
an assignment. -/
def marginSums (q p : LinearProblem K) (cnecs : List (Cnec K)) (x : VariableId → K) : Set K :=
  {s | ∃ y, (∀ c ∈ cnecs, p.valueOf y (.flow c.id) = p.valueOf x (.flow c.id)) ∧
    q.SatisfiesSince p y ∧ q.valueOf y .minimumMargin + q.valueOf y .minimumRelativeMargin = s}

variable {flow : Cnec K → K} {limit : K} {x : VariableId → K}

/-- Margins over the zonal sums that the rows use. -/
def flooredMargins (cnecs : List (Cnec K)) (initial : Flows K) (unit : FlowUnit) (floor : K)
    (flow : Cnec K → K) : Set K :=
  {m | ∃ c ∈ cnecs, c.margin (flow c) unit / zonalSum initial floor c = m}

theorem exists_isLeast_flooredMargins (hnonempty : cnecs ≠ []) (initial : Flows K)
    (unit : FlowUnit) (floor : K) (flow : Cnec K → K) :
    ∃ limit, IsLeast (flooredMargins cnecs initial unit floor flow) limit := by
  obtain ⟨c, hc, hleast⟩ := Set.exists_min_image {c | c ∈ cnecs}
    (fun c => c.margin (flow c) unit / zonalSum initial floor c) cnecs.finite_toSet
    (List.exists_mem_of_ne_nil cnecs hnonempty)
  refine ⟨_, ⟨c, hc, rfl⟩, ?_⟩
  rintro _ ⟨c', hc', rfl⟩
  exact hleast c' hc'

theorem zonalSum_pos (hfloor : 0 < floor) (c : Cnec K) : 0 < zonalSum initial floor c := by
  unfold zonalSum
  rw [ExactScalar.max_eq]
  exact lt_max_of_lt_right hfloor

/-- For flows with positive margins the best sum of both smallest margins is the least margin over
its zonal sum, up to the bound. -/
theorem isGreatest_marginSums (hroot : 0 < (Scalar.sqrtThree : K))
    (hvoltage : ∀ c ∈ cnecs, 0 < c.voltage) (hlimited : ∀ c ∈ cnecs, c.IsLimited)
    (hfloor : 0 < floor) (hflows : ∀ c ∈ cnecs, p.HasVariable (.flow c.id))
    (hfill : Succeeds ((relativePart cnecs initial unit floor).fill point) p u q)
    (hpositive : ∀ c ∈ cnecs, 0 < c.margin (p.valueOf x (.flow c.id)) unit)
    (hmargin : ∀ c ∈ cnecs, c.margin (p.valueOf x (.flow c.id)) unit < Scalar.largest)
    (hleast : IsLeast (flooredMargins cnecs initial unit floor fun c => p.valueOf x (.flow c.id))
      limit) :
    IsGreatest (marginSums q p cnecs x) (min (largestRelativeMargin cnecs unit floor) limit) := by
  obtain ⟨hgrows, hvariable, hrelative, hholds⟩ := succeeds_relativePart hfill
  have hconversion : ∀ c ∈ cnecs, 0 < c.conversion unit := fun c hc =>
    Cnec.conversion_pos hroot (hvoltage c hc) unit
  -- what the part says of any assignment with these flows
  have hallowed : ∀ y, (∀ c ∈ cnecs, p.valueOf y (.flow c.id) = p.valueOf x (.flow c.id)) →
      (q.SatisfiesSince p y ↔
        (q.valueOf y .minimumMargin ≤ 0 ∧
          q.valueOf y .minimumRelativeMargin ≤ largestRelativeMargin cnecs unit floor) ∧
        (∀ c ∈ cnecs, q.valueOf y .minimumMargin ≤ c.margin (p.valueOf x (.flow c.id)) unit) ∧
        ∀ c ∈ cnecs, q.valueOf y .minimumRelativeMargin ≤
          c.margin (p.valueOf x (.flow c.id)) unit / zonalSum initial floor c) := by
    intro y hy
    have hflow : ∀ c ∈ cnecs, q.valueOf y (.flow c.id) = p.valueOf x (.flow c.id) := fun c hc =>
      (valueOf_of_extends (hflows c hc) hgrows y).trans (hy c hc)
    rw [hholds]
    refine and_congr_right' (and_congr (forall₂_congr fun c hc => ?_)
      (forall₂_congr fun c hc => ?_))
    · rw [hflow c hc, Cnec.keepsDistance_div_iff (hlimited c hc) (hconversion c hc) (hmargin c hc),
        one_mul]
    · rw [hflow c hc, Cnec.keepsDistance_div_iff (hlimited c hc) (hconversion c hc) (hmargin c hc),
        le_div_iff₀' (zonalSum_pos hfloor c)]
  constructor
  · -- the smallest margin at zero, and the smallest relative margin as large as it may be
    let bestRelative := min (largestRelativeMargin cnecs unit floor) limit
    let y := Function.update (Function.update x (q.number .minimumMargin) 0)
      (q.number .minimumRelativeMargin) bestRelative
    have hmarginValue : q.valueOf y .minimumMargin = 0 := by
      rw [valueOf_update_of_ne hrelative hvariable (by simp)]
      exact Function.update_self _ _ _
    have hrelativeValue : q.valueOf y .minimumRelativeMargin = bestRelative :=
      Function.update_self _ _ _
    have hy : ∀ c ∈ cnecs, p.valueOf y (.flow c.id) = p.valueOf x (.flow c.id) := by
      intro c hc
      have hqc := ((hflows c hc).of_extends hgrows).1
      rw [← valueOf_of_extends (hflows c hc) hgrows, valueOf_update_of_ne hrelative hqc (by simp),
        valueOf_update_of_ne hvariable hqc (by simp), valueOf_of_extends (hflows c hc) hgrows]
    refine ⟨y, hy, (hallowed y hy).mpr ?_, by rw [hmarginValue, hrelativeValue, zero_add]⟩
    rw [hmarginValue, hrelativeValue]
    refine ⟨⟨le_rfl, min_le_left _ _⟩, fun c hc => (hpositive c hc).le, fun c hc => ?_⟩
    exact (min_le_right _ _).trans (hleast.2 ⟨c, hc, rfl⟩)
  · rintro s ⟨y, hy, hkeeps, rfl⟩
    obtain ⟨⟨hzero, hlargest⟩, -, hrows⟩ := (hallowed y hy).mp hkeeps
    obtain ⟨c, hc, hlimit⟩ := hleast.1
    have hrow := hrows c hc
    rw [hlimit] at hrow
    have hbest := le_min hlargest hrow
    linarith only [hzero, hbest]

/-! ### The functional cost -/

variable {o : MarginObjective K} {flows : Flows K}

theorem margin?_eq_of_relative (hrelative : o.relative = true) {c : Cnec K} {flow : K}
    (hflow : flows.megawatts c.id = .ok flow) (hpositive : 0 < c.margin flow o.unit) :
    o.margin? flows c =
      if c.margin flow o.unit / flows.zonalSum c.id < Scalar.largest then
        some (c.margin flow o.unit / flows.zonalSum c.id) else none := by
  unfold MarginObjective.margin? Flows.relativeMargin Flows.margin
  rw [hrelative, hflow]
  simp only [bind, Except.bind, pure, Except.pure, if_true, if_pos hpositive]

/-- With positive margins the functional cost is the opposite of the least relative margin, unless
all of them are at least the largest number. -/
theorem isLeast_relativeMargin (hrelative : o.relative = true)
    (hflows : ∀ c ∈ o.optimized, flows.megawatts c.id = .ok (flow c))
    (hpositive : ∀ c ∈ o.optimized, 0 < c.margin (flow c) o.unit)
    (hsome : ∃ c ∈ o.optimized, c.margin (flow c) o.unit / flows.zonalSum c.id < Scalar.largest)
    (activation : Activation K) (sensitivities : Sensitivities K) (status : ComputationStatus) :
    IsLeast {m | ∃ c ∈ o.optimized, c.margin (flow c) o.unit / flows.zonalSum c.id = m}
      (-(o.evaluate flows activation sensitivities status).functional) := by
  have hcounted : o.countedMargins flows =
      {m | ∃ c ∈ o.optimized, c.margin (flow c) o.unit / flows.zonalSum c.id = m} ∩
        Set.Iio Scalar.largest := by
    ext m
    constructor
    · rintro ⟨c, hc, hm⟩
      rw [margin?_eq_of_relative hrelative (hflows c hc) (hpositive c hc)] at hm
      split at hm
      · next hbelow =>
        obtain rfl := Option.some.inj hm
        exact ⟨⟨c, hc, rfl⟩, hbelow⟩
      · cases hm
    · rintro ⟨⟨c, hc, rfl⟩, hbelow⟩
      exact ⟨c, hc, by
        rw [margin?_eq_of_relative hrelative (hflows c hc) (hpositive c hc),
          if_pos (Set.mem_Iio.mp hbelow)]⟩
  obtain ⟨c, hc, hbelow⟩ := hsome
  have hleast := MarginObjective.isLeast_functional
    ⟨_, hcounted.symm.subset ⟨⟨c, hc, rfl⟩, hbelow⟩⟩ activation sensitivities status
  rw [hcounted] at hleast
  refine ⟨hleast.1.1, fun m hm => ?_⟩
  rcases lt_or_ge m Scalar.largest with hm' | hm'
  · exact hleast.2 ⟨hm, hm'⟩
  · exact (hleast.1.2.trans_le hm').le

/-- The smaller of a bound and a limit is a number above the limit at most where neither the bound
nor the limit is below it. -/
theorem min_eq_iff_of_le {bound limit worst : K} (h : limit ≤ worst) :
    min bound limit = worst ↔ worst ≤ bound ∧ worst ≤ limit := by
  rw [← le_min_iff]
  exact ⟨fun heq => heq.ge, fun hle => le_antisymm ((min_le_right _ _).trans h) hle⟩

theorem zonalSum_nonneg (flows : Flows K) (id : String) : 0 ≤ flows.zonalSum id := by
  unfold Flows.zonalSum
  cases flows.zonalSums[id]? with
  | none => simp
  | some sum => simp [ExactScalar.abs_eq]

/-- For flows with positive margins, the best sum of both smallest margins is the least margin over
its zonal sum, which is kept above the floor, up to the bound of the variable. It is the opposite of
the functional cost of relative margins if and only if the bound is not below this, and neither is
the margin over the floor of an element whose zonal sum is below the floor. -/
theorem best_sum_eq_iff (o : MarginObjective K) (hrelative : o.relative = true) (initial : Flows K)
    {floor : K} (hfloor : 0 < floor) (hnonempty : o.optimized ≠ [])
    (hids : (o.optimized.map Cnec.id).Nodup) (hroot : 0 < (Scalar.sqrtThree : K))
    (hvoltage : ∀ c ∈ o.optimized, 0 < c.voltage) (hlimited : ∀ c ∈ o.optimized, c.IsLimited)
    (hfresh : p.variableId? .minimumMargin = none)
    (hfreshRelative : p.variableId? .minimumRelativeMargin = none)
    (hp : Awaits p o.optimized .minimumMargin)
    (hpRelative : Awaits p o.optimized .minimumRelativeMargin) (point : Linearization K) :
    ∃ q, Succeeds ((relativePart o.optimized initial o.unit floor).fill point) p ⟨⟩ q ∧
      ∀ (x : VariableId → K) (flows : Flows K),
        (∀ c ∈ o.optimized, flows.megawatts c.id = .ok (p.valueOf x (.flow c.id))) →
        (∀ c ∈ o.optimized, flows.zonalSum c.id = initial.zonalSum c.id ∧
          initial.zonalSum c.id ≠ 0) →
        (∀ c ∈ o.optimized, 0 < c.margin (p.valueOf x (.flow c.id)) o.unit ∧
          c.margin (p.valueOf x (.flow c.id)) o.unit < Scalar.largest) →
        (∃ c ∈ o.optimized, c.margin (p.valueOf x (.flow c.id)) o.unit / flows.zonalSum c.id <
          Scalar.largest) →
        ∀ activation sensitivities status,
          let bound := largestRelativeMargin o.optimized o.unit floor
          let worst := -(o.evaluate flows activation sensitivities status).functional
          ∃ limit, IsLeast (flooredMargins o.optimized initial o.unit floor fun c =>
              p.valueOf x (.flow c.id)) limit ∧
            IsGreatest (marginSums q p o.optimized x) (min bound limit) ∧
            (min bound limit = worst ↔ worst ≤ bound ∧ ∀ c ∈ o.optimized,
              initial.zonalSum c.id < floor →
                worst ≤ c.margin (p.valueOf x (.flow c.id)) o.unit / floor) := by
  obtain ⟨q, hq⟩ : ∃ q,
      Succeeds ((relativePart o.optimized initial o.unit floor).fill point) p ⟨⟩ q :=
    exists_succeeds_relativePart hids hfresh hfreshRelative hp hpRelative
  refine ⟨q, hq, fun x flows hflows hsums hmargin hsome activation sensitivities status => ?_⟩
  intro bound worst
  have hpositive := fun c hc => (hmargin c hc).1
  have hworst : IsLeast {m | ∃ c ∈ o.optimized,
      c.margin (p.valueOf x (.flow c.id)) o.unit / flows.zonalSum c.id = m} worst :=
    isLeast_relativeMargin hrelative hflows hpositive hsome activation sensitivities status
  obtain ⟨limit, hlimit⟩ := exists_isLeast_flooredMargins hnonempty initial o.unit floor
    fun c => p.valueOf x (.flow c.id)
  refine ⟨limit, hlimit, isGreatest_marginSums hroot hvoltage hlimited hfloor hp.flows hq hpositive
    (fun c hc => (hmargin c hc).2) hlimit, ?_⟩
  have hbelow : limit ≤ worst := by
    obtain ⟨c, hc, heq⟩ := hworst.1
    rw [← heq, (hsums c hc).1]
    refine (hlimit.2 ⟨c, hc, rfl⟩).trans ?_
    refine div_le_div_of_nonneg_left (hpositive c hc).le ?_ ?_
    · exact (zonalSum_nonneg initial c.id).lt_of_ne' (hsums c hc).2
    · rw [zonalSum, ExactScalar.max_eq]
      exact le_max_left _ _
  rw [min_eq_iff_of_le hbelow, le_isGLB_iff hlimit.isGLB]
  refine and_congr_right' ⟨fun h c hc hsmall => ?_, ?_⟩
  · have hfloored := h ⟨c, hc, rfl⟩
    rwa [zonalSum, ExactScalar.max_eq, max_eq_right hsmall.le] at hfloored
  · rintro h _ ⟨c, hc, rfl⟩
    rw [zonalSum, ExactScalar.max_eq]
    rcases lt_or_ge (initial.zonalSum c.id) floor with hsmall | hlarge
    · rw [max_eq_right hsmall.le]
      exact h c hc hsmall
    · rw [max_eq_left hlarge, ← (hsums c hc).1]
      exact hworst.2 ⟨c, hc, rfl⟩

end Margin

/-! With zonal sums of a half and a fifth the best sum is the opposite of the functional cost. With
one of a two-hundredth, which is half of the floor, it is half as large. -/

namespace MixedVoltages

/-- The relative margins of some of the elements with a threshold. -/
def relativeObjective (count : Nat) (unit : FlowUnit) : MarginObjective ℚ :=
  { objective with optimized := objective.optimized.take count, unit, relative := true }

/-- The flows with zonal sums. -/
def loaded (both above : ℚ) : Flows ℚ :=
  { flows with zonalSums := Table.ofPairs [("both", both), ("above", above)] }

theorem megawatts_loaded (both above : ℚ) : ∀ c ∈ objective.optimized,
    (loaded both above).megawatts c.id = .ok (flowsOnly.valueOf values (.flow c.id)) := by
  have hflows : ∀ c ∈ objective.optimized,
      flows.flows[c.id]? = some (flowsOnly.valueOf values (.flow c.id)) := by decide +kernel
  exact fun c hc => Flows.megawatts_eq (hflows c hc)

theorem best_sum_of_large_sums :
    let o := relativeObjective 2 .ampere
    ∃ q, Succeeds ((Margin.relativePart o.optimized (loaded (1 / 2) (1 / 5)) o.unit (1 / 100)).fill
        ⟨loaded (1 / 2) (1 / 5), {}, ⟨{}, {}⟩⟩) flowsOnly ⟨⟩ q ∧
      IsGreatest (Margin.marginSums q flowsOnly o.optimized values) (375000 / 433) ∧
      -(o.evaluate (loaded (1 / 2) (1 / 5)) ⟨{}, {}⟩ {} .success).functional = 375000 / 433 := by
  intro o
  have hflows : ∀ c ∈ o.optimized, (loaded (1 / 2) (1 / 5)).megawatts c.id =
      .ok (flowsOnly.valueOf values (.flow c.id)) :=
    fun c hc => megawatts_loaded _ _ c (List.mem_of_mem_take hc)
  have hsome : ∃ c ∈ o.optimized, c.margin (flowsOnly.valueOf values (.flow c.id)) o.unit /
      (loaded (1 / 2) (1 / 5)).zonalSum c.id < Scalar.largest := by decide +kernel
  obtain ⟨q, hq, hbest⟩ := Margin.best_sum_eq_iff (p := flowsOnly) o rfl (loaded (1 / 2) (1 / 5))
    (by decide +kernel : (0 : ℚ) < 1 / 100) (by decide) (by decide) (by decide +kernel)
    (by decide +kernel) (by decide) (by decide) (by decide) ⟨by decide, fun _ _ _ => rfl⟩
    ⟨by decide, fun _ _ _ => rfl⟩ ⟨loaded (1 / 2) (1 / 5), {}, ⟨{}, {}⟩⟩
  obtain ⟨limit, -, hgreatest, hiff⟩ := hbest values _ hflows (by decide +kernel)
    (by decide +kernel) hsome ⟨{}, {}⟩ {} .success
  have hworst := Margin.isLeast_relativeMargin rfl hflows (by decide +kernel) hsome ⟨{}, {}⟩ {}
    .success
  have hvalue := hworst.unique (b := 375000 / 433)
    ⟨⟨_, List.mem_cons_self, by decide +kernel⟩, by
      rintro m ⟨c, hc, rfl⟩
      revert c
      decide +kernel⟩
  rw [hiff.mpr ⟨hvalue.trans_le (by decide +kernel), by decide +kernel⟩] at hgreatest
  exact ⟨q, hq, hvalue ▸ hgreatest, hvalue⟩

/-- Where a zonal sum is below the floor, the best sum is not the opposite of the functional cost.
-/
theorem best_sum_of_small_sum :
    let o := relativeObjective 1 .megawatt
    ∃ q, Succeeds ((Margin.relativePart o.optimized (loaded (1 / 200) 1) o.unit (1 / 100)).fill
        ⟨loaded (1 / 200) 1, {}, ⟨{}, {}⟩⟩) flowsOnly ⟨⟩ q ∧
      IsGreatest (Margin.marginSums q flowsOnly o.optimized values) 30000 ∧
      -(o.evaluate (loaded (1 / 200) 1) ⟨{}, {}⟩ {} .success).functional = 60000 := by
  intro o
  obtain ⟨q, hq⟩ : ∃ q, Succeeds ((Margin.relativePart o.optimized (loaded (1 / 200) 1) o.unit
      (1 / 100)).fill ⟨loaded (1 / 200) 1, {}, ⟨{}, {}⟩⟩) flowsOnly ⟨⟩ q :=
    Margin.exists_succeeds_relativePart (by decide) (by decide) (by decide)
      ⟨by decide, fun _ _ _ => rfl⟩ ⟨by decide, fun _ _ _ => rfl⟩
  have hleast : IsLeast (Margin.flooredMargins o.optimized (loaded (1 / 200) 1) o.unit (1 / 100)
      fun c => flowsOnly.valueOf values (.flow c.id)) 30000 := by
    refine ⟨⟨_, List.mem_cons_self, by decide +kernel⟩, ?_⟩
    rintro m ⟨c, hc, rfl⟩
    revert c
    decide +kernel
  have hgreatest := Margin.isGreatest_marginSums (by decide +kernel) (by decide +kernel) (by decide)
    (by decide +kernel) (by decide) hq (by decide +kernel) (by decide +kernel) hleast
  refine ⟨q, hq, ?_, ?_⟩
  · have hbest : min (Margin.largestRelativeMargin o.optimized o.unit (1 / 100)) 30000 = 30000 := by
      decide +kernel
    rwa [hbest] at hgreatest
  · have hworst := Margin.isLeast_relativeMargin (o := o) rfl
      (fun c hc => megawatts_loaded (1 / 200) 1 c (List.mem_of_mem_take hc)) (by decide +kernel)
      (by decide +kernel) ⟨{}, {}⟩ {} .success
    refine hworst.unique ⟨⟨_, List.mem_cons_self, by decide +kernel⟩, ?_⟩
    rintro m ⟨c, hc, rfl⟩
    revert c
    decide +kernel

end MixedVoltages

end GridRelief
