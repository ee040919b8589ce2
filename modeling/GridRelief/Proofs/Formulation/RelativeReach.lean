import Mathlib.Data.Set.Finite.Lemmas
import GridRelief.Proofs.Formulation.MarginRows
import GridRelief.Proofs.Formulation.RelativeMargins

/-!
# Relative margins of elements that do not count

While the variable of an element is zero, its rows are relaxed by twice the largest threshold. That
is enough for absolute margins. The smallest relative margin is multiplied by the zonal sum of the
element, and it may be as large as the zonal sums of other elements are small. So the rows of the
element are redundant if and only if its zonal sum is small enough beside those of the elements that
count always.

* `Cnec.bestFlow`, `Cnec.worstFlow`: where the margin of an element is largest and smallest.
* `Conditional.reaches`: the limits of the smallest relative margin over all flows.
* `Conditional.relativeRows_hold_iff`: what the rows of the smallest relative margin say.
* `Conditional.redundant_iff`: when the rows of an element that does not count are redundant.
-/

namespace GridRelief

open LinearProblem Writing

variable {K : Type} [ExactScalar K]

/-! ### Best and worst flows -/

namespace Cnec

variable {c : Cnec K} {flow reach : K}

/-- The flow in the middle between both thresholds. -/
def bestFlow (c : Cnec K) : K := (c.lower.getD 0 + c.upper.getD 0) / 2

/-- The margin of the flow in the middle. -/
def bestMargin (c : Cnec K) : K := (c.upper.getD 0 - c.lower.getD 0) / 2

/-- The flow of an amount towards the threshold that is nearer to zero. -/
def worstFlow (c : Cnec K) (reach : K) : K :=
  if -c.lower.getD 0 ≤ c.upper.getD 0 then -reach else reach

theorem SpansZero.margin_bestFlow (h : c.SpansZero) :
    c.margin c.bestFlow .megawatt = c.bestMargin := by
  have hlower : c.bestFlow - c.lower.getD 0 = c.bestMargin := by
    unfold bestFlow bestMargin
    ring
  have hupper : c.upper.getD 0 - c.bestFlow = c.bestMargin := by
    unfold bestFlow bestMargin
    ring
  rw [h.margin_eq, hlower, hupper, min_self]

theorem SpansZero.margin_le_bestMargin (h : c.SpansZero) :
    c.margin flow .megawatt ≤ c.bestMargin := by
  rw [h.margin_eq]
  unfold bestMargin
  rcases min_choice (flow - c.lower.getD 0) (c.upper.getD 0 - flow) with hmin | hmin
  · rw [hmin]
    have hle := min_eq_left_iff.mp hmin
    linarith only [hle]
  · rw [hmin]
    have hle := min_eq_right_iff.mp hmin
    linarith only [hle]

theorem SpansZero.abs_bestFlow_le (h : c.SpansZero) : |c.bestFlow| ≤ c.largestThreshold := by
  have hlower := h.lower_nonpos
  have hupper := h.upper_nonneg
  have hleft := le_max_left (-c.lower.getD 0) (c.upper.getD 0)
  have hright := le_max_right (-c.lower.getD 0) (c.upper.getD 0)
  rw [h.largestThreshold_eq, abs_le]
  unfold bestFlow
  constructor <;> linarith only [hlower, hupper, hleft, hright]

theorem abs_worstFlow (hreach : 0 ≤ reach) : |c.worstFlow reach| ≤ reach := by
  unfold worstFlow
  split
  · rw [abs_neg, abs_of_nonneg hreach]
  · rw [abs_of_nonneg hreach]

theorem SpansZero.margin_worstFlow (h : c.SpansZero) (hreach : 0 ≤ reach) :
    c.margin (c.worstFlow reach) .megawatt = c.margin 0 .megawatt - reach := by
  rw [h.margin_eq, h.margin_eq]
  unfold worstFlow
  split
  · next hnear =>
    rw [min_eq_left (by linarith only [hnear, hreach]), min_eq_left (by linarith only [hnear])]
    ring
  · next hfar =>
    rw [min_eq_right (by linarith only [hfar, hreach]), min_eq_right (by linarith only [hfar])]
    ring

theorem SpansZero.margin_worstFlow_le (h : c.SpansZero) (hflow : |flow| ≤ reach) :
    c.margin 0 .megawatt - reach ≤ c.margin flow .megawatt := by
  obtain ⟨hleast, hgreatest⟩ := abs_le.mp hflow
  rw [h.margin_eq, h.margin_eq, le_min_iff]
  have hlower := min_le_left (0 - c.lower.getD 0) (c.upper.getD 0 - 0)
  have hupper := min_le_right (0 - c.lower.getD 0) (c.upper.getD 0 - 0)
  constructor <;> linarith only [hleast, hgreatest, hlower, hupper]

end Cnec

namespace Conditional

variable {cnecs : List (Cnec K)} {rangeActions : List (RangeAction K)}
  {parameters : UnoptimizedParameters K} {initial : Flows K} {floor reach : K} {c : Cnec K}
  {p q : LinearProblem K} {u : PUnit} {point : Linearization K}

/-! ### Rows -/

/-- What both smallest margins and the elements that count under a condition leave: the variable of
the smallest relative margin with its bound, and for every element the rows that keep its multiple
at most the margin, relaxed for an element that does not count. -/
theorem relativeRows_hold_iff (hids : (cnecs.map Cnec.id).Nodup)
    (hspans : ∀ c ∈ cnecs, c.SpansZero) (hrelaxation : parameters.relaxation = .default)
    (hrows : ∀ c ∈ cnecs, ∀ side, p.rowId? (.minimumRelativeMargin c.id side) = none)
    (hconditions : ∀ entry ∈ (ofParameters cnecs rangeActions initial parameters).cnecs, ∀ side,
      p.rowId? (.dontOptimizeCnec entry.1.id side) = none)
    (h : Succeeds ([Margin.relativePart cnecs initial .megawatt floor,
      (ofParameters cnecs rangeActions initial parameters).part].forM (·.fill point)) p u q) :
    p.Extends (fun _ => True) q ∧ q.HasVariable .minimumRelativeMargin ∧
      (∀ entry ∈ (ofParameters cnecs rangeActions initial parameters).cnecs,
        q.HasVariable (.optimizeCnec entry.1.id)) ∧
      ∀ x, (q.VariableHolds x .minimumRelativeMargin ↔ q.valueOf x .minimumRelativeMargin ≤
          Margin.largestRelativeMargin cnecs .megawatt floor) ∧
        ∀ c ∈ cnecs,
          let now := c.margin (q.valueOf x (.flow c.id)) .megawatt
          let kept := Margin.zonalSum initial floor c * q.valueOf x .minimumRelativeMargin
          (condition? rangeActions parameters c = none →
            ((∀ side, q.RowHolds x (.minimumRelativeMargin c.id side)) ↔ kept ≤ now)) ∧
          ∀ condition, condition? rangeActions parameters c = some condition →
            ((∀ side, q.RowHolds x (.minimumRelativeMargin c.id side)) ↔
              kept - 2 * largestThreshold cnecs *
                (1 - q.valueOf x (.optimizeCnec c.id)) ≤ now) := by
  obtain ⟨r, hmargin, hfill⟩ := succeeds_forM_pair_iff.mp h
  obtain ⟨hpr, hr, hshows⟩ := Margin.shows_relativePart hids hrows hmargin
  have hnew : ∀ entry ∈ (ofParameters cnecs rangeActions initial parameters).cnecs, ∀ side,
      r.rowId? (.dontOptimizeCnec entry.1.id side) = none := fun entry hentry side =>
    hpr.rowId?_eq_none (by simp) (hconditions entry hentry side)
  obtain ⟨hrq, hq, -, -⟩ := succeeds_fill (nodup_ofParameters hids) hnew hfill
  have hpq : p.Continues (fun _ => True) q := (hpr.mono fun _ _ => trivial).trans
    (hrq.mono fun _ _ => trivial)
  rw [hr, List.append_assoc] at hq
  have hvariable := List.mem_append_left
    ((ofParameters cnecs rangeActions initial parameters).cnecs.map countsVariable)
    (List.mem_cons_of_mem ⟨.minimumMargin, .negInf, .finite 0, .continuous⟩
      (List.mem_singleton_self ⟨.minimumRelativeMargin, .negInf,
        .ofScalar (Margin.largestRelativeMargin cnecs .megawatt floor), .continuous⟩))
  refine ⟨hpq.grows, hpq.hasVariable hq hvariable, fun entry hentry => ?_, fun x => ⟨?_, ?_⟩⟩
  · exact hpq.hasVariable hq (List.mem_append_right _ (List.mem_map_of_mem hentry))
  · rw [hpq.variableHolds_iff hq hvariable, Bound.ofScalar_eq]
    simp [within]
  · intro c hc now kept
    have hname : ∀ id side, RowKey.minimumRelativeMargin id side ∈ marginKeys id := by
      rintro id (_ | _) <;> simp [marginKeys]
    obtain ⟨hplain, hsoft⟩ := marginRows_hold_iff hids hname (by simp) hshows hnew hfill hc x
    rw [(slacks_of_default cnecs rangeActions initial hrelaxation).2] at hsoft
    simp only [show c.conversion .megawatt = 1 from rfl, div_one, (hspans c hc).keepsDistance_iff]
      at hplain hsoft
    exact ⟨hplain, hsoft⟩

/-- Both smallest margins and the elements that count under a condition can be added to a problem
that has none. -/
theorem exists_succeeds_of_relative (point : Linearization K) (hids : (cnecs.map Cnec.id).Nodup)
    (hfresh : p.variableId? .minimumMargin = none)
    (hfreshRelative : p.variableId? .minimumRelativeMargin = none)
    (hp : Margin.Awaits p cnecs .minimumMargin)
    (hpRelative : Margin.Awaits p cnecs .minimumRelativeMargin)
    (hconditions : (ofParameters cnecs rangeActions initial parameters).Awaits
      (ofParameters cnecs rangeActions initial parameters).cnecs p) :
    ∃ q, Succeeds ([Margin.relativePart cnecs initial .megawatt floor,
      (ofParameters cnecs rangeActions initial parameters).part].forM (·.fill point)) p ⟨⟩ q := by
  obtain ⟨r, hr⟩ : ∃ r, Succeeds ((Margin.relativePart cnecs initial .megawatt floor).fill point)
      p ⟨⟩ r := Margin.exists_succeeds_relativePart hids hfresh hfreshRelative hp hpRelative
  obtain ⟨hpr, hcolumns, -⟩ := Margin.shows_relativePart hids hpRelative.rows hr
  obtain ⟨q, hq⟩ := exists_succeeds_fill point (nodup_ofParameters hids)
    (hconditions.of_continues hpr hcolumns (by simp) (by simp))
  exact ⟨q, succeeds_forM_pair_iff.mpr ⟨r, hr, hq⟩⟩

/-! ### Redundant rows -/

/-- The rows of the smallest relative margin of an element are redundant while its variable is zero:
for flows up to the largest threshold they hold where the bound of the smallest relative margin and
the rows of the elements that count always do. -/
def Redundant (q : LinearProblem K) (cnecs : List (Cnec K)) (rangeActions : List (RangeAction K))
    (parameters : UnoptimizedParameters K) (c : Cnec K) : Prop :=
  ∀ x, (∀ c' ∈ cnecs, |q.valueOf x (.flow c'.id)| ≤ largestThreshold cnecs) →
    q.valueOf x (.optimizeCnec c.id) = 0 → q.VariableHolds x .minimumRelativeMargin →
    (∀ c' ∈ cnecs, condition? rangeActions parameters c' = none →
      ∀ side, q.RowHolds x (.minimumRelativeMargin c'.id side)) →
    ∀ side, q.RowHolds x (.minimumRelativeMargin c.id side)

/-- The limits of the smallest relative margin over all flows: its bound, and for every element that
counts always the best margin over the zonal sum. -/
def reaches (cnecs : List (Cnec K)) (rangeActions : List (RangeAction K))
    (parameters : UnoptimizedParameters K) (initial : Flows K) (floor : K) : Set K :=
  insert (Margin.largestRelativeMargin cnecs .megawatt floor)
    {limit | ∃ c ∈ cnecs, condition? rangeActions parameters c = none ∧
      c.bestMargin / Margin.zonalSum initial floor c = limit}

theorem exists_isLeast_reaches (cnecs : List (Cnec K)) (rangeActions : List (RangeAction K))
    (parameters : UnoptimizedParameters K) (initial : Flows K) (floor : K) :
    ∃ reach, IsLeast (reaches cnecs rangeActions parameters initial floor) reach := by
  have hfinite : {limit | ∃ c ∈ cnecs, condition? rangeActions parameters c = none ∧
      c.bestMargin / Margin.zonalSum initial floor c = limit}.Finite := by
    refine (cnecs.finite_toSet.image fun c =>
      c.bestMargin / Margin.zonalSum initial floor c).subset ?_
    rintro _ ⟨c, hc, -, rfl⟩
    exact ⟨c, hc, rfl⟩
  obtain ⟨reach, hreach, hleast⟩ := Set.exists_min_image _ id
    (hfinite.insert (Margin.largestRelativeMargin cnecs .megawatt floor)) (Set.insert_nonempty _ _)
  exact ⟨reach, hreach, hleast⟩

/-- The product is small enough if the zonal sum of an element that counts always is not smaller. -/
theorem mul_reach_le_of_larger_sum (hspans : ∀ c ∈ cnecs, c.SpansZero) (hfloor : 0 < floor)
    (hreach : IsLeast (reaches cnecs rangeActions parameters initial floor) reach) (hc : c ∈ cnecs)
    {other : Cnec K} (hother : other ∈ cnecs)
    (hnone : condition? rangeActions parameters other = none)
    (hle : Margin.zonalSum initial floor c ≤ Margin.zonalSum initial floor other) :
    Margin.zonalSum initial floor c * reach ≤ largestThreshold cnecs + c.margin 0 .megawatt := by
  have hsum : ∀ c : Cnec K, 0 < Margin.zonalSum initial floor c := Margin.zonalSum_pos hfloor
  have hbest : 0 ≤ other.bestMargin ∧ other.bestMargin ≤ largestThreshold cnecs := by
    have hspan := hspans other hother
    constructor
    · have hlower := hspan.lower_nonpos
      have hupper := hspan.upper_nonneg
      unfold Cnec.bestMargin
      linarith only [hlower, hupper]
    · rw [← hspan.margin_bestFlow]
      exact hspan.margin_le.trans (Cnec.largestThreshold_le_of_mem hother)
  have hzero : -0 ≤ c.margin 0 .megawatt := (hspans c hc).neg_le_margin abs_zero.le
  calc Margin.zonalSum initial floor c * reach
      ≤ Margin.zonalSum initial floor c *
          (other.bestMargin / Margin.zonalSum initial floor other) :=
        mul_le_mul_of_nonneg_left
          (hreach.2 (Set.mem_insert_of_mem _ ⟨other, hother, hnone, rfl⟩)) (hsum c).le
    _ = other.bestMargin *
          (Margin.zonalSum initial floor c / Margin.zonalSum initial floor other) := by ring
    _ ≤ other.bestMargin := mul_le_of_le_one_right hbest.1 ((div_le_one (hsum other)).mpr hle)
    _ ≤ largestThreshold cnecs + c.margin 0 .megawatt := by linarith only [hbest.2, hzero]

/-- The rows of an element that does not count are redundant if and only if the least limit of the
smallest relative margin, times the zonal sum, is at most what the rows leave at the worst flow. -/
theorem redundant_iff_of_reach (hids : (cnecs.map Cnec.id).Nodup)
    (hspans : ∀ c ∈ cnecs, c.SpansZero) (hrelaxation : parameters.relaxation = .default)
    (hfloor : 0 < floor) (hp : Margin.Awaits p cnecs .minimumRelativeMargin)
    (hconditions : ∀ entry ∈ (ofParameters cnecs rangeActions initial parameters).cnecs, ∀ side,
      p.rowId? (.dontOptimizeCnec entry.1.id side) = none)
    (h : Succeeds ([Margin.relativePart cnecs initial .megawatt floor,
      (ofParameters cnecs rangeActions initial parameters).part].forM (·.fill point)) p u q)
    (hreach : IsLeast (reaches cnecs rangeActions parameters initial floor) reach) (hc : c ∈ cnecs)
    (hcondition : condition? rangeActions parameters c ≠ none) :
    Redundant q cnecs rangeActions parameters c ↔
      Margin.zonalSum initial floor c * reach ≤
        largestThreshold cnecs + c.margin 0 .megawatt := by
  obtain ⟨hgrows, hvariable, hcounts, hrows⟩ :=
    relativeRows_hold_iff hids hspans hrelaxation hp.rows hconditions h
  obtain ⟨condition, hsome⟩ := Option.ne_none_iff_exists'.mp hcondition
  have hnonneg := Cnec.largestThreshold_nonneg cnecs
  have hsum : ∀ c : Cnec K, 0 < Margin.zonalSum initial floor c := Margin.zonalSum_pos hfloor
  constructor
  · intro hredundant
    -- elements that count always are at their best flows, and the others at their worst ones
    obtain ⟨x, hvalues, hothers⟩ := q.exists_valueOf_of_elements hids
      (fun _ _ heq => VariableKey.flow.inj heq)
      (fun c' => if condition? rangeActions parameters c' = none then c'.bestFlow
        else c'.worstFlow (largestThreshold cnecs))
      (Function.update (fun _ => 0) .minimumRelativeMargin reach)
    have hflow := fun c' hc' => hvalues c' hc' ((hp.flows c' hc').of_extends hgrows).1
    have hentry : (c, condition) ∈ (ofParameters cnecs rangeActions initial parameters).cnecs :=
      mem_ofParameters_iff.mpr ⟨hc, hsome⟩
    have hzero : q.valueOf x (.optimizeCnec c.id) = 0 := by
      rw [hothers _ (by simp) (hcounts _ hentry), Function.update_of_ne (by simp)]
    have hrelative : q.valueOf x .minimumRelativeMargin = reach := by
      rw [hothers _ (by simp) hvariable, Function.update_self]
    have hrow := (((hrows x).2 c hc).2 condition hsome).mp (hredundant x ?_ hzero ?_ ?_)
    · rw [hflow c hc, if_neg hcondition, (hspans c hc).margin_worstFlow hnonneg, hrelative,
        hzero] at hrow
      linarith only [hrow]
    · intro c' hc'
      rw [hflow c' hc']
      split
      · exact (hspans c' hc').abs_bestFlow_le.trans (Cnec.largestThreshold_le_of_mem hc')
      · exact Cnec.abs_worstFlow hnonneg
    · exact (hrows x).1.mpr (hrelative.trans_le (hreach.2 (Set.mem_insert _ _)))
    · intro c' hc' hnone
      refine (((hrows x).2 c' hc').1 hnone).mpr ?_
      rw [hflow c' hc', if_pos hnone, (hspans c' hc').margin_bestFlow, hrelative,
        ← le_div_iff₀' (hsum c')]
      exact hreach.2 (Set.mem_insert_of_mem _ ⟨c', hc', hnone, rfl⟩)
  · intro hle x hflows hzero hbound hall
    have hrelative : q.valueOf x .minimumRelativeMargin ≤ reach := by
      rcases hreach.1 with hlargest | ⟨c', hc', hnone, hlimit⟩
      · rw [hlargest]
        exact (hrows x).1.mp hbound
      · have hrow := (((hrows x).2 c' hc').1 hnone).mp (hall c' hc' hnone)
        rw [← hlimit, le_div_iff₀' (hsum c')]
        exact hrow.trans (hspans c' hc').margin_le_bestMargin
    refine (((hrows x).2 c hc).2 condition hsome).mpr ?_
    rw [hzero, sub_zero, mul_one]
    have hproduct := mul_le_mul_of_nonneg_left hrelative (hsum c).le
    have hworst := (hspans c hc).margin_worstFlow_le (hflows c hc)
    linarith only [hle, hproduct, hworst]

/-- While the variable of an element is zero, its rows of the smallest relative margin are redundant
if and only if its zonal sum, times the least limit of the smallest relative margin, is at most the
largest threshold and the distance of the thresholds from zero. -/
theorem redundant_iff (cnecs : List (Cnec K)) (hids : (cnecs.map Cnec.id).Nodup)
    (hspans : ∀ c ∈ cnecs, c.SpansZero) (rangeActions : List (RangeAction K))
    (parameters : UnoptimizedParameters K) (hrelaxation : parameters.relaxation = .default)
    (initial : Flows K) {floor : K} (hfloor : 0 < floor)
    (hfresh : p.variableId? .minimumMargin = none)
    (hfreshRelative : p.variableId? .minimumRelativeMargin = none)
    (hp : Margin.Awaits p cnecs .minimumMargin)
    (hpRelative : Margin.Awaits p cnecs .minimumRelativeMargin)
    (hconditions : (ofParameters cnecs rangeActions initial parameters).Awaits
      (ofParameters cnecs rangeActions initial parameters).cnecs p) (point : Linearization K) :
    ∃ q, Succeeds ([Margin.relativePart cnecs initial .megawatt floor,
        (ofParameters cnecs rangeActions initial parameters).part].forM (·.fill point)) p ⟨⟩ q ∧
      ∃ reach, IsLeast (reaches cnecs rangeActions parameters initial floor) reach ∧
        ∀ c ∈ cnecs, condition? rangeActions parameters c ≠ none →
          (Redundant q cnecs rangeActions parameters c ↔ Margin.zonalSum initial floor c * reach ≤
            largestThreshold cnecs + c.margin 0 .megawatt) := by
  obtain ⟨q, hq⟩ := exists_succeeds_of_relative point hids hfresh hfreshRelative hp hpRelative
    hconditions
  obtain ⟨reach, hreach⟩ := exists_isLeast_reaches cnecs rangeActions parameters initial floor
  exact ⟨q, hq, reach, hreach, fun c hc hcondition => redundant_iff_of_reach hids hspans hrelaxation
    hfloor hpRelative hconditions.rows_new hq hreach hc hcondition⟩

end Conditional

/-! Two lines have thresholds at 100 MW, and one of them is ignored. Where both have the same zonal
sum, the ignored one does not limit the smallest relative margin. Where its zonal sum is a hundred
times that of the other line, the smallest relative margin may be 10000 MW for the other line, and
the relaxed row of the ignored one still keeps it at 300 MW. -/

namespace ZonalLines

/-- A line with thresholds at 100 MW. -/
def line (id operator : String) : Cnec ℚ :=
  { id, element := id, operator := some operator, lower := some (-100), upper := some 100,
    voltage := 400 }

/-- The lines. -/
def elements : List (Cnec ℚ) := [line "own" "FR", line "ignored" "BE"]

/-- The usual parameters with an operator to be ignored. -/
def parameters : UnoptimizedParameters ℚ :=
  { UnoptimizedParameters.default with operators := NameSet.ofNames ["BE"] }

/-- The flows before the optimisation, with the zonal sum of the ignored line. -/
def initial (sum : ℚ) : Flows ℚ :=
  { flows := Table.ofPairs [("own", 0), ("ignored", 0)]
    zonalSums := Table.ofPairs [("own", 1 / 100), ("ignored", sum)] }

/-- A problem with the flows of the lines. -/
def flowsOnly : LinearProblem ℚ where
  columns := elements.map fun c => ⟨.flow c.id, .negInf, .posInf, .continuous⟩
  solver := .microlp

theorem cnecs_eq (sum : ℚ) : (Conditional.ofParameters elements [] (initial sum) parameters).cnecs =
    [(line "ignored" "BE", .marginFalls)] := rfl

theorem awaits (sum : ℚ) : (Conditional.ofParameters elements [] (initial sum) parameters).Awaits
    (Conditional.ofParameters elements [] (initial sum) parameters).cnecs flowsOnly := by
  have hflow : (initial sum).flows["ignored"]? = some 0 := by
    change (Table.ofPairs [("own", (0 : ℚ)), ("ignored", 0)])["ignored"]? = some 0
    decide +kernel
  rw [cnecs_eq]
  constructor <;> simp only [List.forall_mem_singleton]
  · decide
  · nofun
  · exact fun _ => ⟨_, Flows.margin_eq (Flows.megawatts_eq hflow) _⟩
  · decide
  · exact fun _ => rfl

theorem redundant_of_same_sum :
    ∃ q, Succeeds ([Margin.relativePart elements (initial (1 / 100)) .megawatt (1 / 100),
        (Conditional.ofParameters elements [] (initial (1 / 100)) parameters).part].forM
          (·.fill ⟨initial (1 / 100), {}, ⟨{}, {}⟩⟩)) flowsOnly ⟨⟩ q ∧
      Conditional.Redundant q elements [] parameters (line "ignored" "BE") := by
  have hfloor : (0 : ℚ) < 1 / 100 := by decide +kernel
  have hspans : ∀ c ∈ elements, c.SpansZero := by decide +kernel
  obtain ⟨q, hq, reach, hreach, hall⟩ := Conditional.redundant_iff (p := flowsOnly) elements
    (by decide) hspans [] parameters rfl (initial (1 / 100)) hfloor (by decide) (by decide)
    ⟨by decide, fun _ _ _ => rfl⟩ ⟨by decide, fun _ _ _ => rfl⟩ (awaits _)
    ⟨initial (1 / 100), {}, ⟨{}, {}⟩⟩
  have hcondition : Conditional.condition? [] parameters (line "ignored" "BE") ≠ none :=
    Option.some_ne_none Condition.marginFalls
  refine ⟨q, hq, (hall _ (by simp [elements]) hcondition).mpr ?_⟩
  exact Conditional.mul_reach_le_of_larger_sum hspans hfloor hreach (by simp [elements])
    (by simp [elements] : line "own" "FR" ∈ elements) rfl (by decide +kernel)

/-- With a zonal sum a hundred times that of the other line, the ignored line limits the smallest
relative margin while it does not count. -/
theorem limited_by_large_sum :
    ∃ q, Succeeds ([Margin.relativePart elements (initial 1) .megawatt (1 / 100),
        (Conditional.ofParameters elements [] (initial 1) parameters).part].forM
          (·.fill ⟨initial 1, {}, ⟨{}, {}⟩⟩)) flowsOnly ⟨⟩ q ∧
      ∃ x, (∀ c ∈ elements, q.valueOf x (.flow c.id) = 0) ∧
        q.valueOf x (.optimizeCnec "ignored") = 0 ∧
        q.valueOf x .minimumRelativeMargin = 10000 ∧ q.VariableHolds x .minimumRelativeMargin ∧
        (∀ side, q.RowHolds x (.minimumRelativeMargin "own" side)) ∧
        ¬∀ side, q.RowHolds x (.minimumRelativeMargin "ignored" side) := by
  have hspans : ∀ c ∈ elements, c.SpansZero := by decide +kernel
  have hids : (elements.map Cnec.id).Nodup := by decide
  obtain ⟨q, hq⟩ : ∃ q, Succeeds ([Margin.relativePart elements (initial 1) .megawatt (1 / 100),
      (Conditional.ofParameters elements [] (initial 1) parameters).part].forM
        (·.fill ⟨initial 1, {}, ⟨{}, {}⟩⟩)) flowsOnly ⟨⟩ q :=
    Conditional.exists_succeeds_of_relative _ hids (by decide) (by decide)
      ⟨by decide, fun _ _ _ => rfl⟩ ⟨by decide, fun _ _ _ => rfl⟩ (awaits _)
  obtain ⟨hgrows, hvariable, hcounts, hrows⟩ := Conditional.relativeRows_hold_iff hids hspans rfl
    (fun _ _ _ => rfl) (awaits 1).rows_new hq
  obtain ⟨x, hx⟩ := q.exists_valueOf fun
    | .minimumRelativeMargin => 10000
    | _ => 0
  have hflows : ∀ c ∈ elements, flowsOnly.HasVariable (.flow c.id) := by decide
  have hflow : ∀ c ∈ elements, q.valueOf x (.flow c.id) = 0 := fun c hc =>
    hx _ ((hflows c hc).of_extends hgrows).1
  have hzero : q.valueOf x (.optimizeCnec "ignored") = 0 :=
    hx _ (hcounts (line "ignored" "BE", .marginFalls) (cnecs_eq 1 ▸ List.mem_singleton_self _))
  have hrelative := hx _ hvariable
  have hown : line "own" "FR" ∈ elements := by simp [elements]
  have hignored : line "ignored" "BE" ∈ elements := by simp [elements]
  refine ⟨q, hq, x, hflow, hzero, hrelative, (hrows x).1.mpr ?_, ?_, fun hall => ?_⟩
  · rw [hrelative]
    decide +kernel
  · refine (((hrows x).2 _ hown).1 rfl).mpr ?_
    rw [hrelative, hflow _ hown]
    decide +kernel
  · have hkept := (((hrows x).2 _ hignored).2 .marginFalls rfl).mp hall
    rw [hrelative, hflow _ hignored, show (line "ignored" "BE").id = "ignored" from rfl, hzero]
      at hkept
    revert hkept
    decide +kernel

end ZonalLines

end GridRelief
