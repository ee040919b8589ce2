import Mathlib.Data.String.Basic
import GridRelief.Proofs.Formulation.Margins
import GridRelief.Proofs.Objective

/-!
# Limiting elements

The margin objective names the elements that limit it, the worst first. An element without a known
flow or without a threshold is to be left out, and the latter is recognised by the largest number,
which stands for its margin. A relative margin is taken of that number too, so such an element is
listed where the sum that it is divided by is more than one.

* `Cnec.gap?`: the distance of a flow to the nearer threshold there is.
* `MarginObjective.thresholdMargin?`: the margin from the thresholds there are.
* `MarginObjective.listedMargin?`: the margin under which an element is listed.
* `MarginObjective.margin?_eq_listedMargin?`: the objective takes that margin.
* `MarginObjective.limiting_eq_ranked`: the limiting elements and the functional cost.
-/

namespace GridRelief

variable {K : Type} [ExactScalar K]

/-! ### Distances to thresholds -/

namespace Cnec

variable {c : Cnec K} {flow gap : K}

/-- The distance of a flow to the nearer threshold there is, in megawatts. -/
def gap? (c : Cnec K) (flow : K) : Option K :=
  (c.lower.map (flow - ·)).merge min (c.upper.map (· - flow))

theorem gap?_eq_none_iff : c.gap? flow = none ↔ ¬c.IsLimited := by
  unfold gap? IsLimited
  cases c.lower <;> cases c.upper <;> simp

/-- A distance below the largest number is that to the nearer threshold there is. -/
theorem distance_eq_gap (h : c.gap? flow = some gap) (hnear : gap < Scalar.largest) :
    c.distance flow = gap := by
  unfold gap? at h
  unfold distance
  rw [ExactScalar.min_eq]
  cases hlower : c.lower with
  | none =>
    cases hupper : c.upper with
    | none => simp [hlower, hupper] at h
    | some upper =>
      obtain rfl : upper - flow = gap := by simpa [hlower, hupper] using h
      exact min_eq_right hnear.le
  | some lower =>
    cases hupper : c.upper with
    | none =>
      obtain rfl : flow - lower = gap := by simpa [hlower, hupper] using h
      exact min_eq_left hnear.le
    | some upper => simpa [hlower, hupper] using h

theorem margin_eq_gap_mul {unit : FlowUnit} (h : c.gap? flow = some gap)
    (hnear : gap < Scalar.largest) : c.margin flow unit = gap * c.conversion unit := by
  unfold margin
  rw [distance_eq_gap h hnear, if_neg fun heq => hnear.ne ((ExactScalar.beq_iff _ _).mp heq)]

end Cnec

namespace Flows

variable {flows : Flows K} {c : Cnec K} {unit : FlowUnit} {margin : K}

theorem zonalSum_pos (h : flows.zonalSums[c.id]? ≠ some 0) : 0 < flows.zonalSum c.id := by
  unfold zonalSum
  cases hsum : flows.zonalSums[c.id]? with
  | none => simp
  | some sum =>
    have hne : sum ≠ 0 := fun hzero => h (by rw [hsum, hzero])
    simpa [ExactScalar.abs_eq] using hne

theorem relativeMargin_eq (h : flows.margin c unit = .ok margin) :
    flows.relativeMargin c unit =
      .ok (if 0 < margin then margin / flows.zonalSum c.id else margin) := by
  unfold relativeMargin
  rw [h]
  rfl

end Flows

namespace MarginObjective

variable {o : MarginObjective K} {flows : Flows K} {c : Cnec K} {flow margin : K}

/-! ### The margin of an element -/

/-- A margin as the objective counts it: relative to the zonal sum where that is asked for and the
margin is positive. -/
def counted (o : MarginObjective K) (flows : Flows K) (c : Cnec K) (margin : K) : K :=
  if o.relative ∧ 0 < margin then margin / flows.zonalSum c.id else margin

/-- The margin of an element from the thresholds there are, if its flow is known. -/
def thresholdMargin? (o : MarginObjective K) (flows : Flows K) (c : Cnec K) : Option K := do
  let flow ← flows.flows[c.id]?
  let gap ← c.gap? flow
  return o.counted flows c (gap * c.conversion o.unit)

theorem thresholdMargin?_eq_some_iff : o.thresholdMargin? flows c = some margin ↔
    ∃ flow gap, flows.flows[c.id]? = some flow ∧ c.gap? flow = some gap ∧
      o.counted flows c (gap * c.conversion o.unit) = margin := by
  simp [thresholdMargin?, Option.bind_eq_some_iff]

theorem thresholdMargin?_of_not_isLimited (h : ¬c.IsLimited) :
    o.thresholdMargin? flows c = none := by
  rw [Option.eq_none_iff_forall_ne_some]
  rintro margin hmargin
  obtain ⟨flow, gap, -, hgap, -⟩ := thresholdMargin?_eq_some_iff.mp hmargin
  rw [Cnec.gap?_eq_none_iff.mpr h] at hgap
  cases hgap

/-- The margin under which an element is listed. One with a threshold is listed with the margin from
its thresholds, if that is below the largest number. One without is listed where the margin is
relative and the zonal sum above one, with the largest number over the zonal sum. -/
def listedMargin? (o : MarginObjective K) (flows : Flows K) (c : Cnec K) : Option K :=
  if c.IsLimited then (o.thresholdMargin? flows c).filter (· < Scalar.largest)
  else if flows.flows[c.id]?.isSome ∧ o.relative ∧ 1 < flows.zonalSum c.id then
    some (Scalar.largest / flows.zonalSum c.id)
  else none

theorem margin?_eq_none (h : flows.flows[c.id]? = none) : o.margin? flows c = none := by
  unfold margin? Flows.relativeMargin Flows.margin Flows.megawatts
  rw [h]
  cases o.relative <;> rfl

theorem margin?_eq_filter (h : flows.flows[c.id]? = some flow) :
    o.margin? flows c =
      (some (o.counted flows c (c.margin flow o.unit))).filter (· < Scalar.largest) := by
  have hmargin := Flows.margin_eq (Flows.megawatts_eq h) o.unit
  unfold margin? counted
  rw [Flows.relativeMargin_eq hmargin, hmargin, Option.filter_some]
  cases o.relative <;> simp

/-- The objective takes the largest number of an element without a threshold for a margin. -/
theorem margin?_of_not_isLimited (hlargest : 0 < (Scalar.largest : K))
    (hsum : flows.zonalSums[c.id]? ≠ some 0) (h : flows.flows[c.id]? = some flow)
    (hlimited : ¬c.IsLimited) : o.margin? flows c =
      if o.relative ∧ 1 < flows.zonalSum c.id then some (Scalar.largest / flows.zonalSum c.id)
      else none := by
  have hbelow : Scalar.largest / flows.zonalSum c.id < (Scalar.largest : K) ↔
      1 < flows.zonalSum c.id := by
    rw [div_lt_iff₀ (Flows.zonalSum_pos hsum), lt_mul_iff_one_lt_right hlargest]
  rw [margin?_eq_filter h, Cnec.margin_of_not_isLimited hlimited, counted, Option.filter_some]
  by_cases hrelative : o.relative
  · simp only [hrelative, hlargest, and_self, if_true, true_and, decide_eq_true_eq, hbelow]
  · simp [hrelative]

/-- The objective takes the margin under which an element is to be listed, and no other. -/
theorem margin?_eq_listedMargin? (hlargest : 0 < (Scalar.largest : K))
    (hsum : flows.zonalSums[c.id]? ≠ some 0)
    (hnear : ∀ flow gap, flows.flows[c.id]? = some flow → c.gap? flow = some gap →
      gap < Scalar.largest) : o.margin? flows c = o.listedMargin? flows c := by
  unfold listedMargin?
  cases h : flows.flows[c.id]? with
  | none =>
    have hnone : o.thresholdMargin? flows c = none := by
      rw [thresholdMargin?, h]
      rfl
    rw [margin?_eq_none h, hnone]
    simp
  | some flow =>
    by_cases hlimited : c.IsLimited
    · rw [if_pos hlimited]
      obtain ⟨gap, hgap⟩ : ∃ gap, c.gap? flow = some gap :=
        Option.ne_none_iff_exists'.mp fun hnone => Cnec.gap?_eq_none_iff.mp hnone hlimited
      have hmargin : o.thresholdMargin? flows c =
          some (o.counted flows c (gap * c.conversion o.unit)) :=
        thresholdMargin?_eq_some_iff.mpr ⟨flow, gap, h, hgap, rfl⟩
      rw [margin?_eq_filter h, Cnec.margin_eq_gap_mul hgap (hnear flow gap h hgap), hmargin]
    · rw [if_neg hlimited, margin?_of_not_isLimited hlargest hsum h hlimited]
      simp

/-! ### The limiting elements -/

/-- In the order of named numbers the smaller number comes first, and of the same numbers the
smaller name. -/
theorem lt_or_of_byMargin {a b : String × K} (h : byMargin a b = true) :
    a.2 < b.2 ∨ a.2 = b.2 ∧ a.1 ≤ b.1 := by
  rcases (le_of_byMargin h).lt_or_eq with hlt | heq
  · exact .inl hlt
  · refine .inr ⟨heq, ?_⟩
    unfold byMargin at h
    rw [ExactScalar.order_eq, heq, compare_eq_iff_eq.mpr rfl] at h
    exact compare_le_iff_le.mp (Ordering.isLE_iff_ne_gt.mp h)

/-- An element is listed with the margin from its thresholds, or left out if it has none. -/
def RanksRightly (o : MarginObjective K) (flows : Flows K) (c : Cnec K) : Prop :=
  (¬c.IsLimited → ¬(o.relative ∧ 1 < flows.zonalSum c.id)) ∧
    ∀ margin, o.thresholdMargin? flows c = some margin → margin < Scalar.largest

theorem RanksRightly.listedMargin?_eq (h : o.RanksRightly flows c) :
    o.listedMargin? flows c = o.thresholdMargin? flows c := by
  unfold listedMargin?
  by_cases hlimited : c.IsLimited
  · rw [if_pos hlimited]
    cases hmargin : o.thresholdMargin? flows c with
    | none => rfl
    | some margin => rw [Option.filter_some, if_pos (decide_eq_true (h.2 margin hmargin))]
  · rw [if_neg hlimited, if_neg fun hlisted => h.1 hlimited hlisted.2,
      thresholdMargin?_of_not_isLimited hlimited]

/-- The limiting elements are those that are listed, by their margins and then by their names, and
the functional cost is the opposite of the first margin. Where relative margins divide those of no
element without a threshold by more than one, and no margin reaches the largest number, the elements
that are listed are those with a known flow and a threshold, with the margins from these. -/
theorem limiting_eq_ranked (o : MarginObjective K) (flows : Flows K)
    (hlargest : 0 < (Scalar.largest : K))
    (hsums : ∀ c ∈ o.optimized, flows.zonalSums[c.id]? ≠ some 0)
    (hnear : ∀ c ∈ o.optimized, ∀ flow gap, flows.flows[c.id]? = some flow →
      c.gap? flow = some gap → gap < Scalar.largest)
    (activation : Activation K) (sensitivities : Sensitivities K) (status : ComputationStatus) :
    let cost := o.evaluate flows activation sensitivities status
    ∃ ranked : List (String × K),
      ranked.Perm (o.optimized.filterMap fun c => (o.listedMargin? flows c).map (c.id, ·)) ∧
        ranked.Pairwise (fun a b => a.2 < b.2 ∨ a.2 = b.2 ∧ a.1 ≤ b.1) ∧
        cost.limiting = ranked.map Prod.fst ∧
        cost.functional = (ranked.head?.map fun worst => -worst.2).getD 0 ∧
        ((∀ c ∈ o.optimized, o.RanksRightly flows c) →
          ranked.Perm
            (o.optimized.filterMap fun c => (o.thresholdMargin? flows c).map (c.id, ·))) := by
  intro cost
  have hlisted : (o.optimized.filterMap fun c => (o.margin? flows c).map (c.id, ·)) =
      o.optimized.filterMap fun c => (o.listedMargin? flows c).map (c.id, ·) := by
    refine List.filterMap_congr fun c hc => ?_
    rw [margin?_eq_listedMargin? hlargest (hsums c hc) (hnear c hc)]
  have hperm : (o.margins flows).Perm
      (o.optimized.filterMap fun c => (o.listedMargin? flows c).map (c.id, ·)) :=
    hlisted ▸ List.mergeSort_perm _ _
  obtain ⟨hfunctional, hlimiting⟩ := o.evaluate_eq_margins flows activation sensitivities status
  refine ⟨o.margins flows, hperm, ?_, hlimiting, hfunctional, fun hrightly => ?_⟩
  · exact (List.pairwise_mergeSort byMargin_trans byMargin_total _).imp lt_or_of_byMargin
  · have hthresholds : (o.optimized.filterMap fun c => (o.listedMargin? flows c).map (c.id, ·)) =
        o.optimized.filterMap fun c => (o.thresholdMargin? flows c).map (c.id, ·) := by
      refine List.filterMap_congr fun c hc => ?_
      rw [(hrightly c hc).listedMargin?_eq]
    exact hthresholds ▸ hperm

end MarginObjective

/-! A line without thresholds has a zonal sum of two in one situation, and of one half in another,
beside a line with a margin of 300 MW. -/

namespace OpenLine

/-- A line without thresholds. -/
def free : Cnec ℚ := { id := "free", element := "line", voltage := 400 }

/-- A line with an upper threshold. -/
def limited : Cnec ℚ := { id := "limited", element := "other", upper := some 400, voltage := 400 }

/-- Relative margins of some lines. -/
def objective (lines : List (Cnec ℚ)) : MarginObjective ℚ :=
  { optimized := lines, monitored := [], relative := true, failureCost := 10000 }

/-- A flow of 100 MW on both lines, with a zonal sum of the open one. -/
def flows (sum : ℚ) : Flows ℚ :=
  { flows := Table.ofPairs [("free", 100), ("limited", 100)]
    zonalSums := Table.ofPairs [("free", sum)] }

theorem limiting_eq_limited :
    let cost := (objective [free, limited]).evaluate (flows (1 / 2)) {} {} .success
    cost.limiting = ["limited"] ∧ cost.functional = -300 := by
  intro cost
  have hfree : ∀ m, (objective [free, limited]).thresholdMargin? (flows (1 / 2)) free ≠ some m := by
    simp [MarginObjective.thresholdMargin?_of_not_isLimited (by decide : ¬free.IsLimited)]
  have hlimited :
      (objective [free, limited]).thresholdMargin? (flows (1 / 2)) limited = some 300 := by
    decide +kernel
  have hnear : ∀ c ∈ [free, limited], ∀ flow gap, (flows (1 / 2)).flows[c.id]? = some flow →
      c.gap? flow = some gap → gap < Scalar.largest := by
    refine List.forall_mem_cons.mpr ⟨fun flow gap _ hgap => ?_, List.forall_mem_singleton.mpr
      fun flow gap hflow hgap => ?_⟩
    · cases hgap
    · obtain rfl : 100 = flow := Option.some.inj hflow
      obtain rfl : 400 - 100 = gap := Option.some.inj hgap
      decide +kernel
  obtain ⟨ranked, -, -, hlimiting, hfunctional, hrightly⟩ := MarginObjective.limiting_eq_ranked
    (objective [free, limited]) (flows (1 / 2)) (by decide +kernel) (by decide +kernel) hnear {} {}
    .success
  have hrank : ∀ c ∈ [free, limited],
      (objective [free, limited]).RanksRightly (flows (1 / 2)) c := by
    refine List.forall_mem_cons.mpr ⟨⟨fun _ => by decide +kernel, fun m hm => absurd hm (hfree m)⟩,
      List.forall_mem_singleton.mpr ⟨fun h => absurd (by decide) h, fun m hm => ?_⟩⟩
    obtain rfl := Option.some.inj (hlimited.symm.trans hm)
    decide +kernel
  have hthresholds : [free, limited].filterMap (fun c =>
      ((objective [free, limited]).thresholdMargin? (flows (1 / 2)) c).map (c.id, ·)) =
        [("limited", 300)] := by
    decide +kernel
  obtain rfl := List.perm_singleton.mp (hthresholds ▸ hrightly hrank)
  exact ⟨hlimiting, hfunctional⟩

theorem free_is_listed :
    let cost := (objective [free]).evaluate (flows 2) {} {} .success
    ¬free.IsLimited ∧ (flows 2).zonalSums["free"]? ≠ some 0 ∧ cost.limiting = ["free"] ∧
      cost.functional = -(Scalar.largest / 2) := by
  decide +kernel

end OpenLine

end GridRelief
