import Mathlib.Order.Bounds.Basic
import GridRelief.Proofs.Exact
import GridRelief.Objective

/-!
# The least margin

The margin objective sorts the margins of the elements and takes the first one. On exact numbers
the first one is the least, whatever the names of the elements are.

* `MarginObjective.isLeast_functional`: the functional cost is the opposite of the least margin.
-/

namespace GridRelief

variable {K : Type} [ExactScalar K]

namespace ExactScalar

/-- On exact numbers the order of two numbers is that of their type. -/
theorem order_eq (a b : K) : Scalar.order a b = compare a b := by
  unfold Scalar.order
  rcases lt_trichotomy a b with h | h | h
  · rw [if_pos h, compare_lt_iff_lt.mpr h]
  · rw [if_neg h.not_lt, if_neg h.not_gt, compare_eq_iff_eq.mpr h]
  · rw [if_neg h.not_gt, if_pos h, compare_gt_iff_gt.mpr h]

end ExactScalar

omit [ExactScalar K] in
theorem Flows.megawatts_eq {flows : Flows K} {id : String} {flow : K}
    (h : flows.flows[id]? = some flow) : flows.megawatts id = .ok flow := by
  unfold megawatts
  rw [h]

omit [ExactScalar K] in
theorem Flows.margin_eq [Scalar K] {flows : Flows K} {c : Cnec K} {flow : K}
    (h : flows.megawatts c.id = .ok flow) (unit : FlowUnit) :
    flows.margin c unit = .ok (c.margin flow unit) := by
  unfold margin
  rw [h]
  rfl

namespace MarginObjective

/-- The order of named numbers, by number first. -/
theorem byMargin_eq (a b : String × K) :
    byMargin a b = (compareLex (compareOn Prod.snd) (compareOn Prod.fst) a b).isLE := by
  unfold byMargin
  rw [ExactScalar.order_eq]
  rfl

theorem byMargin_trans (a b c : String × K) (hab : byMargin a b = true)
    (hbc : byMargin b c = true) : byMargin a c = true := by
  rw [byMargin_eq] at hab hbc ⊢
  exact Std.TransCmp.isLE_trans hab hbc

theorem byMargin_total (a b : String × K) : (byMargin a b || byMargin b a) = true := by
  have hback : byMargin b a = (compareLex (compareOn Prod.snd) (compareOn Prod.fst) a b).isGE := by
    rw [byMargin_eq, Bool.eq_iff_iff, Std.OrientedCmp.isGE_iff_isLE]
  rw [hback, byMargin_eq]
  cases compareLex (compareOn Prod.snd) (compareOn Prod.fst) a b <;> rfl

theorem le_of_byMargin {a b : String × K} (h : byMargin a b = true) : a.2 ≤ b.2 := by
  unfold byMargin at h
  rw [Ordering.isLE_then_iff_and, ExactScalar.order_eq] at h
  rw [← not_lt]
  intro hlt
  rw [compare_gt_iff_gt.mpr hlt] at h
  exact absurd h.1 (by decide)

/-- The first of the sorted margins is the least. -/
theorem le_of_head?_mergeSort {named : List (String × K)} {first other : String × K}
    (hfirst : (named.mergeSort byMargin).head? = some first) (hother : other ∈ named) :
    first.2 ≤ other.2 := by
  obtain ⟨rest, hrest⟩ := List.head?_eq_some_iff.mp hfirst
  have hsorted := List.pairwise_mergeSort byMargin_trans byMargin_total named
  have hmem : other ∈ named.mergeSort byMargin := List.mem_mergeSort.mpr hother
  rw [hrest] at hsorted hmem
  rcases List.mem_cons.mp hmem with rfl | hmem
  · exact le_rfl
  · exact le_of_byMargin ((List.pairwise_cons.mp hsorted).1 other hmem)

variable {o : MarginObjective K} {flows : Flows K}

/-- The functional cost and the limiting elements are read off the sorted margins. -/
theorem evaluate_eq_margins (o : MarginObjective K) (flows : Flows K) (activation : Activation K)
    (sensitivities : Sensitivities K) (status : ComputationStatus) :
    let cost := o.evaluate flows activation sensitivities status
    cost.functional = ((o.margins flows).head?.map fun worst => -worst.2).getD 0 ∧
      cost.limiting = (o.margins flows).map Prod.fst := by
  unfold evaluate
  cases o.mnec <;> exact ⟨rfl, rfl⟩

/-- The margins that count for the functional cost. -/
def countedMargins (o : MarginObjective K) (flows : Flows K) : Set K :=
  {m | ∃ c ∈ o.optimized, o.margin? flows c = some m}

/-- The functional cost is the opposite of the least margin that counts, if there is one. -/
theorem isLeast_functional (h : (o.countedMargins flows).Nonempty) (activation : Activation K)
    (sensitivities : Sensitivities K) (status : ComputationStatus) :
    IsLeast (o.countedMargins flows)
      (-(o.evaluate flows activation sensitivities status).functional) := by
  have hmem : ∀ c ∈ o.optimized, ∀ m, o.margin? flows c = some m →
      (c.id, m) ∈ o.optimized.filterMap fun c => (o.margin? flows c).map (c.id, ·) := by
    intro c hc m hm
    exact List.mem_filterMap.mpr ⟨c, hc, by rw [hm, Option.map_some]⟩
  obtain ⟨hfunctional, -⟩ := o.evaluate_eq_margins flows activation sensitivities status
  cases hhead : (o.margins flows).head? with
  | none =>
    obtain ⟨m, c, hc, hm⟩ := h
    have hany : (c.id, m) ∈ o.margins flows := List.mem_mergeSort.mpr (hmem c hc m hm)
    rw [List.head?_eq_none_iff.mp hhead] at hany
    cases hany
  | some worst =>
    rw [hfunctional, hhead, Option.map_some, Option.getD_some, neg_neg]
    constructor
    · have hworst : worst ∈ o.margins flows := List.mem_of_mem_head? hhead
      obtain ⟨c, hc, hnamed⟩ := List.mem_filterMap.mp (List.mem_mergeSort.mp hworst)
      obtain ⟨m, hm, rfl⟩ := Option.map_eq_some_iff.mp hnamed
      exact ⟨c, hc, hm⟩
    · rintro m ⟨c, hc, hm⟩
      exact le_of_head?_mergeSort hhead (hmem c hc m hm)

end MarginObjective

end GridRelief
