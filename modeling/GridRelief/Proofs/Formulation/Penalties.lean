import Mathlib.Algebra.Order.BigOperators.Group.List
import Mathlib.Algebra.Order.Group.MinMax
import GridRelief.Proofs.Formulation.Statements

/-!
# Penalties of monitored elements

The problem limits the flow on a monitored element on the side of each threshold, and its penalty
pays for the larger excess. The margin objective compares the margins to the nearer thresholds
before and now. For an element with one threshold both come to the same. With two thresholds the
nearer one may have been the other one before, and then the problem may require more.

* `Penalty.leastExcess`: the least excess that takes a flow back to its limits.
* `Penalty.succeeds_monitoredPart`: what the limits of monitored elements require.
* `Penalty.violation_le_leastExcess`, `Penalty.violation_eq_leastExcess_iff`: how the least excess
  compares with the violation that the objective pays for.
* `Penalty.penalty_and_cost`: the least penalty is the cost of monitored elements or more.
-/

namespace GridRelief

open LinearProblem Writing

variable {K : Type} [ExactScalar K]

namespace Penalty

variable {parameters : MnecParameters K} {c : Cnec K} {initial : Flows K} {unit : FlowUnit}
  {cnecs : List (Cnec K)} {p q s t : LinearProblem K} {u : PUnit} {x : VariableId → K}
  {point : Linearization K} {before : Cnec K → K}

/-! ### The least excess -/

/-- The least excess that takes a flow back to its free limits. -/
def leastExcess (parameters : MnecParameters K) (c : Cnec K) (before flow : K) : K :=
  max ((c.lower.map fun lower => lowestFlow parameters before lower - flow).getD 0)
    (max ((c.upper.map fun upper => flow - highestFlow parameters before upper).getD 0) 0)

theorem leastExcess_le_iff {before flow excess : K} :
    leastExcess parameters c before flow ≤ excess ↔ 0 ≤ excess ∧
      (∀ upper, c.upper = some upper → flow - excess ≤ highestFlow parameters before upper) ∧
      ∀ lower, c.lower = some lower → lowestFlow parameters before lower ≤ flow + excess := by
  have hside : ∀ (threshold : Option K) (beyond : K → K), 0 ≤ excess →
      ((threshold.map beyond).getD 0 ≤ excess ↔
        ∀ limit, threshold = some limit → beyond limit ≤ excess) := by
    intro threshold beyond hexcess
    cases threshold <;> simp [hexcess]
  unfold leastExcess
  rw [max_le_iff, max_le_iff]
  constructor
  · rintro ⟨hlower, hupper, hexcess⟩
    refine ⟨hexcess, fun upper hlimit => ?_, fun lower hlimit => ?_⟩
    · exact sub_le_comm.mp ((hside _ _ hexcess).mp hupper upper hlimit)
    · exact sub_le_iff_le_add'.mp ((hside _ _ hexcess).mp hlower lower hlimit)
  · rintro ⟨hexcess, hupper, hlower⟩
    refine ⟨(hside _ _ hexcess).mpr fun lower hlimit => ?_,
      (hside _ _ hexcess).mpr fun upper hlimit => ?_, hexcess⟩
    · exact sub_le_iff_le_add'.mpr (hlower lower hlimit)
    · exact sub_le_comm.mp (hupper upper hlimit)

/-! ### What is written -/

/-- What the row of an excess states on the side of a threshold. -/
def statement (parameters : MnecParameters K) (c : Cnec K) (before : K) :
    ThresholdSide → Option (Statement K)
  | .above => c.upper.map fun upper =>
      ⟨.negInf, .ofScalar (highestFlow parameters before upper),
        [(.flow c.id, 1), (.mnecViolation c.id, -1)]⟩
  | .below => c.lower.map fun lower =>
      ⟨.ofScalar (lowestFlow parameters before lower), .posInf,
        [(.flow c.id, 1), (.mnecViolation c.id, 1)]⟩

/-- The rows of an excess hold where it takes the flow back to its free limits. -/
theorem statements_hold_iff {before : K} {y : VariableKey → K}
    (hexcess : 0 ≤ y (.mnecViolation c.id)) :
    (∀ side, ∀ stated ∈ statement parameters c before side, stated.HoldsAt y) ↔
      leastExcess parameters c before (y (.flow c.id)) ≤ y (.mnecViolation c.id) := by
  rw [leastExcess_le_iff, and_iff_right hexcess, ThresholdSide.forall_iff, and_comm]
  simp only [statement, Option.mem_map, forall_exists_index, and_imp, forall_apply_eq_imp_iff₂,
    Statement.holdsAt_lower_iff, Statement.holdsAt_upper_iff, List.map_cons, List.map_nil,
    List.sum_cons, List.sum_nil]
  refine and_congr (forall₂_congr fun upper _ => ?_) (forall₂_congr fun lower _ => ?_)
  · constructor <;> intro h <;> linarith only [h]
  · constructor <;> intro h <;> linarith only [h]

/-- A monitored element adds its excess, which is not negative, and the rows of its limits. -/
theorem succeeds_writeMonitored {before : K} (hbefore : initial.megawatts c.id = .ok before)
    (h : Succeeds (writeMonitored parameters initial unit c) s u t) :
    s.Continues (fun key => ∃ side, key = .mnecViolation c.id side) t ∧
      t.columns = s.columns ++ [⟨.mnecViolation c.id, .finite 0, .posInf, .continuous⟩] ∧
      ((∀ side, s.rowId? (.mnecViolation c.id side) = none) →
        ∀ side, t.Shows (.mnecViolation c.id side) (statement parameters c before side)) := by
  unfold writeMonitored at h
  simp only [succeeds_bind_iff, succeeds_ofExcept_iff, succeeds_requireVariable_iff] at h
  obtain ⟨_, _, ⟨hinitial, rfl⟩, flow, _, ⟨hflow, rfl⟩, excess, a, hadd, _, b, habove, _, d, hbelow,
    hprice⟩ := h
  obtain rfl := Except.ok.inj (hbefore.symm.trans hinitial)
  have hsa : s.Continues (fun _ => False) a := continues_addVariable hadd
  obtain ⟨hab, hb⟩ := continues_addRow_option habove
  obtain ⟨hbd, hd⟩ := continues_addRow_option hbelow
  have hdt : d.Continues (fun _ => False) t := continues_setObjective hprice
  have htd : t.columns = d.columns := by
    rw [Writing.setObjective, succeeds_modify_iff] at hprice
    rw [← hprice]
    rfl
  refine ⟨?_, ?_, fun hfresh => ?_⟩
  · refine hsa.of_untouched.trans ((hab.mono ?_).trans ((hbd.mono ?_).trans hdt.of_untouched))
    · rintro _ rfl
      exact ⟨_, rfl⟩
    · rintro _ rfl
      exact ⟨_, rfl⟩
  · obtain ⟨-, -, ha⟩ := succeeds_addVariable hadd
    rw [htd, hd, hb, ha]
  · obtain ⟨hvariable, rfl⟩ := hasVariable_of_variableId? hflow
    obtain ⟨hdeclares, rfl⟩ := declares_of_addVariable hadd
    obtain ⟨hflowA, hnumber⟩ := hvariable.of_extends hsa.grows
    have habout : ∀ (lower upper : Bound K) factor, Statement.IsAbout
        ⟨lower, upper, [(.flow c.id, 1), (.mnecViolation c.id, factor)]⟩ a := fun _ _ _ =>
      ⟨List.forall_mem_cons.mpr ⟨hflowA, List.forall_mem_singleton.mpr hdeclares.hasVariable⟩,
        by simp⟩
    rw [← hnumber] at habove hbelow
    have hshowsAbove : b.Shows (.mnecViolation c.id .above) (statement parameters c _ .above) :=
      shows_addRow_option (hsa.rowId?_eq_none not_false (hfresh .above)) (fun _ => habout _ _ _)
        (.refl a) rfl habove
    have hfreshBelow : b.rowId? (.mnecViolation c.id .below) = none :=
      hab.rowId?_eq_none (by simp) (hsa.rowId?_eq_none not_false (hfresh .below))
    have hshowsBelow : d.Shows (.mnecViolation c.id .below) (statement parameters c _ .below) :=
      shows_addRow_option hfreshBelow (fun _ => habout _ _ _) hab.grows rfl hbelow
    rintro (_ | _)
    · exact hshowsBelow.of_continues hdt not_false
    · exact (hshowsAbove.of_continues hbd (by simp)).of_continues hdt not_false

/-- What the limits of monitored elements add to a problem holds where the excess of every element
takes its flow back to the free limits. -/
theorem succeeds_monitoredPart (hids : (cnecs.map Cnec.id).Nodup)
    (hbefore : ∀ c ∈ cnecs, initial.megawatts c.id = .ok (before c))
    (hp : Margin.Awaits p cnecs .mnecViolation)
    (h : Succeeds ((monitoredPart parameters cnecs initial unit).fill point) p u q) :
    p.Extends (fun _ => True) q ∧ (∀ c ∈ cnecs, q.HasVariable (.mnecViolation c.id)) ∧
      ∀ x, q.SatisfiesSince p x ↔ ∀ c ∈ cnecs,
        leastExcess parameters c (before c) (q.valueOf x (.flow c.id)) ≤
          q.valueOf x (.mnecViolation c.id) := by
  have hfill : Succeeds (cnecs.forM (writeMonitored parameters initial unit)) p u q := h
  have hstep : ∀ c ∈ cnecs, ∀ s t, Succeeds (writeMonitored parameters initial unit c) s ⟨⟩ t →
      s.Continues (fun key => ∃ side, key = .mnecViolation c.id side) t :=
    fun c hc s t ht => (succeeds_writeMonitored (hbefore c hc) ht).1
  have hq : p.Continues (fun key => ∃ c ∈ cnecs, ∃ side, key = .mnecViolation c.id side) q :=
    continues_forM hfill fun c hc s t ht => (hstep c hc s t ht).mono fun _ hkey => ⟨c, hc, hkey⟩
  have hcolumns := columns_forM hfill fun c hc s t ht =>
    (succeeds_writeMonitored (hbefore c hc) ht).2.1
  have hshows : ∀ c ∈ cnecs, ∀ side,
      q.Shows (.mnecViolation c.id side) (statement parameters c (before c) side) := by
    intro c hc side
    obtain ⟨s, t, hs, hturn, ht⟩ := exists_turn hfill hids hstep hc
    have hapart : ∀ side, ¬∃ other ∈ cnecs, other.id ≠ c.id ∧
        ∃ side', RowKey.mnecViolation c.id side = .mnecViolation other.id side' := by
      rintro side ⟨other, -, hne, side', heq⟩
      exact hne (RowKey.mnecViolation.inj heq).1.symm
    have hfresh : ∀ side, s.rowId? (.mnecViolation c.id side) = none :=
      fun side => hs.rowId?_eq_none (hapart side) (hp.rows c hc side)
    have hshown := (succeeds_writeMonitored (hbefore c hc) hturn).2.2 hfresh side
    exact hshown.of_continues ht (hapart side)
  have hadded : ∀ c ∈ cnecs, (⟨.mnecViolation c.id, .finite 0, .posInf, .continuous⟩ : Variable K) ∈
      cnecs.flatMap fun c => [⟨.mnecViolation c.id, .finite 0, .posInf, .continuous⟩] :=
    fun c hc => List.mem_flatMap.mpr ⟨c, hc, List.mem_singleton_self _⟩
  refine ⟨hq.grows, fun c hc => hq.hasVariable hcolumns (hadded c hc), fun x => ?_⟩
  rw [hq.satisfiesSince_iff hcolumns]
  constructor
  · rintro ⟨hvariables, hrows⟩ c hc
    have hexcess : 0 ≤ q.valueOf x (.mnecViolation c.id) := (hvariables _ (hadded c hc)).1.1
    refine (statements_hold_iff hexcess).mp fun side => ?_
    exact (hshows c hc side).rowHolds_iff.mp (hrows _ ⟨c, hc, side, rfl⟩ (hp.rows c hc side))
  · intro h
    have hexcess := fun c hc => (leastExcess_le_iff.mp (h c hc)).1
    constructor
    · intro data hdata
      obtain ⟨c, hc, hdata⟩ := List.mem_flatMap.mp hdata
      rw [List.mem_singleton.mp hdata]
      exact ⟨⟨hexcess c hc, trivial⟩, trivial⟩
    · rintro _ ⟨c, hc, side, rfl⟩ -
      exact (hshows c hc side).rowHolds_iff.mpr
        ((statements_hold_iff (hexcess c hc)).mpr (h c hc) side)

/-- The limits of monitored elements can be added to a problem that has none. -/
theorem exists_succeeds_monitoredPart (hids : (cnecs.map Cnec.id).Nodup)
    (hbefore : ∀ c ∈ cnecs, initial.megawatts c.id = .ok (before c))
    (hfresh : ∀ c ∈ cnecs, p.variableId? (.mnecViolation c.id) = none)
    (hp : Margin.Awaits p cnecs .mnecViolation) :
    ∃ q, Succeeds ((monitoredPart parameters cnecs initial unit).fill point) p ⟨⟩ q := by
  refine exists_succeeds_forM (P := fun rest s => (rest.map Cnec.id).Nodup ∧
    (∀ c ∈ rest, initial.megawatts c.id = .ok (before c)) ∧
    (∀ c ∈ rest, s.variableId? (.mnecViolation c.id) = none) ∧
    Margin.Awaits s rest .mnecViolation) ?_ ⟨hids, hbefore, hfresh, hp⟩
  rintro c rest s ⟨hnodup, hknown, hvariables, hs⟩
  obtain ⟨hapart, hrest⟩ := List.nodup_cons.mp hnodup
  have hc : c ∈ c :: rest := List.mem_cons_self
  obtain ⟨a, ha⟩ :=
    exists_succeeds_addVariable .continuous (hvariables c hc) (Bound.isInterval_above 0)
  have hsa : s.Continues (fun _ => False) a := continues_addVariable ha
  have habove : ∀ upper, Bound.isInterval .negInf
      (.ofScalar (highestFlow parameters (before c) upper)) = true := by simp
  obtain ⟨b, hb⟩ := exists_succeeds_addRow_option c.upper
    [(s.number (.flow c.id), 1), (s.columns.length, -1)]
    (hsa.rowId?_eq_none not_false (hs.rows c hc .above)) habove
  obtain ⟨hab, -⟩ := continues_addRow_option hb
  have hbelow : ∀ lower, Bound.isInterval (.ofScalar (lowestFlow parameters (before c) lower))
      .posInf = true := by simp
  obtain ⟨d, hd⟩ := exists_succeeds_addRow_option c.lower
    [(s.number (.flow c.id), 1), (s.columns.length, 1)]
    (hab.rowId?_eq_none (by simp) (hsa.rowId?_eq_none not_false (hs.rows c hc .below))) hbelow
  have hturn : Succeeds (writeMonitored parameters initial unit c) s ⟨⟩
      (d.setObjective s.columns.length (parameters.violationCost * c.conversion unit)) := by
    unfold writeMonitored
    simp only [succeeds_bind_iff, succeeds_ofExcept_iff, succeeds_requireVariable_iff]
    exact ⟨_, s, ⟨hknown c hc, rfl⟩, _, s, ⟨hs.flows c hc, rfl⟩, _, a, ha, ⟨⟩, b, hb, ⟨⟩, d, hd,
      succeeds_modify_iff.mpr rfl⟩
  obtain ⟨hst, hcolumns, -⟩ := succeeds_writeMonitored (hknown c hc) hturn
  have hne : ∀ other ∈ rest, c.id ≠ other.id := fun other hother heq =>
    hapart (List.mem_map.mpr ⟨other, hother, heq.symm⟩)
  refine ⟨_, hturn, hrest, fun other hother => hknown other (List.mem_cons_of_mem _ hother),
    fun other hother => ?_, fun other hother => ?_, fun other hother side => ?_⟩
  · refine variableId?_eq_none_of_columns hcolumns
      (hvariables other (List.mem_cons_of_mem _ hother)) ?_
    simpa using hne other hother
  · exact ((hs.flows other (List.mem_cons_of_mem _ hother)).of_extends hst.grows).1
  · refine hst.rowId?_eq_none ?_ (hs.rows other (List.mem_cons_of_mem _ hother) side)
    rintro ⟨side', heq⟩
    exact hne other hother (RowKey.mnecViolation.inj heq).1.symm

/-- The objective pays for every excess. -/
theorem price_of_monitoredPart
    (h : Succeeds ((monitoredPart parameters cnecs initial unit).fill point) p u q) :
    ∀ c ∈ cnecs, q.objectiveCoefficient (q.number (.mnecViolation c.id)) =
      parameters.violationCost * c.conversion unit := by
  have hfill : Succeeds (cnecs.forM (writeMonitored parameters initial unit)) p u q := h
  have hall := hfill.forM_each (P := fun _ => True) (Q := fun c s =>
    s.HasVariable (.mnecViolation c.id) ∧ s.objectiveCoefficient (s.number (.mnecViolation c.id)) =
      parameters.violationCost * c.conversion unit) ?_ trivial
  · exact fun c hc => (hall.2.1 c hc).2
  intro c _ s t _ ht
  unfold writeMonitored at ht
  simp only [succeeds_bind_iff, succeeds_ofExcept_iff, succeeds_requireVariable_iff] at ht
  obtain ⟨_, _, ⟨-, rfl⟩, flow, _, ⟨-, rfl⟩, excess, a, hadd, _, b, habove, _, d, hbelow, hprice⟩ :=
    ht
  obtain ⟨hdeclares, hnumber⟩ := declares_of_addVariable hadd
  have hsa : s.Extends (fun _ => True) a := extends_addVariable hadd
  obtain ⟨-, hlast, ha⟩ := succeeds_addVariable hadd
  have hb := succeeds_addRow_option habove
  have hd := succeeds_addRow_option hbelow
  rw [Writing.setObjective, succeeds_modify_iff] at hprice
  have hat : a.Extends (fun _ => True) t := by
    refine (extends_forM_option habove fun _ _ hrow => extends_addRow_pure hrow).trans ?_
    refine (extends_forM_option hbelow fun _ _ hrow => extends_addRow_pure hrow).trans ?_
    exact .of_eq (hprice ▸ rfl) (hprice ▸ rfl)
  have hcoefficient : ∀ v, t.objectiveCoefficient v =
      if excess = v then parameters.violationCost * c.conversion unit
      else s.objectiveCoefficient v := by
    intro v
    have hobjective : d.objective = s.objective := by rw [hd, hb, ha]
    rw [← hprice]
    unfold objectiveCoefficient LinearProblem.setObjective
    rw [LinearForm.get_set, hobjective]
  refine ⟨trivial, ⟨(hdeclares.hasVariable.of_extends hat).1, ?_⟩, fun other hother => ?_⟩
  · rw [(hdeclares.hasVariable.of_extends hat).2, hnumber, hcoefficient, if_pos rfl]
  · obtain ⟨hvariable, hcost⟩ := hother
    obtain ⟨hlater, hsame⟩ := hvariable.of_extends (hsa.trans hat)
    refine ⟨hlater, ?_⟩
    obtain ⟨_, hplace, -⟩ := namesVariable_of_variableId? hvariable
    have hold := (List.getElem?_eq_some_iff.mp hplace).1
    rw [hsame, hcoefficient, if_neg (hlast ▸ Nat.ne_of_gt hold), hcost]

/-! ### The violation that the objective pays for -/

/-- How far the least margin of an element is below the one that is accepted. -/
def violation (parameters : MnecParameters K) (initial : Flows K) (flows : Flows K) (c : Cnec K) :
    K :=
  (MarginObjective.MnecRule.violation?
    ⟨initial, parameters.acceptableDecrease, parameters.violationCost⟩ flows c).getD 0

theorem violation_eq {flows : Flows K} {before flow : K}
    (hbefore : initial.megawatts c.id = .ok before) (hflow : flows.megawatts c.id = .ok flow) :
    violation parameters initial flows c =
      max (min (c.margin before .megawatt - parameters.acceptableDecrease) 0 -
        c.margin flow .megawatt) 0 := by
  have hinitial : initial.margin c .megawatt = .ok (c.margin before .megawatt) := by
    unfold Flows.margin
    rw [hbefore]
    rfl
  have hcurrent : flows.margin c .megawatt = .ok (c.margin flow .megawatt) := by
    unfold Flows.margin
    rw [hflow]
    rfl
  unfold violation MarginObjective.MnecRule.violation?
  simp only [hinitial, hcurrent, ExactScalar.min_eq, ExactScalar.max_eq]
  split
  · rfl
  · next hnone => exact (max_eq_right (not_lt.mp fun h => hnone (lt_max_of_lt_left h))).symm

/-! ### Comparison -/

/-- A flow is beyond its free limit on the side of one threshold, while before the optimisation the
other threshold was nearer, and nearer than the accepted fall. -/
def CrossesOver (parameters : MnecParameters K) (c : Cnec K) (before flow : K) : Prop :=
  ∃ lower ∈ c.lower, ∃ upper ∈ c.upper,
    (before - lower < upper - before ∧ before - lower < parameters.acceptableDecrease ∧
        highestFlow parameters before upper < flow) ∨
      (upper - before < before - lower ∧ upper - before < parameters.acceptableDecrease ∧
        flow < lowestFlow parameters before lower)

instance (parameters : MnecParameters K) (c : Cnec K) (before flow : K) :
    Decidable (CrossesOver parameters c before flow) :=
  inferInstanceAs (Decidable (∃ lower ∈ c.lower, ∃ upper ∈ c.upper, _ ∨ _))

/-- The free limit below an upper threshold, from the margin that is accepted. -/
theorem sub_accepted (upper before fall : K) :
    upper - min (upper - before - fall) 0 = max upper (before + fall) := by
  rw [← max_sub_sub_left, sub_zero, max_comm]
  congr 1
  ring

/-- The free limit above a lower threshold, from the margin that is accepted. -/
theorem add_accepted (lower before fall : K) :
    lower + min (before - lower - fall) 0 = min lower (before - fall) := by
  rw [← min_add_add_left, add_zero, min_comm]
  congr 1
  ring

/-- Of two pairs of limits, one within the other, the outer pair is exceeded by as much as the inner
one if and only if they share the limit that the flow is beyond, if it is beyond one. -/
theorem excess_eq_iff {flow low high outerLow outerHigh : K} (hlow : outerLow ≤ low)
    (hhigh : high ≤ outerHigh) (horder : low ≤ high) :
    max (outerLow - flow) (max (flow - outerHigh) 0) = max (low - flow) (max (flow - high) 0) ↔
      (flow < low → outerLow = low) ∧ (high < flow → outerHigh = high) := by
  grind

/-- With two thresholds, the least margin that is accepted stands for a limit on each side, and
neither of them is stricter than the free limit. -/
theorem compare_of_both {lower upper before flow fall : K} (horder : lower ≤ upper) :
    let accepted := min (min (before - lower) (upper - before) - fall) 0
    let violated := max (accepted - min (flow - lower) (upper - flow)) 0
    let low := min lower (before - fall)
    let high := max upper (before + fall)
    violated ≤ max (low - flow) (max (flow - high) 0) ∧
      (violated = max (low - flow) (max (flow - high) 0) ↔
        ¬((before - lower < upper - before ∧ before - lower < fall ∧ high < flow) ∨
          (upper - before < before - lower ∧ upper - before < fall ∧ flow < low))) := by
  intro accepted violated low high
  have hviolated :
      violated = max (lower + accepted - flow) (max (flow - (upper - accepted)) 0) := by
    unfold violated
    rw [← max_sub_sub_left, max_assoc]
    congr 1
    · ring
    · congr 1
      ring
  have hlow : lower + accepted ≤ low := by
    unfold low
    rw [← add_accepted]
    exact add_le_add_right (min_le_min_right _ (sub_le_sub_right (min_le_left _ _) _)) _
  have hhigh : high ≤ upper - accepted := by
    unfold high
    rw [← sub_accepted]
    exact sub_le_sub_left (min_le_min_right _ (sub_le_sub_right (min_le_right _ _) _)) _
  have hlimits : low ≤ high := (min_le_left _ _).trans (horder.trans (le_max_left _ _))
  have hsameLow : lower + accepted = low ↔
      ¬(upper - before < before - lower ∧ upper - before < fall) := by grind
  have hsameHigh : upper - accepted = high ↔
      ¬(before - lower < upper - before ∧ before - lower < fall) := by grind
  constructor
  · rw [hviolated]
    exact max_le_max (sub_le_sub_right hlow _) (max_le_max_right _ (sub_le_sub_left hhigh _))
  · rw [hviolated, excess_eq_iff hlow hhigh hlimits, hsameLow, hsameHigh]
    tauto

/-- The violation that the objective pays for is the least excess at most, and it is the least
excess if and only if the flow does not cross over. -/
theorem violation_compare {flows : Flows K} {before flow : K}
    (hadjustment : parameters.adjustment = 0) (hlimited : c.IsLimited)
    (horder : c.IsOrdered)
    (hinitial : initial.megawatts c.id = .ok before) (hcurrent : flows.megawatts c.id = .ok flow)
    (hbefore : c.margin before .megawatt < Scalar.largest)
    (hflow : c.margin flow .megawatt < Scalar.largest) :
    violation parameters initial flows c ≤ leastExcess parameters c before flow ∧
      (violation parameters initial flows c = leastExcess parameters c before flow ↔
        ¬CrossesOver parameters c before flow) := by
  rw [Cnec.margin_megawatt] at hbefore hflow
  rw [violation_eq hinitial hcurrent, Cnec.margin_megawatt, Cnec.margin_megawatt]
  unfold leastExcess CrossesOver lowestFlow highestFlow
  simp only [hadjustment, ExactScalar.min_eq, ExactScalar.max_eq, add_zero, sub_zero]
  cases hlower : c.lower with
  | none =>
    cases hupper : c.upper with
    | none => exact absurd hlimited (by simp [Cnec.IsLimited, hlower, hupper])
    | some upper =>
      have heq : min (upper - before - parameters.acceptableDecrease) 0 - (upper - flow) =
          flow - max upper (before + parameters.acceptableDecrease) := by
        rw [← sub_accepted]
        ring
      rw [Cnec.distance_of_upper hlower hupper hbefore, Cnec.distance_of_upper hlower hupper hflow,
        heq]
      simp
  | some lower =>
    cases hupper : c.upper with
    | none =>
      have heq : min (before - lower - parameters.acceptableDecrease) 0 - (flow - lower) =
          min lower (before - parameters.acceptableDecrease) - flow := by
        rw [← add_accepted]
        ring
      rw [Cnec.distance_of_lower hlower hupper hbefore, Cnec.distance_of_lower hlower hupper hflow,
        heq]
      simp
    | some upper =>
      rw [Cnec.distance_of_both hlower hupper, Cnec.distance_of_both hlower hupper]
      simpa using compare_of_both (horder lower hlower upper hupper)

/-! ### Penalty and cost -/

/-- The cost of monitored elements pays for all violations. -/
theorem cost_of_violations (parameters : MnecParameters K) (o : MarginObjective K)
    (hrule : o.mnec = some ⟨initial, parameters.acceptableDecrease, parameters.violationCost⟩)
    (flows : Flows K) (activation : Activation K) (sensitivities : Sensitivities K)
    (status : ComputationStatus) :
    (o.evaluate flows activation sensitivities status).virtualPart MarginObjective.mnecPart =
      (o.monitored.map (violation parameters initial flows)).sum * parameters.violationCost := by
  have hsum : ∀ (cnecs : List (Cnec K)) (amount : Cnec K → Option K),
      ((cnecs.filterMap fun c => (amount c).map (c.id, ·)).map Prod.snd).sum =
        (cnecs.map fun c => (amount c).getD 0).sum := by
    intro cnecs amount
    induction cnecs with
    | nil => rfl
    | cons c cnecs ih => cases hc : amount c <;> simp [hc, ih]
  unfold Cost.virtualPart MarginObjective.evaluate
  rw [hrule]
  simp only [Std.ExtTreeMap.getElem?_insert_self, Option.getD_some]
  unfold MarginObjective.violations
  rw [ExactScalar.sum_eq, ((List.mergeSort_perm _ _).map Prod.snd).sum_eq, hsum]
  rfl

/-- What the objective of a problem pays for the excesses at an assignment. -/
def penaltyAt (q : LinearProblem K) (cnecs : List (Cnec K)) (y : VariableId → K) : K :=
  (cnecs.map fun c => q.objectiveCoefficient (q.number (.mnecViolation c.id)) *
    q.valueOf y (.mnecViolation c.id)).sum

/-- For given flows every element can have its least excess at once, and none can have less. -/
theorem exists_least_excesses (hids : (cnecs.map Cnec.id).Nodup)
    (hbefore : ∀ c ∈ cnecs, initial.megawatts c.id = .ok (before c))
    (hp : Margin.Awaits p cnecs .mnecViolation)
    (h : Succeeds ((monitoredPart parameters cnecs initial unit).fill point) p u q)
    (x : VariableId → K) :
    (∃ y, (∀ c ∈ cnecs, p.valueOf y (.flow c.id) = p.valueOf x (.flow c.id)) ∧
      q.SatisfiesSince p y ∧ ∀ c ∈ cnecs, q.valueOf y (.mnecViolation c.id) =
        leastExcess parameters c (before c) (p.valueOf x (.flow c.id))) ∧
    ∀ y, (∀ c ∈ cnecs, p.valueOf y (.flow c.id) = p.valueOf x (.flow c.id)) →
      q.SatisfiesSince p y → ∀ c ∈ cnecs,
        leastExcess parameters c (before c) (p.valueOf x (.flow c.id)) ≤
          q.valueOf y (.mnecViolation c.id) := by
  obtain ⟨hgrows, hvariable, hholds⟩ := succeeds_monitoredPart hids hbefore hp h
  have hflow : ∀ y, (∀ c ∈ cnecs, p.valueOf y (.flow c.id) = p.valueOf x (.flow c.id)) →
      ∀ c ∈ cnecs, q.valueOf y (.flow c.id) = p.valueOf x (.flow c.id) := fun y hy c hc =>
    (valueOf_of_extends (hp.flows c hc) hgrows y).trans (hy c hc)
  refine ⟨?_, fun y hy hkeeps c hc => hflow y hy c hc ▸ (hholds y).mp hkeeps c hc⟩
  obtain ⟨y, hexcess, hothers⟩ := q.exists_valueOf_of_elements hids
    (fun _ _ heq => VariableKey.mnecViolation.inj heq)
    (fun c => leastExcess parameters c (before c) (p.valueOf x (.flow c.id))) (p.valueOf x)
  have hsame : ∀ c ∈ cnecs, p.valueOf y (.flow c.id) = p.valueOf x (.flow c.id) := by
    intro c hc
    rw [← valueOf_of_extends (hp.flows c hc) hgrows y,
      hothers _ (by simp) ((hp.flows c hc).of_extends hgrows).1]
  have hleast : ∀ c ∈ cnecs, q.valueOf y (.mnecViolation c.id) =
      leastExcess parameters c (before c) (p.valueOf x (.flow c.id)) := fun c hc =>
    hexcess c hc (hvariable c hc)
  refine ⟨y, hsame, (hholds y).mpr fun c hc => ?_, hleast⟩
  rw [hleast c hc, hflow y hsame c hc]

/-- The least penalty pays for the least excesses. -/
theorem isLeast_penaltyAt (hcost : 0 ≤ parameters.violationCost)
    (hids : (cnecs.map Cnec.id).Nodup)
    (hbefore : ∀ c ∈ cnecs, initial.megawatts c.id = .ok (before c))
    (hp : Margin.Awaits p cnecs .mnecViolation)
    (h : Succeeds ((monitoredPart parameters cnecs initial .megawatt).fill point) p u q)
    (x : VariableId → K) :
    IsLeast (q.valuesSince p cnecs x (penaltyAt q cnecs))
      ((cnecs.map fun c => leastExcess parameters c (before c) (p.valueOf x (.flow c.id))).sum *
        parameters.violationCost) := by
  obtain ⟨⟨y, hsame, hmeets, hexcess⟩, hleast⟩ := exists_least_excesses hids hbefore hp h x
  have hprice := price_of_monitoredPart h
  have hpenalty : ∀ z, penaltyAt q cnecs z =
      (cnecs.map fun c => q.valueOf z (.mnecViolation c.id)).sum * parameters.violationCost := by
    intro z
    unfold penaltyAt
    rw [← List.sum_map_mul_right]
    refine congrArg List.sum (List.map_congr_left fun c hc => ?_)
    rw [hprice c hc, mul_comm]
    exact congrArg (_ * ·) (mul_one _)
  constructor
  · refine ⟨y, hsame, hmeets, ?_⟩
    rw [hpenalty, List.map_congr_left hexcess]
  · rintro _ ⟨z, hz, hkeeps, rfl⟩
    rw [hpenalty]
    exact mul_le_mul_of_nonneg_right (List.sum_le_sum (hleast z hz hkeeps)) hcost

/-- The rows allow an excess on a monitored element from the least one on that takes the flow back
to the free limits. The violation that the objective pays for is never more, and it is less if and
only if the flow crosses over. So the least penalty is the cost of monitored elements or more, and
it is the same if and only if nothing is paid for or no flow crosses over. -/
theorem penalty_and_cost (parameters : MnecParameters K) (hadjustment : parameters.adjustment = 0)
    (hcost : 0 ≤ parameters.violationCost) (o : MarginObjective K) (initial : Flows K)
    (hrule : o.mnec = some ⟨initial, parameters.acceptableDecrease, parameters.violationCost⟩)
    (hids : (o.monitored.map Cnec.id).Nodup) (hlimited : ∀ c ∈ o.monitored, c.IsLimited)
    (horder : ∀ c ∈ o.monitored, c.IsOrdered)
    {before : Cnec K → K} (hinitial : ∀ c ∈ o.monitored, initial.megawatts c.id = .ok (before c))
    (hbefore : ∀ c ∈ o.monitored, c.margin (before c) .megawatt < Scalar.largest)
    (hfresh : ∀ c ∈ o.monitored, p.variableId? (.mnecViolation c.id) = none)
    (hp : Margin.Awaits p o.monitored .mnecViolation) (point : Linearization K) :
    ∃ q, Succeeds ((monitoredPart parameters o.monitored initial .megawatt).fill point) p ⟨⟩ q ∧
      ∀ (x : VariableId → K) (flows : Flows K),
        (∀ c ∈ o.monitored, flows.megawatts c.id = .ok (p.valueOf x (.flow c.id))) →
        (∀ c ∈ o.monitored, c.margin (p.valueOf x (.flow c.id)) .megawatt < Scalar.largest) →
        (∀ c ∈ o.monitored, ∃ excess,
          IsLeast (q.valuesSince p o.monitored x (q.valueOf · (.mnecViolation c.id))) excess ∧
          violation parameters initial flows c ≤ excess ∧
          (violation parameters initial flows c = excess ↔
            ¬CrossesOver parameters c (before c) (p.valueOf x (.flow c.id)))) ∧
        ∃ penalty, IsLeast (q.valuesSince p o.monitored x (penaltyAt q o.monitored)) penalty ∧
          ∀ activation sensitivities status,
            let paid := (o.evaluate flows activation sensitivities status).virtualPart
              MarginObjective.mnecPart
            paid ≤ penalty ∧ (paid = penalty ↔ parameters.violationCost = 0 ∨
              ∀ c ∈ o.monitored,
                ¬CrossesOver parameters c (before c) (p.valueOf x (.flow c.id))) := by
  obtain ⟨q, hq⟩ : ∃ q,
      Succeeds ((monitoredPart parameters o.monitored initial .megawatt).fill point) p ⟨⟩ q :=
    exists_succeeds_monitoredPart hids hinitial hfresh hp
  refine ⟨q, hq, fun x flows hflows hmargin => ⟨fun c hc => ?_, ?_⟩⟩
  · obtain ⟨⟨y, hsame, hmeets, hexcess⟩, hleast⟩ := exists_least_excesses hids hinitial hp hq x
    refine ⟨_, ⟨⟨y, hsame, hmeets, hexcess c hc⟩, ?_⟩, violation_compare hadjustment (hlimited c hc)
      (horder c hc) (hinitial c hc) (hflows c hc) (hbefore c hc) (hmargin c hc)⟩
    rintro _ ⟨z, hz, hkeeps, rfl⟩
    exact hleast z hz hkeeps c hc
  · refine ⟨_, isLeast_penaltyAt hcost hids hinitial hp hq x,
      fun activation sensitivities status => ?_⟩
    have hcompare := fun c hc => violation_compare hadjustment (hlimited c hc) (horder c hc)
      (hinitial c hc) (hflows c hc) (hbefore c hc) (hmargin c hc)
    intro paid
    have hpaid : paid = _ :=
      cost_of_violations parameters o hrule flows activation sensitivities status
    rw [hpaid]
    have hsum := List.sum_le_sum fun c hc => (hcompare c hc).1
    refine ⟨mul_le_mul_of_nonneg_right hsum hcost, ?_⟩
    rw [mul_eq_mul_right_iff, or_comm]
    refine or_congr_right ⟨fun heq c hc => (hcompare c hc).2.mp ?_, fun hnot => ?_⟩
    · by_contra hne
      refine heq.not_lt (List.sum_lt_sum _ _ (fun c hc => (hcompare c hc).1) ⟨c, hc, ?_⟩)
      exact lt_of_le_of_ne (hcompare c hc).1 hne
    · exact congrArg List.sum (List.map_congr_left fun c hc => (hcompare c hc).2.mpr (hnot c hc))

end Penalty

/-! A line with two thresholds and a cable with one have carried 80 MW and 40 MW. Where both carry
more in the same direction, the least penalty is the cost of monitored elements. Where the flow on
the line turns and is 120 MW the other way, its margin has fallen by 40 MW only, which is accepted,
but the problem still has it pay for 20 MW. -/

namespace MonitoredLines

/-- A line with two thresholds. -/
def line : Cnec ℚ :=
  { id := "line", element := "line", lower := some (-100), upper := some 100, voltage := 400 }

/-- A cable with one threshold. -/
def cable : Cnec ℚ := { id := "cable", element := "cable", upper := some 50, voltage := 400 }

/-- Both of them. -/
def elements : List (Cnec ℚ) := [line, cable]

/-- The usual penalty. -/
def parameters : MnecParameters ℚ := .default

/-- The flows before the optimisation. -/
def initial : Flows ℚ := { flows := Table.ofPairs [("line", 80), ("cable", 40)] }

/-- An objective that pays for the elements. -/
def objective : MarginObjective ℚ where
  optimized := []
  monitored := elements
  failureCost := 10000
  mnec := some ⟨initial, 50, 10⟩

/-- A problem with the flows of the elements. -/
def flowsOnly : LinearProblem ℚ where
  columns := elements.map fun c => ⟨.flow c.id, .negInf, .posInf, .continuous⟩
  solver := .microlp

/-- Flows, and their values by number. -/
def flows (line cable : ℚ) : Flows ℚ :=
  { flows := Table.ofPairs [("line", line), ("cable", cable)] }

@[inherit_doc flows]
def values (line cable : ℚ) (v : VariableId) : ℚ := [line, cable].getD v 0

/-- The flows before the optimisation, by element. -/
def before (c : Cnec ℚ) : ℚ := initial.flows[c.id]?.getD 0

theorem awaits : Margin.Awaits flowsOnly elements .mnecViolation :=
  ⟨by decide, fun _ _ _ => rfl⟩

theorem initial_known : ∀ c ∈ elements, initial.megawatts c.id = .ok (before c) := by
  have hknown : ∀ c ∈ elements, initial.flows[c.id]? = some (before c) := by decide +kernel
  exact fun c hc => Flows.megawatts_eq (hknown c hc)

theorem penalty_is_cost :
    ∃ q, Succeeds ((Penalty.monitoredPart parameters elements initial .megawatt).fill
        ⟨initial, {}, ⟨{}, {}⟩⟩) flowsOnly ⟨⟩ q ∧
      IsLeast (q.valuesSince flowsOnly elements (values 140 95)
        (Penalty.penaltyAt q elements)) 150 ∧
      (objective.evaluate (flows 140 95) ⟨{}, {}⟩ {} .success).virtualPart
        MarginObjective.mnecPart = 150 := by
  have hflows : ∀ c ∈ elements, (flows 140 95).flows[c.id]? =
      some (flowsOnly.valueOf (values 140 95) (.flow c.id)) := by decide +kernel
  obtain ⟨q, hq, hall⟩ := Penalty.penalty_and_cost (p := flowsOnly) parameters rfl (by decide)
    objective initial rfl (by decide) (by decide) (by decide) initial_known (by decide +kernel)
    (by decide) awaits ⟨initial, {}, ⟨{}, {}⟩⟩
  obtain ⟨-, penalty, hleast, hcost⟩ := hall (values 140 95) (flows 140 95)
    (fun c hc => Flows.megawatts_eq (hflows c hc)) (by decide +kernel)
  have hpaid : (objective.evaluate (flows 140 95) ⟨{}, {}⟩ {} .success).virtualPart
      MarginObjective.mnecPart = 150 := by
    rw [Penalty.cost_of_violations parameters objective rfl]
    decide +kernel
  have hsame := (hcost ⟨{}, {}⟩ {} .success).2.mpr (.inr (by decide +kernel))
  refine ⟨q, hq, ?_, hpaid⟩
  rw [← hpaid, hsame]
  exact hleast

/-- The flow on the line turns: the problem has it pay, and the objective does not. -/
theorem penalty_without_cost :
    ∃ q, Succeeds ((Penalty.monitoredPart parameters elements initial .megawatt).fill
        ⟨initial, {}, ⟨{}, {}⟩⟩) flowsOnly ⟨⟩ q ∧
      IsLeast (q.valuesSince flowsOnly elements (values (-120) 40)
        (q.valueOf · (.mnecViolation "line"))) 20 ∧
      IsLeast (q.valuesSince flowsOnly elements (values (-120) 40)
        (Penalty.penaltyAt q elements)) 200 ∧
      objective.violations ⟨initial, 50, 10⟩ (flows (-120) 40) = [] ∧
      (objective.evaluate (flows (-120) 40) ⟨{}, {}⟩ {} .success).virtualPart
        MarginObjective.mnecPart = 0 := by
  obtain ⟨q, hq⟩ : ∃ q, Succeeds ((Penalty.monitoredPart parameters elements initial .megawatt).fill
      ⟨initial, {}, ⟨{}, {}⟩⟩) flowsOnly ⟨⟩ q :=
    Penalty.exists_succeeds_monitoredPart (by decide) initial_known (by decide) awaits
  obtain ⟨⟨y, hsame, hmeets, hexcess⟩, hleast⟩ := Penalty.exists_least_excesses (by decide)
    initial_known awaits hq (values (-120) 40)
  have hline : Penalty.leastExcess parameters line (before line)
      (flowsOnly.valueOf (values (-120) 40) (.flow line.id)) = 20 := by decide +kernel
  have htotal : (elements.map fun c => Penalty.leastExcess parameters c (before c)
      (flowsOnly.valueOf (values (-120) 40) (.flow c.id))).sum *
        parameters.violationCost = 200 := by
    decide +kernel
  refine ⟨q, hq, ⟨⟨y, hsame, hmeets, ?_⟩, ?_⟩, ?_, ?_, ?_⟩
  · exact (hexcess line List.mem_cons_self).trans hline
  · rintro _ ⟨z, hz, hkeeps, rfl⟩
    exact hline.ge.trans (hleast z hz hkeeps line List.mem_cons_self)
  · rw [← htotal]
    exact Penalty.isLeast_penaltyAt (by decide) (by decide) initial_known awaits hq _
  · decide +kernel
  · rw [Penalty.cost_of_violations parameters objective rfl]
    decide +kernel

end MonitoredLines

end GridRelief
