import GridRelief.Proofs.Formulation.Conditions

/-!
# Rows of smallest margins by their names

The rows of a smallest margin say that the flow of an element keeps a multiple of it as its distance
from both thresholds. For an element that counts under a condition they are relaxed, and while its
variable is zero the flow may come nearer to the thresholds by the slack.

* `Margin.statement`: what a row of a smallest margin states.
* `Margin.shows_absolutePart`, `Margin.shows_relativePart`: the rows that the parts leave.
* `Conditional.marginRows_hold_iff`: what they say once conditions have been written.
* `Cnec.SpansZero`: the thresholds of an element are on either side of zero.
-/

namespace GridRelief

open LinearProblem Writing

variable {K : Type} [ExactScalar K]

/-! ### Margins of elements with both thresholds -/

namespace Cnec

variable {c : Cnec K} {cnecs : List (Cnec K)} {flow distance reach : K}

/-- The element has both thresholds, on either side of zero. -/
def SpansZero (c : Cnec K) : Prop := (∃ lower ∈ c.lower, lower ≤ 0) ∧ ∃ upper ∈ c.upper, 0 ≤ upper

instance (c : Cnec K) : Decidable c.SpansZero :=
  inferInstanceAs (Decidable ((∃ lower ∈ c.lower, lower ≤ 0) ∧ ∃ upper ∈ c.upper, 0 ≤ upper))

/-- An element keeps a distance if and only if it is its margin or less. -/
theorem SpansZero.keepsDistance_iff (h : c.SpansZero) :
    c.KeepsDistance flow distance ↔ distance ≤ c.margin flow .megawatt := by
  obtain ⟨⟨lower, hlower, -⟩, upper, hupper, -⟩ := h
  rw [margin_megawatt, distance_of_both hlower hupper, le_min_iff]
  unfold KeepsDistance
  simp only [Option.mem_def.mp hlower, Option.mem_def.mp hupper, Option.some.injEq, forall_eq']

theorem SpansZero.lower_nonpos (h : c.SpansZero) : c.lower.getD 0 ≤ 0 := by
  obtain ⟨⟨lower, hlower, hnegative⟩, -⟩ := h
  rwa [Option.mem_def.mp hlower]

theorem SpansZero.upper_nonneg (h : c.SpansZero) : 0 ≤ c.upper.getD 0 := by
  obtain ⟨-, upper, hupper, hpositive⟩ := h
  rwa [Option.mem_def.mp hupper]

/-- The margin is the distance to the nearer one of both thresholds. -/
theorem SpansZero.margin_eq (h : c.SpansZero) (flow : K) :
    c.margin flow .megawatt = min (flow - c.lower.getD 0) (c.upper.getD 0 - flow) := by
  obtain ⟨⟨lower, hlower, -⟩, upper, hupper, -⟩ := h
  rw [margin_megawatt, distance_of_both hlower hupper, Option.mem_def.mp hlower,
    Option.mem_def.mp hupper, Option.getD_some, Option.getD_some]

theorem SpansZero.largestThreshold_eq (h : c.SpansZero) :
    c.largestThreshold = max (-c.lower.getD 0) (c.upper.getD 0) := by
  obtain ⟨⟨lower, hlower, hnegative⟩, upper, hupper, hpositive⟩ := h
  unfold Cnec.largestThreshold
  rw [Option.mem_def.mp hlower, Option.mem_def.mp hupper]
  simp only [Option.map_some, Option.getD_some, ExactScalar.abs_eq, ExactScalar.max_eq,
    abs_of_nonneg hpositive, abs_of_nonpos hnegative]

/-- A margin is not greater than the larger absolute threshold. -/
theorem SpansZero.margin_le (h : c.SpansZero) : c.margin flow .megawatt ≤ c.largestThreshold := by
  rw [h.margin_eq, h.largestThreshold_eq]
  rcases le_total flow 0 with hflow | hflow
  · have hside : flow - c.lower.getD 0 ≤ -c.lower.getD 0 := by linarith only [hflow]
    exact (min_le_left _ _).trans (hside.trans (le_max_left _ _))
  · have hside : c.upper.getD 0 - flow ≤ c.upper.getD 0 := by linarith only [hflow]
    exact (min_le_right _ _).trans (hside.trans (le_max_right _ _))

/-- A margin is not below zero by more than the flow. -/
theorem SpansZero.neg_le_margin (h : c.SpansZero) (hflow : |flow| ≤ reach) :
    -reach ≤ c.margin flow .megawatt := by
  obtain ⟨hleast, hgreatest⟩ := abs_le.mp hflow
  have hlower := h.lower_nonpos
  have hupper := h.upper_nonneg
  rw [h.margin_eq, le_min_iff]
  constructor <;> linarith only [hleast, hgreatest, hlower, hupper]

/-- No threshold of an element is further from zero than the largest one. -/
theorem largestThreshold_le_of_mem (hc : c ∈ cnecs) :
    c.largestThreshold ≤ GridRelief.largestThreshold cnecs :=
  (le_foldl_max _ _).2 _ (List.mem_map.mpr ⟨c, hc, rfl⟩)

theorem largestThreshold_nonneg (cnecs : List (Cnec K)) : 0 ≤ GridRelief.largestThreshold cnecs :=
  (le_foldl_max _ _).1

end Cnec

/-! ### Statements -/

namespace Margin

variable {c : Cnec K} {cnecs : List (Cnec K)} {key : VariableKey} {value : K}
  {name : String → ThresholdSide → RowKey} {factor : Cnec K → K} {p q s t : LinearProblem K}
  {margin : VariableId} {u : PUnit} {unit : FlowUnit} {point : Linearization K}

/-- What the row of a smallest margin states on the side of a threshold. -/
def statement (c : Cnec K) (key : VariableKey) (factor : K) : ThresholdSide → Option (Statement K)
  | .below => c.lower.map fun lower =>
      ⟨.negInf, .ofScalar (-lower), [(.flow c.id, -1), (key, factor)]⟩
  | .above => c.upper.map fun upper =>
      ⟨.negInf, .ofScalar upper, [(.flow c.id, 1), (key, factor)]⟩

/-- The rows of a smallest margin hold where the flow keeps it, times the factor, as its distance.
-/
theorem statements_hold_iff {factor : K} {y : VariableKey → K} :
    (∀ side, ∀ stated ∈ statement c key factor side, stated.HoldsAt y) ↔
      c.KeepsDistance (y (.flow c.id)) (factor * y key) := by
  rw [ThresholdSide.forall_iff]
  simp only [statement, Option.mem_map, forall_exists_index, and_imp, forall_apply_eq_imp_iff₂,
    Statement.holdsAt_upper_iff, List.map_cons, List.map_nil, List.sum_cons, List.sum_nil]
  unfold Cnec.KeepsDistance
  refine and_congr (forall₂_congr fun lower _ => ?_) (forall₂_congr fun upper _ => ?_)
  · constructor <;> intro h <;> linarith only [h]
  · constructor <;> intro h <;> linarith only [h]

/-- Where they are relaxed, the distance may be smaller by the slack while a variable is zero. -/
theorem relaxed_hold_iff {factor slack : K} {counts : VariableKey} {y : VariableKey → K} :
    (∀ side, ∀ stated ∈ (statement c key factor side).map (·.relax counts slack),
        stated.HoldsAt y) ↔
      c.KeepsDistance (y (.flow c.id)) (factor * y key - slack * (1 - y counts)) := by
  rw [ThresholdSide.forall_iff]
  simp only [statement, Option.map_map, Option.mem_map, Function.comp_apply, forall_exists_index,
    and_imp, forall_apply_eq_imp_iff₂, Statement.relax, Bound.ofScalar_eq, Bound.shift,
    Statement.HoldsAt, within, true_and, List.map_append, List.map_cons, List.map_nil,
    List.sum_append, List.sum_cons, List.sum_nil]
  unfold Cnec.KeepsDistance
  refine and_congr (forall₂_congr fun lower _ => ?_) (forall₂_congr fun upper _ => ?_)
  · constructor <;> intro h <;> linarith only [h]
  · constructor <;> intro h <;> linarith only [h]

/-! ### Rows -/

theorem continues_writeRows (h : Succeeds (writeRows cnecs margin name factor) p u q) :
    p.Continues (fun row => ∃ c ∈ cnecs, ∃ side, row = name c.id side) q ∧
      q.columns = p.columns := by
  refine h.forM_induction (P := fun s => p.Continues
    (fun row => ∃ c ∈ cnecs, ∃ side, row = name c.id side) s ∧ s.columns = p.columns) ?_
    ⟨.refl p, rfl⟩
  rintro c hc s t ⟨hs, hcolumns⟩ ht
  simp only [succeeds_bind_iff, succeeds_requireVariable_iff] at ht
  obtain ⟨_, _, ⟨-, rfl⟩, _, r, hlower, hupper⟩ := ht
  obtain ⟨hsr, hr⟩ := continues_addRow_option hlower
  obtain ⟨hrt, ht⟩ := continues_addRow_option hupper
  refine ⟨hs.trans ((hsr.mono ?_).trans (hrt.mono ?_)), ht.trans (hr.trans hcolumns)⟩
  · exact fun row hrow => ⟨c, hc, .below, hrow⟩
  · exact fun row hrow => ⟨c, hc, .above, hrow⟩

/-- The rows of one element. -/
theorem shows_writeRows_singleton (hname : Function.Injective2 name) (hmargin : s.HasVariable key)
    (hkey : ∀ id, key ≠ .flow id) (hfresh : ∀ side, s.rowId? (name c.id side) = none)
    (h : Succeeds (writeRows [c] (s.number key) name factor) s u t) :
    ∀ side, t.Shows (name c.id side) (statement c key (factor c) side) := by
  have hone := succeeds_forM_singleton_iff.mp h
  simp only [succeeds_bind_iff, succeeds_requireVariable_iff] at hone
  obtain ⟨flow, _, ⟨hflow, rfl⟩, _, r, hlower, hupper⟩ := hone
  obtain ⟨hvariable, rfl⟩ := hasVariable_of_variableId? hflow
  have hsides : name c.id .above ≠ name c.id .below := by
    intro heq
    cases (hname heq).2
  obtain ⟨hsr, -⟩ := continues_addRow_option hlower
  obtain ⟨hrt, -⟩ := continues_addRow_option hupper
  have habout : ∀ (lower upper : Bound K) sign,
      Statement.IsAbout ⟨lower, upper, [(.flow c.id, sign), (key, factor c)]⟩ s := fun _ _ _ =>
    ⟨List.forall_mem_cons.mpr ⟨hvariable, List.forall_mem_singleton.mpr hmargin⟩,
      by simpa using (hkey c.id).symm⟩
  have hbelow : r.Shows (name c.id .below) (statement c key (factor c) .below) :=
    shows_addRow_option (hfresh .below) (fun _ => habout _ _ _) (.refl s) rfl hlower
  have habove : t.Shows (name c.id .above) (statement c key (factor c) .above) :=
    shows_addRow_option (hsr.rowId?_eq_none hsides (hfresh .above)) (fun _ => habout _ _ _)
      hsr.grows rfl hupper
  rintro (_ | _)
  · exact hbelow.of_continues hrt hsides.symm
  · exact habove

/-- The rows of different elements do not touch each other. -/
theorem shows_writeRows (hids : (cnecs.map Cnec.id).Nodup) (hname : Function.Injective2 name)
    (hmargin : p.HasVariable key) (hkey : ∀ id, key ≠ .flow id)
    (hfresh : ∀ c ∈ cnecs, ∀ side, p.rowId? (name c.id side) = none)
    (h : Succeeds (writeRows cnecs (p.number key) name factor) p u q) :
    ∀ c ∈ cnecs, ∀ side, q.Shows (name c.id side) (statement c key (factor c) side) := by
  intro c hc side
  have hone : ∀ c s t, Succeeds (writeRows [c] (p.number key) name factor) s ⟨⟩ t →
      s.Continues (fun row => ∃ side, row = name c.id side) t := by
    intro c s t ht
    simpa using (continues_writeRows ht).1
  obtain ⟨s, t, hs, hturn, ht⟩ := exists_turn h hids
    (fun c _ s t ht => hone c s t (succeeds_forM_singleton_iff.mpr ht)) hc
  have hapart : ∀ side, ¬∃ other ∈ cnecs, other.id ≠ c.id ∧
      ∃ side', name c.id side = name other.id side' := by
    rintro side ⟨other, -, hne, side', heq⟩
    exact hne (hname heq).1.symm
  obtain ⟨hvariable, hnumber⟩ := hmargin.of_extends hs.grows
  rw [← hnumber] at hturn
  have hrows : Succeeds (writeRows [c] (s.number key) name factor) s ⟨⟩ t :=
    succeeds_forM_singleton_iff.mpr hturn
  have hshown := shows_writeRows_singleton hname hvariable hkey
    (fun side => hs.rowId?_eq_none (hapart side) (hfresh c hc side)) hrows
  exact (hshown side).of_continues ht (hapart side)

/-! ### Parts -/

/-- What the smallest margin leaves: its variable, and the rows of the elements. -/
theorem shows_absolutePart (hids : (cnecs.map Cnec.id).Nodup)
    (hfresh : ∀ c ∈ cnecs, ∀ side, p.rowId? (.minimumMargin c.id side) = none)
    (h : Succeeds ((absolutePart cnecs unit).fill point) p u q) :
    p.Continues (fun row => ∃ c ∈ cnecs, ∃ side, row = .minimumMargin c.id side) q ∧
      q.columns = p.columns ++ [⟨.minimumMargin, .negInf, .posInf, .continuous⟩] ∧
      ∀ c ∈ cnecs, ∀ side, q.Shows (.minimumMargin c.id side)
        (statement c .minimumMargin (1 / c.conversion unit) side) := by
  unfold absolutePart writeAbsoluteRows at h
  simp only [succeeds_bind_iff] at h
  obtain ⟨margin, s, hmargin, _, r, hrows, hobjective⟩ := h
  obtain ⟨hdeclares, rfl⟩ := declares_of_addVariable hmargin
  have hps : p.Continues (fun _ => False) s := continues_addVariable hmargin
  obtain ⟨hsr, hr⟩ := continues_writeRows hrows
  have hrq : r.Continues (fun _ => False) q := continues_setObjective hobjective
  obtain ⟨-, -, hs⟩ := succeeds_addVariable hmargin
  rw [Writing.setObjective, succeeds_modify_iff] at hobjective
  have hq : q.columns = r.columns := hobjective ▸ rfl
  refine ⟨hps.of_untouched.trans (hsr.trans hrq.of_untouched), by rw [hq, hr, hs],
    fun c hc side => ?_⟩
  have hshown := shows_writeRows hids (fun _ _ _ _ heq => by cases heq; exact ⟨rfl, rfl⟩)
    hdeclares.hasVariable (by simp)
    (fun c hc side => hps.rowId?_eq_none not_false (hfresh c hc side)) hrows c hc side
  exact hshown.of_continues hrq not_false

/-- What both smallest margins leave: their variables, and among others the rows of the smallest
relative margin. -/
theorem shows_relativePart {initial : Flows K} {floor : K} (hids : (cnecs.map Cnec.id).Nodup)
    (hfresh : ∀ c ∈ cnecs, ∀ side, p.rowId? (.minimumRelativeMargin c.id side) = none)
    (h : Succeeds ((relativePart cnecs initial unit floor).fill point) p u q) :
    p.Continues (fun row => ∃ c ∈ cnecs, ∃ side, row = .minimumMargin c.id side ∨
        row = .minimumRelativeMargin c.id side) q ∧
      q.columns = p.columns ++ [⟨.minimumMargin, .negInf, .finite 0, .continuous⟩,
        ⟨.minimumRelativeMargin, .negInf, .ofScalar (largestRelativeMargin cnecs unit floor),
          .continuous⟩] ∧
      ∀ c ∈ cnecs, ∀ side, q.Shows (.minimumRelativeMargin c.id side)
        (statement c .minimumRelativeMargin (zonalSum initial floor c / c.conversion unit)
          side) := by
  unfold relativePart writeAbsoluteRows at h
  simp only [succeeds_bind_iff] at h
  obtain ⟨margin, a, hmargin, relative, b, hrelative, _, r, hrows, _, s, hrelativeRows, _, t,
    hobjective, hrelativeObjective⟩ := h
  obtain ⟨hdeclares, rfl⟩ := declares_of_addVariable hrelative
  have hpa : p.Continues (fun _ => False) a := continues_addVariable hmargin
  have hab : a.Continues (fun _ => False) b := continues_addVariable hrelative
  obtain ⟨hbr, hr⟩ := continues_writeRows hrows
  obtain ⟨hrs, hs⟩ := continues_writeRows hrelativeRows
  have hst : s.Continues (fun _ => False) t := continues_setObjective hobjective
  have htq : t.Continues (fun _ => False) q := continues_setObjective hrelativeObjective
  obtain ⟨-, -, ha⟩ := succeeds_addVariable hmargin
  obtain ⟨-, -, hb⟩ := succeeds_addVariable hrelative
  rw [Writing.setObjective, succeeds_modify_iff] at hobjective hrelativeObjective
  have hq : q.columns = s.columns := by
    rw [← hrelativeObjective, ← hobjective]
    rfl
  refine ⟨?_, by rw [hq, hs, hr, hb, ha, List.append_assoc]; rfl, fun c hc side => ?_⟩
  · refine hpa.of_untouched.trans (hab.of_untouched.trans ((hbr.mono ?_).trans
      ((hrs.mono ?_).trans (hst.of_untouched.trans htq.of_untouched))))
    · rintro row ⟨c, hc, side, hrow⟩
      exact ⟨c, hc, side, .inl hrow⟩
    · rintro row ⟨c, hc, side, hrow⟩
      exact ⟨c, hc, side, .inr hrow⟩
  · obtain ⟨hvariable, hnumber⟩ := hdeclares.hasVariable.of_extends hbr.grows
    rw [← hnumber] at hrelativeRows
    have hnew : ∀ c ∈ cnecs, ∀ side, r.rowId? (.minimumRelativeMargin c.id side) = none :=
      fun c hc side => hbr.rowId?_eq_none (by simp)
        (hab.rowId?_eq_none not_false (hpa.rowId?_eq_none not_false (hfresh c hc side)))
    have hshown := shows_writeRows hids (fun _ _ _ _ heq => by cases heq; exact ⟨rfl, rfl⟩)
      hvariable (by simp) hnew hrelativeRows c hc side
    exact (hshown.of_continues hst not_false).of_continues htq not_false

end Margin

/-! ### Rows of elements that count under a condition -/

namespace Conditional

variable {cnecs : List (Cnec K)} {rangeActions : List (RangeAction K)} {initial : Flows K}
  {parameters : UnoptimizedParameters K} {c : Cnec K} {p q : LinearProblem K} {u : PUnit}
  {point : Linearization K} {name : String → ThresholdSide → RowKey} {key : VariableKey}
  {factor : Cnec K → K}

/-- The usual slacks are multiples of the largest threshold. -/
theorem slacks_of_default (cnecs : List (Cnec K)) (rangeActions : List (RangeAction K))
    (initial : Flows K) (hrelaxation : parameters.relaxation = .default) :
    (ofParameters cnecs rangeActions initial parameters).conditionSlack =
      20 * largestThreshold cnecs ∧
    (ofParameters cnecs rangeActions initial parameters).marginSlack =
      2 * largestThreshold cnecs := by
  change parameters.relaxation.marginDecrease * _ = _ ∧ parameters.relaxation.minimumMargin * _ = _
  rw [hrelaxation]
  unfold Relaxation.default
  rw [ExactScalar.ofInt_eq, ExactScalar.ofInt_eq]
  push_cast
  exact ⟨rfl, rfl⟩

omit [ExactScalar K] in
/-- The rows of an element that counts always are not touched. -/
theorem not_isOf_of_condition?_eq_none [Scalar K] {rowKey : RowKey}
    (hids : (cnecs.map Cnec.id).Nodup) (hc : c ∈ cnecs)
    (hnone : condition? rangeActions parameters c = none) (hrow : rowKey.IsOf c.id) :
    ¬∃ entry ∈ (ofParameters cnecs rangeActions initial parameters).cnecs,
      rowKey.IsOf entry.1.id := by
  rintro ⟨entry, hentry, hother⟩
  obtain ⟨hmem, hcondition⟩ := mem_ofParameters_iff.mp hentry
  obtain rfl := List.inj_on_of_nodup_map hids hc hmem (eq_of_isOf hrow hother)
  rw [hnone] at hcondition
  cases hcondition

/-- The rows of a smallest margin once conditions have been written. For an element that counts
always they say what they said, and for another one they let the distance be smaller by the slack
while its variable is zero. -/
theorem marginRows_hold_iff (hids : (cnecs.map Cnec.id).Nodup)
    (hname : ∀ id side, name id side ∈ marginKeys id) (hkey : ∀ id, key ≠ .optimizeCnec id)
    (hrows : ∀ c ∈ cnecs, ∀ side,
      p.Shows (name c.id side) (Margin.statement c key (factor c) side))
    (hnew : ∀ entry ∈ (ofParameters cnecs rangeActions initial parameters).cnecs, ∀ side,
      p.rowId? (.dontOptimizeCnec entry.1.id side) = none)
    (h : Succeeds ((ofParameters cnecs rangeActions initial parameters).part.fill point) p u q)
    (hc : c ∈ cnecs) (x : VariableId → K) :
    (condition? rangeActions parameters c = none →
      ((∀ side, q.RowHolds x (name c.id side)) ↔
        c.KeepsDistance (q.valueOf x (.flow c.id)) (factor c * q.valueOf x key))) ∧
    ∀ condition, condition? rangeActions parameters c = some condition →
      ((∀ side, q.RowHolds x (name c.id side)) ↔
        c.KeepsDistance (q.valueOf x (.flow c.id)) (factor c * q.valueOf x key -
          (ofParameters cnecs rangeActions initial parameters).marginSlack *
            (1 - q.valueOf x (.optimizeCnec c.id)))) := by
  obtain ⟨hq, -, -, hrelaxed⟩ := succeeds_fill (nodup_ofParameters hids) hnew h
  refine ⟨fun hnone => ?_, fun condition hcondition => ?_⟩
  · rw [← Margin.statements_hold_iff]
    refine forall_congr' fun side => Shows.rowHolds_iff ?_
    exact (hrows c hc side).of_continues hq
      (not_isOf_of_condition?_eq_none hids hc hnone (isOf_of_mem_marginKeys (hname c.id side)))
  · have hentry : (c, condition) ∈ (ofParameters cnecs rangeActions initial parameters).cnecs :=
      mem_ofParameters_iff.mpr ⟨hc, hcondition⟩
    rw [← Margin.relaxed_hold_iff]
    refine forall_congr' fun side => Shows.rowHolds_iff ?_
    refine hrelaxed _ hentry _ (hname c.id side) _ (hrows c hc side) ?_
    cases side <;> simp [Margin.statement, (hkey _).symm]

end Conditional

end GridRelief
