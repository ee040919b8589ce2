import GridRelief.Proofs.Actions
import GridRelief.Proofs.Formulation.Setpoints

/-!
# What limits on use force

The binary variable of a range action is one if the set-point is farther from the one before the
optimisation than a slack, since the row of the variable bounds the distance by the slack
otherwise. The rows of the limits bound sums of these variables. So the range actions whose
set-points are farther away than their slacks keep the budget, whatever linearisations follow.

* `UsageBudget.Covers`: range actions keep a budget.
* `Usage.shifted`: the range actions whose set-points are farther away than their slacks.
* `Usage.forces_of_writeCount`, `Usage.forces_of_writeMaxTso`: what single limits force.
* `Formulation.forces_covers`: the range actions keep the budget of a formulation.
-/

namespace GridRelief

open LinearProblem Writing

variable {K : Type}

/-! ### Budgets -/

/-- Range actions keep a budget. -/
structure UsageBudget.Covers (b : UsageBudget) (moved : List (RangeAction K)) : Prop where
  total : ∀ most, b.maxRa = some most → moved.length ≤ most
  operators : ∀ most, b.maxTso = some most →
    (NameSet.ofNames ((moved.filterMap RangeAction.operator).filter fun operator =>
      !b.involved.contains operator)).size ≤ most
  perOperator : ∀ operator most, b.maxRaPerTso[operator]? = some most →
    (moved.filter (·.operator == some operator)).length ≤ most
  shifters : ∀ operator most, b.maxPstPerTso[operator]? = some most →
    ((moved.filter (·.operator == some operator)).filter RangeAction.isPst).length ≤ most

namespace UsageBudget

/-- Fewer range actions keep a budget. -/
theorem Covers.of_subperm {b : UsageBudget} {small large : List (RangeAction K)}
    (h : b.Covers large) (hsub : small.Subperm large) : b.Covers small := by
  constructor
  · intro most hmost
    exact hsub.length_le.trans (h.total most hmost)
  · intro most hmost
    refine (NameSet.size_le_of_subset fun operator ho => ?_).trans (h.operators most hmost)
    rw [NameSet.mem_ofNames, List.mem_filter, List.mem_filterMap] at ho ⊢
    obtain ⟨⟨r, hr, hoperator⟩, hfurther⟩ := ho
    exact ⟨⟨r, hsub.subset hr, hoperator⟩, hfurther⟩
  · intro operator most hmost
    exact (hsub.filter _).length_le.trans (h.perOperator operator most hmost)
  · intro operator most hmost
    exact ((hsub.filter _).filter _).length_le.trans (h.shifters operator most hmost)

theorem eq_none_of_not_isLimited {budget : UsageBudget} (h : ¬budget.isLimited) :
    budget.maxRa = none ∧ budget.maxTso = none ∧ budget.maxRaPerTso = ∅ ∧
      budget.maxPstPerTso = ∅ ∧ budget.maxElementaryPerTso = ∅ := by
  unfold isLimited at h
  simp only [Bool.or_eq_true, Option.isSome_iff_ne_none, Bool.not_eq_true', not_or, ne_eq,
    Classical.not_not, Bool.not_eq_false, Std.ExtTreeMap.isEmpty_iff] at h
  obtain ⟨⟨⟨⟨hmaxRa, hmaxTso⟩, hperTso⟩, hpst⟩, helementary⟩ := h
  exact ⟨hmaxRa, hmaxTso, hperTso, hpst, helementary⟩

/-- What is not limited is kept. -/
theorem covers_of_not_isLimited {budget : UsageBudget} (h : ¬budget.isLimited)
    (moved : List (RangeAction K)) : budget.Covers moved := by
  obtain ⟨hmaxRa, hmaxTso, hperTso, hpst, -⟩ := eq_none_of_not_isLimited h
  constructor
  · intro most hmost
    rw [hmaxRa] at hmost
    cases hmost
  · intro most hmost
    rw [hmaxTso] at hmost
    cases hmost
  · intro operator most hmost
    rw [hperTso] at hmost
    simp at hmost
  · intro operator most hmost
    rw [hpst] at hmost
    simp at hmost

end UsageBudget

/-- Numbers that are not negative sum up to at least the number of those that are one. -/
theorem length_filter_le_sum {α : Type} [ExactScalar K]
    (f : α → K) (chosen : α → Bool) (xs : List α) (hnonneg : ∀ a ∈ xs, 0 ≤ f a)
    (hone : ∀ a ∈ xs, chosen a = true → 1 ≤ f a) :
    ((xs.filter chosen).length : K) ≤ (xs.map f).sum := by
  induction xs with
  | nil => simp
  | cons a xs ih =>
    have hrest := ih (fun b hb => hnonneg b (List.mem_cons_of_mem _ hb))
      fun b hb => hone b (List.mem_cons_of_mem _ hb)
    rw [List.map_cons, List.sum_cons]
    by_cases ha : chosen a = true
    · have hfirst := hone a List.mem_cons_self ha
      rw [List.filter_cons_of_pos ha, List.length_cons, Nat.cast_succ]
      linarith only [hrest, hfirst]
    · have hfirst := hnonneg a List.mem_cons_self
      rw [List.filter_cons_of_neg ha]
      linarith only [hrest, hfirst]

/-- A row that counts variables limits their sum. -/
theorem forces_count {α : Type} [ExactScalar K] {touched : RowKey → Prop} {p : LinearProblem K}
    {key : RowKey} {limit : Nat} {xs : List α} {variableOf : α → VariableKey}
    (hrow : ⟨key, .finite 0, .finite (Scalar.ofInt limit), p.formOf (xs.map fun a =>
      (variableOf a, 1))⟩ ∈ p.rows)
    (hkey : ¬touched key) (hvariables : ∀ a ∈ xs, p.HasVariable (variableOf a))
    (hnodup : (xs.map variableOf).Nodup) :
    p.Forces touched fun y => (xs.map fun a => y (variableOf a)).sum ≤ (limit : K) := by
  intro later hlater x hx
  have hbound := forces_upper hrow hkey (List.forall_mem_map.mpr hvariables)
    (by rwa [List.map_map]) later hlater x hx
  simp only [List.map_map, Function.comp_def, one_mul, ExactScalar.ofInt_eq, Int.cast_natCast]
    at hbound
  exact hbound

/-- Setting a coefficient in a row that counts variables counts one more. -/
theorem rows_getElem?_count {α : Type} [Scalar K] {touched : RowKey → Prop} {p q : LinearProblem K}
    {key : RowKey} {limit : Nat} {row : RowId} {counted : List α} {variableOf : α → VariableKey}
    (hrow : p.rows[row]? = some ⟨key, .finite 0, .finite (Scalar.ofInt limit),
      p.formOf (counted.map fun a => (variableOf a, 1))⟩)
    (hvariables : ∀ a ∈ counted, p.HasVariable (variableOf a)) (hgrows : p.Extends touched q)
    (hkey : ¬touched key) (a : α) :
    (q.setCoefficient row (q.number (variableOf a)) 1).rows[row]? =
      some ⟨key, .finite 0, .finite (Scalar.ofInt limit),
        q.formOf ((counted ++ [a]).map fun a => (variableOf a, 1))⟩ := by
  rw [List.map_append, List.map_singleton, formOf_append,
    formOf_of_extends (List.forall_mem_map.mpr hvariables) hgrows]
  exact rows_getElem?_setCoefficient (hgrows.rows_getElem? hrow hkey) _ 1

namespace Usage

variable [ExactScalar K] {w : Usage K} {r : RangeAction K} {p q : LinearProblem K} {u : PUnit}

/-! ### Which range actions move -/

/-- Whether a set-point is farther from the one before the optimisation than the slack. -/
def isShifted (w : Usage K) (y : VariableKey → K) (r : RangeAction K) : Bool :=
  match w.initial.get r.id with
  | .ok reference => decide (w.slack r < |y (.setpoint r.id) - reference|)
  | .error _ => false

/-- The range actions whose set-points are farther from the ones before the optimisation than their
slacks. -/
def shifted (w : Usage K) (y : VariableKey → K) : List (RangeAction K) :=
  w.rangeActions.filter (w.isShifted y)

/-- The variable of a range action is not negative, and one if its set-point is far away. -/
structure Indicates (w : Usage K) (y : VariableKey → K) (r : RangeAction K) : Prop where
  nonneg : 0 ≤ y (.variation r.id)
  one : w.isShifted y r = true → 1 ≤ y (.variation r.id)

/-- Once the distance of a range action is measured and its variable is written, the variable tells
whether the set-point is far away. -/
theorem indicates_of_writeMoves {m : Movement K} (hinitial : m.initial = w.initial)
    (hmeasures : m.Measures p r) (h : Succeeds (w.writeMoves r) p u q) :
    q.Forces RowKey.IsAdapted (w.Indicates · r) := by
  have hgrows : p.Extends RowKey.IsAdapted q := extends_writeMoves h
  obtain ⟨reference, hreference, hmeasured⟩ := hmeasures.forces
  unfold writeMoves addBinary at h
  simp only [succeeds_bind_iff, succeeds_requireVariable_iff, succeeds_ofExcept_iff,
    succeeds_pure_iff, Bound.ofScalar_eq] at h
  obtain ⟨_, s, hmoves, d, _, ⟨hd, rfl⟩, _, _, ⟨-, rfl⟩, _, t, hrow, -, rfl⟩ := h
  obtain ⟨hwritten, rfl⟩ := declares_of_addVariable hmoves
  have hst : s.Extends RowKey.IsAdapted t := extends_addRow hrow
  obtain ⟨hkept, rfl⟩ := hasVariable_of_variableId? hd
  have hvariables : ∀ c : K, ∀ term ∈ [(VariableKey.absoluteVariation r.id, 1),
      (.variation r.id, c)], s.HasVariable term.1 := by
    intro c term hterm
    simp only [List.mem_cons, List.not_mem_nil, or_false] at hterm
    rcases hterm with rfl | rfl
    · exact hkept
    · exact hwritten.hasVariable
  have hslack : t.Forces RowKey.IsAdapted _ :=
    forces_upper_of_addRow [(.absoluteVariation r.id, 1),
      (.variation r.id, -(r.max + tolerance - r.min))] (.refl s) (hvariables _) hrow id (by simp)
  intro later hlater x hx
  have hbinary := (hwritten.of_extends hst).forces_zero_or_one rfl rfl rfl later hlater x hx
  have hdistance := hmeasured later (hgrows.trans hlater) x hx
  have hbound := hslack later hlater x hx
  simp only [List.map_cons, List.map_nil, List.sum_cons, List.sum_nil, one_mul, add_zero] at hbound
  rcases hbinary with hzero | hone
  · refine ⟨hzero.ge, fun hshifted => ?_⟩
    -- a variable that is zero leaves the slack only
    unfold isShifted at hshifted
    rw [← hinitial, hreference, decide_eq_true_eq] at hshifted
    rw [hzero, mul_zero, add_zero] at hbound
    exact absurd (hdistance.trans hbound) (not_le.mpr hshifted)
  · exact ⟨by rw [hone]; exact zero_le_one, fun _ => hone.ge⟩

/-! ### Numbers of range actions -/

/-- The conditions under which counts are written: all variables tell whether set-points are far
away, and the names of range actions are different. -/
structure Written (w : Usage K) (p : LinearProblem K) : Prop where
  indicates : ∀ r ∈ w.rangeActions, p.Forces RowKey.IsAdapted (w.Indicates · r)
  nodup : (w.rangeActions.map RangeAction.id).Nodup

theorem Written.of_extends (h : w.Written p) (hgrows : p.Extends RowKey.IsAdapted q) :
    w.Written q :=
  ⟨fun r hr => (h.indicates r hr).of_extends hgrows, h.nodup⟩

/-- Once distances are measured and all variables are written, all tell whether set-points are far
away. -/
theorem written_of_forM {m : Movement K} (hinitial : m.initial = w.initial)
    (hmeasures : ∀ r ∈ w.rangeActions, m.Measures p r)
    (hnodup : (w.rangeActions.map RangeAction.id).Nodup)
    (h : Succeeds (w.rangeActions.forM w.writeMoves) p u q) : w.Written q := by
  refine ⟨(h.forM_each (P := fun s => ∀ r ∈ w.rangeActions, m.Measures s r)
    (Q := fun r s => s.Forces RowKey.IsAdapted (w.Indicates · r)) ?_ hmeasures).2.1, hnodup⟩
  intro r hr s t hs ht
  have hst : s.Extends RowKey.IsAdapted t := extends_writeMoves ht
  exact ⟨fun r' hr' => (hs r' hr').of_extends hst,
    indicates_of_writeMoves hinitial (hs r hr) ht, fun r' hr' => hr'.of_extends hst⟩

section Counts

variable (hwritten : w.Written p)
include hwritten

/-- A count of some range actions limits those of them whose set-points are far away. -/
theorem forces_of_writeCount {key : RowKey} {limit : Nat} (chosen : RangeAction K → Bool)
    (hkey : ¬key.IsAdapted)
    (h : Succeeds (writeCount key limit (w.rangeActions.filter chosen)) p u q) :
    q.Forces RowKey.IsAdapted fun y => ((w.shifted y).filter chosen).length ≤ limit := by
  have hgrows : p.Extends RowKey.IsAdapted q := extends_writeCount h
  obtain ⟨hvariables, hq⟩ := succeeds_writeCount h
  have hrow : ⟨key, .finite 0, .finite (Scalar.ofInt limit), q.formOf
      ((w.rangeActions.filter chosen).map fun r => (.variation r.id, 1))⟩ ∈ q.rows := by
    rw [formOf_of_extends (List.forall_mem_map.mpr hvariables) hgrows, hq]
    exact List.mem_append_right _ List.mem_cons_self
  have hlater : ∀ r ∈ w.rangeActions.filter chosen, q.HasVariable (.variation r.id) :=
    fun r hr => ((hvariables r hr).of_extends hgrows).1
  have hnodup : ((w.rangeActions.filter chosen).map
      fun r => VariableKey.variation r.id).Nodup := by
    have hsub : ((w.rangeActions.filter chosen).map RangeAction.id).Sublist
        (w.rangeActions.map RangeAction.id) := List.filter_sublist.map _
    have hkeys := (hsub.nodup hwritten.nodup).map fun _ _ => VariableKey.variation.inj
    rwa [List.map_map] at hkeys
  have hsum := forces_count hrow hkey hlater hnodup
  intro later hlater x hx
  have hbound := hsum later hlater x hx
  have hindicates : ∀ r ∈ w.rangeActions, w.Indicates (later.valueOf x) r := fun r hr =>
    hwritten.indicates r hr later (hgrows.trans hlater) x hx
  have hcount := length_filter_le_sum (fun r => later.valueOf x (.variation r.id))
    (w.isShifted (later.valueOf x)) (w.rangeActions.filter chosen)
    (fun r hr => (hindicates r (List.mem_of_mem_filter hr)).nonneg)
    fun r hr => (hindicates r (List.mem_of_mem_filter hr)).one
  rw [shifted, List.filter_comm]
  exact_mod_cast hcount.trans hbound

/-- The limit on the number of range actions limits those whose set-points are far away. -/
theorem forces_of_writeMaxRa {limit : Nat} (h : Succeeds (w.writeMaxRa limit) p u q) :
    q.Forces RowKey.IsAdapted fun y => (w.shifted y).length ≤ limit := by
  have hall : ∀ rangeActions : List (RangeAction K),
      rangeActions.filter (fun _ => true) = rangeActions := fun rangeActions =>
    List.filter_eq_self.mpr fun _ _ => rfl
  unfold writeMaxRa at h
  split at h
  · rw [← hall w.rangeActions] at h
    intro later hlater x hx
    have hcount : ((w.shifted (later.valueOf x)).filter fun _ => true).length ≤ limit :=
      forces_of_writeCount hwritten _ id h later hlater x hx
    rwa [hall] at hcount
  · next hlimit =>
    intro later _ x _
    exact (List.length_filter_le _ _).trans (not_lt.mp hlimit)

/-- A table of limits on numbers of some range actions of each operator. -/
theorem forces_of_writeCounts {key : String → RowKey} {limits : Table Nat}
    (chosen : String → RangeAction K → Bool) (hkey : ∀ operator, ¬(key operator).IsAdapted)
    (h : Succeeds (limits.toList.forM fun entry =>
      writeCount (key entry.1) entry.2 (w.rangeActions.filter (chosen entry.1))) p u q)
    {operator : String} {limit : Nat} (hlimit : limits[operator]? = some limit) :
    q.Forces RowKey.IsAdapted fun y =>
      ((w.shifted y).filter (chosen operator)).length ≤ limit := by
  have hall := h.forM_each (P := w.Written) (Q := fun entry s => s.Forces RowKey.IsAdapted fun y =>
    ((w.shifted y).filter (chosen entry.1)).length ≤ entry.2) ?_ hwritten
  · exact hall.2.1 _ (Std.ExtTreeMap.mem_toList_iff_getElem?_eq_some.mpr hlimit)
  · intro entry _ s t hs ht
    have hst : s.Extends RowKey.IsAdapted t := extends_writeCount ht
    exact ⟨hs.of_extends hst, forces_of_writeCount hs (chosen entry.1) (hkey entry.1) ht,
      fun other hother => hother.of_extends hst⟩

end Counts

/-! ### Numbers of operators -/

/-- What has been written about some of the operators: a row counts them, and each is involved as
far as its range actions move. -/
structure Counts (w : Usage K) (row : RowId) (limit : Nat) (operators : List String)
    (p : LinearProblem K) : Prop where
  row : p.rows[row]? = some ⟨.maxTso, .finite 0, .finite (Scalar.ofInt limit),
    p.formOf (operators.map fun operator => (.operatorUsed operator, 1))⟩
  declares : ∀ operator ∈ operators,
    p.Declares ⟨.operatorUsed operator, .finite 0, .finite 1, .continuous⟩
  involves : ∀ operator ∈ operators, ∀ r ∈ w.ofOperator operator,
    p.Forces (fun key => key.IsAdapted ∨ key = .maxTso) fun y =>
      y (.variation r.id) ≤ y (.operatorUsed operator)

variable {row : RowId} {limit : Nat} {operator : String} {operators : List String}

/-- Once the rows of an operator are written, it is involved as far as its range actions move. -/
theorem forces_of_involve {touched : RowKey → Prop}
    {rangeActions : List (RangeAction K)} (hused : p.HasVariable (.operatorUsed operator))
    (hkey : ∀ r, ¬touched (.operatorUsed operator r))
    (h : Succeeds (rangeActions.forM fun r => do
      let moves ← requireVariable (.variation r.id)
      let _ ← addRow (.operatorUsed operator r.id) (.finite 0) .posInf
        [(p.number (.operatorUsed operator), 1), (moves, -1)]) p u q) :
    ∀ r ∈ rangeActions, q.Forces touched fun y =>
      y (.variation r.id) ≤ y (.operatorUsed operator) := by
  refine (h.forM_each (P := p.Extends touched) (Q := fun r s => s.Forces touched fun y =>
    y (.variation r.id) ≤ y (.operatorUsed operator)) ?_ (.refl p)).2.1
  intro r _ s _ hs ht
  simp only [succeeds_bind_iff, succeeds_requireVariable_iff, succeeds_pure_iff] at ht
  obtain ⟨moves, _, ⟨hmoves, rfl⟩, _, t, hadd, -, rfl⟩ := ht
  have hst : s.Extends touched t := extends_addRow hadd
  refine ⟨hs.trans hst, ?_, fun r' hr' => hr'.of_extends hst⟩
  obtain ⟨hmoved, rfl⟩ := hasVariable_of_variableId? hmoves
  have hinvolved := hused.of_extends hs
  rw [← hinvolved.2] at hadd
  have hrow : t.Forces touched _ := forces_lower_of_addRow
    [(.operatorUsed operator, 1), (.variation r.id, -1)] (.refl s)
    (by simp [hinvolved.1, hmoved]) hadd (hkey r.id) (by simp)
  intro later hlater x hx
  have hbound := hrow later hlater x hx
  simp only [List.map_cons, List.map_nil, List.sum_cons, List.sum_nil, one_mul, add_zero,
    neg_one_mul] at hbound
  linarith only [hbound]

/-- Writing whether an operator is involved counts it. -/
theorem Counts.of_writeOperator (h : w.Counts row limit operators p)
    (hwrite : Succeeds (w.writeOperator row operator) p u q) :
    w.Counts row limit (operators ++ [operator]) q := by
  unfold writeOperator Writing.setCoefficient at hwrite
  simp only [succeeds_bind_iff, succeeds_modify_iff] at hwrite
  obtain ⟨_, s, hadd, _, _, rfl, hrows⟩ := hwrite
  obtain ⟨hdeclared, rfl⟩ := declares_of_addVariable hadd
  have hps : p.Extends (fun _ => False) s := extends_addVariable hadd
  have hst : s.Extends (fun key => key.IsAdapted ∨ key = .maxTso)
      (s.setCoefficient row (s.number (.operatorUsed operator)) 1) :=
    NamesRow.extends_modifyRow ⟨_, hps.rows_getElem? h.row id, rfl⟩ (.inr rfl) fun _ => rfl
  have htq : Extends (fun _ => False) _ q := extends_involve hrows
  have hsq := hst.trans (htq.mono fun _ => False.elim)
  have hpq := (hps.mono fun _ => False.elim).trans hsq
  have hall : ∀ other ∈ operators ++ [operator],
      s.Declares ⟨.operatorUsed other, .finite 0, .finite 1, .continuous⟩ := by
    intro other hother
    rcases List.mem_append.mp hother with hother | hother
    · exact (h.declares other hother).of_extends hps
    · rwa [List.mem_singleton.mp hother]
  constructor
  · rw [formOf_of_extends (List.forall_mem_map.mpr fun other hother =>
      (hall other hother).hasVariable) hsq]
    refine htq.rows_getElem? ?_ id
    exact rows_getElem?_count h.row (fun other hother => (h.declares other hother).hasVariable) hps
      id operator
  · intro other hother
    exact (hall other hother).of_extends hsq
  · intro other hother r hr
    rcases List.mem_append.mp hother with hother | hother
    · exact (h.involves other hother r hr).of_extends hpq
    · rw [List.mem_singleton.mp hother] at hr ⊢
      have hused := hdeclared.hasVariable.of_extends hst
      rw [← hused.2] at hrows
      exact forces_of_involve hused.1 (by simp [RowKey.IsAdapted]) hrows r hr

/-- Once all operators are written, all are counted. -/
theorem Counts.of_forM (h : w.Counts row limit operators p) {others : List String}
    (hwrite : Succeeds (others.forM (w.writeOperator row)) p u q) :
    w.Counts row limit (operators ++ others) q := by
  induction others generalizing operators p with
  | nil =>
    obtain ⟨-, rfl⟩ := succeeds_pure_iff.mp hwrite
    rwa [List.append_nil]
  | cons operator others ih =>
    obtain ⟨s, hfirst, hrest⟩ := succeeds_forM_cons_iff.mp hwrite
    have hcounts := ih (h.of_writeOperator hfirst) hrest
    rwa [List.append_assoc] at hcounts

/-- Of the operators that are counted, at most as many as the limit have a range action whose
set-point is far away. -/
theorem Counts.forces_length (h : w.Counts row limit operators p) (hwritten : w.Written p)
    (hnodup : operators.Nodup) :
    p.Forces RowKey.IsAdapted fun y =>
      (operators.filter fun operator =>
        (w.shifted y).any (·.operator == some operator)).length ≤ limit := by
  have hsum : p.Forces RowKey.IsAdapted fun y =>
      (operators.map fun operator => y (.operatorUsed operator)).sum ≤ (limit : K) :=
    forces_count (List.mem_of_getElem? h.row) id
      (fun operator ho => (h.declares operator ho).hasVariable)
      (hnodup.map fun _ _ => VariableKey.operatorUsed.inj)
  intro later hlater x hx
  have hbound := hsum later hlater x hx
  have hnonneg : ∀ operator ∈ operators, 0 ≤ later.valueOf x (.operatorUsed operator) :=
    fun operator ho => (h.declares operator ho).forces_lower rfl later hlater x hx
  have hone : ∀ operator ∈ operators,
      (w.shifted (later.valueOf x)).any (·.operator == some operator) = true →
        1 ≤ later.valueOf x (.operatorUsed operator) := by
    intro operator ho hany
    obtain ⟨r, hr, hoperator⟩ := List.any_eq_true.mp hany
    obtain ⟨hr, hshifted⟩ := List.mem_filter.mp hr
    have hmoves := (hwritten.indicates r hr later hlater x hx).one hshifted
    have hinvolves := (h.involves operator ho r (List.mem_filter.mpr ⟨hr, hoperator⟩)).mono
      fun _ => .inl
    exact hmoves.trans (hinvolves later hlater x hx)
  have hcount := length_filter_le_sum _ _ operators hnonneg hone
  exact_mod_cast hcount.trans hbound

/-- The operators that a limit is on are those of range actions that are not involved yet. -/
theorem mem_furtherOperators {y : VariableKey → K}
    (h : operator ∈ NameSet.ofNames (((w.shifted y).filterMap RangeAction.operator).filter
      fun operator => !w.budget.involved.contains operator)) :
    operator ∈ w.furtherOperators ∧ ∃ r ∈ w.shifted y, r.operator = some operator := by
  rw [NameSet.mem_ofNames, List.mem_filter, List.mem_filterMap] at h
  obtain ⟨⟨r, hr, hoperator⟩, hfurther⟩ := h
  refine ⟨?_, r, hr, hoperator⟩
  unfold furtherOperators
  rw [Std.ExtTreeSet.mem_toList, NameSet.mem_ofNames, List.mem_filter, List.mem_filterMap]
  exact ⟨⟨r, List.mem_of_mem_filter hr, hoperator⟩, hfurther⟩

/-- The limit on the number of further operators limits those with a range action whose set-point
is far away. -/
theorem forces_of_writeMaxTso (hwritten : w.Written p)
    (h : Succeeds (w.writeMaxTso limit) p u q) :
    q.Forces RowKey.IsAdapted fun y =>
      (NameSet.ofNames (((w.shifted y).filterMap RangeAction.operator).filter fun operator =>
        !w.budget.involved.contains operator)).size ≤ limit := by
  have hgrows : p.Extends RowKey.IsAdapted q := extends_writeMaxTso h
  unfold writeMaxTso at h
  split at h
  · rw [succeeds_bind_iff] at h
    obtain ⟨row, s, hadd, hoperators⟩ := h
    have hnone : w.Counts row limit [] s := by
      obtain ⟨rfl, rfl⟩ := succeeds_addRow hadd
      exact ⟨List.getElem?_concat_length, by simp, by simp⟩
    have hcounts : w.Counts row limit w.furtherOperators q := hnone.of_forM hoperators
    intro later hlater x hx
    have hlength := hcounts.forces_length (hwritten.of_extends hgrows) (NameSet.nodup_toList _)
      later hlater x hx
    refine (NameSet.size_le_length fun operator ho => ?_).trans hlength
    obtain ⟨hfurther, r, hr, hoperator⟩ := mem_furtherOperators ho
    refine List.mem_filter.mpr ⟨hfurther, List.any_eq_true.mpr ⟨r, hr, ?_⟩⟩
    rw [hoperator, beq_self_eq_true]
  · next hlimit =>
    intro later _ x _
    refine (NameSet.size_le_length fun operator ho => ?_).trans (not_lt.mp hlimit)
    exact (mem_furtherOperators ho).1

/-! ### All limits -/

/-- Once distances are measured and all limits are written, the range actions whose set-points are
far away keep the budget. -/
theorem forces_covers_of_write {m : Movement K} {activation : Activation K}
    (hinitial : m.initial = w.initial) (hmeasures : ∀ r ∈ w.rangeActions, m.Measures p r)
    (hnodup : (w.rangeActions.map RangeAction.id).Nodup)
    (h : Succeeds (w.write activation) p u q) :
    q.Forces RowKey.IsAdapted fun y => w.budget.Covers (w.shifted y) := by
  unfold write at h
  simp only [succeeds_bind_iff] at h
  obtain ⟨_, a, hmoves, _, b, hmaxRa, _, c, hmaxTso, _, d, hperTso, _, e, hpst, helementary⟩ := h
  have ha : w.Written a := written_of_forM hinitial hmeasures hnodup hmoves
  have hab : a.Extends RowKey.IsAdapted b :=
    extends_forM_option hmaxRa fun _ _ ht => extends_writeMaxRa ht
  have hbc : b.Extends RowKey.IsAdapted c :=
    extends_forM_option hmaxTso fun _ _ ht => extends_writeMaxTso ht
  have hcd : c.Extends RowKey.IsAdapted d :=
    extends_forM hperTso fun _ _ s t _ ht => extends_writeCount ht
  have hde : d.Extends RowKey.IsAdapted e :=
    extends_forM hpst fun _ _ s t _ ht => extends_writeCount ht
  have heq : e.Extends RowKey.IsAdapted q :=
    extends_forM helementary fun _ _ s t _ ht => extends_writeMaxElementary ht
  have hbq := hbc.trans (hcd.trans (hde.trans heq))
  have hc : w.Written c := ha.of_extends (hab.trans hbc)
  intro later hlater x hx
  constructor
  · intro most hmost
    rw [hmost] at hmaxRa
    exact forces_of_writeMaxRa ha hmaxRa later (hbq.trans hlater) x hx
  · intro most hmost
    rw [hmost] at hmaxTso
    exact forces_of_writeMaxTso (ha.of_extends hab) hmaxTso later
      ((hcd.trans (hde.trans heq)).trans hlater) x hx
  · intro operator most hmost
    exact forces_of_writeCounts hc (fun operator r => r.operator == some operator) (fun _ => id)
      hperTso hmost later ((hde.trans heq).trans hlater) x hx
  · intro operator most hmost
    unfold shiftersOf ofOperator at hpst
    simp only [List.filter_filter] at hpst ⊢
    exact forces_of_writeCounts (hc.of_extends hcd)
      (fun operator r => r.isPst && r.operator == some operator) (fun _ => id) hpst hmost later
      (heq.trans hlater) x hx

/-- So do they once the part of the limits is written, whether anything is limited or not. -/
theorem forces_covers_of_fill {m : Movement K} {point : Linearization K}
    (hinitial : m.initial = w.initial) (hmeasures : ∀ r ∈ w.rangeActions, m.Measures p r)
    (hnodup : (w.rangeActions.map RangeAction.id).Nodup)
    (h : Succeeds (w.part.fill point) p u q) :
    q.Forces RowKey.IsAdapted fun y => w.budget.Covers (w.shifted y) := by
  change Succeeds (if w.budget.isLimited then w.write point.activation else pure ()) p u q at h
  split at h
  · exact forces_covers_of_write hinitial hmeasures hnodup h
  · next hlimited =>
    intro later _ x _
    exact UsageBudget.covers_of_not_isLimited hlimited _

end Usage

namespace Formulation

variable [ExactScalar K] {f : Formulation K} {point : Linearization K} {p q : LinearProblem K}
  {u : PUnit}

/-- Once the parts before the limits on use are written, distances are measured, and the names of
range actions are different. -/
theorem measures_of_firstParts {others : List (Part K)}
    (hothers : ∀ part ∈ others, part.Extends RowKey.IsAdaptedElsewhere)
    (h : Succeeds ((f.firstParts others).forM (·.fill point)) p u q) :
    (∀ r ∈ f.perimeter.rangeActions, f.movement.Measures q r) ∧
      (f.perimeter.rangeActions.map RangeAction.id).Nodup := by
  obtain ⟨s, hmovement, hrest⟩ := succeeds_forM_cons_iff.mp h
  obtain ⟨hmeasures, hnodup⟩ := Movement.measures_of_fill hmovement
  have hsq : s.Extends RowKey.IsAdapted q := extends_forM hrest fun part hpart _ _ _ ht =>
    ((extends_of_mem_firstParts hothers (List.mem_cons_of_mem _ hpart)).mono
      RowKey.isAdapted_of_isAdaptedElsewhere).fill ht
  exact ⟨fun r hr => (hmeasures r hr).of_extends hsq, hnodup⟩

/-- Once all parts are written, the range actions whose set-points are far away keep the budget. -/
theorem forces_covers {budget : UsageBudget} (hbudget : f.budget = some budget)
    (h : Succeeds (f.parts.forM (·.fill point)) p u q) :
    (f.perimeter.rangeActions.map RangeAction.id).Nodup ∧
      q.Forces RowKey.IsAdapted fun y => budget.Covers ((f.usage budget).shifted y) := by
  rw [parts_eq, hbudget] at h
  obtain ⟨s, hfirst, hlimits⟩ := succeeds_forM_append_iff.mp h
  obtain ⟨hmeasures, hnodup⟩ := measures_of_firstParts (fun _ => extends_of_mem_otherParts) hfirst
  refine ⟨hnodup, ?_⟩
  dsimp only at hlimits
  unfold partIf at hlimits
  split at hlimits
  · obtain ⟨t, husage, hnil⟩ := succeeds_forM_cons_iff.mp hlimits
    obtain ⟨-, rfl⟩ := succeeds_pure_iff.mp hnil
    exact Usage.forces_covers_of_fill (m := f.movement) rfl hmeasures hnodup husage
  · next hlimited =>
    intro later _ x _
    exact UsageBudget.covers_of_not_isLimited hlimited _

end Formulation

end GridRelief
