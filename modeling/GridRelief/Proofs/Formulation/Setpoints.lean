import GridRelief.Proofs.Exact
import GridRelief.Proofs.Formulation.Growth

/-!
# What the rows of set-points force

The two rows of a range action's distance keep it at least as large as the set-point is away from
the one before the optimisation, and no part adapts them.

* `Writing.forces_lower_of_addRow`, `Writing.forces_upper_of_addRow`: what an added row forces.
* `Movement.Measures`: the distance of a range action is measured.
* `Movement.measures_of_fill`: so it is once set-points and flows are written, and the names of
  range actions are different.
-/

namespace GridRelief

open LinearProblem Writing

variable {K : Type} [ExactScalar K] {touched : RowKey → Prop} {p q s : LinearProblem K} {u : PUnit}

namespace Writing

variable {key : RowKey} {lower upper : Bound K} {i : RowId}

/-- A row that has been added is found under its name, with the form of its terms with named
variables. -/
theorem getElem?_rows_of_addRow (terms : List (VariableKey × K)) (hgrows : s.Extends touched p)
    (hvariables : ∀ term ∈ terms, s.HasVariable term.1)
    (h : Succeeds (addRow key lower upper (terms.map fun term => (s.number term.1, term.2)))
      p i q) :
    q.rowId? key = some i ∧ q.rows[i]? = some ⟨key, lower, upper, q.formOf terms⟩ := by
  have hfresh := rowId?_eq_none_of_addRow h
  rw [formOf_of_extends hvariables (hgrows.trans (extends_addRow h))]
  obtain ⟨rfl, rfl⟩ := succeeds_addRow h
  refine ⟨?_, List.getElem?_concat_length⟩
  unfold LinearProblem.rowId? at hfresh ⊢
  rw [List.findIdx?_append, hfresh]
  simp

theorem mem_rows_of_addRow (terms : List (VariableKey × K)) (hgrows : s.Extends touched p)
    (hvariables : ∀ term ∈ terms, s.HasVariable term.1)
    (h : Succeeds (addRow key lower upper (terms.map fun term => (s.number term.1, term.2)))
      p i q) :
    ⟨key, lower, upper, q.formOf terms⟩ ∈ q.rows ∧ ∀ term ∈ terms, q.HasVariable term.1 := by
  refine ⟨List.mem_of_getElem? (getElem?_rows_of_addRow terms hgrows hvariables h).2, ?_⟩
  intro term hterm
  exact ((hvariables term hterm).of_extends (hgrows.trans (extends_addRow h))).1

/-- An added row forces its form above its lower bound. -/
theorem forces_lower_of_addRow {a : K} (terms : List (VariableKey × K))
    (hgrows : s.Extends touched p) (hvariables : ∀ term ∈ terms, s.HasVariable term.1)
    (h : Succeeds (addRow key (.finite a) upper (terms.map fun term => (s.number term.1, term.2)))
      p i q)
    (hkey : ¬touched key) (hnodup : (terms.map Prod.fst).Nodup) :
    q.Forces touched fun y => a ≤ (terms.map fun term => term.2 * y term.1).sum := by
  obtain ⟨hmem, hvariables⟩ := mem_rows_of_addRow terms hgrows hvariables h
  exact forces_lower hmem hkey hvariables hnodup

/-- An added row forces its form below its upper bound. -/
theorem forces_upper_of_addRow {b : K} (terms : List (VariableKey × K))
    (hgrows : s.Extends touched p) (hvariables : ∀ term ∈ terms, s.HasVariable term.1)
    (h : Succeeds (addRow key lower (.finite b) (terms.map fun term => (s.number term.1, term.2)))
      p i q)
    (hkey : ¬touched key) (hnodup : (terms.map Prod.fst).Nodup) :
    q.Forces touched fun y => (terms.map fun term => term.2 * y term.1).sum ≤ b := by
  obtain ⟨hmem, hvariables⟩ := mem_rows_of_addRow terms hgrows hvariables h
  exact forces_upper hmem hkey hvariables hnodup

end Writing

namespace Movement

variable {m : Movement K} {r : RangeAction K}

/-- The distance of a range action's set-point from the one before the optimisation is measured. -/
structure Measures (m : Movement K) (p : LinearProblem K) (r : RangeAction K) : Prop where
  setpoint : p.HasVariable (.setpoint r.id)
  forces : ∃ reference, m.initial.get r.id = .ok reference ∧
    p.Forces RowKey.IsAdapted fun y =>
      |y (.setpoint r.id) - reference| ≤ y (.absoluteVariation r.id)

theorem Measures.of_extends (h : m.Measures p r) (hgrows : p.Extends RowKey.IsAdapted q) :
    m.Measures q r := by
  obtain ⟨reference, hreference, hforces⟩ := h.forces
  exact ⟨(h.setpoint.of_extends hgrows).1, reference, hreference, hforces.of_extends hgrows⟩

/-- Writing a set-point under a new name measures its distance. -/
theorem measures_of_writeSetpoint (h : Succeeds (m.writeSetpoint r) p u q) :
    p.variableId? (.setpoint r.id) = none ∧ m.Measures q r := by
  unfold writeSetpoint at h
  simp only [succeeds_bind_iff, succeeds_ofExcept_iff, Bound.ofScalar_eq] at h
  obtain ⟨reference, _, ⟨hreference, rfl⟩, _, s, hsetpoint, _, t, hdistance, _, t', hnegative, _,
    t'', hpositive, hobjective⟩ := h
  refine ⟨(succeeds_addVariable hsetpoint).1, ?_⟩
  have hst : s.Extends RowKey.IsAdapted t := extends_addVariable hdistance
  have htt' : t.Extends RowKey.IsAdapted t' := extends_addRow hnegative
  have htt'' : t.Extends RowKey.IsAdapted t'' := htt'.trans (extends_addRow hpositive)
  have hq : t''.Extends RowKey.IsAdapted q := extends_setObjective hobjective
  obtain ⟨hwritten, rfl⟩ := declares_of_addVariable hsetpoint
  obtain ⟨hmeasured, rfl⟩ := declares_of_addVariable hdistance
  have hkept := hwritten.hasVariable.of_extends hst
  have hvariables : ∀ c : K, ∀ term ∈ [(VariableKey.absoluteVariation r.id, 1),
      (.setpoint r.id, c)], t.HasVariable term.1 := by
    intro c term hterm
    simp only [List.mem_cons, List.not_mem_nil, or_false] at hterm
    rcases hterm with rfl | rfl
    · exact hmeasured.hasVariable
    · exact hkept.1
  rw [← hkept.2] at hnegative hpositive
  have hbelow : t'.Forces RowKey.IsAdapted _ :=
    forces_lower_of_addRow [(.absoluteVariation r.id, 1), (.setpoint r.id, -1)] (.refl t)
      (hvariables (-1)) hnegative id (by simp)
  have habove : t''.Forces RowKey.IsAdapted _ :=
    forces_lower_of_addRow [(.absoluteVariation r.id, 1), (.setpoint r.id, 1)] htt'
      (hvariables 1) hpositive id (by simp)
  refine ⟨(hkept.1.of_extends (htt''.trans hq)).1, reference, hreference, ?_⟩
  intro later hlater x hx
  have hfirst := hbelow later (((extends_addRow hpositive).trans hq).trans hlater) x hx
  have hsecond := habove later (hq.trans hlater) x hx
  simp only [List.map_cons, List.map_nil, List.sum_cons, List.sum_nil, one_mul, add_zero,
    neg_one_mul] at hfirst hsecond
  rw [abs_le]
  constructor
  · linarith only [hsecond]
  · linarith only [hfirst]

/-- Once all set-points are written, all distances are measured, and all names are different. -/
theorem measures_of_forM {rangeActions : List (RangeAction K)}
    (h : Succeeds (rangeActions.forM m.writeSetpoint) p u q) :
    (∀ r ∈ rangeActions, m.Measures q r ∧ p.variableId? (.setpoint r.id) = none) ∧
      (rangeActions.map RangeAction.id).Nodup := by
  induction rangeActions generalizing p with
  | nil => exact ⟨by simp, List.nodup_nil⟩
  | cons r rangeActions ih =>
    obtain ⟨s, hfirst, hrest⟩ := succeeds_forM_cons_iff.mp h
    obtain ⟨hnew, hmeasures⟩ := measures_of_writeSetpoint hfirst
    obtain ⟨hall, hnodup⟩ := ih hrest
    have hps : p.Extends RowKey.IsAdapted s := extends_writeSetpoint hfirst
    have hsq : s.Extends RowKey.IsAdapted q :=
      extends_forM hrest fun r _ s t _ ht => extends_writeSetpoint ht
    constructor
    · intro r' hr'
      rcases List.mem_cons.mp hr' with rfl | hr'
      · exact ⟨hmeasures.of_extends hsq, hnew⟩
      · obtain ⟨hmeasures', hnew'⟩ := hall r' hr'
        refine ⟨hmeasures', ?_⟩
        cases hp : p.variableId? (.setpoint r'.id) with
        | none => rfl
        | some v => rw [hps.variableId? hp] at hnew'; cases hnew'
    · rw [List.map_cons, List.nodup_cons]
      refine ⟨fun hmem => ?_, hnodup⟩
      obtain ⟨r', hr', hid⟩ := List.mem_map.mp hmem
      have hnone := (hall r' hr').2
      rw [hid, hmeasures.setpoint] at hnone
      cases hnone

/-- Once set-points and flows are written, all distances are measured. -/
theorem measures_of_fill {point : Linearization K} (h : Succeeds (m.part.fill point) p u q) :
    (∀ r ∈ m.rangeActions, m.Measures q r) ∧ (m.rangeActions.map RangeAction.id).Nodup := by
  unfold part at h
  simp only [succeeds_bind_iff] at h
  obtain ⟨_, s, hsetpoints, _, t, hflows, hadapts⟩ := h
  obtain ⟨hall, hnodup⟩ := measures_of_forM hsetpoints
  refine ⟨fun r hr => ?_, hnodup⟩
  have hst : s.Extends RowKey.IsAdapted t :=
    extends_forM hflows fun c _ s t _ ht => extends_writeFlow ht
  have htq : t.Extends RowKey.IsAdapted q :=
    extends_forM hadapts fun c _ s t _ ht => extends_adaptFlow trivial ht
  exact (hall r hr).1.of_extends (hst.trans htq)

end Movement

end GridRelief
