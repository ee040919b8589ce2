import GridRelief.Proofs.Exact
import GridRelief.Proofs.Formulation.Steps

/-!
# Named values that meet a problem

Values for names of variables can be chosen before the problem is written, and while it is written
they stay the values of its variables, whatever numbers these get. Values meet what has been
written so far if all variables may have them and all rows hold. There are two exceptions. The row
of a flow does not hold before it is adapted to the set-points, and until then it has the term of
the flow alone. The rows of a loop flow get their bounds after their terms, so what their terms
come to is kept.

* `LinearProblem.Reads`: an assignment gives variables the values of their names.
* `LinearProblem.Fits`: what is to hold of a row.
* `LinearProblem.Meets`: named values meet what has been written.
* `LinearProblem.Meets.addVariable`, `LinearProblem.Meets.addRow` and the lemmas after them: what
  the steps of writing keep.
* `LinearProblem.Meets.satisfies`: what is met in the end is a feasible point.
-/

namespace GridRelief

open Writing

variable {K : Type}

/-- The factor of the excess in a row of a loop flow. -/
def AbsoluteSide.factor [Neg K] [One K] : AbsoluteSide → K
  | .positive => -1
  | .negative => 1

/-- The rows that are written at once, with their terms and their bounds. -/
def RowKey.IsWrittenAtOnce : RowKey → Prop
  | .flow _ | .loopFlowViolation _ _ => False
  | _ => True

/-- A variable counts moves of taps in a direction. -/
def VariableKey.CountsTapMoves : VariableKey → Prop
  | .tapVariation _ _ => True
  | _ => False

namespace LinearProblem

/-! ### Values by names -/

section Reads

variable {touched : RowKey → Prop} {p q : LinearProblem K} {x : VariableId → K}
  {y : VariableKey → K} {v w : VariableId} {key other : VariableKey}

/-- An assignment gives the variables of a problem the values of their names. -/
def Reads (p : LinearProblem K) (x : VariableId → K) (y : VariableKey → K) : Prop :=
  ∀ v key, p.NamesVariable v key → x v = y key

theorem Reads.of_extends (h : q.Reads x y) (hgrows : p.Extends touched q) : p.Reads x y :=
  fun v key hv => h v key (hv.of_extends hgrows)

theorem Reads.valueOf_eq (hx : p.Reads x y) (h : p.HasVariable key) : p.valueOf x key = y key :=
  hx _ key (namesVariable_of_variableId? h)

/-- The values of the variables in their order. -/
theorem reads_values [Zero K] (p : LinearProblem K) (y : VariableKey → K) :
    p.Reads (fun v => (p.columns.map fun data => y data.key).getD v 0) y := by
  rintro v _ ⟨data, hdata, rfl⟩
  simp [hdata]

variable [ExactScalar K]

/-- The value of a form with terms of two names. -/
theorem Reads.eval_pair (hx : p.Reads x y) (hv : p.NamesVariable v key)
    (hw : p.NamesVariable w other) (hne : key ≠ other) (a b : K) :
    (LinearForm.ofTerms [(v, a), (w, b)]).eval x = a * y key + b * y other := by
  have hvw : v ≠ w := by
    rintro rfl
    exact hne (hv.eq hw)
  rw [LinearForm.eval_ofTerms (by simp [hvw])]
  simp [hx v key hv, hx w other hw]

end Reads

/-! ### Rows -/

variable [ExactScalar K] {touched : RowKey → Prop} {p q : LinearProblem K}
  {y : VariableKey → K} {pending later : String → Prop} {row : Row K} {i : RowId}
  {v : VariableId} {rowKey : RowKey} {key : VariableKey} {lower upper : Bound K}
  {terms : List (VariableId × K)} {u : PUnit}

/-- What is to hold of a row at named values, while the rows of some flows are to be adapted. -/
structure Fits (p : LinearProblem K) (y : VariableKey → K) (pending : String → Prop)
    (row : Row K) : Prop where
  bounds : (∀ id, row.key = .flow id → ¬pending id) → ∀ x, p.Reads x y →
    within row.lower row.upper (row.form.eval x)
  flow : ∀ id, row.key = .flow id → pending id →
    p.HasVariable (.flow id) ∧ row.form = p.formOf [(.flow id, 1)]
  loopFlow : ∀ id side, row.key = .loopFlowViolation id side → ∀ x, p.Reads x y →
    row.form.eval x = y (.flow id) + side.factor * y (.loopFlowViolation id)

theorem Fits.of_extends (h : p.Fits y pending row) (hgrows : p.Extends touched q) :
    q.Fits y pending row where
  bounds hrow x hx := h.bounds hrow x (hx.of_extends hgrows)
  flow id hrow hid := by
    obtain ⟨hvariable, hform⟩ := h.flow id hrow hid
    refine ⟨(hvariable.of_extends hgrows).1, ?_⟩
    rw [formOf_of_extends (List.forall_mem_singleton.mpr hvariable) hgrows, hform]
  loopFlow id side hrow x hx := h.loopFlow id side hrow x (hx.of_extends hgrows)

/-- A row that is written at once has to hold. -/
theorem fits_of_within (hkey : row.key.IsWrittenAtOnce)
    (h : ∀ x, p.Reads x y → within row.lower row.upper (row.form.eval x)) :
    p.Fits y pending row where
  bounds _ := h
  flow id hrow := by
    rw [hrow] at hkey
    exact hkey.elim
  loopFlow id side hrow := by
    rw [hrow] at hkey
    exact hkey.elim

/-! ### Problems -/

/-- Named values meet a problem, apart from the rows of some flows that are to be adapted. No
variable counts moves of taps. -/
structure Meets (p : LinearProblem K) (y : VariableKey → K) (pending : String → Prop) :
    Prop where
  columns : ∀ data ∈ p.columns,
    within data.lower data.upper (y data.key) ∧ kindAllows data.kind (y data.key)
  moves : ∀ data ∈ p.columns, ¬data.key.CountsTapMoves
  names : (p.rows.map Row.key).Nodup
  rows : ∀ row ∈ p.rows, p.Fits y pending row

theorem meets_empty (solver : SolverKind) : (LinearProblem.empty solver).Meets y pending where
  columns := by simp [LinearProblem.empty]
  moves := by simp [LinearProblem.empty]
  names := List.nodup_nil
  rows := by simp [LinearProblem.empty]

namespace Meets

/-- Values that meet a problem are a feasible point of it. -/
theorem satisfies (h : p.Meets y fun _ => False) :
    p.Satisfies fun v => (p.columns.map fun data => y data.key).getD v 0 := by
  have hreads := p.reads_values y
  constructor
  · intro v data hdata
    rw [hreads v data.key ⟨data, hdata, rfl⟩]
    exact h.columns data (List.mem_of_getElem? hdata)
  · intro row hrow
    exact (h.rows row hrow).bounds (fun _ _ => id) _ hreads

/-- There is no variable that counts moves of taps. -/
theorem variableId?_tapVariation (h : p.Meets y pending) (id : String)
    (direction : TapDirection) : p.variableId? (.tapVariation id direction) = none := by
  refine List.findIdx?_eq_none_iff.mpr fun data hdata => ?_
  rw [beq_eq_false_iff_ne]
  intro heq
  exact h.moves data hdata (heq ▸ trivial)

/-! ### Steps -/

theorem addVariable {kind : VariableKind} (h : p.Meets y pending)
    (hadd : Succeeds (Writing.addVariable key lower upper kind) p v q)
    (hkey : ¬key.CountsTapMoves)
    (hwithin : within lower upper (y key)) (hkind : kindAllows kind (y key)) :
    q.Meets y pending := by
  have hgrows : p.Extends (fun _ => True) q := extends_addVariable hadd
  obtain ⟨-, -, rfl⟩ := succeeds_addVariable hadd
  refine ⟨fun data hdata => ?_, fun data hdata => ?_, h.names, fun row hrow =>
    (h.rows row hrow).of_extends hgrows⟩
  · rcases List.mem_append.mp hdata with hdata | hdata
    · exact h.columns data hdata
    · rw [List.mem_singleton.mp hdata]
      exact ⟨hwithin, hkind⟩
  · rcases List.mem_append.mp hdata with hdata | hdata
    · exact h.moves data hdata
    · rwa [List.mem_singleton.mp hdata]

theorem addRow (h : p.Meets y pending)
    (hadd : Succeeds (Writing.addRow rowKey lower upper terms) p i q)
    (hrow : p.Fits y pending ⟨rowKey, lower, upper, .ofTerms terms⟩) : q.Meets y pending := by
  have hfresh := rowId?_eq_none_of_addRow hadd
  have hgrows : p.Extends (fun _ => True) q := extends_addRow hadd
  obtain ⟨-, rfl⟩ := succeeds_addRow hadd
  refine ⟨h.columns, h.moves, ?_, fun other hother => ?_⟩
  · rw [List.map_append, List.map_singleton, List.nodup_append']
    refine ⟨h.names, List.nodup_singleton _, fun name hname hlast => ?_⟩
    obtain ⟨other, hother, rfl⟩ := List.mem_map.mp hname
    have hne := List.findIdx?_eq_none_iff.mp hfresh other hother
    simp [List.mem_singleton.mp hlast] at hne
  · rcases List.mem_append.mp hother with hother | hother
    · exact (h.rows other hother).of_extends hgrows
    · rw [List.mem_singleton.mp hother]
      exact hrow.of_extends hgrows

/-- A row without terms that is written at once. -/
theorem addRow_empty (h : p.Meets y pending)
    (hadd : Succeeds (Writing.addRow rowKey lower upper []) p i q)
    (hkey : rowKey.IsWrittenAtOnce) (hwithin : within lower upper 0) : q.Meets y pending :=
  h.addRow hadd (fits_of_within hkey fun _ _ => hwithin)

/-- A row of two terms that is written at once. -/
theorem addRow_pair {other : VariableKey} {w : VariableId} {a b : K} (h : p.Meets y pending)
    (hadd : Succeeds (Writing.addRow rowKey lower upper [(v, a), (w, b)]) p i q)
    (hkey : rowKey.IsWrittenAtOnce) (hv : p.NamesVariable v key) (hw : p.NamesVariable w other)
    (hne : key ≠ other) (hwithin : within lower upper (a * y key + b * y other)) :
    q.Meets y pending := by
  refine h.addRow hadd (fits_of_within hkey fun x hx => ?_)
  rwa [hx.eval_pair hv hw hne]

/-- A row of two terms that is written at once, for the value of an option if there is one. -/
theorem addRow_option {α : Type} {option : Option α} {lower upper : α → Bound K}
    {other : VariableKey} {w : VariableId} {a b : K} (h : p.Meets y pending)
    (hadd : Succeeds (option.forM fun limit => do
      let _ ← Writing.addRow rowKey (lower limit) (upper limit) [(v, a), (w, b)]) p u q)
    (hkey : rowKey.IsWrittenAtOnce) (hv : p.NamesVariable v key) (hw : p.NamesVariable w other)
    (hne : key ≠ other) (hwithin : ∀ limit, option = some limit →
      within (lower limit) (upper limit) (a * y key + b * y other)) :
    q.Meets y pending ∧ p.Extends (fun _ => True) q := by
  refine hadd.forM_option (P := fun s => s.Meets y pending ∧ p.Extends (fun _ => True) s)
    (fun limit hlimit hrow => ?_) ⟨h, .refl p⟩
  simp only [succeeds_bind_iff, succeeds_pure_iff] at hrow
  obtain ⟨_, _, hrow, -, rfl⟩ := hrow
  exact ⟨h.addRow_pair hrow hkey hv hw hne (hwithin limit hlimit), extends_addRow hrow⟩

theorem setObjective {c : K} (h : p.Meets y pending)
    (hset : Succeeds (Writing.setObjective v c) p u q) : q.Meets y pending := by
  have hgrows : p.Extends (fun _ => True) q := extends_setObjective hset
  rw [Writing.setObjective, succeeds_modify_iff] at hset
  obtain rfl := hset
  exact ⟨h.columns, h.moves, h.names, fun row hrow => (h.rows row hrow).of_extends hgrows⟩

/-- A change of the one row of a name, after which this row and the others are to fit. -/
theorem modifyRow (h : p.Meets y pending) (hi : p.NamesRow i rowKey) {change : Row K → Row K}
    (hname : ∀ row, (change row).key = row.key)
    (hchange : ∀ row, row.key = rowKey → p.Fits y pending row → p.Fits y later (change row))
    (hrest : ∀ row, row.key ≠ rowKey → p.Fits y pending row → p.Fits y later row) :
    (p.modifyRow i change).Meets y later := by
  have hgrows : p.Extends (fun _ => True) (p.modifyRow i change) := extends_modifyRow hname
  refine ⟨h.columns, h.moves, ?_, fun row hrow => ?_⟩
  · have hkeys : (p.modifyRow i change).rows.map Row.key = p.rows.map Row.key := by
      refine List.ext_getElem? fun j => ?_
      change ((p.rows.modify i change).map Row.key)[j]? = _
      rw [List.getElem?_map, List.getElem?_map, List.getElem?_modify]
      cases p.rows[j]? with
      | none => rfl
      | some row => by_cases hij : i = j <;> simp [hij, hname]
    rw [hkeys]
    exact h.names
  · obtain ⟨j, hj⟩ := List.mem_iff_getElem?.mp hrow
    change (p.rows.modify i change)[j]? = some row at hj
    rw [List.getElem?_modify, Option.map_eq_map, Option.map_eq_some_iff] at hj
    obtain ⟨before, hbefore, rfl⟩ := hj
    have hfits := h.rows before (List.mem_of_getElem? hbefore)
    obtain ⟨named, hnamed, rfl⟩ := hi
    split
    · next hij =>
      subst hij
      obtain rfl := Option.some.inj (hnamed.symm.trans hbefore)
      exact (hchange named rfl hfits).of_extends hgrows
    · next hij =>
      refine (hrest before (fun hsame => hij ?_) hfits).of_extends hgrows
      -- rows of one name are in one place
      have hbound : i < (p.rows.map Row.key).length := by
        rw [List.length_map]
        exact (List.getElem?_eq_some_iff.mp hnamed).1
      refine (List.getElem?_inj hbound h.names).mp ?_
      rw [List.getElem?_map, List.getElem?_map, hnamed, hbefore, Option.map_some, Option.map_some,
        hsame]

/-- The rows of a loop flow get their bounds. -/
theorem boundLoopFlow {id : String} {side : AbsoluteSide} (h : p.Meets y pending)
    (hi : p.NamesRow i (.loopFlowViolation id side))
    (hset : Succeeds (Writing.setRowBounds i lower upper) p u q)
    (hwithin : within lower upper (y (.flow id) + side.factor * y (.loopFlowViolation id))) :
    q.Meets y pending := by
  rw [succeeds_setRowBounds hset]
  refine h.modifyRow hi (fun _ => rfl) (fun row hrow hfits => ?_) fun _ _ hfits => hfits
  refine ⟨fun _ x hx => ?_, fun other hother => ?_, hfits.loopFlow⟩
  · exact (hfits.loopFlow id side hrow x hx).symm ▸ hwithin
  · rw [hrow] at hother
    cases hother

/-- The row of a flow is adapted: from the term of the flow alone it becomes a row that holds. -/
theorem settle {id : String} (h : p.Meets y pending) (hi : p.NamesRow i (.flow id))
    (hpending : pending id) (hlater : ∀ other, later other ↔ pending other ∧ other ≠ id)
    {change : Row K → Row K} (hname : ∀ row, (change row).key = row.key)
    (hchange : p.HasVariable (.flow id) → ∀ row, row.form = p.formOf [(.flow id, 1)] →
      ∀ x, p.Reads x y →
        within (change row).lower (change row).upper ((change row).form.eval x)) :
    (p.modifyRow i change).Meets y later := by
  refine h.modifyRow hi hname (fun row hrow hfits => ?_) fun row hrow hfits => ?_
  · obtain ⟨hvariable, hform⟩ := hfits.flow id hrow hpending
    refine ⟨fun _ => hchange hvariable row hform, fun other hother hdue => ?_,
      fun other side hother => ?_⟩
    · rw [hname, hrow] at hother
      exact absurd (RowKey.flow.inj hother).symm ((hlater other).mp hdue).2
    · rw [hname, hrow] at hother
      cases hother
  · refine ⟨fun hsettled => hfits.bounds fun other hother hdue => ?_, fun other hother hdue => ?_,
      hfits.loopFlow⟩
    · refine hsettled other hother ((hlater other).mpr ⟨hdue, ?_⟩)
      rintro rfl
      exact hrow hother
    · exact hfits.flow other hother ((hlater other).mp hdue).1

/-- Changing a coefficient of a variable whose value is zero changes no value. -/
theorem setCoefficient_of_zero {c : K} (h : p.Meets y pending) (hi : p.NamesRow i rowKey)
    (hkey : rowKey.IsWrittenAtOnce) (hv : p.NamesVariable v key) (hzero : y key = 0)
    (hset : Succeeds (Writing.setCoefficient i v c) p u q) : q.Meets y pending := by
  rw [Writing.setCoefficient, succeeds_modify_iff] at hset
  obtain rfl := hset
  refine h.modifyRow hi (fun _ => rfl) (fun row hrow hfits => ?_) fun _ _ => id
  refine fits_of_within (hrow ▸ hkey) fun x hx => ?_
  have hvalue := hfits.bounds (fun id hflow => ?_) x hx
  · rwa [LinearForm.eval_set, hx v key hv, hzero, mul_zero, add_zero]
  · rw [← hrow, hflow] at hkey
    exact hkey.elim

end Meets

end LinearProblem

end GridRelief
