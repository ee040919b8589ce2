import GridRelief.Proofs.Formulation.Margins
import GridRelief.Proofs.Formulation.NamedValues

/-!
# Rows by their names

Parts find the rows that they adapt by their names, and so does this account of them: a step of
writing changes the rows of some names and leaves the rows of all other names as they are. Names are
given once, so what a problem requires beyond an earlier one can be read off its rows name by name.

* `LinearProblem.row?`: the row of a name.
* `LinearProblem.Continues`: a problem goes on from an earlier one, and the rows of other names than
  some are the same.
* `LinearProblem.Continues.satisfiesSince_iff`: what is required beyond an earlier problem.
* `LinearProblem.valuesSince`: the values that this leaves, for given flows.
* `Writing.exists_turn`: in a repetition every element has its turn, which the others do not undo.
-/

namespace GridRelief

open Writing

variable {K : Type}

namespace LinearProblem

/-! ### The row of a name -/

section Lookup

variable {p q : LinearProblem K} {key other : RowKey} {i : RowId} {row : Row K}

/-- The row of a name. -/
def row? (p : LinearProblem K) (key : RowKey) : Option (Row K) :=
  (p.rowId? key).bind fun i => p.rows[i]?

theorem row?_of_rowId? (h : p.rowId? key = some i) : p.row? key = p.rows[i]? := by
  unfold row?
  rw [h, Option.bind_some]

theorem row?_eq_none_iff : p.row? key = none ↔ p.rowId? key = none := by
  constructor
  · intro h
    by_contra hsome
    obtain ⟨i, hi⟩ := Option.ne_none_iff_exists'.mp hsome
    obtain ⟨row, hrow, -⟩ := namesRow_of_rowId? hi
    rw [row?_of_rowId? hi, hrow] at h
    cases h
  · intro h
    rw [row?, h, Option.bind_none]

theorem key_of_row? (h : p.row? key = some row) : row.key = key := by
  obtain ⟨i, hi, hrow⟩ := Option.bind_eq_some_iff.mp h
  obtain ⟨named, hnamed, rfl⟩ := namesRow_of_rowId? hi
  rw [Option.some.inj (hrow.symm.trans hnamed)]

/-- The row of a name after a change. -/
theorem row?_modifyRow_self (hi : p.rowId? key = some i) {change : Row K → Row K}
    (hchange : ∀ row, (change row).key = row.key) :
    (p.modifyRow i change).row? key = (p.row? key).map change := by
  have hlater : (p.modifyRow i change).rowId? key = some i :=
    (rowId?_modifyRow hchange key).trans hi
  rw [row?_of_rowId? hlater, row?_of_rowId? hi]
  exact List.getElem?_modify_eq _ _ _

/-- A change of a row leaves the rows of other names as they are. -/
theorem row?_modifyRow_of_ne (hi : p.rowId? key = some i) (hne : other ≠ key)
    {change : Row K → Row K} (hchange : ∀ row, (change row).key = row.key) :
    (p.modifyRow i change).row? other = p.row? other := by
  unfold row?
  rw [rowId?_modifyRow hchange]
  cases hj : p.rowId? other with
  | none => rfl
  | some j =>
    have hij : i ≠ j := by
      rintro rfl
      exact hne ((namesRow_of_rowId? hj).eq (namesRow_of_rowId? hi))
    exact List.getElem?_modify_ne _ _ hij

/-- A row that has been added under a new name is found in the last place. -/
theorem rowId?_append (hfresh : p.rowId? row.key = none) :
    ({ p with rows := p.rows ++ [row] } : LinearProblem K).rowId? row.key = some p.rows.length := by
  unfold rowId? at hfresh ⊢
  rw [List.findIdx?_append, hfresh]
  simp

theorem row?_append_self (row : Row K) (hfresh : p.rowId? row.key = none) :
    ({ p with rows := p.rows ++ [row] } : LinearProblem K).row? row.key = some row := by
  rw [row?_of_rowId? (rowId?_append hfresh)]
  exact List.getElem?_concat_length

theorem row?_append_of_ne (hne : other ≠ row.key) :
    ({ p with rows := p.rows ++ [row] } : LinearProblem K).row? other = p.row? other := by
  cases hi : p.rowId? other with
  | none =>
    have hnone : ({ p with rows := p.rows ++ [row] } : LinearProblem K).rowId? other = none := by
      unfold rowId? at hi ⊢
      rw [List.findIdx?_append, hi]
      simp [hne.symm]
    rw [row?_eq_none_iff.mpr hnone, row?_eq_none_iff.mpr hi]
  | some i =>
    obtain ⟨found, hfound, -⟩ := namesRow_of_rowId? hi
    have hgrows : p.Extends (fun _ => False) { p with rows := p.rows ++ [row] } := .append_rows _
    rw [row?_of_rowId? hi, row?_of_rowId? (hgrows.rowId? hi), hfound]
    exact hgrows.rows_getElem? hfound not_false

end Lookup

/-! ### Going on -/

section Continuing

variable {touched other : RowKey → Prop} {p q r : LinearProblem K} {key : RowKey} {i : RowId}

/-- A problem goes on from an earlier one: it has grown, variables and rows have been added under
new names, and the rows of other names than some are the same. -/
structure Continues (touched : RowKey → Prop) (p q : LinearProblem K) : Prop where
  grows : p.Extends (fun _ => True) q
  variables_new : ∀ (v : VariableId) data, p.columns.length ≤ v → q.columns[v]? = some data →
    q.variableId? data.key = some v
  rows_new : ∀ (i : RowId) row, p.rows.length ≤ i → q.rows[i]? = some row →
    q.rowId? row.key = some i
  row?_eq : ∀ key, ¬touched key → q.row? key = p.row? key

namespace Continues

theorem of_eq (hcolumns : q.columns = p.columns) (hrows : q.rows = p.rows) :
    p.Continues touched q where
  grows := .of_eq hcolumns hrows
  variables_new v data hv hdata := by
    rw [hcolumns, List.getElem?_eq_none hv] at hdata
    cases hdata
  rows_new i row hi hrow := by
    rw [hrows, List.getElem?_eq_none hi] at hrow
    cases hrow
  row?_eq key _ := by
    unfold row? rowId?
    rw [hrows]

theorem refl (p : LinearProblem K) : p.Continues touched p := of_eq rfl rfl

theorem trans (hpq : p.Continues touched q) (hqr : q.Continues touched r) :
    p.Continues touched r where
  grows := hpq.grows.trans hqr.grows
  variables_new v data hv hdata := by
    rcases Nat.lt_or_ge v q.columns.length with hold | hnew
    · have hmiddle := List.getElem?_eq_getElem hold
      obtain rfl := Option.some.inj ((hqr.grows.columns_getElem? hmiddle).symm.trans hdata)
      exact hqr.grows.variableId? (hpq.variables_new v _ hv hmiddle)
    · exact hqr.variables_new v data hnew hdata
  rows_new i row hi hrow := by
    rcases Nat.lt_or_ge i q.rows.length with hold | hnew
    · have hmiddle := List.getElem?_eq_getElem hold
      obtain ⟨later, hlater, hkey, -⟩ := hqr.grows.rows i _ hmiddle
      obtain rfl := Option.some.inj (hlater.symm.trans hrow)
      rw [hkey]
      exact hqr.grows.rowId? (hpq.rows_new i _ hi hmiddle)
    · exact hqr.rows_new i row hnew hrow
  row?_eq key hkey := (hqr.row?_eq key hkey).trans (hpq.row?_eq key hkey)

theorem mono (h : p.Continues touched q) (hother : ∀ key, touched key → other key) :
    p.Continues other q :=
  ⟨h.grows, h.variables_new, h.rows_new, fun key hkey => h.row?_eq key (hkey ∘ hother key)⟩

theorem of_untouched (h : p.Continues (fun _ => False) q) : p.Continues touched q :=
  h.mono fun _ => False.elim

theorem rowId?_eq_none (h : p.Continues touched q) (hkey : ¬touched key)
    (hnone : p.rowId? key = none) : q.rowId? key = none := by
  rw [← row?_eq_none_iff] at hnone ⊢
  exact (h.row?_eq key hkey).trans hnone

/-- Adding a variable under a new name changes no rows. -/
theorem append_column {data : Variable K} (hfresh : p.variableId? data.key = none) :
    p.Continues touched { p with columns := p.columns ++ [data] } where
  grows := .append_columns _
  variables_new v later hv hlater := by
    change (p.columns ++ [data])[v]? = some later at hlater
    rw [List.getElem?_append_right hv, List.getElem?_singleton] at hlater
    split at hlater
    · next hlast =>
      obtain rfl := Option.some.inj hlater
      obtain rfl : v = p.columns.length := Nat.le_antisymm (Nat.sub_eq_zero_iff_le.mp hlast) hv
      obtain ⟨hdeclares, hnumber⟩ := declares_append hfresh
      exact hdeclares.hasVariable.trans (congrArg some hnumber)
    · cases hlater
  rows_new i row hi hrow := by
    rw [List.getElem?_eq_none hi] at hrow
    cases hrow
  row?_eq _ _ := rfl

/-- Adding a row under a new name changes no others. -/
theorem append_row (row : Row K) (hfresh : p.rowId? row.key = none) :
    p.Continues (· = row.key) { p with rows := p.rows ++ [row] } where
  grows := .append_rows _
  variables_new v data hv hdata := by
    rw [List.getElem?_eq_none hv] at hdata
    cases hdata
  rows_new i later hi hlater := by
    change (p.rows ++ [row])[i]? = some later at hlater
    rw [List.getElem?_append_right hi, List.getElem?_singleton] at hlater
    split at hlater
    · next hlast =>
      obtain rfl := Option.some.inj hlater
      obtain rfl : i = p.rows.length := Nat.le_antisymm (Nat.sub_eq_zero_iff_le.mp hlast) hi
      exact rowId?_append hfresh
    · cases hlater
  row?_eq _ hother := row?_append_of_ne hother

/-- Changing the row of a name changes no others. -/
theorem modifyRow (hi : p.rowId? key = some i) {change : Row K → Row K}
    (hchange : ∀ row, (change row).key = row.key) :
    p.Continues (· = key) (p.modifyRow i change) where
  grows := extends_modifyRow hchange
  variables_new v data hv hdata := by
    change p.columns[v]? = some data at hdata
    rw [List.getElem?_eq_none hv] at hdata
    cases hdata
  rows_new j row hj hrow := by
    have hlength : (p.modifyRow i change).rows.length = p.rows.length :=
      List.length_modify _ _ _
    rw [List.getElem?_eq_none (hlength.trans_le hj)] at hrow
    cases hrow
  row?_eq _ hother := row?_modifyRow_of_ne hi hother hchange

/-- A variable that has been added is found in its place. -/
theorem exists_place {columns : List (Variable K)} {data : Variable K} (h : p.Continues touched q)
    (hcolumns : q.columns = p.columns ++ columns) (hdata : data ∈ columns) :
    ∃ v, p.columns.length ≤ v ∧ q.columns[v]? = some data ∧ q.variableId? data.key = some v := by
  obtain ⟨j, hj⟩ := List.mem_iff_getElem?.mp hdata
  have hplace : q.columns[p.columns.length + j]? = some data := by
    rw [hcolumns, List.getElem?_append_right (Nat.le_add_right _ _), Nat.add_sub_cancel_left, hj]
  exact ⟨_, Nat.le_add_right _ _, hplace, h.variables_new _ data (Nat.le_add_right _ _) hplace⟩

theorem hasVariable {columns : List (Variable K)} {data : Variable K} (h : p.Continues touched q)
    (hcolumns : q.columns = p.columns ++ columns) (hdata : data ∈ columns) :
    q.HasVariable data.key := by
  obtain ⟨v, -, -, hv⟩ := h.exists_place hcolumns hdata
  exact (hasVariable_of_variableId? hv).1

/-- The rows that have been added are those found under new names. -/
theorem mem_added_iff {row : Row K} (h : p.Continues touched q) :
    row ∈ q.rows.drop p.rows.length ↔ p.rowId? row.key = none ∧ q.row? row.key = some row := by
  constructor
  · intro hrow
    obtain ⟨j, hj⟩ := List.mem_iff_getElem?.mp hrow
    rw [List.getElem?_drop] at hj
    have hfound := h.rows_new _ row (Nat.le_add_right _ _) hj
    refine ⟨?_, (row?_of_rowId? hfound).trans hj⟩
    by_contra hsome
    obtain ⟨i, hi⟩ := Option.ne_none_iff_exists'.mp hsome
    have heq : i = p.rows.length + j := Option.some.inj ((h.grows.rowId? hi).symm.trans hfound)
    obtain ⟨_, hearlier, -⟩ := namesRow_of_rowId? hi
    have hbound := (List.getElem?_eq_some_iff.mp hearlier).1
    exact absurd hbound (heq ▸ Nat.not_lt.mpr (Nat.le_add_right _ _))
  · rintro ⟨hnone, hrow⟩
    obtain ⟨i, hi⟩ : ∃ i, q.rowId? row.key = some i := by
      rw [← Option.ne_none_iff_exists', ne_eq, ← row?_eq_none_iff, hrow]
      simp
    rw [row?_of_rowId? hi] at hrow
    have hnew : p.rows.length ≤ i := by
      by_contra hold
      obtain ⟨later, hlater, hkey, -⟩ :=
        h.grows.rows i _ (List.getElem?_eq_getElem (Nat.lt_of_not_le hold))
      obtain rfl := Option.some.inj (hlater.symm.trans hrow)
      have hearlier :=
        List.findIdx?_eq_none_iff.mp hnone _ (List.getElem_mem (Nat.lt_of_not_le hold))
      simp [hkey] at hearlier
    refine List.mem_iff_getElem?.mpr ⟨i - p.rows.length, ?_⟩
    rw [List.getElem?_drop, Nat.add_sub_cancel' hnew, hrow]

end Continues

/-- A name of variables that was new stays new while variables are added under others. -/
theorem variableId?_eq_none_of_columns {columns : List (Variable K)} {name : VariableKey}
    (hcolumns : q.columns = p.columns ++ columns) (hnone : p.variableId? name = none)
    (hne : ∀ data ∈ columns, data.key ≠ name) : q.variableId? name = none := by
  unfold variableId? at hnone ⊢
  rw [hcolumns, List.findIdx?_append, hnone]
  simpa using hne

end Continuing

/-! ### What is required -/

/-- The row of a name holds, if there is one. -/
def RowHolds [Scalar K] (p : LinearProblem K) (x : VariableId → K) (key : RowKey) : Prop :=
  ∀ row, p.row? key = some row → within row.lower row.upper (row.form.eval x)

/-- A feasible assignment keeps the row of every name. -/
theorem Satisfies.rowHolds [Scalar K] {p : LinearProblem K} {x : VariableId → K}
    (h : p.Satisfies x) (key : RowKey) : p.RowHolds x key := by
  intro row hrow
  obtain ⟨i, -, hi⟩ := Option.bind_eq_some_iff.mp hrow
  exact h.2 row (List.mem_of_getElem? hi)

/-- The bounds of the variable of a name hold. -/
def VariableHolds [Scalar K] (p : LinearProblem K) (x : VariableId → K) (key : VariableKey) :
    Prop :=
  ∀ data, p.columns[p.number key]? = some data → within data.lower data.upper (p.valueOf x key)

/-- What a problem requires beyond an earlier one: the bounds of the variables that have been added,
and the rows of new names. -/
theorem Continues.satisfiesSince_iff [ExactScalar K] {touched : RowKey → Prop}
    {p q : LinearProblem K} {columns : List (Variable K)} (h : p.Continues touched q)
    (hcolumns : q.columns = p.columns ++ columns) {x : VariableId → K} :
    q.SatisfiesSince p x ↔
      (∀ data ∈ columns, within data.lower data.upper (q.valueOf x data.key) ∧
        kindAllows data.kind (q.valueOf x data.key)) ∧
      ∀ key, touched key → p.rowId? key = none → q.RowHolds x key := by
  unfold SatisfiesSince
  refine and_congr ⟨fun hall data hdata => ?_, fun hall v data hv hdata => ?_⟩
    ⟨fun hall key _ hnone row hrow => ?_, fun hall row hrow => ?_⟩
  · obtain ⟨v, hv, hplace, hfound⟩ := h.exists_place hcolumns hdata
    rw [valueOf, (hasVariable_of_variableId? hfound).2]
    exact hall v data hv hplace
  · have hmem : data ∈ columns := by
      rw [hcolumns, List.getElem?_append_right hv] at hdata
      exact List.mem_of_getElem? hdata
    have hvalue := hall data hmem
    rwa [valueOf, (hasVariable_of_variableId? (h.variables_new v data hv hdata)).2] at hvalue
  · obtain rfl := key_of_row? hrow
    exact hall row (h.mem_added_iff.mpr ⟨hnone, hrow⟩)
  · obtain ⟨hnone, hfound⟩ := h.mem_added_iff.mp hrow
    refine hall row.key ?_ hnone row hfound
    by_contra hkey
    rw [h.row?_eq row.key hkey, row?_eq_none_iff.mpr hnone] at hfound
    cases hfound

/-- The bounds of a variable that has been added. -/
theorem Continues.variableHolds_iff [Scalar K] {touched : RowKey → Prop} {p q : LinearProblem K}
    {columns : List (Variable K)} {data : Variable K} (h : p.Continues touched q)
    (hcolumns : q.columns = p.columns ++ columns) (hdata : data ∈ columns) {x : VariableId → K} :
    q.VariableHolds x data.key ↔ within data.lower data.upper (q.valueOf x data.key) := by
  obtain ⟨v, -, hplace, hfound⟩ := h.exists_place hcolumns hdata
  unfold VariableHolds
  rw [(hasVariable_of_variableId? hfound).2, hplace]
  simp

/-- The values that something may have beyond an earlier problem, for the flows of an assignment. -/
def valuesSince [ExactScalar K] (q p : LinearProblem K) (cnecs : List (Cnec K))
    (x : VariableId → K) (value : (VariableId → K) → K) : Set K :=
  {a | ∃ y, (∀ c ∈ cnecs, p.valueOf y (.flow c.id) = p.valueOf x (.flow c.id)) ∧
    q.SatisfiesSince p y ∧ value y = a}

/-- The variables of a problem can have any values by their names. -/
theorem exists_valueOf [ExactScalar K] (p : LinearProblem K) (y : VariableKey → K) :
    ∃ x, ∀ key, p.HasVariable key → p.valueOf x key = y key :=
  ⟨_, fun _ hkey => (p.reads_values y).valueOf_eq hkey⟩

/-- By induction on the elements: named values can be chosen for each element of a list. -/
theorem exists_values_of_elements {cnecs : List (Cnec K)} (hids : (cnecs.map Cnec.id).Nodup)
    {name : String → VariableKey} (hname : Function.Injective name) (value : Cnec K → K)
    (others : VariableKey → K) :
    ∃ y : VariableKey → K, (∀ c ∈ cnecs, y (name c.id) = value c) ∧
      ∀ key, (∀ id, key ≠ name id) → y key = others key := by
  induction cnecs with
  | nil => exact ⟨others, by simp, fun _ _ => rfl⟩
  | cons c cnecs ih =>
    obtain ⟨hfresh, hrest⟩ := List.nodup_cons.mp hids
    obtain ⟨y, hy, hothers⟩ := ih hrest
    refine ⟨Function.update y (name c.id) (value c), fun c' hc' => ?_, fun key hkey => ?_⟩
    · rcases List.mem_cons.mp hc' with rfl | hc'
      · exact Function.update_self _ _ _
      · have hne : name c'.id ≠ name c.id := fun heq =>
          hfresh (List.mem_map.mpr ⟨c', hc', hname heq⟩)
        rw [Function.update_of_ne hne, hy c' hc']
    · rw [Function.update_of_ne (hkey c.id), hothers key hkey]

/-- An assignment can be chosen for each element of a list, with the other values as they are. -/
theorem exists_valueOf_of_elements [ExactScalar K] (p : LinearProblem K) {cnecs : List (Cnec K)}
    (hids : (cnecs.map Cnec.id).Nodup) {name : String → VariableKey}
    (hname : Function.Injective name) (value : Cnec K → K) (others : VariableKey → K) :
    ∃ x, (∀ c ∈ cnecs, p.HasVariable (name c.id) → p.valueOf x (name c.id) = value c) ∧
      ∀ key, (∀ id, key ≠ name id) → p.HasVariable key → p.valueOf x key = others key := by
  obtain ⟨y, hvalues, hothers⟩ := exists_values_of_elements hids hname value others
  obtain ⟨x, hx⟩ := p.exists_valueOf y
  exact ⟨x, fun c hc hkey => (hx _ hkey).trans (hvalues c hc),
    fun key hne hkey => (hx key hkey).trans (hothers key hne)⟩

end LinearProblem

/-! ### Steps -/

namespace Writing

open LinearProblem

variable {α : Type} {touched : RowKey → Prop} {p q : LinearProblem K} {rowKey : RowKey} {u : PUnit}
  {v : VariableId}

theorem continues_forM {xs : List α} {work : α → Writing K PUnit}
    (h : Succeeds (xs.forM work) p u q)
    (hstep : ∀ x ∈ xs, ∀ s t, Succeeds (work x) s ⟨⟩ t → s.Continues touched t) :
    p.Continues touched q := by
  refine h.forM_induction (P := p.Continues touched) ?_ (.refl p)
  intro x hx s t hs ht
  exact hs.trans (hstep x hx s t ht)

/-- Every element of a list has its turn, and what comes before and after it are the turns of
elements with other ids. -/
theorem exists_turn {xs : List α} {id : α → String} {work : α → Writing K PUnit}
    {touched : α → RowKey → Prop} (h : Succeeds (xs.forM work) p u q) (hids : (xs.map id).Nodup)
    (hstep : ∀ x ∈ xs, ∀ s t, Succeeds (work x) s ⟨⟩ t → s.Continues (touched x) t) {x : α}
    (hx : x ∈ xs) :
    ∃ s t, p.Continues (fun key => ∃ y ∈ xs, id y ≠ id x ∧ touched y key) s ∧
      Succeeds (work x) s ⟨⟩ t ∧
      t.Continues (fun key => ∃ y ∈ xs, id y ≠ id x ∧ touched y key) q := by
  let others := fun key => ∃ y ∈ xs, id y ≠ id x ∧ touched y key
  have hother : ∀ y ∈ xs, id y ≠ id x → ∀ r s, Succeeds (work y) r ⟨⟩ s → r.Continues others s :=
    fun y hy hne r s hs => (hstep y hy r s hs).mono fun key hkey => ⟨y, hy, hne, hkey⟩
  refine h.forM_turn hids hx (P := fun s => p.Continues others s) (Q := fun r => ∃ s t,
    p.Continues others s ∧ Succeeds (work x) s ⟨⟩ t ∧ t.Continues others r) ?_ ?_ ?_ (.refl p)
  · intro y hy hne r s hr hs
    exact hr.trans (hother y hy hne r s hs)
  · intro s t hs ht
    exact ⟨s, t, hs, ht, .refl t⟩
  · rintro y hy hne r v ⟨s, t, hs, ht, hr⟩ hv
    exact ⟨s, t, hs, ht, hr.trans (hother y hy hne r v hv)⟩

/-- Variables that are added for each element of a list. -/
theorem columns_forM {xs : List α} {work : α → Writing K PUnit} {columns : α → List (Variable K)}
    (h : Succeeds (xs.forM work) p u q)
    (hstep : ∀ x ∈ xs, ∀ s t, Succeeds (work x) s ⟨⟩ t → t.columns = s.columns ++ columns x) :
    q.columns = p.columns ++ xs.flatMap columns := by
  induction xs generalizing p with
  | nil =>
    obtain ⟨-, rfl⟩ := succeeds_pure_iff.mp h
    simp
  | cons x xs ih =>
    obtain ⟨r, hfirst, hrest⟩ := succeeds_forM_cons_iff.mp h
    rw [ih hrest fun y hy => hstep y (List.mem_cons_of_mem _ hy),
      hstep x List.mem_cons_self p r hfirst, List.append_assoc, List.flatMap_cons]

variable [Scalar K]

theorem continues_addVariable {key : VariableKey} {lower upper : Bound K} {kind : VariableKind}
    (h : Succeeds (addVariable key lower upper kind) p v q) : p.Continues touched q := by
  obtain ⟨hfresh, -, rfl⟩ := succeeds_addVariable h
  exact .append_column hfresh

theorem continues_setObjective {value : K} (h : Succeeds (setObjective v value) p u q) :
    p.Continues touched q := by
  rw [setObjective, succeeds_modify_iff] at h
  exact .of_eq (h ▸ rfl) (h ▸ rfl)

theorem continues_addRow_option {option : Option α} {lower upper : α → Bound K}
    {terms : List (VariableId × K)}
    (h : Succeeds (option.forM fun limit => do
      let _ ← addRow rowKey (lower limit) (upper limit) terms) p u q) :
    p.Continues (· = rowKey) q ∧ q.columns = p.columns := by
  refine h.forM_option (P := fun s => p.Continues (· = rowKey) s ∧ s.columns = p.columns)
    (fun limit _ hrow => ?_) ⟨.refl p, rfl⟩
  simp only [succeeds_bind_iff, succeeds_pure_iff] at hrow
  obtain ⟨_, _, hrow, -, rfl⟩ := hrow
  have hfresh := rowId?_eq_none_of_addRow hrow
  obtain ⟨-, rfl⟩ := succeeds_addRow hrow
  exact ⟨.append_row ⟨rowKey, _, _, _⟩ hfresh, rfl⟩

end Writing

end GridRelief
