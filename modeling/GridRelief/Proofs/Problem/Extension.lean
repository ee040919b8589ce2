import GridRelief.Proofs.Problem.Answers

/-!
# Problems that grow

A problem is written by adding variables and rows, and adapted later by changing rows of some
names. Variables keep their numbers all the way, and so do rows, and rows of other names stay as
they were written. So what such rows say of the variables, read by their names, holds of every
assignment that keeps the problem at any later time.

* `LinearProblem.Extends`: a problem has grown, and only rows of some names have been adapted.
* `LinearProblem.addVariable_eq_ok_iff`, `LinearProblem.addRow_eq_ok_iff`: what is added, and when.
* `LinearProblem.Forces`: what holds of the named values of all assignments that keep a problem or
  one that has grown from it.
* `LinearProblem.forces_lower`, `LinearProblem.forces_upper`: what a row forces.
* `LinearProblem.Declares.forces_lower` and the facts after it: what a variable's bounds force.
-/

namespace GridRelief

section Keys

variable {α κ : Type} {key : α → κ} {xs : List α} {i : ℕ}

/-- Changing an entry but for its key changes no key. -/
theorem map_key_modify {f : α → α} (hf : ∀ x, key (f x) = key x) :
    (xs.modify i f).map key = xs.map key := by
  refine List.ext_getElem? fun j => ?_
  rw [List.getElem?_map, List.getElem?_map, List.getElem?_modify]
  cases xs[j]? with
  | none => rfl
  | some x => by_cases hij : i = j <;> simp [hij, hf]

/-- Entries are found by their keys only. -/
theorem findIdx?_key_modify [BEq κ] {f : α → α} (hf : ∀ x, key (f x) = key x) (k : κ) :
    (xs.modify i f).findIdx? (key · == k) = xs.findIdx? (key · == k) := by
  have hkeys : ∀ ys : List α, ys.findIdx? (key · == k) = (ys.map key).findIdx? (· == k) := by
    intro ys
    rw [List.findIdx?_map]
    rfl
  rw [hkeys, hkeys, map_key_modify hf]

end Keys

namespace LinearProblem

section Growth

variable {K : Type} {touched : RowKey → Prop} {p q r : LinearProblem K} {key : VariableKey}
  {rowKey : RowKey} {v : VariableId} {i : RowId}

/-! ### Growth -/

/-- A problem has the variables and rows of an earlier one in their places. Only rows with names of
a kind have been adapted. -/
structure Extends (touched : RowKey → Prop) (p q : LinearProblem K) : Prop where
  columns : p.columns <+: q.columns
  rows : ∀ (i : RowId) row, p.rows[i]? = some row →
    ∃ later, q.rows[i]? = some later ∧ later.key = row.key ∧ (¬touched row.key → later = row)

namespace Extends

theorem of_eq (hcolumns : q.columns = p.columns) (hrows : q.rows = p.rows) :
    p.Extends touched q := by
  constructor
  · rw [hcolumns]
  · intro i row hrow
    exact ⟨row, hrows ▸ hrow, rfl, fun _ => rfl⟩

theorem refl (p : LinearProblem K) : p.Extends touched p := of_eq rfl rfl

theorem trans (hpq : p.Extends touched q) (hqr : q.Extends touched r) : p.Extends touched r := by
  constructor
  · exact hpq.columns.trans hqr.columns
  · intro i row hrow
    obtain ⟨middle, hmiddle, hkey, hsame⟩ := hpq.rows i row hrow
    obtain ⟨last, hlast, hkey', hsame'⟩ := hqr.rows i middle hmiddle
    refine ⟨last, hlast, hkey'.trans hkey, fun hrow => ?_⟩
    rw [hsame' (hkey ▸ hrow), hsame hrow]

theorem mono {other : RowKey → Prop} (h : p.Extends touched q)
    (hother : ∀ key, touched key → other key) : p.Extends other q := by
  refine ⟨h.columns, fun i row hrow => ?_⟩
  obtain ⟨later, hlater, hkey, hsame⟩ := h.rows i row hrow
  exact ⟨later, hlater, hkey, fun hnot => hsame fun htouched => hnot (hother _ htouched)⟩

/-- Adding variables lets a problem grow. -/
theorem append_columns (columns : List (Variable K)) :
    p.Extends touched { p with columns := p.columns ++ columns } := by
  constructor
  · exact List.prefix_append _ _
  · intro i row hrow
    exact ⟨row, hrow, rfl, fun _ => rfl⟩

/-- Adding rows lets a problem grow. -/
theorem append_rows (rows : List (Row K)) :
    p.Extends touched { p with rows := p.rows ++ rows } := by
  constructor
  · exact List.prefix_rfl
  · intro i row hrow
    refine ⟨row, ?_, rfl, fun _ => rfl⟩
    exact (List.getElem?_append_left (List.getElem?_eq_some_iff.mp hrow).1).trans hrow

/-- Changing a row that was not there lets a problem grow. -/
theorem modifyRow_of_le (h : p.Extends touched q) (hi : p.rows.length ≤ i)
    (change : Row K → Row K) : p.Extends touched (q.modifyRow i change) := by
  constructor
  · exact h.columns
  · intro j row hrow
    obtain ⟨later, hlater, hrest⟩ := h.rows j row hrow
    have hj : j < i := Nat.lt_of_lt_of_le (List.getElem?_eq_some_iff.mp hrow).1 hi
    refine ⟨later, ?_, hrest⟩
    change (q.rows.modify i change)[j]? = some later
    rw [List.getElem?_modify, hlater]
    simp [Nat.ne_of_gt hj]

theorem setCoefficient_of_le [Scalar K] (h : p.Extends touched q) (hi : p.rows.length ≤ i)
    (v : VariableId) (value : K) : p.Extends touched (q.setCoefficient i v value) :=
  h.modifyRow_of_le hi _

/-- A row of another name stays as it is. -/
theorem rows_getElem? (h : p.Extends touched q) {row : Row K} (hrow : p.rows[i]? = some row)
    (hkey : ¬touched row.key) : q.rows[i]? = some row := by
  obtain ⟨later, hlater, -, hsame⟩ := h.rows i row hrow
  rwa [hsame hkey] at hlater

theorem mem_rows (h : p.Extends touched q) {row : Row K} (hrow : row ∈ p.rows)
    (hkey : ¬touched row.key) : row ∈ q.rows := by
  obtain ⟨i, hi⟩ := List.mem_iff_getElem?.mp hrow
  exact List.mem_iff_getElem?.mpr ⟨i, h.rows_getElem? hi hkey⟩

/-- A variable keeps its number. -/
theorem variableId? (h : p.Extends touched q) (hv : p.variableId? key = some v) :
    q.variableId? key = some v := by
  obtain ⟨columns, hcolumns⟩ := h.columns
  unfold LinearProblem.variableId? at hv ⊢
  rw [← hcolumns, List.findIdx?_append, hv]
  rfl

theorem columns_getElem? (h : p.Extends touched q) {data : Variable K}
    (hdata : p.columns[v]? = some data) : q.columns[v]? = some data := by
  obtain ⟨columns, hcolumns⟩ := h.columns
  rw [← hcolumns]
  exact (List.getElem?_append_left (List.getElem?_eq_some_iff.mp hdata).1).trans hdata

/-- A row keeps its number. -/
theorem rowId? (h : p.Extends touched q) (hi : p.rowId? rowKey = some i) :
    q.rowId? rowKey = some i := by
  unfold LinearProblem.rowId? at hi ⊢
  rw [List.findIdx?_eq_some_iff_getElem] at hi ⊢
  obtain ⟨hlt, hkey, hfirst⟩ := hi
  -- the rows up to this one keep their names
  have hsame : ∀ j, ∀ hj : j < p.rows.length, ∃ hj' : j < q.rows.length,
      q.rows[j].key = p.rows[j].key := by
    intro j hj
    obtain ⟨later, hlater, hnames, -⟩ := h.rows j _ (List.getElem?_eq_getElem hj)
    obtain ⟨hj', rfl⟩ := List.getElem?_eq_some_iff.mp hlater
    exact ⟨hj', hnames⟩
  obtain ⟨hlt', hnames⟩ := hsame i hlt
  refine ⟨hlt', hnames ▸ hkey, fun j hji => ?_⟩
  obtain ⟨_, hnames⟩ := hsame j (hji.trans hlt)
  rw [hnames]
  exact hfirst j hji

end Extends

/-! ### Changes -/

section Changes

variable [Scalar K] {lower upper : Bound K} {kind : VariableKind}

/-- A variable is added behind the others, under a new name and between bounds of an interval. -/
theorem addVariable_eq_ok_iff : p.addVariable key lower upper kind = .ok q ↔
    p.variableId? key = none ∧ lower.isInterval upper = true ∧
      { p with columns := p.columns ++ [⟨key, lower, upper, kind⟩] } = q := by
  unfold addVariable
  cases p.variableId? key with
  | some v => simp
  | none => cases lower.isInterval upper <;> simp

/-- A row is added behind the others, under a new name and between bounds of an interval. -/
theorem addRow_eq_ok_iff : p.addRow rowKey lower upper = .ok q ↔
    p.rowId? rowKey = none ∧ lower.isInterval upper = true ∧
      { p with rows := p.rows ++ [⟨rowKey, lower, upper, ∅⟩] } = q := by
  unfold addRow
  cases p.rowId? rowKey with
  | some i => simp
  | none => cases lower.isInterval upper <;> simp

/-- The bounds of a variable are changed, if it is there. -/
theorem eq_of_setVariableBounds (h : p.setVariableBounds v lower upper = .ok q) :
    q = { p with columns := p.columns.modify v fun data => { data with lower, upper } } := by
  unfold setVariableBounds at h
  cases hv : p.columns[v]? with
  | none =>
    rw [List.modify_eq_self (List.getElem?_eq_none_iff.mp hv)]
    rw [hv] at h
    exact (Except.ok.inj h).symm
  | some data =>
    rw [List.modify_eq_set_getElem?, hv]
    rw [hv] at h
    dsimp only at h
    split at h
    · exact (Except.ok.inj h).symm
    · cases h

/-- The bounds of a row are changed, if it is there. -/
theorem eq_of_setRowBounds (h : p.setRowBounds i lower upper = .ok q) :
    q = p.modifyRow i fun row => { row with lower, upper } := by
  unfold setRowBounds at h
  cases hi : p.rows[i]? with
  | none =>
    unfold modifyRow
    rw [List.modify_eq_self (List.getElem?_eq_none_iff.mp hi)]
    rw [hi] at h
    exact (Except.ok.inj h).symm
  | some row =>
    rw [hi] at h
    dsimp only at h
    split at h
    · exact (Except.ok.inj h).symm
    · cases h

end Changes

/-- Two changes of one row are one change. -/
theorem modifyRow_modifyRow (p : LinearProblem K) (i : RowId) (first second : Row K → Row K) :
    (p.modifyRow i first).modifyRow i second = p.modifyRow i fun row => second (first row) := by
  unfold LinearProblem.modifyRow
  rw [List.modify_modify_eq]
  rfl

theorem rowId?_modifyRow {change : Row K → Row K} (hchange : ∀ row, (change row).key = row.key)
    (key : RowKey) : (p.modifyRow i change).rowId? key = p.rowId? key :=
  findIdx?_key_modify hchange key

/-- Changing a lower bound changes that of its row. -/
theorem rows_getElem?_setRowLower [Scalar K] {row : Row K} (h : p.rows[i]? = some row)
    (lower : Bound K) : (p.setRowLower i lower).rows[i]? = some { row with lower } := by
  change (p.rows.modify i _)[i]? = _
  rw [List.getElem?_modify_eq, h]
  rfl

/-- Changing a coefficient changes the form of its row. -/
theorem rows_getElem?_setCoefficient [Scalar K] {row : Row K} (h : p.rows[i]? = some row)
    (v : VariableId) (c : K) :
    (p.setCoefficient i v c).rows[i]? = some { row with form := row.form.set v c } := by
  change (p.rows.modify i _)[i]? = _
  rw [List.getElem?_modify_eq, h]
  rfl

/-- Changing a coefficient changes no bounds. -/
theorem rowBounds_setCoefficient [Scalar K] (p : LinearProblem K) (i j : RowId) (v : VariableId)
    (c : K) : (p.setCoefficient i v c).rowBounds j = p.rowBounds j := by
  unfold rowBounds setCoefficient modifyRow
  rw [List.getElem?_modify]
  cases p.rows[j]? with
  | none => rfl
  | some row =>
    dsimp only [Option.map_eq_map, Option.map_some]
    split <;> rfl

/-! ### Names of rows -/

/-- There is a row of a name in a place. -/
def NamesRow (p : LinearProblem K) (i : RowId) (key : RowKey) : Prop :=
  ∃ row, p.rows[i]? = some row ∧ row.key = key

theorem namesRow_of_rowId? (h : p.rowId? rowKey = some i) : p.NamesRow i rowKey := by
  obtain ⟨hi, hkey, -⟩ := List.findIdx?_eq_some_iff_getElem.mp h
  exact ⟨p.rows[i], List.getElem?_eq_getElem hi, beq_iff_eq.mp hkey⟩

theorem NamesRow.of_extends (h : p.NamesRow i rowKey) (hgrows : p.Extends touched q) :
    q.NamesRow i rowKey := by
  obtain ⟨row, hrow, rfl⟩ := h
  obtain ⟨later, hlater, hkey, -⟩ := hgrows.rows i row hrow
  exact ⟨later, hlater, hkey⟩

/-- A row has one name. -/
theorem NamesRow.eq {other : RowKey} (h : p.NamesRow i rowKey) (hother : p.NamesRow i other) :
    rowKey = other := by
  obtain ⟨row, hrow, rfl⟩ := h
  obtain ⟨row', hrow', rfl⟩ := hother
  rw [Option.some.inj (hrow.symm.trans hrow')]

/-- Adapting a row of a name of the kind lets a problem grow. -/
theorem NamesRow.extends_modifyRow (h : p.NamesRow i rowKey) (htouched : touched rowKey)
    {change : Row K → Row K} (hchange : ∀ row, (change row).key = row.key) :
    p.Extends touched (p.modifyRow i change) := by
  obtain ⟨row, hrow, rfl⟩ := h
  constructor
  · exact List.prefix_rfl
  · intro j other hother
    change ∃ later, (p.rows.modify i change)[j]? = some later ∧ _
    rw [List.getElem?_modify, hother]
    by_cases hij : i = j
    · subst hij
      rw [hrow] at hother
      obtain rfl := Option.some.inj hother
      exact ⟨change row, by simp, hchange row, fun hkey => absurd htouched hkey⟩
    · exact ⟨other, by simp [hij], rfl, fun _ => rfl⟩

/-- Adapting any row lets a problem grow, as far as names go. -/
theorem extends_modifyRow {change : Row K → Row K} (hchange : ∀ row, (change row).key = row.key) :
    p.Extends (fun _ => True) (p.modifyRow i change) := by
  cases hrow : p.rows[i]? with
  | some row => exact NamesRow.extends_modifyRow ⟨row, hrow, rfl⟩ trivial hchange
  | none => exact (Extends.refl p).modifyRow_of_le (List.getElem?_eq_none_iff.mp hrow) change

theorem NamesRow.extends_setRowLower [Scalar K] (h : p.NamesRow i rowKey)
    (htouched : touched rowKey) (lower : Bound K) : p.Extends touched (p.setRowLower i lower) :=
  h.extends_modifyRow htouched fun _ => rfl

theorem NamesRow.extends_setRowUpper [Scalar K] (h : p.NamesRow i rowKey)
    (htouched : touched rowKey) (upper : Bound K) : p.Extends touched (p.setRowUpper i upper) :=
  h.extends_modifyRow htouched fun _ => rfl

/-! ### Names of variables -/

/-- There is a variable of a name in a place. -/
def NamesVariable (p : LinearProblem K) (v : VariableId) (key : VariableKey) : Prop :=
  ∃ data, p.columns[v]? = some data ∧ data.key = key

theorem namesVariable_of_variableId? (h : p.variableId? key = some v) : p.NamesVariable v key := by
  obtain ⟨hv, hkey, -⟩ := List.findIdx?_eq_some_iff_getElem.mp h
  exact ⟨p.columns[v], List.getElem?_eq_getElem hv, beq_iff_eq.mp hkey⟩

theorem NamesVariable.of_extends (h : p.NamesVariable v key) (hgrows : p.Extends touched q) :
    q.NamesVariable v key := by
  obtain ⟨data, hdata, hkey⟩ := h
  exact ⟨data, hgrows.columns_getElem? hdata, hkey⟩

/-- A variable has one name. -/
theorem NamesVariable.eq {other : VariableKey} (h : p.NamesVariable v key)
    (hother : p.NamesVariable v other) : key = other := by
  obtain ⟨data, hdata, rfl⟩ := h
  obtain ⟨data', hdata', rfl⟩ := hother
  rw [Option.some.inj (hdata.symm.trans hdata')]

/-- The number of the variable of a name. -/
def number (p : LinearProblem K) (key : VariableKey) : VariableId := (p.variableId? key).getD 0

/-- There is a variable of a name with some bounds and of some kind. -/
def Declares (p : LinearProblem K) (data : Variable K) : Prop :=
  ∃ v, p.variableId? data.key = some v ∧ p.columns[v]? = some data

/-- There is a variable of a name. -/
def HasVariable (p : LinearProblem K) (key : VariableKey) : Prop :=
  p.variableId? key = some (p.number key)

instance (p : LinearProblem K) (key : VariableKey) : Decidable (p.HasVariable key) :=
  inferInstanceAs (Decidable (_ = _))

theorem hasVariable_of_variableId? (h : p.variableId? key = some v) :
    p.HasVariable key ∧ p.number key = v := by
  unfold HasVariable number
  rw [h]
  exact ⟨rfl, rfl⟩

theorem HasVariable.of_extends (h : p.HasVariable key) (hgrows : p.Extends touched q) :
    q.HasVariable key ∧ q.number key = p.number key :=
  hasVariable_of_variableId? (hgrows.variableId? h)

theorem Declares.hasVariable {data : Variable K} (h : p.Declares data) :
    p.HasVariable data.key := by
  obtain ⟨v, hv, -⟩ := h
  exact (hasVariable_of_variableId? hv).1

theorem Declares.of_extends {data : Variable K} (h : p.Declares data)
    (hgrows : p.Extends touched q) : q.Declares data := by
  obtain ⟨v, hv, hdata⟩ := h
  exact ⟨v, hgrows.variableId? hv, hgrows.columns_getElem? hdata⟩

/-- A variable that has been added under a new name is the last one. -/
theorem declares_append {data : Variable K} (h : p.variableId? data.key = none) :
    let q := { p with columns := p.columns ++ [data] }
    q.Declares data ∧ q.number data.key = p.columns.length := by
  intro q
  have hv : q.variableId? data.key = some p.columns.length := by
    unfold LinearProblem.variableId? at h ⊢
    rw [List.findIdx?_append, h]
    simp
  exact ⟨⟨p.columns.length, hv, List.getElem?_concat_length⟩, (hasVariable_of_variableId? hv).2⟩

/-- Variables of different names have different numbers. -/
theorem HasVariable.eq_of_number_eq {other : VariableKey} (h : p.HasVariable key)
    (hother : p.HasVariable other) (heq : p.number key = p.number other) : key = other := by
  have hkey : ∀ {k : VariableKey}, p.HasVariable k →
      ∃ data, p.columns[p.number k]? = some data ∧ data.key = k := by
    intro k hk
    obtain ⟨hi, hdata, -⟩ := List.findIdx?_eq_some_iff_getElem.mp hk
    exact ⟨_, List.getElem?_eq_getElem hi, beq_iff_eq.mp hdata⟩
  obtain ⟨data, hdata, rfl⟩ := hkey h
  obtain ⟨data', hdata', rfl⟩ := hkey hother
  rw [heq, hdata'] at hdata
  rw [Option.some.inj hdata]

/-- Terms of different named variables have different numbers. -/
theorem nodup_numbers {K : Type} {p : LinearProblem K} {terms : List (VariableKey × K)}
    (hvariables : ∀ term ∈ terms, p.HasVariable term.1) (hnodup : (terms.map Prod.fst).Nodup) :
    ((terms.map fun term => (p.number term.1, term.2)).map Prod.fst).Nodup := by
  rw [List.map_map]
  have hinj : ∀ key ∈ terms.map Prod.fst, ∀ other ∈ terms.map Prod.fst,
      p.number key = p.number other → key = other := by
    intro key hkey other hother heq
    obtain ⟨term, hterm, rfl⟩ := List.mem_map.mp hkey
    obtain ⟨term', hterm', rfl⟩ := List.mem_map.mp hother
    exact (hvariables term hterm).eq_of_number_eq (hvariables term' hterm') heq
  have hmap := List.Nodup.map_on hinj hnodup
  rwa [List.map_map] at hmap

/-- The form of a list of terms with named variables. -/
def formOf [Scalar K] (p : LinearProblem K) (terms : List (VariableKey × K)) : LinearForm K :=
  .ofTerms (terms.map fun term => (p.number term.1, term.2))

theorem formOf_append [Scalar K] (terms : List (VariableKey × K)) (key : VariableKey) (c : K) :
    p.formOf (terms ++ [(key, c)]) = (p.formOf terms).set (p.number key) c := by
  unfold formOf
  rw [List.map_append, List.map_singleton, LinearForm.ofTerms_append]

/-- A form of named variables stays the same while a problem grows. -/
theorem formOf_of_extends [Scalar K] {terms : List (VariableKey × K)}
    (hvariables : ∀ term ∈ terms, p.HasVariable term.1) (hgrows : p.Extends touched q) :
    q.formOf terms = p.formOf terms := by
  unfold formOf
  congr 1
  refine List.map_congr_left fun term hterm => ?_
  rw [((hvariables term hterm).of_extends hgrows).2]

end Growth

/-! ### What is forced -/

section Forced

variable {K : Type} [ExactScalar K] {touched : RowKey → Prop} {p q : LinearProblem K}

/-- The value of the variable of a name. -/
def valueOf (p : LinearProblem K) (x : VariableId → K) (key : VariableKey) : K := x (p.number key)

/-- A condition on named values that every assignment meets that keeps the problem or one that has
grown from it. -/
def Forces (touched : RowKey → Prop) (p : LinearProblem K) (condition : (VariableKey → K) → Prop) :
    Prop :=
  ∀ q, p.Extends touched q → ∀ x, q.Keeps x → condition (q.valueOf x)

variable {condition : (VariableKey → K) → Prop}

theorem Forces.of_extends (h : p.Forces touched condition) (hgrows : p.Extends touched q) :
    q.Forces touched condition := by
  intro r hr x hx
  exact h r (hgrows.trans hr) x hx

theorem Forces.mono {other : RowKey → Prop} (h : p.Forces other condition)
    (hother : ∀ key, touched key → other key) : p.Forces touched condition := by
  intro q hq x hx
  exact h q (hq.mono hother) x hx

/-- The value of a form of named variables at named values. -/
theorem eval_formOf (hgrows : p.Extends touched q) {terms : List (VariableKey × K)}
    (hvariables : ∀ term ∈ terms, p.HasVariable term.1) (hnodup : (terms.map Prod.fst).Nodup)
    (x : VariableId → K) :
    (p.formOf terms).eval x = (terms.map fun term => term.2 * q.valueOf x term.1).sum := by
  unfold formOf
  rw [LinearForm.eval_ofTerms (nodup_numbers hvariables hnodup), List.map_map]
  congr 1
  refine List.map_congr_left fun term hterm => ?_
  unfold valueOf
  rw [((hvariables term hterm).of_extends hgrows).2]
  rfl

variable {rowKey : RowKey} {lower upper : Bound K} {terms : List (VariableKey × K)}

/-- A row that is not adapted keeps its form above its lower bound. -/
theorem forces_lower {a : K} (hrow : ⟨rowKey, .finite a, upper, p.formOf terms⟩ ∈ p.rows)
    (hkey : ¬touched rowKey) (hvariables : ∀ term ∈ terms, p.HasVariable term.1)
    (hnodup : (terms.map Prod.fst).Nodup) :
    p.Forces touched fun y => a ≤ (terms.map fun term => term.2 * y term.1).sum := by
  intro q hq x hx
  rw [← eval_formOf hq hvariables hnodup]
  exact hx.row_lower _ (hq.mem_rows hrow hkey) a rfl

/-- A row that is not adapted keeps its form below its upper bound. -/
theorem forces_upper {b : K} (hrow : ⟨rowKey, lower, .finite b, p.formOf terms⟩ ∈ p.rows)
    (hkey : ¬touched rowKey) (hvariables : ∀ term ∈ terms, p.HasVariable term.1)
    (hnodup : (terms.map Prod.fst).Nodup) :
    p.Forces touched fun y => (terms.map fun term => term.2 * y term.1).sum ≤ b := by
  intro q hq x hx
  rw [← eval_formOf hq hvariables hnodup]
  exact hx.row_upper _ (hq.mem_rows hrow hkey) b rfl

namespace Declares

variable {data : Variable K}

theorem forces_lower (h : p.Declares data) {a : K} (ha : data.lower = .finite a) :
    p.Forces touched fun y => a ≤ y data.key := by
  intro q hq x hx
  obtain ⟨v, hv, hdata⟩ := h.of_extends hq
  unfold valueOf
  rw [(hasVariable_of_variableId? hv).2]
  exact hx.lower v data a hdata ha

theorem forces_upper (h : p.Declares data) {b : K} (hb : data.upper = .finite b) :
    p.Forces touched fun y => y data.key ≤ b := by
  intro q hq x hx
  obtain ⟨v, hv, hdata⟩ := h.of_extends hq
  unfold valueOf
  rw [(hasVariable_of_variableId? hv).2]
  exact hx.upper v data b hdata hb

/-- A variable that is zero or one. -/
theorem forces_zero_or_one (h : p.Declares data) (hlower : data.lower = .finite 0)
    (hupper : data.upper = .finite 1) (hkind : data.kind = .binary) :
    p.Forces touched fun y => y data.key = 0 ∨ y data.key = 1 := by
  intro q hq x hx
  obtain ⟨v, hv, hdata⟩ := h.of_extends hq
  unfold valueOf
  rw [(hasVariable_of_variableId? hv).2]
  exact hx.eq_zero_or_one hdata hlower hupper (by simp [hkind])

end Declares

end Forced

end LinearProblem

end GridRelief
