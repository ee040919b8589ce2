import GridRelief.Proofs.Problem.Histories

/-!
# Problems stay consistent

Whatever is done with a problem, its variables have different names and bounds that leave room, so
have its rows names, and no term of zero or of a variable that is not there is stored. This is kept
by each change that is made, and a change is refused exactly when it would repeat a name or give
bounds that leave no room. The bounds of a row may cross, since each can be set alone.

* `LinearProblem.IsConsistent`: what holds of a problem at all times.
* `LinearProblem.IsConsistent.apply`: a change that is made keeps it.
* `LinearProblem.variableId?_eq_some_iff`, `LinearProblem.rowId?_eq_some_iff`: names and numbers
  belong to each other.
* `ProblemEdit.Refused`: the changes that a problem refuses, each with its fault.
* `LinearProblem.coefficient_after`: a coefficient is the last one that was written.
-/

namespace GridRelief

section Keys

variable {α κ : Type} [DecidableEq κ] {key : α → κ} {xs : List α} {k : κ} {i : ℕ}

/-- Where the entries of a list have different keys, the one found of a key is the one of it. -/
theorem findIdx?_key_eq_some_iff (h : (xs.map key).Nodup) :
    xs.findIdx? (key · == k) = some i ↔ ∃ x, xs[i]? = some x ∧ key x = k := by
  constructor
  · intro hfind
    obtain ⟨hi, hkey, -⟩ := List.findIdx?_eq_some_iff_getElem.mp hfind
    exact ⟨xs[i], List.getElem?_eq_getElem hi, beq_iff_eq.mp hkey⟩
  · rintro ⟨x, hx, rfl⟩
    obtain ⟨hi, rfl⟩ := List.getElem?_eq_some_iff.mp hx
    refine List.findIdx?_eq_some_iff_getElem.mpr ⟨hi, beq_self_eq_true _, fun j hji hkey => ?_⟩
    have hi' : i < (xs.map key).length := by simpa using hi
    have hj' : j < (xs.map key).length := hji.trans hi'
    have hsame : (xs.map key)[j] = (xs.map key)[i] := by simpa using hkey
    exact hji.ne (h.getElem_inj_iff.mp hsame)

theorem findIdx?_key_eq_none_iff :
    xs.findIdx? (key · == k) = none ↔ ∀ i : ℕ, ¬∃ x, xs[i]? = some x ∧ key x = k := by
  rw [List.findIdx?_eq_none_iff]
  constructor
  · rintro hnone i ⟨x, hx, rfl⟩
    simpa using hnone x (List.mem_of_getElem? hx)
  · intro hnone x hx
    obtain ⟨i, hi⟩ := List.mem_iff_getElem?.mp hx
    exact beq_eq_false_iff_ne.mpr fun hkey => hnone i ⟨x, hi, hkey⟩

/-- An entry of a new key leaves the keys different. -/
theorem nodup_keys_append {x : α} (h : (xs.map key).Nodup)
    (hnew : xs.findIdx? (key · == key x) = none) : ((xs ++ [x]).map key).Nodup := by
  rw [List.map_append, List.map_singleton]
  refine List.Nodup.append h (List.nodup_singleton _) (List.disjoint_singleton.mpr fun hmem => ?_)
  obtain ⟨y, hy, hsame⟩ := List.mem_map.mp hmem
  obtain ⟨i, hi⟩ := List.mem_iff_getElem?.mp hy
  exact findIdx?_key_eq_none_iff.mp hnew i ⟨y, hi, hsame⟩

omit [DecidableEq κ] in
theorem mem_or_of_mem_modify {f : α → α} {x : α} (h : x ∈ xs.modify i f) :
    x ∈ xs ∨ ∃ y ∈ xs, x = f y := by
  obtain ⟨j, hj⟩ := List.mem_iff_getElem?.mp h
  rw [List.getElem?_modify] at hj
  obtain ⟨y, hy, rfl⟩ := Option.map_eq_some_iff.mp hj
  have hmem := List.mem_of_getElem? hy
  split
  · exact .inr ⟨y, hmem, rfl⟩
  · exact .inl hmem

variable {K : Type} {p : LinearProblem K}

theorem LinearProblem.variableId?_eq_none_iff {key : VariableKey} :
    p.variableId? key = none ↔ ∀ v, ¬p.NamesVariable v key :=
  findIdx?_key_eq_none_iff

theorem LinearProblem.rowId?_eq_none_iff {key : RowKey} :
    p.rowId? key = none ↔ ∀ i, ¬p.NamesRow i key :=
  findIdx?_key_eq_none_iff

end Keys

variable {K : Type} [Scalar K]

theorem Bound.isInterval_iff {lower upper : Bound K} : lower.isInterval upper = true ↔
    lower.isUndefined = false ∧ upper.isUndefined = false ∧ lower.isAbove upper = false := by
  simp [isInterval, and_assoc]

/-! ### Terms -/

namespace LinearForm

variable {form : LinearForm K} {n m : ℕ} {v : VariableId} {c : K}

/-- No term of a form is zero, and all are of the first so many variables. -/
def IsProper (form : LinearForm K) (n : ℕ) : Prop :=
  ∀ (v : VariableId) c, form[v]? = some c → (c == 0) = false ∧ v < n

theorem isProper_empty : (∅ : LinearForm K).IsProper n := by
  intro v c hc
  cases hc

theorem IsProper.mono (h : form.IsProper n) (hnm : n ≤ m) : form.IsProper m := by
  intro v c hc
  obtain ⟨hzero, hv⟩ := h v c hc
  exact ⟨hzero, hv.trans_le hnm⟩

theorem IsProper.set (h : form.IsProper n) (hv : v < n) (c : K) : (form.set v c).IsProper n := by
  intro w d hd
  rw [getElem?_set_eq_stored] at hd
  split at hd
  · next hvw =>
    unfold stored at hd
    split at hd
    · cases hd
    · next hzero =>
      obtain rfl := Option.some.inj hd
      exact ⟨Bool.eq_false_iff.mpr hzero, hvw ▸ hv⟩
  · exact h w d hd

end LinearForm

/-! ### Refused changes -/

/-- A problem refuses a change with a fault: a name is given again, or bounds leave no room. -/
inductive ProblemEdit.Refused (p : LinearProblem K) : ProblemEdit K → ProblemFault K → Prop where
  | duplicateVariable {v : VariableId} {key lower upper kind} (h : p.NamesVariable v key) :
    Refused p (addVariable key lower upper kind) (.duplicateVariable key)
  | newVariable {key lower upper kind} (hkey : ∀ v, ¬p.NamesVariable v key)
    (h : lower.isInterval upper = false) :
    Refused p (addVariable key lower upper kind) (.invalidBounds key.label lower upper)
  | variableBounds {v : VariableId} {data lower upper} (hdata : p.columns[v]? = some data)
    (h : lower.isInterval upper = false) :
    Refused p (setVariableBounds v lower upper) (.invalidBounds data.key.label lower upper)
  | duplicateRow {i : RowId} {key lower upper} (h : p.NamesRow i key) :
    Refused p (addRow key lower upper) (.duplicateRow key)
  | newRow {key lower upper} (hkey : ∀ i, ¬p.NamesRow i key) (h : lower.isInterval upper = false) :
    Refused p (addRow key lower upper) (.invalidBounds key.label lower upper)
  | rowBounds {i : RowId} {row lower upper} (hrow : p.rows[i]? = some row)
    (h : lower.isInterval upper = false) :
    Refused p (setRowBounds i lower upper) (.invalidBounds row.key.label lower upper)

theorem ProblemEdit.apply_eq_error_iff {p : LinearProblem K} {change : ProblemEdit K}
    {fault : ProblemFault K} : change.apply p = .error fault ↔ change.Refused p fault := by
  constructor
  · intro h
    cases change with
    | addVariable key lower upper kind =>
      rw [apply, LinearProblem.addVariable] at h
      split at h
      · next hsome =>
        obtain ⟨v, hv⟩ := Option.isSome_iff_exists.mp hsome
        cases h
        exact .duplicateVariable (LinearProblem.namesVariable_of_variableId? hv)
      · next hnone =>
        split at h
        · cases h
        · next hbounds =>
          cases h
          exact .newVariable (LinearProblem.variableId?_eq_none_iff.mp (by simpa using hnone))
            (Bool.eq_false_iff.mpr hbounds)
    | setVariableBounds v lower upper =>
      rw [apply, LinearProblem.setVariableBounds] at h
      split at h
      · cases h
      · next data hdata =>
        split at h
        · cases h
        · next hbounds =>
          cases h
          exact .variableBounds hdata (Bool.eq_false_iff.mpr hbounds)
    | addRow key lower upper =>
      rw [apply, LinearProblem.addRow] at h
      split at h
      · next hsome =>
        obtain ⟨i, hi⟩ := Option.isSome_iff_exists.mp hsome
        cases h
        exact .duplicateRow (LinearProblem.namesRow_of_rowId? hi)
      · next hnone =>
        split at h
        · cases h
        · next hbounds =>
          cases h
          exact .newRow (LinearProblem.rowId?_eq_none_iff.mp (by simpa using hnone))
            (Bool.eq_false_iff.mpr hbounds)
    | setRowBounds i lower upper =>
      rw [apply, LinearProblem.setRowBounds] at h
      split at h
      · cases h
      · next row hrow =>
        split at h
        · cases h
        · next hbounds =>
          cases h
          exact .rowBounds hrow (Bool.eq_false_iff.mpr hbounds)
    | setRowLower | setRowUpper | setCoefficient | setObjective => cases h
  · intro h
    cases h with
    | duplicateVariable h =>
      have hsome := Option.isSome_iff_ne_none.mpr
        fun hnone => LinearProblem.variableId?_eq_none_iff.mp hnone _ h
      rw [apply, LinearProblem.addVariable, if_pos hsome]
    | newVariable hkey h =>
      simp [apply, LinearProblem.addVariable, LinearProblem.variableId?_eq_none_iff.mpr hkey, h]
    | variableBounds hdata h => simp [apply, LinearProblem.setVariableBounds, hdata, h]
    | duplicateRow h =>
      have hsome := Option.isSome_iff_ne_none.mpr
        fun hnone => LinearProblem.rowId?_eq_none_iff.mp hnone _ h
      rw [apply, LinearProblem.addRow, if_pos hsome]
    | newRow hkey h =>
      simp [apply, LinearProblem.addRow, LinearProblem.rowId?_eq_none_iff.mpr hkey, h]
    | rowBounds hrow h => simp [apply, LinearProblem.setRowBounds, hrow, h]

namespace LinearProblem

variable {p q : LinearProblem K} {key : VariableKey} {rowKey : RowKey} {v : VariableId} {i : RowId}
  {change : ProblemEdit K} {ops : List (ProblemOperation K)}

theorem perform_edit_of_ok (h : change.apply p = .ok q) :
    ProblemOperation.perform p (.edit change) = q := by
  unfold ProblemOperation.perform
  dsimp only
  rw [h]

theorem perform_edit_of_error {fault : ProblemFault K} (h : change.apply p = .error fault) :
    ProblemOperation.perform p (.edit change) = p := by
  unfold ProblemOperation.perform
  dsimp only
  rw [h]

/-- A solve leaves the rows. -/
theorem rows_perform_solve (p : LinearProblem K) (answers : Model K → Answer K) :
    (ProblemOperation.perform p (.solve answers)).rows = p.rows := by
  rw [perform_solve]
  cases p.toModel with
  | error status => rfl
  | ok model =>
    dsimp only
    cases answers model <;> rfl

/-! ### Consistent problems -/

/-- What holds of a problem whatever has been done with it. -/
structure IsConsistent (p : LinearProblem K) : Prop where
  variable_keys : (p.columns.map (·.key)).Nodup
  row_keys : (p.rows.map (·.key)).Nodup
  bounds : ∀ data ∈ p.columns, data.lower.isUndefined = false ∧ data.upper.isUndefined = false ∧
    data.lower.isAbove data.upper = false
  forms : ∀ row ∈ p.rows, row.form.IsProper p.columns.length
  objective : p.objective.IsProper p.columns.length

/-- A name belongs to the number under which it stands. -/
theorem variableId?_eq_some_iff (h : p.IsConsistent) :
    p.variableId? key = some v ↔ p.NamesVariable v key :=
  findIdx?_key_eq_some_iff h.variable_keys

theorem rowId?_eq_some_iff (h : p.IsConsistent) :
    p.rowId? rowKey = some i ↔ p.NamesRow i rowKey :=
  findIdx?_key_eq_some_iff h.row_keys

namespace IsConsistent

theorem empty (solver : SolverKind) :
    (LinearProblem.empty solver : LinearProblem K).IsConsistent := by
  constructor
  case variable_keys => exact List.nodup_nil
  case row_keys => exact List.nodup_nil
  case bounds => simp [LinearProblem.empty]
  case forms => simp [LinearProblem.empty]
  case objective => exact LinearForm.isProper_empty

theorem of_eq (h : p.IsConsistent) (hcolumns : q.columns = p.columns) (hrows : q.rows = p.rows)
    (hobjective : q.objective = p.objective) : q.IsConsistent := by
  constructor
  · rw [hcolumns]
    exact h.variable_keys
  · rw [hrows]
    exact h.row_keys
  · rw [hcolumns]
    exact h.bounds
  · rw [hcolumns, hrows]
    exact h.forms
  · rw [hcolumns, hobjective]
    exact h.objective

/-- A row is changed but for its name. -/
theorem modifyRow (h : p.IsConsistent) {f : Row K → Row K} (hkey : ∀ row, (f row).key = row.key)
    (hform : ∀ row, row.form.IsProper p.columns.length → (f row).form.IsProper p.columns.length) :
    (p.modifyRow i f).IsConsistent := by
  constructor
  case variable_keys => exact h.variable_keys
  case row_keys =>
    change ((p.rows.modify i f).map (·.key)).Nodup
    rw [map_key_modify hkey]
    exact h.row_keys
  case bounds => exact h.bounds
  case forms =>
    intro row hrow
    rcases mem_or_of_mem_modify hrow with hrow | ⟨before, hbefore, rfl⟩
    · exact h.forms row hrow
    · exact hform before (h.forms before hbefore)
  case objective => exact h.objective

/-- A change that is made keeps a problem consistent. -/
theorem apply (h : p.IsConsistent) (hfits : change.Fits p) (hmade : change.apply p = .ok q) :
    q.IsConsistent := by
  cases change with
  | addVariable key lower upper kind =>
    obtain ⟨hkey, hbounds, rfl⟩ := addVariable_eq_ok_iff.mp hmade
    have hmore : p.columns.length ≤
        (p.columns ++ [(⟨key, lower, upper, kind⟩ : Variable K)]).length := by simp
    constructor
    case variable_keys => exact nodup_keys_append h.variable_keys hkey
    case row_keys => exact h.row_keys
    case bounds =>
      intro data hdata
      rcases List.mem_append.mp hdata with hdata | hdata
      · exact h.bounds data hdata
      · obtain rfl := List.mem_singleton.mp hdata
        exact Bound.isInterval_iff.mp hbounds
    case forms => exact fun row hrow => (h.forms row hrow).mono hmore
    case objective => exact h.objective.mono hmore
  | setVariableBounds v lower upper =>
    obtain rfl := eq_of_setVariableBounds hmade
    have hbounds : lower.isInterval upper = true := by
      by_contra hcrossed
      have hdata := List.getElem?_eq_getElem hfits
      rw [ProblemEdit.apply_eq_error_iff.mpr
        (.variableBounds hdata (Bool.eq_false_iff.mpr hcrossed))] at hmade
      cases hmade
    have hkeys : (p.columns.modify v fun data => { data with lower, upper }).map (·.key) =
        p.columns.map (·.key) := map_key_modify fun _ => rfl
    constructor
    case variable_keys => exact hkeys ▸ h.variable_keys
    case row_keys => exact h.row_keys
    case bounds =>
      intro data hdata
      rcases mem_or_of_mem_modify hdata with hdata | ⟨before, -, rfl⟩
      · exact h.bounds data hdata
      · exact Bound.isInterval_iff.mp hbounds
    case forms => simpa using h.forms
    case objective => simpa using h.objective
  | addRow key lower upper =>
    obtain ⟨hkey, hbounds, rfl⟩ := addRow_eq_ok_iff.mp hmade
    constructor
    case variable_keys => exact h.variable_keys
    case row_keys => exact nodup_keys_append h.row_keys hkey
    case bounds => exact h.bounds
    case forms =>
      intro row hrow
      rcases List.mem_append.mp hrow with hrow | hrow
      · exact h.forms row hrow
      · obtain rfl := List.mem_singleton.mp hrow
        exact LinearForm.isProper_empty
    case objective => exact h.objective
  | setRowBounds i lower upper =>
    obtain rfl := eq_of_setRowBounds hmade
    exact h.modifyRow (fun _ => rfl) fun _ hform => hform
  | setRowLower i lower | setRowUpper i upper =>
    obtain rfl := Except.ok.inj hmade
    exact h.modifyRow (fun _ => rfl) fun _ hform => hform
  | setCoefficient i v value =>
    obtain rfl := Except.ok.inj hmade
    exact h.modifyRow (fun _ => rfl) fun _ hform => hform.set hfits.2 value
  | setObjective v value =>
    obtain rfl := Except.ok.inj hmade
    exact ⟨h.variable_keys, h.row_keys, h.bounds, h.forms, h.objective.set hfits value⟩

/-- What is done with a problem keeps it consistent. -/
theorem perform {op : ProblemOperation K} (h : p.IsConsistent) (hfits : op.Fits p) :
    (op.perform p).IsConsistent := by
  cases op with
  | edit change =>
    cases hmade : change.apply p with
    | ok q =>
      rw [perform_edit_of_ok hmade]
      exact h.apply hfits hmade
    | error fault =>
      rw [perform_edit_of_error hmade]
      exact h
  | solve answers =>
    obtain ⟨hcolumns, hobjective⟩ := columns_objective_perform_solve p answers
    exact h.of_eq hcolumns (rows_perform_solve p answers) hobjective

theorem after (solver : SolverKind) (hops : (LinearProblem.empty solver).Accepts ops) :
    ((LinearProblem.empty solver).after ops).IsConsistent :=
  after_induction hops (empty solver) fun _ _ hfits h => h.perform hfits

end IsConsistent

/-! ### The last coefficient written -/

/-- What is stored of a coefficient of a row, if there is such a row. -/
def term? (p : LinearProblem K) (i : RowId) (v : VariableId) : Option K :=
  p.rows[i]?.bind fun row => row.form[v]?

theorem coefficient_eq : p.coefficient i v = (p.term? i v).getD 0 := by
  unfold coefficient term? LinearForm.get
  cases p.rows[i]? <;> rfl

omit [Scalar K] in
theorem term?_of_rows_eq (h : q.rows = p.rows) : q.term? i v = p.term? i v := by
  unfold term?
  rw [h]

/-- A row that is added has no terms yet. -/
theorem term?_addRow {lower upper : Bound K} (h : p.addRow rowKey lower upper = .ok q) :
    q.term? i v = p.term? i v := by
  obtain ⟨-, -, rfl⟩ := addRow_eq_ok_iff.mp h
  unfold term?
  dsimp only
  rcases lt_trichotomy i p.rows.length with hi | rfl | hi
  · rw [List.getElem?_append_left hi]
  · rw [List.getElem?_concat_length, List.getElem?_eq_none le_rfl]
    rfl
  · rw [List.getElem?_eq_none hi.le, List.getElem?_eq_none (by simpa using Nat.succ_le_of_lt hi)]

omit [Scalar K] in
/-- Changing a row but for its form leaves what is stored. -/
theorem term?_modifyRow {f : Row K → Row K} (hform : ∀ row, (f row).form = row.form) (j : RowId) :
    (p.modifyRow j f).term? i v = p.term? i v := by
  unfold term? modifyRow
  rw [List.getElem?_modify]
  cases p.rows[i]? with
  | none => rfl
  | some row => by_cases hji : j = i <;> simp [hji, hform]

theorem term?_setCoefficient {j : RowId} {w : VariableId} {c : K} (hj : j < p.rows.length) :
    (p.setCoefficient j w c).term? i v =
      if j = i ∧ w = v then LinearForm.stored c else p.term? i v := by
  unfold term? setCoefficient modifyRow
  rw [List.getElem?_modify]
  by_cases hji : j = i
  · subst hji
    simp [List.getElem?_eq_getElem hj, LinearForm.getElem?_set_eq_stored]
  · simp [hji]

end LinearProblem

/-- What an operation writes as a coefficient of a row. -/
def ProblemOperation.coefficient? (i : RowId) (v : VariableId) : ProblemOperation K → Option K
  | edit (.setCoefficient j w c) => if j = i ∧ w = v then some c else none
  | _ => none

namespace LinearProblem

variable {p : LinearProblem K} {ops : List (ProblemOperation K)}

/-- An operation stores the coefficient that it writes, and leaves what is stored otherwise. -/
theorem term?_perform {op : ProblemOperation K} (hfits : op.Fits p) (i : RowId) (v : VariableId) :
    (op.perform p).term? i v =
      match op.coefficient? i v with
      | some c => LinearForm.stored c
      | none => p.term? i v := by
  cases op with
  | solve answers => exact term?_of_rows_eq (rows_perform_solve p answers)
  | edit change =>
    cases hmade : change.apply p with
    | error fault =>
      -- no change that is refused writes a coefficient
      rw [perform_edit_of_error hmade]
      cases ProblemEdit.apply_eq_error_iff.mp hmade <;> rfl
    | ok q =>
      rw [perform_edit_of_ok hmade]
      cases change with
      | addVariable key lower upper kind =>
        obtain ⟨-, -, rfl⟩ := addVariable_eq_ok_iff.mp hmade
        exact term?_of_rows_eq rfl
      | setVariableBounds w lower upper =>
        obtain rfl := eq_of_setVariableBounds hmade
        exact term?_of_rows_eq rfl
      | addRow key lower upper => exact term?_addRow hmade
      | setRowBounds j lower upper =>
        obtain rfl := eq_of_setRowBounds hmade
        exact term?_modifyRow (fun _ => by rfl) j
      | setRowLower j bound | setRowUpper j bound =>
        obtain rfl := Except.ok.inj hmade
        exact term?_modifyRow (fun _ => by rfl) j
      | setCoefficient j w c =>
        obtain rfl := Except.ok.inj hmade
        have hwrites : ProblemOperation.coefficient? i v (.edit (.setCoefficient j w c)) =
            if j = i ∧ w = v then some c else none := rfl
        rw [term?_setCoefficient hfits.1, hwrites]
        split_ifs <;> rfl
      | setObjective w c =>
        obtain rfl := Except.ok.inj hmade
        exact term?_of_rows_eq rfl

/-- What is stored of a coefficient is that of the last one that a history has written. -/
theorem term?_after (solver : SolverKind) (hops : (empty solver : LinearProblem K).Accepts ops)
    (i : RowId) (v : VariableId) : ((empty solver : LinearProblem K).after ops).term? i v =
      (ops.filterMap (·.coefficient? i v)).getLast?.bind LinearForm.stored := by
  induction ops using List.reverseRecOn with
  | nil => rfl
  | append_singleton ops op ih =>
    obtain ⟨hbefore, hfits, -⟩ := accepts_append.mp hops
    rw [after_append_singleton, term?_perform hfits, List.filterMap_append, ih hbefore]
    cases hwrites : op.coefficient? i v with
    | none => simp [hwrites]
    | some c => simp [hwrites]

/-- A coefficient is the last one that a history has written, where a zero of either sign is read
as zero. It is zero as long as none is written. -/
theorem coefficient_after (solver : SolverKind)
    (hops : (empty solver : LinearProblem K).Accepts ops) (i : RowId) (v : VariableId) :
    ((empty solver : LinearProblem K).after ops).coefficient i v =
      let last := (ops.filterMap (·.coefficient? i v)).getLastD 0
      if last == 0 then 0 else last := by
  rw [coefficient_eq, term?_after solver hops, List.getLastD_eq_getLast?]
  cases (ops.filterMap (·.coefficient? i v)).getLast? with
  | none => simp
  | some c =>
    dsimp only [Option.bind_some, Option.getD_some]
    unfold LinearForm.stored
    split <;> rfl

end LinearProblem

end GridRelief
