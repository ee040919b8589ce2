import Mathlib.Logic.Function.Basic
import GridRelief.Proofs.Problem.Consistency
import GridRelief.Proofs.Work

/-!
# Problems with an index

A name can be looked up in an index that is kept up to date instead of among all variables and
rows. Then an addition changes two places, after checks that may end it. The index is right all the
same: at all times it says what a search for the name would say, and work that ends with a fault has
changed neither of the two.

* `IndexedProblem K`: a problem with an index of its names.
* `IndexedProblem.edit`: a change made step by step, where a fault leaves what was done before it.
* `IndexedProblem.run_edit`: it does what the change does.
* `IndexedProblem.consistent_after`: what holds of a problem and its index after a history.
-/

namespace GridRelief

/-- A problem with an index of its names. -/
structure IndexedProblem (K : Type) where
  problem : LinearProblem K
  variableIndex : VariableKey → Option VariableId
  rowIndex : RowKey → Option RowId

/-- Work on a problem with its index; what it changed before a fault stays. -/
abbrev Indexing (K : Type) : Type → Type := ExceptT (ProblemFault K) (StateM (IndexedProblem K))

namespace IndexedProblem

variable {K : Type} [Scalar K]

/-! ### Work on an indexed problem -/

/-- The problem without variables and rows, and no name in its index. -/
def empty (solver : SolverKind) : IndexedProblem K := ⟨.empty solver, fun _ => none, fun _ => none⟩

/-- Something must hold, or there is a fault. -/
def check (condition : Bool) (fault : ProblemFault K) : Indexing K Unit :=
  if condition then pure () else throw fault

/-- The variable of a name, which must be in the index. -/
def requireVariable (key : VariableKey) : Indexing K VariableId := do
  match (← get).variableIndex key with
  | some v => pure v
  | none => throw (.missingVariable key)

/-- The row of a name, which must be in the index. -/
def requireRow (key : RowKey) : Indexing K RowId := do
  match (← get).rowIndex key with
  | some i => pure i
  | none => throw (.missingRow key)

/-- Add a variable under a new name, first to the index and then to the problem. -/
def addVariable (key : VariableKey) (lower upper : Bound K) (kind : VariableKind) :
    Indexing K VariableId := do
  check ((← get).variableIndex key).isNone (.duplicateVariable key)
  check (lower.isInterval upper) (.invalidBounds key.label lower upper)
  let number := (← get).problem.columns.length
  modify fun s => { s with variableIndex := Function.update s.variableIndex key (some number) }
  modify fun s => { s with problem.columns := s.problem.columns ++ [⟨key, lower, upper, kind⟩] }
  return number

/-- Add a row under a new name, first to the index and then to the problem. -/
def addRow (key : RowKey) (lower upper : Bound K) : Indexing K RowId := do
  check ((← get).rowIndex key).isNone (.duplicateRow key)
  check (lower.isInterval upper) (.invalidBounds key.label lower upper)
  let number := (← get).problem.rows.length
  modify fun s => { s with rowIndex := Function.update s.rowIndex key (some number) }
  modify fun s => { s with problem.rows := s.problem.rows ++ [⟨key, lower, upper, ∅⟩] }
  return number

/-- Change the bounds of a variable, one after the other. -/
def setVariableBounds (v : VariableId) (lower upper : Bound K) : Indexing K Unit := do
  match (← get).problem.columns[v]? with
  | none => pure ()
  | some data =>
    check (lower.isInterval upper) (.invalidBounds data.key.label lower upper)
    modify fun s => { s with
      problem.columns := s.problem.columns.modify v fun data => { data with lower } }
    modify fun s => { s with
      problem.columns := s.problem.columns.modify v fun data => { data with upper } }

/-- Change the bounds of a row, one after the other. -/
def setRowBounds (i : RowId) (lower upper : Bound K) : Indexing K Unit := do
  match (← get).problem.rows[i]? with
  | none => pure ()
  | some row =>
    check (lower.isInterval upper) (.invalidBounds row.key.label lower upper)
    modify fun s => { s with problem := s.problem.setRowLower i lower }
    modify fun s => { s with problem := s.problem.setRowUpper i upper }

/-- Make a change. -/
def edit : ProblemEdit K → Indexing K Unit
  | .addVariable key lower upper kind => do let _ ← addVariable key lower upper kind
  | .setVariableBounds v lower upper => setVariableBounds v lower upper
  | .addRow key lower upper => do let _ ← addRow key lower upper
  | .setRowBounds i lower upper => setRowBounds i lower upper
  | .setRowLower i lower => modify fun s => { s with problem := s.problem.setRowLower i lower }
  | .setRowUpper i upper => modify fun s => { s with problem := s.problem.setRowUpper i upper }
  | .setCoefficient i v c => modify fun s => { s with problem := s.problem.setCoefficient i v c }
  | .setObjective v c => modify fun s => { s with problem := s.problem.setObjective v c }

/-- An indexed problem after an operation; a change that ends with a fault leaves what was done
before it. -/
def perform (s : IndexedProblem K) : ProblemOperation K → IndexedProblem K
  | .edit change => ((edit change).run s).2
  | .solve answers => { s with problem := Id.run (s.problem.solve answers) }

/-- An indexed problem after a history. -/
def after (s : IndexedProblem K) (ops : List (ProblemOperation K)) : IndexedProblem K :=
  ops.foldl perform s

/-! ### What work runs to -/

section Runs

variable {α : Type}

omit [Scalar K] in
theorem run_get (s : IndexedProblem K) :
    (get : Indexing K (IndexedProblem K)).run s = (.ok s, s) := rfl

omit [Scalar K] in
theorem run_modify (f : IndexedProblem K → IndexedProblem K) (s : IndexedProblem K) :
    (modify f : Indexing K PUnit).run s = (.ok (), f s) := rfl

omit [Scalar K] in
theorem run_pure (a : α) (s : IndexedProblem K) : (pure a : Indexing K α).run s = (.ok a, s) := rfl

omit [Scalar K] in
theorem run_check (condition : Bool) (fault : ProblemFault K) (s : IndexedProblem K) :
    (check condition fault).run s = (if condition then .ok () else .error fault, s) := by
  unfold check
  cases condition <;> rfl

end Runs

/-! ### The index is what a search finds -/

section Lookups

variable {α κ : Type} [DecidableEq κ] {key : α → κ} {xs : List α} {x : α} {i : ℕ}

/-- A new key is found behind the others. -/
theorem update_findIdx? (hnew : xs.findIdx? (key · == key x) = none) :
    Function.update (fun k => xs.findIdx? (key · == k)) (key x) (some xs.length) =
      fun k => (xs ++ [x]).findIdx? (key · == k) := by
  funext k
  rw [List.findIdx?_append]
  by_cases hk : k = key x
  · subst hk
    simp [hnew]
  · rw [Function.update_of_ne hk]
    simp [Ne.symm hk]

end Lookups

/-- A problem with the index that says what a search for a name would say. -/
def ofProblem (p : LinearProblem K) : IndexedProblem K := ⟨p, p.variableId?, p.rowId?⟩

variable {p q : LinearProblem K}

/-- The index of a problem with one variable more. -/
theorem ofProblem_addVariable {key : VariableKey} {lower upper : Bound K} {kind : VariableKind}
    (h : p.addVariable key lower upper kind = .ok q) :
    ofProblem q =
      ⟨q, Function.update p.variableId? key (some p.columns.length), p.rowId?⟩ := by
  obtain ⟨hnew, -, rfl⟩ := LinearProblem.addVariable_eq_ok_iff.mp h
  have hindex := update_findIdx? (x := (⟨key, lower, upper, kind⟩ : Variable K)) hnew
  exact congrArg (IndexedProblem.mk _ · _) hindex.symm

/-- The index of a problem with one row more. -/
theorem ofProblem_addRow {key : RowKey} {lower upper : Bound K}
    (h : p.addRow key lower upper = .ok q) :
    ofProblem q = ⟨q, p.variableId?, Function.update p.rowId? key (some p.rows.length)⟩ := by
  obtain ⟨hnew, -, rfl⟩ := LinearProblem.addRow_eq_ok_iff.mp h
  have hindex := update_findIdx? (x := (⟨key, lower, upper, ∅⟩ : Row K)) hnew
  exact congrArg (IndexedProblem.mk _ _ ·) hindex.symm

omit [Scalar K] in
/-- Changing a variable but for its name leaves the index. -/
theorem ofProblem_modifyColumn {f : Variable K → Variable K} (hf : ∀ data, (f data).key = data.key)
    (v : VariableId) : ofProblem { p with columns := p.columns.modify v f } =
      ⟨{ p with columns := p.columns.modify v f }, p.variableId?, p.rowId?⟩ :=
  congrArg (IndexedProblem.mk _ · _) (funext (findIdx?_key_modify hf))

omit [Scalar K] in
/-- Changing a row but for its name leaves the index. -/
theorem ofProblem_modifyRow {f : Row K → Row K} (hf : ∀ row, (f row).key = row.key) (i : RowId) :
    ofProblem (p.modifyRow i f) = ⟨p.modifyRow i f, p.variableId?, p.rowId?⟩ :=
  congrArg (IndexedProblem.mk _ _ ·) (funext (LinearProblem.rowId?_modifyRow hf))

/-- An addition of a variable answers with the number of the variable. -/
theorem run_addVariable (p : LinearProblem K) (key : VariableKey) (lower upper : Bound K)
    (kind : VariableKind) : (addVariable key lower upper kind).run (ofProblem p) =
      match p.addVariable key lower upper kind with
      | .ok q => (.ok p.columns.length, ofProblem q)
      | .error fault => (.error fault, ofProblem p) := by
  unfold addVariable
  simp only [run_bind, run_get, run_check, run_modify, run_pure]
  cases hkey : p.variableId? key with
  | some v => simp [ofProblem, LinearProblem.addVariable, hkey]
  | none =>
    cases hbounds : lower.isInterval upper with
    | false => simp [ofProblem, LinearProblem.addVariable, hkey, hbounds]
    | true =>
      have hadd : p.addVariable key lower upper kind =
          .ok { p with columns := p.columns ++ [⟨key, lower, upper, kind⟩] } :=
        LinearProblem.addVariable_eq_ok_iff.mpr ⟨hkey, hbounds, rfl⟩
      rw [hadd]
      dsimp only
      rw [ofProblem_addVariable hadd]
      simp [ofProblem, hkey]

/-- An addition of a row answers with the number of the row. -/
theorem run_addRow (p : LinearProblem K) (key : RowKey) (lower upper : Bound K) :
    (addRow key lower upper).run (ofProblem p) =
      match p.addRow key lower upper with
      | .ok q => (.ok p.rows.length, ofProblem q)
      | .error fault => (.error fault, ofProblem p) := by
  unfold addRow
  simp only [run_bind, run_get, run_check, run_modify, run_pure]
  cases hkey : p.rowId? key with
  | some i => simp [ofProblem, LinearProblem.addRow, hkey]
  | none =>
    cases hbounds : lower.isInterval upper with
    | false => simp [ofProblem, LinearProblem.addRow, hkey, hbounds]
    | true =>
      have hadd := LinearProblem.addRow_eq_ok_iff.mpr ⟨hkey, hbounds, rfl⟩
      rw [hadd]
      dsimp only
      rw [ofProblem_addRow hadd]
      simp [ofProblem, hkey]

theorem run_setVariableBounds (p : LinearProblem K) (v : VariableId) (lower upper : Bound K) :
    (setVariableBounds v lower upper).run (ofProblem p) =
      match p.setVariableBounds v lower upper with
      | .ok q => (.ok (), ofProblem q)
      | .error fault => (.error fault, ofProblem p) := by
  unfold setVariableBounds LinearProblem.setVariableBounds
  rw [run_bind, run_get]
  dsimp only [ofProblem]
  cases hdata : p.columns[v]? with
  | none => rfl
  | some data =>
    simp only [run_bind, run_check, run_modify]
    cases lower.isInterval upper with
    | false => rfl
    | true =>
      have hset : p.columns.set v { data with lower, upper } =
          p.columns.modify v fun data => { data with lower, upper } := by
        rw [List.modify_eq_set_getElem?, hdata]
        rfl
      have hboth : (p.columns.modify v fun data => { data with lower }).modify v
          (fun data => { data with upper }) =
            p.columns.modify v fun data => { data with lower, upper } :=
        List.modify_modify_eq _ _ _ _
      simp only [if_true]
      rw [hset, hboth]
      exact congrArg (Prod.mk _) (ofProblem_modifyColumn (fun _ => by rfl) v).symm

theorem run_setRowBounds (p : LinearProblem K) (i : RowId) (lower upper : Bound K) :
    (setRowBounds i lower upper).run (ofProblem p) =
      match p.setRowBounds i lower upper with
      | .ok q => (.ok (), ofProblem q)
      | .error fault => (.error fault, ofProblem p) := by
  unfold setRowBounds LinearProblem.setRowBounds
  rw [run_bind, run_get]
  dsimp only [ofProblem]
  cases p.rows[i]? with
  | none => rfl
  | some row =>
    simp only [run_bind, run_check, run_modify]
    cases lower.isInterval upper with
    | false => rfl
    | true =>
      have hboth : (p.setRowLower i lower).setRowUpper i upper =
          p.modifyRow i fun row => { row with lower, upper } :=
        LinearProblem.modifyRow_modifyRow p i _ _
      simp only [if_true]
      rw [hboth]
      exact congrArg (Prod.mk _) (ofProblem_modifyRow (fun _ => by rfl) i).symm

/-- A change made step by step is made as a whole or not at all, and the index stays what a search
finds. -/
theorem run_edit (p : LinearProblem K) (change : ProblemEdit K) :
    (edit change).run (ofProblem p) =
      match change.apply p with
      | .ok q => (.ok (), ofProblem q)
      | .error fault => (.error fault, ofProblem p) := by
  cases change with
  | addVariable key lower upper kind =>
    have happly : ProblemEdit.apply p (.addVariable key lower upper kind) =
        p.addVariable key lower upper kind := rfl
    rw [edit, run_bind, run_addVariable, happly]
    cases p.addVariable key lower upper kind <;> rfl
  | addRow key lower upper =>
    have happly : ProblemEdit.apply p (.addRow key lower upper) = p.addRow key lower upper := rfl
    rw [edit, run_bind, run_addRow, happly]
    cases p.addRow key lower upper <;> rfl
  | setVariableBounds v lower upper => exact run_setVariableBounds p v lower upper
  | setRowBounds i lower upper => exact run_setRowBounds p i lower upper
  | setRowLower i | setRowUpper i | setCoefficient i =>
    exact congrArg (Prod.mk _) (ofProblem_modifyRow (fun _ => by rfl) i).symm
  | setObjective v c => rfl

omit [Scalar K] in
theorem run_requireVariable (p : LinearProblem K) (key : VariableKey) :
    (requireVariable key).run (ofProblem p) = (p.requireVariable key, ofProblem p) := by
  unfold requireVariable LinearProblem.requireVariable
  rw [run_bind, run_get]
  dsimp only [ofProblem]
  cases p.variableId? key <;> rfl

omit [Scalar K] in
theorem run_requireRow (p : LinearProblem K) (key : RowKey) :
    (requireRow key).run (ofProblem p) = (p.requireRow key, ofProblem p) := by
  unfold requireRow LinearProblem.requireRow
  rw [run_bind, run_get]
  dsimp only [ofProblem]
  cases p.rowId? key <;> rfl

/-! ### Histories -/

/-- The index stays what a search finds, whatever is done. -/
theorem perform_ofProblem (p : LinearProblem K) (op : ProblemOperation K) :
    (ofProblem p).perform op = ofProblem (op.perform p) := by
  cases op with
  | edit change =>
    unfold perform
    dsimp only
    rw [run_edit]
    cases hmade : change.apply p with
    | ok q => rw [LinearProblem.perform_edit_of_ok hmade]
    | error fault => rw [LinearProblem.perform_edit_of_error hmade]
  | solve answers =>
    obtain ⟨hcolumns, -⟩ := LinearProblem.columns_objective_perform_solve p answers
    have hvariables :
        (ProblemOperation.perform p (.solve answers)).variableId? = p.variableId? := by
      funext key
      unfold LinearProblem.variableId?
      rw [hcolumns]
    have hrows : (ProblemOperation.perform p (.solve answers)).rowId? = p.rowId? := by
      funext key
      unfold LinearProblem.rowId?
      rw [LinearProblem.rows_perform_solve]
    unfold ofProblem
    rw [hvariables, hrows]
    rfl

theorem after_ofProblem (p : LinearProblem K) (ops : List (ProblemOperation K)) :
    (ofProblem p).after ops = ofProblem (p.after ops) := by
  induction ops generalizing p with
  | nil => rfl
  | cons op ops ih => exact (congrArg (·.after ops) (perform_ofProblem p op)).trans (ih _)

/-- The names in the index belong to the variables and rows, each to the one of that name, and every
number is that of a name. -/
structure IsExact (s : IndexedProblem K) : Prop where
  variable_iff : ∀ key v, s.variableIndex key = some v ↔ s.problem.NamesVariable v key
  row_iff : ∀ key i, s.rowIndex key = some i ↔ s.problem.NamesRow i key
  variable_numbers : ∀ v, (∃ key, s.variableIndex key = some v) ↔ v < s.problem.columns.length
  row_numbers : ∀ i, (∃ key, s.rowIndex key = some i) ↔ i < s.problem.rows.length

theorem isExact_ofProblem (h : p.IsConsistent) : (ofProblem p).IsExact := by
  constructor
  case variable_iff => exact fun key v => LinearProblem.variableId?_eq_some_iff h
  case row_iff => exact fun key i => LinearProblem.rowId?_eq_some_iff h
  case variable_numbers =>
    intro v
    constructor
    · rintro ⟨key, hkey⟩
      obtain ⟨data, hdata, -⟩ := LinearProblem.namesVariable_of_variableId? hkey
      exact (List.getElem?_eq_some_iff.mp hdata).1
    · intro hv
      exact ⟨_, (LinearProblem.variableId?_eq_some_iff h).mpr
        ⟨p.columns[v], List.getElem?_eq_getElem hv, rfl⟩⟩
  case row_numbers =>
    intro i
    constructor
    · rintro ⟨key, hkey⟩
      obtain ⟨row, hrow, -⟩ := LinearProblem.namesRow_of_rowId? hkey
      exact (List.getElem?_eq_some_iff.mp hrow).1
    · intro hi
      exact ⟨_, (LinearProblem.rowId?_eq_some_iff h).mpr
        ⟨p.rows[i], List.getElem?_eq_getElem hi, rfl⟩⟩

/-- What holds of a problem and its index after a history. The index says what a search for a name
finds. A name is that of one variable or row at most, and is found under its number; the numbers
are those up to the number of variables or rows. Bounds of variables leave room, and no term is
stored that is zero. A coefficient is the last one written. And work that ends with a fault, which
is so exactly when a name is repeated or missing or bounds leave no room, has changed nothing. -/
theorem consistent_after (solver : SolverKind) {ops : List (ProblemOperation K)}
    (hops : (LinearProblem.empty solver : LinearProblem K).Accepts ops) :
    let p := (LinearProblem.empty solver : LinearProblem K).after ops
    let s := (empty solver : IndexedProblem K).after ops
    s = ⟨p, p.variableId?, p.rowId?⟩ ∧ s.IsExact ∧ p.IsConsistent ∧
    (∀ i v, p.coefficient i v =
      let last := (ops.filterMap (·.coefficient? i v)).getLastD 0
      if last == 0 then 0 else last) ∧
    (∀ change fault t, (edit change).run s = (.error fault, t) ↔
      change.Refused p fault ∧ s = t) ∧
    (∀ key fault t, (requireVariable key).run s = (.error fault, t) ↔
      (∀ v, ¬p.NamesVariable v key) ∧ .missingVariable key = fault ∧ s = t) ∧
    ∀ key fault t, (requireRow key).run s = (.error fault, t) ↔
      (∀ i, ¬p.NamesRow i key) ∧ .missingRow key = fault ∧ s = t := by
  intro p s
  have hs : s = ofProblem p := after_ofProblem (.empty solver) ops
  have hp : p.IsConsistent := .after solver hops
  rw [hs]
  refine ⟨rfl, isExact_ofProblem hp, hp, LinearProblem.coefficient_after solver hops,
    fun change fault t => ?_, fun key fault t => ?_, fun key fault t => ?_⟩
  · have hrun := run_edit p change
    rw [← ProblemEdit.apply_eq_error_iff]
    cases hmade : change.apply p with
    | ok q =>
      rw [hmade] at hrun
      simp [run_eq_error_iff hrun]
    | error other =>
      rw [hmade] at hrun
      simp [run_eq_error_iff hrun]
  · rw [run_eq_error_iff (run_requireVariable p key), ← LinearProblem.variableId?_eq_none_iff,
      LinearProblem.requireVariable]
    cases p.variableId? key <;> simp
  · rw [run_eq_error_iff (run_requireRow p key), ← LinearProblem.rowId?_eq_none_iff,
      LinearProblem.requireRow]
    cases p.rowId? key <;> simp

end IndexedProblem

namespace RepeatedName

/-- A coefficient is written twice. In between, the name of the variable is given again, and its
bounds are to be crossed, and both is refused. -/
def history : List (ProblemOperation ℚ) :=
  [.edit (.addVariable (.flow "x") (.finite 0) (.finite 1) .continuous),
    .edit (.addRow (.flow "x") (.finite 0) .posInf), .edit (.setCoefficient 0 0 3),
    .edit (.addVariable (.flow "x") .negInf .posInf .integer),
    .edit (.setVariableBounds 0 (.finite 1) (.finite 0)),
    .solve fun model => .solved (model.columns.map fun _ => 0), .edit (.setCoefficient 0 0 2)]

theorem accepts_history : (LinearProblem.empty .microlp).Accepts history := by
  refine ⟨trivial, trivial, ⟨Nat.one_pos, Nat.one_pos⟩, trivial, Nat.one_pos,
    fun model values hvalues => ?_, ⟨Nat.one_pos, Nat.one_pos⟩, trivial⟩
  rw [← Answer.solved.inj hvalues, List.length_map]

theorem read_back_after_refusals : (LinearProblem.empty .microlp).Accepts history ∧
    ((LinearProblem.empty .microlp).after history).coefficient 0 0 = 2 ∧
    ((IndexedProblem.empty .microlp).after history).variableIndex (.flow "x") = some 0 ∧
    ((LinearProblem.empty .microlp).after history).IsConsistent := by
  obtain ⟨-, hexact, hconsistent, hlast, -⟩ :=
    IndexedProblem.consistent_after .microlp accepts_history
  exact ⟨accepts_history, hlast 0 0, (hexact.variable_iff (.flow "x") 0).mpr ⟨_, rfl, rfl⟩,
    hconsistent⟩

end RepeatedName

end GridRelief
