import GridRelief.Problem.SolverKind
import Std.Data.ExtTreeMap

/-!
# Linear problems

A linear problem holds variables and rows under the names of what they stand for, a linear
objective to be made as small as possible, and the values of the last successful solve. A name is
given once. Variables and rows are numbered in the order of their creation, and terms with
coefficient zero are not stored.

## Main definitions

* `LinearProblem K`: a problem.
* `LinearProblem.addVariable`, `LinearProblem.addRow`, and the changes of bounds and coefficients.
* `LinearProblem.Satisfies`: the assignments that keep all bounds, rows and integrality conditions.
* `LinearProblem.solutionValue`, `LinearProblem.objectiveValue`: what the last solve found.
-/

namespace GridRelief

/-- The number of a variable. -/
abbrev VariableId : Type := Nat

/-- The number of a row. -/
abbrev RowId : Type := Nat

/-- The values that a variable may take. -/
inductive VariableKind where
  /-- Any number. -/
  | continuous
  /-- An integer. -/
  | integer
  /-- Zero or one. -/
  | binary
  deriving DecidableEq, Repr

/-- How the last solve ended. -/
inductive SolveStatus where
  | optimal
  | infeasible
  | unbounded
  | abnormal
  /-- There was none. -/
  | notSolved
  deriving DecidableEq, Repr

/-- The name of a status. -/
def SolveStatus.label : SolveStatus → String
  | .optimal => "OPTIMAL"
  | .infeasible => "INFEASIBLE"
  | .unbounded => "UNBOUNDED"
  | .abnormal => "ABNORMAL"
  | .notSolved => "NOT_SOLVED"

/-- A linear form: the coefficients that are not zero. -/
abbrev LinearForm (K : Type) : Type := Std.ExtTreeMap VariableId K

variable {K : Type} [Scalar K]

namespace LinearForm

/-- The coefficient of a variable. -/
def get (form : LinearForm K) (v : VariableId) : K := form[v]?.getD 0

/-- Change the coefficient of a variable; zero removes the term. -/
def set (form : LinearForm K) (v : VariableId) (value : K) : LinearForm K :=
  if value == 0 then form.erase v else form.insert v value

/-- The value of a form at an assignment, summed in the order of the variables. -/
def eval (form : LinearForm K) (x : VariableId → K) : K :=
  Scalar.sum (form.toList.map fun term => term.2 * x term.1)

end LinearForm

/-- A variable of a problem. -/
structure Variable (K : Type) where
  key : VariableKey
  lower : Bound K
  upper : Bound K
  kind : VariableKind

/-- A row of a problem: a linear form between two bounds. -/
structure Row (K : Type) where
  key : RowKey
  lower : Bound K
  upper : Bound K
  form : LinearForm K := ∅

/-- A linear problem. -/
structure LinearProblem (K : Type) where
  /-- The variables, by number. -/
  columns : List (Variable K) := []
  /-- The rows, by number. -/
  rows : List (Row K) := []
  objective : LinearForm K := ∅
  solver : SolverKind
  /-- The values of the variables in the last solve, if it was successful. -/
  solution : Option (List K) := none
  status : SolveStatus := .notSolved

namespace LinearProblem

/-- The problem without variables and rows. -/
def empty (solver : SolverKind) : LinearProblem K := { solver }

/-! ### Variables -/

/-- The variable of a name. -/
def variableId? (p : LinearProblem K) (key : VariableKey) : Option VariableId :=
  p.columns.findIdx? (·.key == key)

/-- The variable of a name, which must be there. -/
def requireVariable (p : LinearProblem K) (key : VariableKey) :
    Except (ProblemFault K) VariableId :=
  match p.variableId? key with
  | some v => .ok v
  | none => .error (.missingVariable key)

/-- Add a variable under a new name. -/
def addVariable (p : LinearProblem K) (key : VariableKey) (lower upper : Bound K)
    (kind : VariableKind) : Except (ProblemFault K) (LinearProblem K) :=
  if (p.variableId? key).isSome then .error (.duplicateVariable key)
  else if lower.isInterval upper then
    .ok { p with columns := p.columns ++ [{ key, lower, upper, kind }] }
  else .error (.invalidBounds key.label lower upper)

/-- Change the bounds of a variable. -/
def setVariableBounds (p : LinearProblem K) (v : VariableId) (lower upper : Bound K) :
    Except (ProblemFault K) (LinearProblem K) :=
  match p.columns[v]? with
  | none => .ok p
  | some data =>
    if lower.isInterval upper then
      .ok { p with columns := p.columns.set v { data with lower, upper } }
    else .error (.invalidBounds data.key.label lower upper)

/-! ### Rows -/

/-- The row of a name. -/
def rowId? (p : LinearProblem K) (key : RowKey) : Option RowId := p.rows.findIdx? (·.key == key)

/-- The row of a name, which must be there. -/
def requireRow (p : LinearProblem K) (key : RowKey) : Except (ProblemFault K) RowId :=
  match p.rowId? key with
  | some r => .ok r
  | none => .error (.missingRow key)

/-- Add a row without terms under a new name. -/
def addRow (p : LinearProblem K) (key : RowKey) (lower upper : Bound K) :
    Except (ProblemFault K) (LinearProblem K) :=
  if (p.rowId? key).isSome then .error (.duplicateRow key)
  else if lower.isInterval upper then
    .ok { p with rows := p.rows ++ [{ key, lower, upper }] }
  else .error (.invalidBounds key.label lower upper)

/-- Change a row. -/
def modifyRow (p : LinearProblem K) (r : RowId) (change : Row K → Row K) : LinearProblem K :=
  { p with rows := p.rows.modify r change }

/-- The bounds of a row. -/
def rowBounds (p : LinearProblem K) (r : RowId) : Bound K × Bound K :=
  match p.rows[r]? with
  | some row => (row.lower, row.upper)
  | none => (.negInf, .posInf)

/-- Change both bounds of a row. -/
def setRowBounds (p : LinearProblem K) (r : RowId) (lower upper : Bound K) :
    Except (ProblemFault K) (LinearProblem K) :=
  match p.rows[r]? with
  | none => .ok p
  | some row =>
    if lower.isInterval upper then
      .ok (p.modifyRow r fun row => { row with lower, upper })
    else .error (.invalidBounds row.key.label lower upper)

/-- Change the lower bound of a row, which may then be above the upper one. -/
def setRowLower (p : LinearProblem K) (r : RowId) (lower : Bound K) : LinearProblem K :=
  p.modifyRow r fun row => { row with lower }

/-- Change the upper bound of a row, which may then be below the lower one. -/
def setRowUpper (p : LinearProblem K) (r : RowId) (upper : Bound K) : LinearProblem K :=
  p.modifyRow r fun row => { row with upper }

/-- Change a coefficient of a row; zero removes the term. -/
def setCoefficient (p : LinearProblem K) (r : RowId) (v : VariableId) (value : K) :
    LinearProblem K :=
  p.modifyRow r fun row => { row with form := row.form.set v value }

/-- A coefficient of a row. -/
def coefficient (p : LinearProblem K) (r : RowId) (v : VariableId) : K :=
  match p.rows[r]? with
  | some row => row.form.get v
  | none => 0

/-! ### The objective -/

/-- Change a coefficient of the objective; zero removes the term. -/
def setObjective (p : LinearProblem K) (v : VariableId) (value : K) : LinearProblem K :=
  { p with objective := p.objective.set v value }

/-- A coefficient of the objective. -/
def objectiveCoefficient (p : LinearProblem K) (v : VariableId) : K := p.objective.get v

/-! ### Feasibility -/

/-- Whether some variable takes integers only. -/
def hasIntegers (p : LinearProblem K) : Bool := p.columns.any fun v => v.kind != .continuous

/-- Whether a number lies between two bounds. -/
def within (lower upper : Bound K) (x : K) : Prop :=
  (match lower with
    | .negInf => True
    | .finite a => a ≤ x
    | .posInf => False) ∧
  (match upper with
    | .negInf => False
    | .finite b => x ≤ b
    | .posInf => True)

/-- Whether a number is one that a kind of variable may take. -/
def kindAllows : VariableKind → K → Prop
  | .continuous, _ => True
  | .integer, x => ∃ n : Int, x = Scalar.ofInt n
  | .binary, x => x = 0 ∨ x = 1

/-- Whether an assignment keeps the bounds, rows and integrality conditions of a problem. -/
def Satisfies (p : LinearProblem K) (x : VariableId → K) : Prop :=
  (∀ v data, p.columns[v]? = some data →
    within data.lower data.upper (x v) ∧ kindAllows data.kind (x v)) ∧
  ∀ row ∈ p.rows, within row.lower row.upper (row.form.eval x)

/-! ### Solutions -/

/-- Record that a solve found values for the variables. -/
def withSolution (p : LinearProblem K) (values : List K) : LinearProblem K :=
  { p with solution := some values, status := .optimal }

/-- Record that a solve found none. -/
def withoutSolution (p : LinearProblem K) (status : SolveStatus) : LinearProblem K :=
  { p with solution := none, status }

/-- The value of a variable in the last successful solve. A variable added since has none. -/
def solutionValue (p : LinearProblem K) (v : VariableId) : Except (Fault K) K :=
  match p.solution with
  | none =>
    match p.columns[v]? with
    | some data => .error (.noSolutionFor data.key p.status.label)
    | none => .error .outsideSolution
  | some values =>
    match values[v]? with
    | some value => .ok value
    | none => .error .outsideSolution

/-- The value of the objective in the last successful solve. -/
def objectiveValue (p : LinearProblem K) : Except (Fault K) K :=
  match p.solution with
  | none => .error (.noSolution p.status.label)
  | some values =>
    if p.objective.toList.all fun term => term.1 < values.length then
      .ok (p.objective.eval fun v => values.getD v 0)
    else .error .outsideSolution

end LinearProblem

end GridRelief
