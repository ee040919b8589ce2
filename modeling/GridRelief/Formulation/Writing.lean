import GridRelief.Problem.Store
import GridRelief.Result.Activation
import GridRelief.Result.Flows

/-!
# Writing a linear problem

The linear problem of an optimisation is written part by part. A part writes its variables, rows
and terms of the objective once, and adapts them when the flows are linearised anew. A later part
may look up what an earlier one wrote. Writing stops at the first fault, and what was written
before it stays.

## Main definitions

* `Linearization K`: the point around which flows are linear.
* `Writing K`: a step of writing.
* `Part K`: a part of a linear problem.
-/

namespace GridRelief

variable {K : Type} [Scalar K]

/-- The point around which flows are linear: the flows at some set-points, and how they change. -/
structure Linearization (K : Type) where
  flows : Flows K
  sensitivities : Sensitivities K
  activation : Activation K

/-! ### Steps of writing -/

/-- A step that changes a linear problem; what it changed before a fault stays. -/
abbrev Writing (K : Type) : Type → Type := ExceptT (Fault K) (StateM (LinearProblem K))

namespace Writing

/-- A question that the problem may refuse. -/
def ask {α : Type} (question : LinearProblem K → Except (ProblemFault K) α) : Writing K α :=
  ExceptT.mk fun p =>
    match question p with
    | .ok answer => (.ok answer, p)
    | .error fault => (.error (.problem fault), p)

/-- A change that the problem may refuse; a refused change leaves the problem as it was. -/
def change (edit : LinearProblem K → Except (ProblemFault K) (LinearProblem K)) :
    Writing K Unit :=
  ExceptT.mk fun p =>
    match edit p with
    | .ok q => (.ok (), q)
    | .error fault => (.error (.problem fault), p)

/-- The variable of a name, if there is one. -/
def variableId? (key : VariableKey) : Writing K (Option VariableId) :=
  return (← get).variableId? key

/-- The row of a name, if there is one. -/
def rowId? (key : RowKey) : Writing K (Option RowId) := return (← get).rowId? key

/-- The variable of a name, which must be there. -/
def requireVariable (key : VariableKey) : Writing K VariableId := ask (·.requireVariable key)

/-- The row of a name, which must be there. -/
def requireRow (key : RowKey) : Writing K RowId := ask (·.requireRow key)

/-- Add a variable under a new name. -/
def addVariable (key : VariableKey) (lower upper : Bound K) (kind : VariableKind) :
    Writing K VariableId := do
  let number := (← get).columns.length
  change (·.addVariable key lower upper kind)
  return number

/-- Add a variable that is zero or one. -/
def addBinary (key : VariableKey) : Writing K VariableId :=
  addVariable key (.finite 0) (.finite 1) .binary

/-- Change a coefficient of a row. -/
def setCoefficient (row : RowId) (v : VariableId) (value : K) : Writing K Unit :=
  modify (·.setCoefficient row v value)

/-- Change some coefficients of a row. -/
def setCoefficients (row : RowId) (terms : List (VariableId × K)) : Writing K Unit :=
  terms.forM fun term => setCoefficient row term.1 term.2

/-- Add a row with some terms under a new name. -/
def addRow (key : RowKey) (lower upper : Bound K) (terms : List (VariableId × K)) :
    Writing K RowId := do
  let number := (← get).rows.length
  change (·.addRow key lower upper)
  setCoefficients number terms
  return number

/-- Change both bounds of a row. -/
def setRowBounds (row : RowId) (lower upper : Bound K) : Writing K Unit :=
  change (·.setRowBounds row lower upper)

/-- Write a row, which is added under its name if it is not there yet. -/
def putRow (key : RowKey) (lower upper : Bound K) (terms : List (VariableId × K)) :
    Writing K Unit := do
  match ← rowId? key with
  | some row =>
    setRowBounds row lower upper
    setCoefficients row terms
  | none =>
    let _ ← addRow key lower upper terms

/-- Change a coefficient of the objective. -/
def setObjective (v : VariableId) (value : K) : Writing K Unit := modify (·.setObjective v value)

end Writing

/-! ### Parts -/

/-- A part of a linear problem. -/
structure Part (K : Type) where
  name : String
  /-- Write the part. -/
  fill : Linearization K → Writing K Unit
  /-- Adapt the part to a new linearisation, after so many iterations. -/
  refresh : Linearization K → Nat → Writing K Unit := fun _ _ => pure ()
  /-- Adapt the part to set-points that have been rounded. -/
  adjust : Activation K → Writing K Unit := fun _ => pure ()

end GridRelief
