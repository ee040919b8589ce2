import GridRelief.Problem.Store

/-!
# Solver models

What a solver is handed: variables with the bounds that are finite, rows that are equalities or
one-sided, and an objective to be made as small as possible. A row without terms never reaches the
solver: it holds or it makes the problem infeasible.

## Main definitions

* `Model K`: the problem of a solver.
* `LinearProblem.toModel`: the model of a problem, or how its solve ends at once.
* `Answer K`: what a solver answers.
* `LinearProblem.record`: the problem with an answer recorded.
-/

namespace GridRelief

/-- How the value of a row compares with its bound. -/
inductive Relation where
  | eq
  | geq
  | leq
  deriving DecidableEq, Repr

/-- A variable of a model. -/
structure ModelVariable (K : Type) where
  integer : Bool
  min : Option K
  max : Option K

/-- A row of a model. -/
structure ModelRow (K : Type) where
  terms : List (VariableId × K)
  relation : Relation
  bound : K

/-- The problem of a solver. -/
structure Model (K : Type) where
  /-- The variables, by number. -/
  columns : List (ModelVariable K)
  rows : List (ModelRow K)
  objective : List (VariableId × K)

/-- What a solver answers. -/
inductive Answer (K : Type) where
  /-- The values of the variables at a best point. -/
  | solved (values : List K)
  | infeasible
  | unbounded
  /-- The solver gave up. -/
  | failed
  deriving Repr

variable {K : Type} [Scalar K]

/-- The number that a bound is, if it is finite. -/
def Bound.finite? : Bound K → Option K
  | .finite a => if Scalar.isFinite a then some a else none
  | _ => none

/-- A variable of a problem in a model: a binary is an integer from zero to one, and finite bounds
replace these. -/
def Variable.toModel (v : Variable K) : ModelVariable K :=
  match v.kind with
  | .continuous => ⟨false, v.lower.finite?, v.upper.finite?⟩
  | .integer => ⟨true, v.lower.finite?, v.upper.finite?⟩
  | .binary => ⟨true, some (v.lower.finite?.getD 0), some (v.upper.finite?.getD 1)⟩

/-- A row of a problem in a model; none if it has no terms and does not hold. -/
def Row.toModel? (row : Row K) : Option (List (ModelRow K)) :=
  if row.form.isEmpty then
    if row.lower.isAbove (.finite 0) || (Bound.finite 0).isAbove row.upper then none else some []
  else
    let terms := row.form.toList
    match row.lower.finite?, row.upper.finite? with
    | some a, some b =>
      if a == b then some [⟨terms, .eq, a⟩] else some [⟨terms, .geq, a⟩, ⟨terms, .leq, b⟩]
    | some a, none => some [⟨terms, .geq, a⟩]
    | none, some b => some [⟨terms, .leq, b⟩]
    | none, none => some []

namespace LinearProblem

/-- The model of a problem, or how its solve ends without a solver. -/
def toModel (p : LinearProblem K) : Except SolveStatus (Model K) :=
  if p.hasIntegers && !p.solver.supportsIntegers then .error .abnormal
  else
    match p.rows.mapM Row.toModel? with
    | none => .error .infeasible
    | some rows =>
      .ok { columns := p.columns.map Variable.toModel
            rows := rows.flatten
            objective := p.objective.toList }

/-- The problem with an answer recorded; earlier values are forgotten. -/
def record (p : LinearProblem K) : Answer K → LinearProblem K
  | .solved values => p.withSolution values
  | .infeasible => p.withoutSolution .infeasible
  | .unbounded => p.withoutSolution .unbounded
  | .failed => p.withoutSolution .abnormal

/-- Solve a problem with a solver that may keep a state. -/
def solve {M : Type → Type} [Monad M] (solver : Model K → M (Answer K)) (p : LinearProblem K) :
    M (LinearProblem K) :=
  match p.toModel with
  | .error status => pure (p.withoutSolution status)
  | .ok model => do
    let answer ← solver model
    return p.record answer

end LinearProblem

end GridRelief
