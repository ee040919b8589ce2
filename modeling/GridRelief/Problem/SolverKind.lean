import GridRelief.Fault

/-!
# Solvers

The solvers that a linear problem may be handed to. One handles integer variables, the other is
for continuous problems only.

## Main definitions

* `SolverKind`: the solvers.
* `SolverKind.ofLabel`: the solver of a name in any case of letters.
-/

namespace GridRelief

/-- A solver of linear problems. -/
inductive SolverKind where
  /-- A simplex method with branch and bound. -/
  | microlp
  /-- An interior-point method for continuous problems. -/
  | clarabel
  deriving DecidableEq, Repr

namespace SolverKind

/-- The solvers in the order in which they are listed. -/
def all : List SolverKind := [.microlp, .clarabel]

/-- The name of a solver. -/
def label : SolverKind → String
  | .microlp => "microlp"
  | .clarabel => "clarabel"

/-- Whether a solver handles integer variables. -/
def supportsIntegers : SolverKind → Bool
  | .microlp => true
  | .clarabel => false

/-- The solver of a name in any case of letters. -/
def ofLabel {K : Type} (name : String) : Except (Fault K) SolverKind :=
  let lower := name.map Char.toLower
  match all.find? fun kind => kind.label == lower with
  | some kind => .ok kind
  | none => .error (.unknownSolver lower (all.map label))

end SolverKind

end GridRelief
