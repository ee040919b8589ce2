import GridRelief.Decimal.Binary
import GridRelief.Problem.Model
import GridRelief.Solver.BranchAndBound

/-!
# An exact solver

Models with floats are solved in exact rational arithmetic. The numbers of a model carry the
rounding of earlier computations, so one-sided rows and the ranges of continuous variables hold up
to a small tolerance; the values found are then rounded to floats.

## Main definitions

* `exactSolve`: the answer to a model.
-/

namespace GridRelief.Solver

/-! ### Floats and rationals -/

/-- The rational number that a float is, zero for one that is not finite. -/
def toRat (x : Float) : Rat :=
  match Decimal.FloatValue.ofFloat x with
  | .number b =>
    let size : Rat :=
      mkRat (b.mantissa * Decimal.powerOfTwo b.exponent.toNat)
        (Decimal.powerOfTwo (-b.exponent).toNat)
    if b.negative then -size else size
  | _ => 0

/-- A float next to a rational number: the quotient is cut to more bits than a float has. -/
def ofRat (q : Rat) : Float :=
  let num := q.num.natAbs
  let shift : Int := (Nat.log2 q.den : Int) - Nat.log2 num + 80
  let scaled :=
    num * Decimal.powerOfTwo shift.toNat / (q.den * Decimal.powerOfTwo (-shift).toNat)
  let size := (Float.ofNat scaled).scaleB (-shift)
  if q.num < 0 then -size else size

/-! ### Dictionaries of models -/

/-- How far rows and ranges may be exceeded. -/
def tolerance : Rat := mkRat 1 1000000000

/-- The range of a variable. -/
def variableRange (v : ModelVariable Float) : Option Rat × Option Rat :=
  let slack := if v.integer then 0 else tolerance
  (v.min.map (toRat · - slack), v.max.map (toRat · + slack))

/-- The range of a row. -/
def rowRange (row : ModelRow Float) : Option Rat × Option Rat :=
  let bound := toRat row.bound
  match row.relation with
  | .eq => (some bound, some bound)
  | .geq => (some (bound - tolerance), none)
  | .leq => (none, some (bound + tolerance))

/-- The coefficients of a linear form in so many variables. -/
def coefficients (count : Nat) (terms : List (VariableId × Float)) : Array Rat :=
  terms.foldl (fun form term => form.setIfInBounds term.1 (toRat term.2)) (Array.replicate count 0)

/-- The value in a range that is nearest to zero. -/
def startValue (range : Option Rat × Option Rat) : Rat :=
  match range with
  | (some l, some u) => if 0 < l then l else if u < 0 then u else 0
  | (some l, none) => if 0 < l then l else 0
  | (none, some u) => if u < 0 then u else 0
  | (none, none) => 0

/-- The first dictionary of a model: its variables are free, and each row is a basic variable. -/
def dictionaryOf (model : Model Float) : Dictionary :=
  let count := model.columns.length
  let ranges := model.columns.map variableRange
  let start := (ranges.map startValue).toArray
  let rows := (model.rows.map fun row => coefficients count row.terms).toArray
  let rowValues := rows.map fun form =>
    (Array.range count).foldl (fun sum v => sum + form.getD v 0 * start.getD v 0) 0
  let all := ranges ++ model.rows.map rowRange
  { lower := (all.map Prod.fst).toArray
    upper := (all.map Prod.snd).toArray
    value := start ++ rowValues
    basic := (Array.range rows.size).map (count + ·)
    free := Array.range count
    rows
    cost := coefficients count model.objective }

/-- The variables of a model that take integers only. -/
def integersOf (model : Model Float) : List Nat :=
  (model.columns.zipIdx.filter fun v => v.1.integer).map Prod.snd

/-- The limit of splits below each other. -/
def splitLimit : Nat := 400

/-- The answer to a model. -/
def exactSolve (model : Model Float) : Answer Float :=
  match branch (integersOf model) splitLimit none (dictionaryOf model) with
  | .finished (some (_, values)) =>
    .solved ((List.range model.columns.length).map fun v => ofRat (values.getD v 0))
  | .finished none => .infeasible
  | .unbounded => .unbounded
  | .exhausted => .failed

end GridRelief.Solver
