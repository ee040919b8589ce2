import GridRelief.Solver.Simplex

/-!
# Branch and bound

A variable that should be an integer and is not splits the problem into two: it stays at or below
the next lower integer, or at or above the next higher one. A part whose best value is no better
than the best integer point found so far is passed over.

## Main definitions

* `branch`: the best integer point of a dictionary.
-/

namespace GridRelief.Solver

/-- The first of some variables whose value is not an integer. -/
def fractional? (d : Dictionary) (integers : List Nat) : Option Nat :=
  integers.find? fun v => (d.valueOf v).den != 1

/-- The dictionary with a smaller range for a variable; a free variable moves into it. -/
def Dictionary.restrict (d : Dictionary) (v : Nat) (lower upper : Option Rat) : Dictionary :=
  let d := { d with
    lower := d.lower.setIfInBounds v lower
    upper := d.upper.setIfInBounds v upper }
  match d.free.findIdx? (· == v) with
  | none => d
  | some column =>
    match d.violation? v with
    | some goal => d.shift column (goal - d.valueOf v)
    | none => d

/-- The best point so far: its objective and its values. -/
abbrev Incumbent : Type := Option (Rat × Array Rat)

/-- How a search for integer points ends. -/
inductive SearchEnd where
  /-- All parts have been looked at. -/
  | finished (best : Incumbent)
  | unbounded
  /-- At the limit of steps. -/
  | exhausted

/-- Whether an objective is no better than that of the best point so far. -/
def isDominated (best : Incumbent) (objective : Rat) : Bool :=
  match best with
  | some (other, _) => decide (other ≤ objective)
  | none => false

/-- Search for the best integer point, at most so many splits below each other. -/
def branch (integers : List Nat) : Nat → Incumbent → Dictionary → SearchEnd
  | 0, _, _ => .exhausted
  | depth + 1, best, d =>
    match d.optimize with
    | .infeasible => .finished best
    | .unbounded => .unbounded
    | .exhausted => .exhausted
    | .optimal d =>
      if isDominated best d.objective then .finished best
      else
        match fractional? d integers with
        | none => .finished (some (d.objective, d.value))
        | some v =>
          let below : Rat := ((d.valueOf v).floor : Int)
          match branch integers depth best (d.restrict v (d.lowerOf v) (some below)) with
          | .finished best =>
            branch integers depth best (d.restrict v (some (below + 1)) (d.upperOf v))
          | other => other

end GridRelief.Solver
