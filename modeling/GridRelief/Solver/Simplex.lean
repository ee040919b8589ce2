import GridRelief.Solver.Dictionary

/-!
# The simplex method

A dictionary is first moved to values within all ranges and then to values of least objective.
Each step takes the first variable that qualifies, so no sequence of steps repeats; the number of
steps is limited all the same, and a run that reaches the limit is given up.

## Main definitions

* `Dictionary.repair`: values within all ranges.
* `Dictionary.descend`: values of least objective.
* `Dictionary.optimize`: one after the other.
-/

namespace GridRelief.Solver

/-- How a run of the simplex method ends. -/
inductive SimplexEnd where
  /-- At a best point. -/
  | optimal (dictionary : Dictionary)
  | infeasible
  | unbounded
  /-- At the limit of steps. -/
  | exhausted

namespace Dictionary

/-! ### Reaching the ranges -/

/-- How far a variable is outside its range, and the end that it should go to. -/
def violation? (d : Dictionary) (v : Nat) : Option Rat :=
  match d.lowerOf v with
  | some l =>
    if d.valueOf v < l then some l
    else
      match d.upperOf v with
      | some u => if u < d.valueOf v then some u else none
      | none => none
  | none =>
    match d.upperOf v with
    | some u => if u < d.valueOf v then some u else none
    | none => none

/-- The row of the first basic variable outside its range. -/
def violatedRow? (d : Dictionary) : Option Nat :=
  ((Array.range d.basic.size).foldl
    (fun best row =>
      let v := d.basicOf row
      if (d.violation? v).isSome then firstVariable best v row else best)
    none).map Prod.snd

/-- The column of the first free variable that can move the basic variable of a row up or down. -/
def helpingColumn? (d : Dictionary) (row : Nat) (up : Bool) : Option Nat :=
  ((Array.range d.free.size).foldl
    (fun best column =>
      let v := d.freeOf column
      let a := d.entry row column
      let helps :=
        if a = 0 then false
        else if decide (0 < a) == up then d.canRise v
        else d.canFall v
      if helps then firstVariable best v column else best)
    none).map Prod.snd

/-- Move values into their ranges; `none` if the limit of steps is reached, and `none` inside if
no values are within all ranges. -/
def repair : Nat → Dictionary → Option (Option Dictionary)
  | 0, _ => none
  | steps + 1, d =>
    match d.violatedRow? with
    | none => some (some d)
    | some row =>
      let v := d.basicOf row
      let goal := (d.violation? v).getD 0
      match d.helpingColumn? row (decide (d.valueOf v < goal)) with
      | none => some none
      | some column =>
        let step := (goal - d.valueOf v) / d.entry row column
        repair steps ((d.shift column step).pivot row column)

/-! ### Descending -/

/-- The column of the first free variable whose move lowers the objective, and whether it rises. -/
def enteringColumn? (d : Dictionary) : Option (Nat × Bool) :=
  ((Array.range d.free.size).foldl
    (fun best column =>
      let v := d.freeOf column
      let c := d.cost.getD column 0
      let helps := if c = 0 then false else if c < 0 then d.canRise v else d.canFall v
      if helps then firstVariable best v column else best)
    none).map fun found => (found.2, decide (d.cost.getD found.2 0 < 0))

/-- How far a variable can go in a direction within its range. -/
def room? (d : Dictionary) (v : Nat) (up : Bool) : Option Rat :=
  if up then (d.upperOf v).map (· - d.valueOf v) else (d.lowerOf v).map (d.valueOf v - ·)

/-- What stops a move: a length, and the row that sets it if it is not the range of the moved
variable itself. -/
structure Stop where
  length : Rat
  blocker : Nat
  row : Option Nat

/-- Of two stops the shorter, or the one with the lower number. -/
def nearer (best : Option Stop) (stop : Stop) : Option Stop :=
  match best with
  | none => some stop
  | some other =>
    if stop.length < other.length then some stop
    else if stop.length = other.length ∧ stop.blocker < other.blocker then some stop
    else some other

/-- What stops the free variable of a column in a direction. -/
def stop? (d : Dictionary) (column : Nat) (up : Bool) : Option Stop :=
  let v := d.freeOf column
  let own := (d.room? v up).map fun length => (⟨length, v, none⟩ : Stop)
  (Array.range d.basic.size).foldl
    (fun best row =>
      let a := d.entry row column
      if a = 0 then best
      else
        let w := d.basicOf row
        match d.room? w (decide (0 < a) == up) with
        | none => best
        | some room => nearer best ⟨room / (if 0 < a then a else -a), w, some row⟩)
    own

/-- Move values within their ranges until no move lowers the objective. -/
def descend : Nat → Dictionary → SimplexEnd
  | 0, _ => .exhausted
  | steps + 1, d =>
    match d.enteringColumn? with
    | none => .optimal d
    | some (column, up) =>
      match d.stop? column up with
      | none => .unbounded
      | some stop =>
        let moved := d.shift column (if up then stop.length else -stop.length)
        match stop.row with
        | none => descend steps moved
        | some row => descend steps (moved.pivot row column)

/-- The limit of steps for a dictionary. -/
def stepLimit (d : Dictionary) : Nat := 2000 + 50 * (d.basic.size + d.free.size)

/-- Whether some variable has no value within its range. -/
def hasEmptyRange (d : Dictionary) : Bool :=
  (Array.range d.lower.size).any fun v =>
    match d.lowerOf v, d.upperOf v with
    | some l, some u => decide (u < l)
    | _, _ => false

/-- Values of least objective within all ranges. -/
def optimize (d : Dictionary) : SimplexEnd :=
  if d.hasEmptyRange then .infeasible
  else
    match repair d.stepLimit d with
    | none => .exhausted
    | some none => .infeasible
    | some (some d) => descend d.stepLimit d

end Dictionary

end GridRelief.Solver
