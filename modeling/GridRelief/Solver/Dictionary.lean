/-!
# Dictionaries

A dictionary writes some variables, the basic ones, as linear forms in the others, the free ones,
and gives every variable a value that agrees with these forms. Every variable has a range. A pivot
exchanges a basic and a free variable without changing what the forms say.

## Main definitions

* `Dictionary`: forms, ranges and values.
* `Dictionary.shift`: change the value of a free variable.
* `Dictionary.pivot`: exchange a basic and a free variable.
-/

namespace GridRelief.Solver

/-- Linear forms of basic variables in free ones, with a range and a value for every variable. -/
structure Dictionary where
  /-- The least value of each variable, if there is one. -/
  lower : Array (Option Rat)
  /-- The greatest value of each variable, if there is one. -/
  upper : Array (Option Rat)
  value : Array Rat
  /-- The basic variable of each row. -/
  basic : Array Nat
  /-- The free variable of each column. -/
  free : Array Nat
  /-- The coefficients of each row. -/
  rows : Array (Array Rat)
  /-- The coefficients of the objective in the free variables. -/
  cost : Array Rat

namespace Dictionary

/-- The value of a variable. -/
def valueOf (d : Dictionary) (v : Nat) : Rat := d.value.getD v 0

/-- The least value of a variable. -/
def lowerOf (d : Dictionary) (v : Nat) : Option Rat := d.lower.getD v none

/-- The greatest value of a variable. -/
def upperOf (d : Dictionary) (v : Nat) : Option Rat := d.upper.getD v none

/-- A coefficient. -/
def entry (d : Dictionary) (row column : Nat) : Rat := (d.rows.getD row #[]).getD column 0

/-- The basic variable of a row. -/
def basicOf (d : Dictionary) (row : Nat) : Nat := d.basic.getD row 0

/-- The free variable of a column. -/
def freeOf (d : Dictionary) (column : Nat) : Nat := d.free.getD column 0

/-- Whether a value may grow within a range. -/
def canRise (d : Dictionary) (v : Nat) : Bool :=
  match d.upperOf v with
  | some u => decide (d.valueOf v < u)
  | none => true

/-- Whether a value may fall within a range. -/
def canFall (d : Dictionary) (v : Nat) : Bool :=
  match d.lowerOf v with
  | some l => decide (l < d.valueOf v)
  | none => true

/-- Change the value of the free variable of a column, and the basic values with it. -/
def shift (d : Dictionary) (column : Nat) (step : Rat) : Dictionary :=
  if step = 0 then d
  else
    let v := d.freeOf column
    let moved := d.value.setIfInBounds v (d.valueOf v + step)
    let value := (Array.range d.rows.size).foldl
      (fun value row =>
        let a := d.entry row column
        if a = 0 then value
        else value.setIfInBounds (d.basicOf row) (value.getD (d.basicOf row) 0 + a * step))
      moved
    { d with value }

/-- The form of the free variable of a column, solved from a row in which its coefficient is not
zero; the basic variable of the row takes the column. -/
def solveFor (row : Array Rat) (column : Nat) : Array Rat :=
  let a := row.getD column 0
  row.mapIdx fun k b => if k = column then 1 / a else if b = 0 then 0 else -b / a

/-- A form with the variable of a column replaced by its form. -/
def substitute (form solved : Array Rat) (column : Nat) : Array Rat :=
  let a := form.getD column 0
  if a = 0 then form
  else
    form.mapIdx fun k b =>
      let s := solved.getD k 0
      if k = column then a * s else if s = 0 then b else b + a * s

/-- Exchange the basic variable of a row and the free variable of a column. -/
def pivot (d : Dictionary) (row column : Nat) : Dictionary :=
  let solved := solveFor (d.rows.getD row #[]) column
  { d with
    basic := d.basic.setIfInBounds row (d.freeOf column)
    free := d.free.setIfInBounds column (d.basicOf row)
    rows := d.rows.mapIdx fun i form => if i = row then solved else substitute form solved column
    cost := substitute d.cost solved column }

/-- The value of the objective in the free variables. -/
def objective (d : Dictionary) : Rat :=
  (Array.range d.cost.size).foldl
    (fun sum column => sum + d.cost.getD column 0 * d.valueOf (d.freeOf column)) 0

/-- Of two candidates the one with the lower number. -/
def firstVariable (best : Option (Nat × Nat)) (v position : Nat) : Option (Nat × Nat) :=
  match best with
  | some (w, other) => if w ≤ v then some (w, other) else some (v, position)
  | none => some (v, position)

end Dictionary

end GridRelief.Solver
