import GridRelief.Scalar

/-!
# JSON values

A JSON value keeps whether a number was written as an integer, and keeps the fields of an object
in their order with repetitions, because readers of typed values look at both.

## Main definitions

* `Json K`: a JSON value with fractional numbers of type `K`.
* `Json.ofNumber`: the value of a number; JSON has none for an infinity.
-/

namespace GridRelief

/-- A JSON value. -/
inductive Json (K : Type) where
  | null
  | bool (value : Bool)
  /-- A number written without fraction and exponent. -/
  | int (value : Int)
  /-- Any other number. -/
  | real (value : K)
  | str (value : String)
  | arr (items : List (Json K))
  /-- The fields in their order; a name may be repeated. -/
  | obj (fields : List (String × Json K))

namespace Json

variable {K : Type}

/-- The value of a number, null for one that is infinite or undefined. -/
def ofNumber [Scalar K] (x : K) : Json K := if Scalar.isFinite x then .real x else .null

/-- The value of a text that may be absent. -/
def ofText? : Option String → Json K
  | some text => .str text
  | none => .null

/-- The value of a number that may be absent. -/
def ofNumber? [Scalar K] : Option K → Json K
  | some x => ofNumber x
  | none => .null

end Json

end GridRelief
