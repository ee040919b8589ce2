import GridRelief.Json.Value
import GridRelief.Table

/-!
# Reading typed values

A typed value is read off a JSON value by a decoder. A record may be written as an object, whose
unknown fields are passed over and whose known fields are not repeated, or as the list of its
fields in order. A tagged value is a record with a first field `type` that selects its form.

## Main definitions

* `Decoder K α`: what reads an `α`, or refuses.
* `Json.record?`: the fields of a record.
* `Field.required?`, `Field.optional?`, `Field.orDefault?`: the readings of one field.
-/

namespace GridRelief

/-- A reading of JSON values; `none` refuses. -/
abbrev Decoder (K α : Type) : Type := Json K → Option α

/-- What a record holds at one of its fields. -/
inductive Field (K : Type) where
  /-- The field is written. -/
  | present (value : Json K)
  /-- The field is left out of an object. -/
  | absent
  /-- The field is left out of a list. -/
  | cut

namespace Json

variable {K κ α : Type}

/-! ### Plain values -/

/-- Read a truth value. -/
def bool? : Decoder K Bool
  | .bool value => some value
  | _ => none

/-- Read a text. -/
def text? : Decoder K String
  | .str value => some value
  | _ => none

/-- Read a number; an integer stands for the number that it is. -/
def number? [Scalar K] : Decoder K K
  | .int value => some (Scalar.ofInt value)
  | .real value => some value
  | _ => none

/-- Read an integer within bounds. -/
def intWithin? (low high : Int) : Decoder K Int
  | .int value => if low ≤ value ∧ value ≤ high then some value else none
  | _ => none

/-- Read an integer of thirty-two bits with a sign. -/
def int32? : Decoder K Int := intWithin? (-2147483648) 2147483647

/-- Read an integer of thirty-two bits without a sign. -/
def nat32? : Decoder K Nat := fun j => (intWithin? 0 4294967295 j).map Int.toNat

/-- Read an integer of sixty-four bits without a sign. -/
def nat64? : Decoder K Nat := fun j => (intWithin? 0 18446744073709551615 j).map Int.toNat

/-- Read a list. -/
def list? (item : Decoder K α) : Decoder K (List α)
  | .arr items => items.mapM item
  | _ => none

/-- Read the entries of a map. Its keys are held as texts, and are read as such. -/
def entries? (key : Decoder K κ) (value : Decoder K α) : Decoder K (List (κ × α))
  | .obj fields => fields.mapM fun field => return (← key (.str field.1), ← value field.2)
  | _ => none

/-- Read a table; of two entries with one name the later stays. -/
def table? (value : Decoder K α) : Decoder K (Table α) := fun j =>
  return Table.ofPairs (← entries? text? value j)

/-- Read one of some names, written as a text or as an object with that one field and no value. -/
def name? (names : List (String × α)) : Decoder K α
  | .str name => names.lookup name
  | .obj [(name, .null)] => names.lookup name
  | _ => none

/-- Read a value or null. -/
def nullable? (value : Decoder K α) : Decoder K (Option α)
  | .null => some none
  | j => (value j).map some

/-! ### Records -/

/-- The field of a name, none if the name is repeated. -/
def field? (fields : List (String × Json K)) (name : String) : Option (Field K) :=
  match fields.filter (·.1 == name) with
  | [] => some .absent
  | [field] => some (.present field.2)
  | _ => none

/-- The items of a list as fields, none if there are more of them than fields. -/
def positional? : List String → List (Json K) → Option (List (Field K))
  | [], [] => some []
  | [], _ :: _ => none
  | _ :: names, [] => (positional? names []).map (.cut :: ·)
  | _ :: names, item :: items => (positional? names items).map (.present item :: ·)

/-- The fields of a record with the given names. -/
def record? (names : List String) : Decoder K (List (Field K))
  | .obj fields => names.mapM (field? fields)
  | .arr items => positional? names items
  | _ => none

/-- The form of a tagged value and the rest of it. -/
def tagged? : Decoder K (String × Json K)
  | .obj fields =>
    match fields.filter (·.1 == "type") with
    | [(_, .str tag)] => some (tag, .obj (fields.filter (·.1 != "type")))
    | _ => none
  | .arr (.str tag :: items) => some (tag, .arr items)
  | _ => none

end Json

namespace Field

variable {K α : Type}

/-- Read a field that must be written. -/
def required? (value : Decoder K α) : Field K → Option α
  | .present j => value j
  | .absent | .cut => none

/-- Read a field that may be null or left out of an object. -/
def optional? (value : Decoder K α) : Field K → Option (Option α)
  | .present j => Json.nullable? value j
  | .absent => some none
  | .cut => none

/-- Read a field that has a default. -/
def orDefault? (default : α) (value : Decoder K α) : Field K → Option α
  | .present j => value j
  | .absent | .cut => some default

end Field

end GridRelief
