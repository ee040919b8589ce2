import GridRelief.Decimal.Text
import GridRelief.Json.Printer

/-!
# Writing TOML documents

A document is written with one line for each of its entries, tables inside it being inline. TOML
has integers of sixty-four bits with a sign only, and no null: a larger integer cannot be written,
and an entry without value is left out.

## Main definitions

* `Toml.render?`: the text of a document.
-/

namespace GridRelief.Toml

/-- A string on one line. Its escapes are those of JSON strings, and the delete character. -/
def quote (text : String) : String :=
  String.ofList ('"' :: (text.toList.flatMap (fun c =>
    if c.toNat = 127 then ['\\', 'u', '0', '0', '7', 'F'] else Json.escape c) ++ ['"']))

/-- The text of a float, which has a point or names no number. -/
def ofFloat (x : Float) : String :=
  if x.isNaN then "nan"
  else
    let text := Decimal.shortest x
    if x.isFinite ∧ !text.contains '.' then text ++ ".0" else text

mutual

/-- The text of a value; null has none. -/
def renderValue? : Json Float → Option String
  | .null => none
  | .bool value => some (if value then "true" else "false")
  | .int value =>
    if -9223372036854775808 ≤ value ∧ value ≤ 9223372036854775807 then some (toString value)
    else none
  | .real value => some (ofFloat value)
  | .str value => some (quote value)
  | .arr items => (renderItems? items).map fun items => "[" ++ ", ".intercalate items ++ "]"
  | .obj fields => (renderFields? fields).map fun fields =>
      "\x7b" ++ ", ".intercalate fields ++ "\x7d"

/-- The texts of the items of an array. -/
def renderItems? : List (Json Float) → Option (List String)
  | [] => some []
  | item :: rest => do
    let item ← renderValue? item
    return item :: (← renderItems? rest)

/-- The texts of the entries of a table. -/
def renderFields? : List (String × Json Float) → Option (List String)
  | [] => some []
  | (_, .null) :: rest => renderFields? rest
  | (name, value) :: rest => do
    let value ← renderValue? value
    return (quote name ++ " = " ++ value) :: (← renderFields? rest)

end

/-- The text of a document. -/
def render? : Json Float → Option String
  | .obj fields => (renderFields? fields).map fun lines => "\n".intercalate lines ++ "\n"
  | _ => none

end GridRelief.Toml
