import GridRelief.Decimal.Text
import GridRelief.Json.Value

/-!
# Writing JSON texts

A JSON value is written on one line without blanks. Fractional numbers are written with the fewest
digits that read back.

## Main definitions

* `Json.quote`: a text as a JSON string.
* `Json.render`: a JSON value as a text.
-/

namespace GridRelief.Json

/-- A hexadecimal digit. -/
def hexDigit (n : Nat) : Char := Nat.digitChar (n % 16)

/-- A character inside a JSON string: quotes, backslashes and control characters are escaped. -/
def escape (c : Char) : List Char :=
  if c = '"' then ['\\', '"']
  else if c = '\\' then ['\\', '\\']
  else if c.toNat < 32 then ['\\', 'u', '0', '0', hexDigit (c.toNat / 16), hexDigit c.toNat]
  else [c]

/-- A text as a JSON string. -/
def quote (text : String) : String :=
  String.ofList ('"' :: (text.toList.flatMap escape ++ ['"']))

mutual

/-- A JSON value as a text. -/
def render : Json Float → String
  | .null => "null"
  | .bool true => "true"
  | .bool false => "false"
  | .int value => toString value
  | .real value => Decimal.shortest value
  | .str value => quote value
  | .arr items => "[" ++ ",".intercalate (renderItems items) ++ "]"
  | .obj fields => "\x7b" ++ ",".intercalate (renderFields fields) ++ "\x7d"

/-- The texts of the items of an array. -/
def renderItems : List (Json Float) → List String
  | [] => []
  | item :: rest => render item :: renderItems rest

/-- The texts of the fields of an object. -/
def renderFields : List (String × Json Float) → List String
  | [] => []
  | (name, value) :: rest => (quote name ++ ":" ++ render value) :: renderFields rest

end

end GridRelief.Json
