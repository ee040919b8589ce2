import GridRelief.Json.Value

/-!
# Reading JSON texts

A reader of the JSON grammar: a text is one value with blanks around it. Numbers are rounded to
the nearest float and must not overflow, an escaped surrogate needs its partner, and values may
be nested to a limited depth.

## Main definitions

* `Json.ofString?`: the value that a text stands for, `none` if it is no JSON text.
-/

namespace GridRelief.Json

/-! ### Characters -/

/-- The blanks between the parts of a value. -/
def isBlank (c : Char) : Bool := c == ' ' || c == '\n' || c == '\t' || c == '\r'

/-- A text without the blanks in front. -/
def skipBlanks (text : List Char) : List Char := text.dropWhile isBlank

/-- The value of a hexadecimal digit. -/
def hexDigit? (c : Char) : Option Nat :=
  if '0' ≤ c ∧ c ≤ '9' then some (c.toNat - '0'.toNat)
  else if 'a' ≤ c ∧ c ≤ 'f' then some (c.toNat - 'a'.toNat + 10)
  else if 'A' ≤ c ∧ c ≤ 'F' then some (c.toNat - 'A'.toNat + 10)
  else none

/-- The number of four hexadecimal digits, and the text behind them. -/
def hexFour? : List Char → Option (Nat × List Char)
  | a :: b :: c :: d :: rest => do
    let a ← hexDigit? a
    let b ← hexDigit? b
    let c ← hexDigit? c
    let d ← hexDigit? d
    return (((a * 16 + b) * 16 + c) * 16 + d, rest)
  | _ => none

/-- The character of an escape with hexadecimal digits, and the text behind it: a high surrogate
needs a low one, which is escaped too. -/
def unicodeEscape? (text : List Char) : Option (Char × List Char) := do
  let (high, rest) ← hexFour? text
  if 0xD800 ≤ high ∧ high < 0xDC00 then
    match rest with
    | '\\' :: 'u' :: rest => do
      let (low, rest) ← hexFour? rest
      if 0xDC00 ≤ low ∧ low < 0xE000 then
        return (Char.ofNat (0x10000 + (high - 0xD800) * 0x400 + (low - 0xDC00)), rest)
      else none
    | _ => none
  else if 0xDC00 ≤ high ∧ high < 0xE000 then none
  else return (Char.ofNat high, rest)

/-- The character of a short escape. -/
def shortEscape? : Char → Option Char
  | '"' => some '"'
  | '\\' => some '\\'
  | '/' => some '/'
  | 'b' => some (Char.ofNat 8)
  | 'f' => some (Char.ofNat 12)
  | 'n' => some '\n'
  | 'r' => some '\r'
  | 't' => some '\t'
  | _ => none

/-- The rest of a string behind its opening quote, and the text behind the closing one. Each step
takes at least one character, so as many steps as there are characters suffice. -/
def readString? : Nat → List Char → List Char → Option (String × List Char)
  | 0, _, _ => none
  | steps + 1, read, text =>
    match text with
    | '"' :: rest => some (String.ofList read.reverse, rest)
    | '\\' :: 'u' :: rest => do
      let (c, rest) ← unicodeEscape? rest
      readString? steps (c :: read) rest
    | '\\' :: escaped :: rest => do
      let c ← shortEscape? escaped
      readString? steps (c :: read) rest
    | c :: rest => if c.toNat < 32 then none else readString? steps (c :: read) rest
    | [] => none

/-! ### Numbers -/

/-- The number of decimal digits. -/
def ofDigits (digits : List Char) : Nat :=
  digits.foldl (fun n c => 10 * n + (c.toNat - '0'.toNat)) 0

/-- The digits in front of a text, at least one, and the text behind them. -/
def digits? (text : List Char) : Option (List Char × List Char) :=
  match text.span Char.isDigit with
  | ([], _) => none
  | found => some found

/-- The float nearest to `± mantissa * 10 ^ exponent`. Numbers that are certainly too large or too
small for a float are not computed. -/
def nearestFloat (negative : Bool) (mantissa : Nat) (exponent : Int) : Float :=
  let size := exponent + (Nat.toDigits 10 mantissa).length
  let magnitude : Float :=
    if mantissa = 0 ∨ size < -400 then 0.0
    else if 400 < size then Scalar.infinity
    else if exponent < 0 then Float.ofScientific mantissa true exponent.natAbs
    else Float.ofScientific mantissa false exponent.natAbs
  if negative then -magnitude else magnitude

/-- The exponent behind a mantissa, zero if none is written. -/
def readExponent? : List Char → Option (Option Int × List Char)
  | mark :: rest =>
    if mark = 'e' ∨ mark = 'E' then
      let (negative, rest) :=
        match rest with
        | '-' :: rest => (true, rest)
        | '+' :: rest => (false, rest)
        | rest => (false, rest)
      do
        let (digits, rest) ← digits? rest
        let size : Int := ofDigits digits
        return (some (if negative then -size else size), rest)
    else some (none, mark :: rest)
  | [] => some (none, [])

/-- The fraction behind the integer part of a number, if one is written. -/
def readFraction? : List Char → Option (Option (List Char) × List Char)
  | '.' :: rest => do
    let (digits, rest) ← digits? rest
    return (some digits, rest)
  | rest => some (none, rest)

/-- A number in front of a text. A leading zero stands alone; a number without fraction and
exponent is an integer, except minus zero; a number beyond all floats is refused. -/
def readNumber? (text : List Char) : Option (Json Float × List Char) := do
  let (negative, text) :=
    match text with
    | '-' :: rest => (true, rest)
    | rest => (false, rest)
  let (whole, text) ← digits? text
  if whole.length > 1 ∧ whole.head? = some '0' then none
  let (fraction, text) ← readFraction? text
  let (exponent, text) ← readExponent? text
  let decimals := fraction.getD []
  let mantissa := ofDigits (whole ++ decimals)
  let value := nearestFloat negative mantissa (exponent.getD 0 - decimals.length)
  if ¬value.isFinite then none
  else if fraction.isNone ∧ exponent.isNone ∧ ¬(negative ∧ mantissa = 0) then
    return (.int (if negative then -mantissa else mantissa), text)
  else return (.real value, text)

/-! ### Values -/

/-- Values may be nested to less than this depth. -/
def depthLimit : Nat := 128

/-- A literal in front of a text. -/
def readLiteral? (literal : String) (value : Json Float) (text : List Char) :
    Option (Json Float × List Char) :=
  if literal.toList.isPrefixOf text then some (value, text.drop literal.length) else none

mutual

/-- A value in front of a text, blanks before it being skipped. Each step takes a character, so as
many steps as there are characters suffice. -/
def readValue? : Nat → Nat → List Char → Option (Json Float × List Char)
  | 0, _, _ => none
  | steps + 1, depth, text =>
    match skipBlanks text with
    | '"' :: rest => do
      let (s, rest) ← readString? (rest.length + 1) [] rest
      return (.str s, rest)
    | '[' :: rest =>
      if depth ≤ 1 then none
      else
        match skipBlanks rest with
        | ']' :: rest => some (.arr [], rest)
        | rest => do
          let (items, rest) ← readItems? steps (depth - 1) rest
          return (.arr items, rest)
    | '\x7b' :: rest =>
      if depth ≤ 1 then none
      else
        match skipBlanks rest with
        | '\x7d' :: rest => some (.obj [], rest)
        | rest => do
          let (fields, rest) ← readFields? steps (depth - 1) rest
          return (.obj fields, rest)
    | 'n' :: rest => readLiteral? "null" .null ('n' :: rest)
    | 't' :: rest => readLiteral? "true" (.bool true) ('t' :: rest)
    | 'f' :: rest => readLiteral? "false" (.bool false) ('f' :: rest)
    | text => readNumber? text

/-- The items of an array up to its end. -/
def readItems? : Nat → Nat → List Char → Option (List (Json Float) × List Char)
  | 0, _, _ => none
  | steps + 1, depth, text => do
    let (item, text) ← readValue? steps depth text
    match skipBlanks text with
    | ',' :: rest =>
      let (items, rest) ← readItems? steps depth rest
      return (item :: items, rest)
    | ']' :: rest => return ([item], rest)
    | _ => none

/-- The fields of an object up to its end. -/
def readFields? : Nat → Nat → List Char → Option (List (String × Json Float) × List Char)
  | 0, _, _ => none
  | steps + 1, depth, text =>
    match skipBlanks text with
    | '"' :: rest => do
      let (name, rest) ← readString? (rest.length + 1) [] rest
      match skipBlanks rest with
      | ':' :: rest =>
        let (value, rest) ← readValue? steps depth rest
        match skipBlanks rest with
        | ',' :: rest =>
          let (fields, rest) ← readFields? steps depth rest
          return ((name, value) :: fields, rest)
        | '\x7d' :: rest => return ([(name, value)], rest)
        | _ => none
      | _ => none
    | _ => none

end

/-- The value that a text stands for. -/
def ofString? (text : String) : Option (Json Float) :=
  let characters := text.toList
  match readValue? (characters.length + 1) depthLimit characters with
  | some (value, rest) => if (skipBlanks rest).isEmpty then some value else none
  | none => none

end GridRelief.Json
