import GridRelief.Json.Reader

/-!
# Plain TOML values

Numbers, truth values and dates are read off a token: the characters up to a blank, a comma, a
closing bracket or a comment.

## Main definitions

* `Toml.ofToken?`: the value of a token.
-/

namespace GridRelief.Toml

/-- The digits of a group: single underscores may stand between two digits. -/
def group? (isDigit : Char → Bool) : List Char → Option (List Char)
  | [] => none
  | [c] => if isDigit c then some [c] else none
  | c :: '_' :: rest =>
    if isDigit c then (group? isDigit rest).map (c :: ·) else none
  | c :: rest => if isDigit c then (group? isDigit rest).map (c :: ·) else none

/-- The sign in front of a number, and the rest. -/
def signOf : List Char → Bool × List Char
  | '-' :: rest => (true, rest)
  | '+' :: rest => (false, rest)
  | rest => (false, rest)

/-- The number of digits in a base. -/
def ofBase (base : Nat) (digits : List Char) : Nat :=
  digits.foldl (fun n c => base * n + (Json.hexDigit? c).getD 0) 0

/-- The digits of a decimal number without leading zeros. -/
def decimal? (token : List Char) : Option (List Char) := do
  let digits ← group? Char.isDigit token
  if digits.length > 1 ∧ digits.head? = some '0' then none else some digits

/-- An integer of sixty-four bits. -/
def bounded? (value : Int) : Option (Json Float) :=
  if -9223372036854775808 ≤ value ∧ value ≤ 9223372036854775807 then some (.int value) else none

/-- The integer of a token. -/
def integer? (token : List Char) : Option (Json Float) :=
  match token with
  | '0' :: 'x' :: rest => do
    bounded? (ofBase 16 (← group? (fun c => (Json.hexDigit? c).isSome) rest))
  | '0' :: 'o' :: rest => do
    bounded? (ofBase 8 (← group? (fun c => decide ('0' ≤ c ∧ c ≤ '7')) rest))
  | '0' :: 'b' :: rest => do
    bounded? (ofBase 2 (← group? (fun c => c == '0' || c == '1') rest))
  | token => do
    let (negative, rest) := signOf token
    let value : Int := ofBase 10 (← decimal? rest)
    bounded? (if negative then -value else value)

/-- Cut a text before the first character of a kind. -/
def cutAt (stop : Char → Bool) (text : List Char) : List Char × List Char :=
  text.span fun c => !stop c

/-- The float of a token: an integer part, and a fraction or an exponent or both. A number above all
floats is refused, and one below all of them is minus infinity. -/
def decimalFloat? (token : List Char) : Option Float := do
  let (negative, rest) := signOf token
  let (whole, rest) := cutAt (fun c => c == '.' || c == 'e' || c == 'E') rest
  let whole ← decimal? whole
  let (fraction, rest) ←
    match rest with
    | '.' :: rest => do
      let (digits, rest) := cutAt (fun c => c == 'e' || c == 'E') rest
      some (← group? Char.isDigit digits, rest)
    | [] => none
    | rest => some ([], rest)
  let exponent : Int ←
    match rest with
    | [] => some 0
    | _ :: rest => do
      let (negative, rest) := signOf rest
      let size : Int := ofBase 10 (← group? Char.isDigit rest)
      some (if negative then -size else size)
  let value := Json.nearestFloat negative (ofBase 10 (whole ++ fraction))
    (exponent - fraction.length)
  if value == Scalar.infinity then none else some value

/-- The float of a token. -/
def float? (token : List Char) : Option (Json Float) :=
  let (negative, rest) := signOf token
  if rest = ['i', 'n', 'f'] then
    some (.real (if negative then -Scalar.infinity else Scalar.infinity))
  else if rest = ['n', 'a', 'n'] then some (.real (Scalar.infinity - Scalar.infinity))
  else (decimalFloat? token).map .real

/-! ### Dates and times -/

/-- A number of so many digits in front of a text. -/
def number? (width : Nat) (text : List Char) : Option (Nat × List Char) :=
  let digits := text.take width
  if digits.length = width ∧ digits.all Char.isDigit then
    some (ofBase 10 digits, text.drop width)
  else none

/-- A character in front of a text. -/
def expect? (c : Char) : List Char → Option (List Char)
  | d :: rest => if c = d then some rest else none
  | [] => none

/-- The days of a month. -/
def daysIn (year month : Nat) : Nat :=
  if month = 2 then
    if year % 4 = 0 ∧ (year % 100 ≠ 0 ∨ year % 400 = 0) then 29 else 28
  else if month = 4 ∨ month = 6 ∨ month = 9 ∨ month = 11 then 30
  else 31

/-- A date in front of a text, and the text behind it. -/
def afterDate? (text : List Char) : Option (List Char) := do
  let (year, rest) ← number? 4 text
  let (month, rest) ← number? 2 (← expect? '-' rest)
  let (day, rest) ← number? 2 (← expect? '-' rest)
  if 1 ≤ month ∧ month ≤ 12 ∧ 1 ≤ day ∧ day ≤ daysIn year month then some rest else none

/-- A time of day in front of a text, and the text behind it. -/
def afterTime? (text : List Char) : Option (List Char) := do
  let (hour, rest) ← number? 2 text
  let (minute, rest) ← number? 2 (← expect? ':' rest)
  let (second, rest) ← number? 2 (← expect? ':' rest)
  if hour ≤ 23 ∧ minute ≤ 59 ∧ second ≤ 60 then
    match rest with
    | '.' :: rest =>
      match rest.span Char.isDigit with
      | ([], _) => none
      | (_, rest) => some rest
    | rest => some rest
  else none

/-- Whether a text is the distance of a time zone. -/
def isZone : List Char → Bool
  | [] => true
  | ['Z'] => true
  | ['z'] => true
  | _ :: rest =>
    match number? 2 rest with
    | some (hour, ':' :: rest) =>
      match number? 2 rest with
      | some (minute, []) => hour ≤ 23 && minute ≤ 59
      | _ => false
    | _ => false

/-- Whether a text starts like the distance of a time zone. -/
def startsZone : List Char → Bool
  | [] => true
  | c :: _ => c == 'Z' || c == 'z' || c == '+' || c == '-'

/-- Whether a token is a date, a time of day, or both. -/
def isMoment (token : List Char) : Bool :=
  match afterDate? token with
  | some [] => true
  | some (mark :: rest) =>
    (mark == 'T' || mark == 't' || mark == ' ') &&
      match afterTime? rest with
      | some rest => startsZone rest && isZone rest
      | none => false
  | none => afterTime? token == some []

/-- The name of the only field of a date as an object. -/
def momentField : String := "datetime"

/-- The value of a token. -/
def ofToken? (token : List Char) : Option (Json Float) :=
  if token = ['t', 'r', 'u', 'e'] then some (.bool true)
  else if token = ['f', 'a', 'l', 's', 'e'] then some (.bool false)
  else if isMoment token then some (.obj [(momentField, .str (String.ofList token))])
  else integer? token <|> float? token

end GridRelief.Toml
