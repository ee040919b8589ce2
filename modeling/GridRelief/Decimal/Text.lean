import GridRelief.Decimal.Binary

/-!
# Decimal texts of numbers

Three ways to write a number, all positional and none with an exponent: with a fixed number of
places, with the fewest digits that read back as the same float, and with a fixed number of
significant digits.

## Main definitions

* `fixed`: so many places, the exact value being rounded and a half going to the even neighbour.
* `shortest`: the fewest digits that no other float is nearer to.
* `significant`: so many significant digits, without trailing zeros.
-/

namespace GridRelief.Decimal

/-! ### Digits -/

/-- The decimal digits of a natural number. -/
def digits (n : Nat) : String := String.ofList (Nat.toDigits 10 n)

/-- A text of so many zeros. -/
def zeros (n : Nat) : String := String.ofList (List.replicate n '0')

/-- The digits of `n`, with zeros in front up to a width. -/
def padded (width n : Nat) : String :=
  let text := digits n
  zeros (width - text.length) ++ text

/-- The text of `n / 10 ^ places`, with all places written. -/
def withPlaces (n places : Nat) : String :=
  if places = 0 then digits n
  else digits (n / powerOfTen places) ++ "." ++ padded places (n % powerOfTen places)

/-- Divide a number by ten while it ends in a zero and places are left. -/
def dropZeros : Nat → Nat → Nat × Nat
  | n, 0 => (n, 0)
  | n, places + 1 => if n % 10 = 0 then dropZeros (n / 10) places else (n, places + 1)

/-- The text of `n * 10 ^ exponent` without trailing zeros after the point. -/
def positional (n : Nat) (exponent : Int) : String :=
  if 0 ≤ exponent then digits (n * powerOfTen exponent.toNat)
  else
    let (n, places) := dropZeros n (-exponent).toNat
    withPlaces n places

/-- A text with a minus sign in front if the number carries one. -/
def signed (negative : Bool) (text : String) : String :=
  if negative then "-" ++ text else text

/-- The text of an infinity. -/
def infinite (negative : Bool) : String := signed negative "inf"

/-! ### Fixed places -/

/-- A number with so many places, a half going to the even neighbour. -/
def Binary.fixed (places : Nat) (b : Binary) : String :=
  let (num, den) := b.scaled places
  signed b.negative (withPlaces (roundQuotient num den) places)

/-- A float with so many places. -/
def fixed (places : Nat) (x : Float) : String :=
  match FloatValue.ofFloat x with
  | .number b => b.fixed places
  | .infinite negative => infinite negative
  | .undefined => "NaN"

/-! ### Fewest digits -/

/-- The exponent of a power of ten above a positive number, by at most a few steps. -/
def Binary.magnitude (b : Binary) : Int :=
  ((b.exponent + Nat.log2 b.mantissa + 1) * 30103) / 100000 + 1

/-- The numbers nearer to a float than to any other one, in quarters of its last binary place:
the two ends, and whether they belong. -/
def Binary.interval (b : Binary) : Nat × Nat × Bool :=
  let narrow := b.mantissa = powerOfTwo 52 ∧ b.exponent ≠ -1074
  (if narrow then 4 * b.mantissa - 1 else 4 * b.mantissa - 2, 4 * b.mantissa + 2,
    b.mantissa % 2 == 0)

/-- The point of the grid `10 ^ exponent` that a float's interval holds, the nearer of two and the
upper one of two that are equally near. -/
def Binary.gridPoint? (b : Binary) (exponent : Int) : Option Nat :=
  let quarter := b.exponent - 2
  let unit := powerOfTwo quarter.toNat * powerOfTen (-exponent).toNat
  let step := powerOfTwo (-quarter).toNat * powerOfTen exponent.toNat
  let (low, high, closed) := b.interval
  let value := 4 * b.mantissa * unit
  let inside (d : Nat) : Bool :=
    if closed then low * unit ≤ d * step && d * step ≤ high * unit
    else low * unit < d * step && d * step < high * unit
  let below := value / step
  let above := below + 1
  match inside below, inside above with
  | true, true => if value - below * step < above * step - value then some below else some above
  | true, false => some below
  | false, true => some above
  | false, false => none

/-- The first grid point on the way to finer grids, within so many grids. -/
def Binary.firstGridPoint (b : Binary) : Nat → Int → Nat × Int
  | 0, exponent => (roundQuotient (b.scaled (-exponent)).1 (b.scaled (-exponent)).2, exponent)
  | steps + 1, exponent =>
    match b.gridPoint? exponent with
    | some d => (d, exponent)
    | none => b.firstGridPoint steps (exponent - 1)

/-- A number with the fewest digits that read back as the same float. -/
def Binary.shortest (b : Binary) : String :=
  if b.mantissa = 0 then signed b.negative "0"
  else
    let (d, exponent) := b.firstGridPoint 24 b.magnitude
    signed b.negative (positional d exponent)

/-- A float with the fewest digits that read back as the same float. -/
def shortest (x : Float) : String :=
  match FloatValue.ofFloat x with
  | .number b => b.shortest
  | .infinite negative => infinite negative
  | .undefined => "NaN"

/-! ### Significant digits -/

/-- The coarsest grid, within so many from the given one, on which a number has so many digits. -/
def Binary.significantGrid (b : Binary) (count : Nat) : Nat → Int → Int
  | 0, exponent => exponent
  | steps + 1, exponent =>
    let (num, den) := b.scaled (-exponent)
    if powerOfTen (count - 1) ≤ num / den then exponent
    else b.significantGrid count steps (exponent - 1)

/-- A number with so many significant digits, without trailing zeros; zero has no sign. -/
def Binary.significant (count : Nat) (b : Binary) : String :=
  if b.mantissa = 0 then "0"
  else
    let exponent := b.significantGrid count 4 (b.magnitude - count + 1)
    let (num, den) := b.scaled (-exponent)
    signed b.negative (positional (roundQuotient num den) exponent)

/-- A float with so many significant digits. -/
def significant (count : Nat) (x : Float) : String :=
  match FloatValue.ofFloat x with
  | .number b => b.significant count
  | .infinite negative => infinite negative
  | .undefined => "nan"

/-- A float rounded to so many places, a half going away from zero. -/
def roundPlaces (places : Nat) (x : Float) : Float :=
  let scale := Float.ofNat (powerOfTen places)
  (x * scale).round / scale

end GridRelief.Decimal
