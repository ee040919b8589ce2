/-!
# The exact value of a float

A finite float is a sign, a natural mantissa and a power of two. The decimal texts of this library
are computed from these three, in exact arithmetic.

## Main definitions

* `Binary`: sign, mantissa and exponent of a finite number.
* `Binary.ofFloat`: the reading of a float, with infinities and undefined numbers apart.
* `roundQuotient`: the nearest integer to a quotient, a half going to the even neighbour.
-/

namespace GridRelief.Decimal

/-- A power of two. -/
def powerOfTwo (n : Nat) : Nat := Nat.pow 2 n

/-- A power of ten. -/
def powerOfTen (n : Nat) : Nat := Nat.pow 10 n

/-- A number `± mantissa * 2 ^ exponent`. -/
structure Binary where
  /-- Whether the number carries a minus sign; zero may. -/
  negative : Bool
  mantissa : Nat
  exponent : Int
  deriving DecidableEq, Repr

/-- What a float stands for. -/
inductive FloatValue where
  | number (value : Binary)
  | infinite (negative : Bool)
  | undefined
  deriving DecidableEq, Repr

/-- The value with the given sixty-four bits: a sign, eleven of exponent and fifty-two of
mantissa, with a hidden leading bit unless the exponent is least. -/
def FloatValue.ofBits (bits : Nat) : FloatValue :=
  let negative := bits / powerOfTwo 63 % 2 == 1
  let exponent : Nat := bits / powerOfTwo 52 % powerOfTwo 11
  let fraction : Nat := bits % powerOfTwo 52
  if exponent == 2047 then
    if fraction == 0 then .infinite negative else .undefined
  else if exponent == 0 then
    .number ⟨negative, fraction, -1074⟩
  else
    .number ⟨negative, fraction + powerOfTwo 52, Int.subNatNat exponent 1075⟩

/-- The value of a float. -/
def FloatValue.ofFloat (x : Float) : FloatValue := .ofBits x.toBits.toNat

/-- The nearest natural number to `num / den`, a half going to the even neighbour. -/
def roundQuotient (num den : Nat) : Nat :=
  let q := num / den
  let twice := 2 * (num % den)
  if twice < den then q
  else if den < twice then q + 1
  else if q % 2 == 0 then q else q + 1

/-- The numerator and the denominator of `mantissa * 2 ^ exponent * 10 ^ shift`. -/
def Binary.scaled (b : Binary) (shift : Int) : Nat × Nat :=
  (b.mantissa * powerOfTwo b.exponent.toNat * powerOfTen shift.toNat,
    powerOfTwo (-b.exponent).toNat * powerOfTen (-shift).toNat)

end GridRelief.Decimal
