/-!
# Numbers

Flows, set-points, thresholds and costs are written once for every type of numbers `K` that has
the usual operations. The program runs on `Float`; a statement about exact numbers takes any
other type with an instance. The class holds operations only, no laws, and what a float gives that
a field does not (an infinity, a largest number, a test for finite values) is a field of it.

## Main definitions

* `Scalar K`: the operations on numbers.
* `Scalar.min`, `Scalar.max`: the smaller and the larger of two numbers, a number that differs
  from itself being passed over.
* `Scalar.power`: natural powers by repeated squaring.
* `Bound K`: an end of an interval, finite or not.
-/

namespace GridRelief

/-- The operations on numbers that the model uses. -/
class Scalar (K : Type) extends Zero K, One K, Add K, Sub K, Mul K, Div K, Neg K, BEq K,
    LT K, LE K where
  /-- Strict comparison can be decided. -/
  decidableLT : DecidableLT K
  /-- Comparison can be decided. -/
  decidableLE : DecidableLE K
  /-- The number of an integer. -/
  ofInt : Int → K
  /-- The number `m / 10 ^ p` of a decimal with `p` places. -/
  ofDecimal : Nat → Nat → K
  /-- The absolute value. -/
  abs : K → K
  /-- The nearest integer, a half going away from zero. -/
  round : K → K
  /-- The square root of three. -/
  sqrtThree : K
  /-- The largest finite number. -/
  largest : K
  /-- A number above every finite one. -/
  infinity : K
  /-- Whether a number is neither infinite nor undefined. -/
  isFinite : K → Bool

namespace Scalar

variable {K : Type} [Scalar K]

instance : DecidableLT K := Scalar.decidableLT

instance : DecidableLE K := Scalar.decidableLE

/-- Whether a number is undefined; such a number differs from itself. -/
def isUndefined (a : K) : Bool := !(a == a)

/-- The smaller of two numbers, or the defined one of them. -/
def min (a b : K) : K :=
  if b < a then b else if isUndefined a then b else a

/-- The larger of two numbers, or the defined one of them. -/
def max (a b : K) : K :=
  if a < b then b else if isUndefined a then b else a

/-- How two numbers compare; numbers that do not compare count as equal. -/
def order (a b : K) : Ordering :=
  if a < b then .lt else if b < a then .gt else .eq

/-- The sign of a number, as a number. -/
def sign (a : K) : K :=
  if 0 < a then 1 else if a < 0 then -1 else 0

/-- The sum of a list, from left to right. -/
def sum (xs : List K) : K := xs.foldl (· + ·) 0

/-- `power b n r` is `r * b ^ n`, by repeated squaring. -/
def powerFrom (b : K) (n : Nat) (r : K) : K :=
  if _h : n / 2 = 0 then
    if n % 2 = 1 then r * b else r
  else
    powerFrom (b * b) (n / 2) (if n % 2 = 1 then r * b else r)
termination_by n
decreasing_by omega

/-- The `n`-th power of a number, by repeated squaring. -/
def power (b : K) (n : Nat) : K := powerFrom b n 1

end Scalar

instance : Scalar Float where
  zero := 0.0
  one := 1.0
  decidableLT := fun a b => inferInstanceAs (Decidable (a < b))
  decidableLE := fun a b => inferInstanceAs (Decidable (a ≤ b))
  ofInt := Float.ofInt
  ofDecimal := fun m p => Float.ofScientific m true p
  abs := Float.abs
  round := Float.round
  sqrtThree := Float.sqrt 3.0
  largest := Float.ofBits 0x7fefffffffffffff
  infinity := 1.0 / 0.0
  isFinite := Float.isFinite

/-- An end of an interval of numbers, which may be infinite. -/
inductive Bound (K : Type) where
  /-- Below every number. -/
  | negInf
  /-- A number. -/
  | finite (value : K)
  /-- Above every number. -/
  | posInf
  deriving BEq, Repr

namespace Bound

variable {K : Type} [Scalar K]

/-- A number as a bound; an infinite number is an infinite bound. -/
def ofScalar (a : K) : Bound K :=
  if Scalar.isFinite a then .finite a
  else if 0 < a then .posInf
  else if a < 0 then .negInf
  else .finite a

/-- A bound as a number. -/
def toScalar : Bound K → K
  | .negInf => -Scalar.infinity
  | .finite a => a
  | .posInf => Scalar.infinity

/-- Whether a bound is a number that is undefined. -/
def isUndefined : Bound K → Bool
  | .finite a => Scalar.isUndefined a
  | _ => false

/-- Whether the first bound is strictly above the second. -/
def isAbove : Bound K → Bound K → Bool
  | .negInf, _ => false
  | .finite _, .negInf => true
  | .finite a, .finite b => decide (b < a)
  | .finite _, .posInf => false
  | .posInf, .posInf => false
  | .posInf, _ => true

/-- A bound moved by a number. -/
def shift (b : Bound K) (distance : K) : Bound K :=
  match b with
  | .finite a => ofScalar (a + distance)
  | b => if Scalar.isFinite distance then b else ofScalar (b.toScalar + distance)

/-- Whether two bounds are defined and the first is not above the second. -/
def isInterval (lower upper : Bound K) : Bool :=
  !lower.isUndefined && !upper.isUndefined && !lower.isAbove upper

end Bound

end GridRelief
