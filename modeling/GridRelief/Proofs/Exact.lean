import Mathlib.Algebra.Order.Field.Rat
import Mathlib.Data.Rat.Cast.Order
import GridRelief.Scalar

/-!
# Exact numbers

`Scalar` holds operations and no laws, since floats obey few. Numbers are exact when the
operations are those of a linearly ordered field; statements about costs and set-points as exact
numbers are over any such type. There are two ways from such a type to its operations, and the one
through `Scalar` is found first where the library is imported before the model.

* `ExactScalar K`: numbers of type `K` are exact.
* The rational numbers are exact, and statements about them can be evaluated.
-/

namespace GridRelief

/-- Numbers whose operations obey the laws of a linearly ordered field. Nothing is said of what a
field does not have: an infinity and a largest number. -/
class ExactScalar (K : Type) extends Scalar K, Field K, LinearOrder K, IsStrictOrderedRing K where
  beq_iff : ∀ a b : K, (a == b) = true ↔ a = b
  ofInt_eq : ∀ n : Int, Scalar.ofInt n = (n : K)
  ofDecimal_eq : ∀ digits places : Nat, Scalar.ofDecimal digits places = (digits : K) / 10 ^ places
  abs_eq : ∀ a : K, Scalar.abs a = |a|
  isFinite_eq : ∀ a : K, Scalar.isFinite a = true

namespace ExactScalar

variable {K : Type} [ExactScalar K]

/-- An exact number is never undefined. -/
@[simp] theorem isUndefined_eq (a : K) : Scalar.isUndefined a = false := by
  simp [Scalar.isUndefined, (beq_iff a a).mpr rfl]

/-- On exact numbers the smaller of two is the minimum. -/
@[simp] theorem min_eq (a b : K) : Scalar.min a b = min a b := by
  unfold Scalar.min
  split
  · next h => exact (min_eq_right h.le).symm
  · next h => simp [min_eq_left (not_lt.mp h)]

/-- On exact numbers the larger of two is the maximum. -/
@[simp] theorem max_eq (a b : K) : Scalar.max a b = max a b := by
  unfold Scalar.max
  split
  · next h => exact (max_eq_right h.le).symm
  · next h => simp [max_eq_left (not_lt.mp h)]

end ExactScalar

/-- A fold with a function that is below both its arguments is below all that it has met. -/
theorem foldl_le {α : Type} [Preorder α] {f : α → α → α} (hf : ∀ a b, f a b ≤ a ∧ f a b ≤ b)
    (xs : List α) (first : α) : xs.foldl f first ≤ first ∧ ∀ x ∈ xs, xs.foldl f first ≤ x := by
  induction xs generalizing first with
  | nil => simp
  | cons x xs ih =>
    obtain ⟨hfirst, hrest⟩ := ih (f first x)
    rw [List.foldl_cons, List.forall_mem_cons]
    exact ⟨hfirst.trans (hf first x).1, hfirst.trans (hf first x).2, hrest⟩

/-- Keeping one of two at each step of a list ends with one of the list. -/
theorem foldl_mem_cons {α : Type} {choose : α → α → α}
    (h : ∀ a b, choose a b = a ∨ choose a b = b) (first : α) (rest : List α) :
    rest.foldl choose first ∈ first :: rest := by
  induction rest generalizing first with
  | nil => exact List.mem_cons_self
  | cons next rest ih =>
    rw [List.foldl_cons]
    rcases List.mem_cons.mp (ih (choose first next)) with hchosen | hrest
    · rw [hchosen]
      rcases h first next with hfirst | hnext
      · rw [hfirst]
        exact List.mem_cons_self
      · rw [hnext]
        exact List.mem_cons_of_mem _ List.mem_cons_self
    · exact List.mem_cons_of_mem _ (List.mem_cons_of_mem _ hrest)

/-- The largest of some exact numbers is above all of them. -/
theorem le_foldl_max {K : Type} [ExactScalar K] (xs : List K) (first : K) :
    first ≤ xs.foldl Scalar.max first ∧ ∀ x ∈ xs, x ≤ xs.foldl Scalar.max first := by
  have hmax : ∀ a b : K, a ≤ Scalar.max a b ∧ b ≤ Scalar.max a b := by simp
  exact @foldl_le Kᵒᵈ _ _ hmax xs first

/-- Rational numbers as scalars. What the rationals lack is filled with rational numbers that no
statement reads. -/
instance : Scalar ℚ where
  decidableLT := inferInstance
  decidableLE := inferInstance
  ofInt n := n
  ofDecimal digits places := digits / 10 ^ places
  abs a := |a|
  round a := if 0 ≤ a then (a + 1 / 2).floor else (a - 1 / 2).ceil
  sqrtThree := 1732 / 1000
  largest := 2 ^ 1024 - 2 ^ 971
  infinity := 2 ^ 1024
  isFinite _ := true

instance : ExactScalar ℚ where
  __ := (inferInstance : Scalar ℚ)
  __ := (inferInstance : Field ℚ)
  __ := (inferInstance : LinearOrder ℚ)
  __ := (inferInstance : IsStrictOrderedRing ℚ)
  beq_iff _ _ := beq_iff_eq
  ofInt_eq _ := rfl
  ofDecimal_eq _ _ := rfl
  abs_eq _ := rfl
  isFinite_eq _ := rfl

end GridRelief
