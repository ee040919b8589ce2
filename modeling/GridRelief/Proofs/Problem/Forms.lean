import Mathlib.Algebra.BigOperators.Group.List.Lemmas
import Mathlib.Tactic.Linarith
import Mathlib.Tactic.Ring
import GridRelief.Problem.Store
import GridRelief.Proofs.Exact

/-!
# Linear forms

A form stores its coefficients by variable, each one once, so its value at an assignment does not
depend on the order in which they were set.

* `LinearForm.get_set`: the coefficients after one has been set.
* `LinearForm.eval_set`: the value after one has been set.
* `LinearForm.ofTerms`: the form of a list of terms; `LinearForm.eval_ofTerms`.
-/

namespace GridRelief

variable {K : Type}

/-- On exact numbers a sum may be taken in any order. -/
theorem ExactScalar.sum_eq [ExactScalar K] (xs : List K) : Scalar.sum xs = xs.sum := by
  rw [List.sum_eq_foldl]
  rfl

namespace LinearForm

/-! ### Coefficients -/

theorem get_empty [Scalar K] (v : VariableId) : (∅ : LinearForm K).get v = 0 := rfl

/-- The form of a list of terms, a later term replacing an earlier one of the same variable. -/
def ofTerms [Scalar K] (terms : List (VariableId × K)) : LinearForm K :=
  terms.foldl (fun form term => form.set term.1 term.2) ∅

theorem ofTerms_append [Scalar K] (terms : List (VariableId × K)) (v : VariableId) (c : K) :
    ofTerms (terms ++ [(v, c)]) = (ofTerms terms).set v c := by
  unfold ofTerms
  rw [List.foldl_append]
  rfl

/-- What is stored of a coefficient: nothing of zero. -/
def stored [Scalar K] (c : K) : Option K := if c == 0 then none else some c

theorem eq_of_stored_eq_some [Scalar K] {c d : K} (h : stored c = some d) : c = d := by
  unfold stored at h
  split at h
  · cases h
  · exact Option.some.inj h

theorem getElem?_set_eq_stored [Scalar K] (form : LinearForm K) (v w : VariableId) (c : K) :
    (form.set v c)[w]? = if v = w then stored c else form[w]? := by
  unfold set stored
  split
  · rw [Std.ExtTreeMap.getElem?_erase]
    simp only [Std.LawfulEqOrd.compare_eq_iff_eq]
  · rw [Std.ExtTreeMap.getElem?_insert]
    simp only [Std.LawfulEqOrd.compare_eq_iff_eq]

/-- Setting a coefficient makes no other term. -/
theorem mem_or_eq_of_mem_set [Scalar K] {form : LinearForm K} {v w : VariableId} {c : K}
    (h : w ∈ form.set v c) : w ∈ form ∨ w = v := by
  by_cases hvw : v = w
  · exact .inr hvw.symm
  · rw [Std.ExtTreeMap.mem_iff_isSome_getElem?, getElem?_set_eq_stored, if_neg hvw] at h
    exact .inl (Std.ExtTreeMap.mem_iff_isSome_getElem?.mpr h)

variable [ExactScalar K]

/-- On exact numbers all coefficients but zero are stored. -/
theorem stored_eq (c : K) : stored c = if c = 0 then none else some c := by
  unfold stored
  by_cases hzero : c = 0
  · rw [if_pos ((ExactScalar.beq_iff c 0).mpr hzero), if_pos hzero]
  · rw [if_neg fun h => hzero ((ExactScalar.beq_iff c 0).mp h), if_neg hzero]

theorem getElem?_set (form : LinearForm K) (v w : VariableId) (c : K) :
    (form.set v c)[w]? = if v = w then (if c = 0 then none else some c) else form[w]? := by
  rw [getElem?_set_eq_stored, stored_eq]

theorem get_set (form : LinearForm K) (v w : VariableId) (c : K) :
    (form.set v c).get w = if v = w then c else form.get w := by
  unfold get
  rw [getElem?_set]
  split
  · by_cases hzero : c = 0
    · simp [hzero]
    · simp [hzero]
  · rfl

/-- No term is stored for a variable that no term sets. -/
theorem get_ofTerms_of_not_mem {terms : List (VariableId × K)} {v : VariableId}
    (h : v ∉ terms.map Prod.fst) : (ofTerms terms).get v = 0 := by
  induction terms using List.reverseRecOn with
  | nil => exact get_empty v
  | append_singleton terms term ih =>
    rw [List.map_append, List.mem_append, not_or, List.map_singleton, List.mem_singleton] at h
    rw [ofTerms_append, get_set, if_neg (Ne.symm h.2)]
    exact ih h.1

/-! ### Values -/

theorem eval_empty (x : VariableId → K) : (∅ : LinearForm K).eval x = 0 := rfl

/-- The value of a form is a sum over its terms in any order. -/
theorem eval_eq_of_perm {form : LinearForm K} {terms : List (VariableId × K)}
    (h : form.toList.Perm terms) (x : VariableId → K) :
    form.eval x = (terms.map fun term => term.2 * x term.1).sum := by
  unfold eval
  rw [ExactScalar.sum_eq]
  exact (h.map _).sum_eq

omit [ExactScalar K] in
/-- The terms of a form with one term more. -/
theorem toList_insert_perm {form : LinearForm K} {v : VariableId} (h : v ∉ form) (c : K) :
    (form.insert v c).toList.Perm ((v, c) :: form.toList) := by
  have hnodup : ∀ f : LinearForm K, f.toList.Nodup := by
    intro f
    refine (Std.ExtTreeMap.distinct_keys_toList (t := f)).imp ?_
    rintro a b hne rfl
    exact hne Std.ReflOrd.compare_self
  have hfresh : (v, c) ∉ form.toList := by
    intro hmem
    have hget := Std.ExtTreeMap.mem_toList_iff_getElem?_eq_some.mp hmem
    rw [Std.ExtTreeMap.getElem?_eq_none h] at hget
    cases hget
  rw [List.perm_ext_iff_of_nodup (hnodup _) (List.nodup_cons.mpr ⟨hfresh, hnodup _⟩)]
  rintro ⟨w, d⟩
  rw [Std.ExtTreeMap.mem_toList_iff_getElem?_eq_some, Std.ExtTreeMap.getElem?_insert,
    List.mem_cons, Std.ExtTreeMap.mem_toList_iff_getElem?_eq_some, Prod.mk.injEq]
  by_cases hvw : v = w
  · subst hvw
    rw [if_pos Std.ReflOrd.compare_self, Std.ExtTreeMap.getElem?_eq_none h]
    simp [eq_comm]
  · rw [if_neg (by simpa using hvw)]
    simp [Ne.symm hvw]

theorem eval_insert_of_not_mem {form : LinearForm K} {v : VariableId} (h : v ∉ form) (c : K)
    (x : VariableId → K) : LinearForm.eval (form.insert v c) x = c * x v + form.eval x := by
  rw [eval_eq_of_perm (toList_insert_perm h c), List.map_cons, List.sum_cons]
  congr 1
  exact (eval_eq_of_perm (List.Perm.refl _) x).symm

/-- The value of a form is that of its term of a variable and that of the rest. -/
theorem eval_eq_add_erase (form : LinearForm K) (v : VariableId) (x : VariableId → K) :
    form.eval x = form.get v * x v + LinearForm.eval (form.erase v) x := by
  have hfresh : v ∉ form.erase v := by simp
  cases hget : form[v]? with
  | none =>
    have herase : form.erase v = form := by
      refine Std.ExtTreeMap.ext_getElem? fun w => ?_
      rw [Std.ExtTreeMap.getElem?_erase]
      by_cases hvw : v = w
      · subst hvw
        simp [hget]
      · rw [if_neg (by simpa using hvw)]
    rw [herase, get, hget, Option.getD_none, zero_mul, zero_add]
  | some c =>
    have hinsert : form = (form.erase v).insert v c := by
      refine Std.ExtTreeMap.ext_getElem? fun w => ?_
      rw [Std.ExtTreeMap.getElem?_insert, Std.ExtTreeMap.getElem?_erase]
      by_cases hvw : v = w
      · subst hvw
        simp [hget]
      · rw [if_neg (by simpa using hvw), if_neg (by simpa using hvw)]
    rw [get, hget, Option.getD_some, ← eval_insert_of_not_mem hfresh, ← hinsert]

/-- Setting a coefficient changes the value by what the coefficient has changed. -/
theorem eval_set (form : LinearForm K) (v : VariableId) (c : K) (x : VariableId → K) :
    (form.set v c).eval x = form.eval x + (c - form.get v) * x v := by
  have herase : LinearForm.eval ((form.set v c).erase v) x = LinearForm.eval (form.erase v) x := by
    congr 1
    refine Std.ExtTreeMap.ext_getElem? fun w => ?_
    rw [Std.ExtTreeMap.getElem?_erase, Std.ExtTreeMap.getElem?_erase]
    by_cases hvw : v = w
    · subst hvw
      simp
    · rw [if_neg (by simpa using hvw), if_neg (by simpa using hvw), getElem?_set, if_neg hvw]
  rw [eval_eq_add_erase (form.set v c) v, eval_eq_add_erase form v, herase, get_set, if_pos rfl]
  ring

/-- The value of a form whose terms are of different variables. -/
theorem eval_ofTerms {terms : List (VariableId × K)} (h : (terms.map Prod.fst).Nodup)
    (x : VariableId → K) :
    (ofTerms terms).eval x = (terms.map fun term => term.2 * x term.1).sum := by
  induction terms using List.reverseRecOn with
  | nil => exact eval_empty x
  | append_singleton terms term ih =>
    rw [List.map_append, List.map_singleton, List.nodup_append'] at h
    have hfresh : term.1 ∉ terms.map Prod.fst := by
      intro hmem
      exact h.2.2 hmem List.mem_cons_self
    rw [ofTerms_append, eval_set, get_ofTerms_of_not_mem hfresh, ih h.1, List.map_append,
      List.sum_append, List.map_singleton, List.sum_singleton, sub_zero]

end LinearForm

end GridRelief
