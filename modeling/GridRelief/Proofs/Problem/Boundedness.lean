import Mathlib.Algebra.BigOperators.Ring.List
import Mathlib.Algebra.Order.Field.Basic
import Mathlib.Tactic.FieldSimp
import GridRelief.Proofs.Problem.Answers

/-!
# Bounded and unbounded objectives

A variable with two finite bounds is confined, and so is one that a row with two finite bounds
determines by confined variables. A form each of whose terms has a lower bound has one. On the
other hand the objective has none if it falls with a variable that nothing limits.

* `LinearProblem.HasLowerBound`: a quantity does not fall below some number.
* `LinearProblem.Confines`: every multiple of a variable has a lower bound.
* `LinearProblem.hasLowerBound_lead`: what a row says of one of its variables.
* `LinearProblem.IsBounded`: the objective has a lower bound over the feasible points.
* `LinearProblem.not_isBounded_of_free`: when it has none.
* `LinearProblem.status_solve_ne_unbounded`: a solver that is right about it does not call a
  problem with a lower bound unbounded.
-/

namespace GridRelief

variable {K N σ : Type} [ExactScalar K]

/-- The value of a model's objective. -/
def Model.value (model : Model K) (x : VariableId → K) : K :=
  Scalar.sum (model.objective.map fun term => term.2 * x term.1)

/-- Services call a model unbounded only if its objective falls below every number. -/
def Services.ProvesUnbounded (services : Services N K σ) : Prop :=
  ∀ model state, (services.solve model state).1 = .unbounded →
    ∀ b, ∃ values, model.IsMetBy values ∧ model.value (fun v => values.getD v 0) < b

namespace LinearProblem

variable {p : LinearProblem K} {v w : VariableId} {c d : K} {form : LinearForm K}

/-! ### Lower bounds -/

/-- A quantity does not fall below some number at any assignment that keeps a problem. -/
def HasLowerBound (p : LinearProblem K) (quantity : (VariableId → K) → K) : Prop :=
  ∃ b, ∀ x, p.Keeps x → b ≤ quantity x

namespace HasLowerBound

variable {f g : (VariableId → K) → K}

theorem of_eq (h : p.HasLowerBound f) (heq : ∀ x, g x = f x) : p.HasLowerBound g := by
  obtain ⟨b, hb⟩ := h
  exact ⟨b, fun x hx => (hb x hx).trans_eq (heq x).symm⟩

theorem add (hf : p.HasLowerBound f) (hg : p.HasLowerBound g) :
    p.HasLowerBound fun x => f x + g x := by
  obtain ⟨a, ha⟩ := hf
  obtain ⟨b, hb⟩ := hg
  exact ⟨a + b, fun x hx => add_le_add (ha x hx) (hb x hx)⟩

/-- By induction on a list: if all quantities have lower bounds, so has their sum. -/
theorem sum {α : Type} {quantities : List α} {f : α → (VariableId → K) → K}
    (h : ∀ a ∈ quantities, p.HasLowerBound (f a)) :
    p.HasLowerBound fun x => (quantities.map fun a => f a x).sum := by
  induction quantities with
  | nil => exact ⟨0, fun _ _ => le_rfl⟩
  | cons a quantities ih =>
    have hfirst := h a List.mem_cons_self
    have hrest := ih fun b hb => h b (List.mem_cons_of_mem _ hb)
    exact (hfirst.add hrest).of_eq fun x => by rw [List.map_cons, List.sum_cons]

/-- A form has a lower bound if all its terms have one. -/
theorem eval (h : ∀ v c, form[v]? = some c → p.HasLowerBound fun x => c * x v) :
    p.HasLowerBound form.eval := by
  have hsum : p.HasLowerBound fun x => (form.toList.map fun term => term.2 * x term.1).sum :=
    sum fun term hterm => h term.1 term.2 (Std.ExtTreeMap.mem_toList_iff_getElem?_eq_some.mp hterm)
  exact hsum.of_eq fun x => LinearForm.eval_eq_of_perm (List.Perm.refl _) x

end HasLowerBound

/-! ### Confined variables -/

/-- Every multiple of a variable has a lower bound. -/
def Confines (p : LinearProblem K) (v : VariableId) : Prop :=
  ∀ c : K, p.HasLowerBound fun x => c * x v

/-- Multiples of a quantity between two numbers have lower bounds. -/
theorem hasLowerBound_mul {quantity : (VariableId → K) → K} {a b : K}
    (hlower : ∀ x, p.Keeps x → a ≤ quantity x) (hupper : ∀ x, p.Keeps x → quantity x ≤ b) (c : K) :
    p.HasLowerBound fun x => c * quantity x := by
  rcases le_total 0 c with hc | hc
  · exact ⟨c * a, fun x hx => mul_le_mul_of_nonneg_left (hlower x hx) hc⟩
  · exact ⟨c * b, fun x hx => mul_le_mul_of_nonpos_left (hupper x hx) hc⟩

/-- A variable with two finite bounds is confined. -/
theorem confines_of_bounds {data : Variable K} {a b : K} (hdata : p.columns[v]? = some data)
    (hlower : data.lower = .finite a) (hupper : data.upper = .finite b) : p.Confines v :=
  hasLowerBound_mul (fun _ hx => hx.lower v data a hdata hlower)
    fun _ hx => hx.upper v data b hdata hupper

/-- Multiples of a form of confined variables have lower bounds. -/
theorem hasLowerBound_mul_eval (h : ∀ w e, form[w]? = some e → p.Confines w) (c : K) :
    p.HasLowerBound fun x => c * form.eval x := by
  have hsum : p.HasLowerBound fun x => (form.toList.map fun term => c * term.2 * x term.1).sum :=
    .sum fun term hterm =>
      h term.1 term.2 (Std.ExtTreeMap.mem_toList_iff_getElem?_eq_some.mp hterm) (c * term.2)
  refine hsum.of_eq fun x => ?_
  rw [LinearForm.eval_eq_of_perm (List.Perm.refl _), ← List.sum_map_mul_left]
  congr 1
  exact List.map_congr_left fun term _ => (mul_assoc c term.2 (x term.1)).symm

/-- If the other variables of a form are confined, a variable of it has a lower bound where the
form has one. -/
theorem hasLowerBound_lead (hlead : form[v]? = some d) (hd : d ≠ 0)
    (hrest : ∀ w e, w ≠ v → form[w]? = some e → p.Confines w)
    (heval : p.HasLowerBound fun x => c / d * form.eval x) :
    p.HasLowerBound fun x => c * x v := by
  have herase : ∀ w e, (form.erase v)[w]? = some e → p.Confines w := by
    intro w e he
    rw [Std.ExtTreeMap.getElem?_erase] at he
    split at he
    · cases he
    · next hne => exact hrest w e (by rintro rfl; simp at hne) he
  refine (heval.add (hasLowerBound_mul_eval herase (-(c / d)))).of_eq fun x => ?_
  rw [LinearForm.eval_eq_add_erase form v x, LinearForm.get, hlead, Option.getD_some]
  field_simp
  ring

variable {row : Row K} (hrow : row ∈ p.rows) (hlead : row.form[v]? = some d)
  (hrest : ∀ w e, w ≠ v → row.form[w]? = some e → p.Confines w)
include hrow hlead hrest

/-- A row with two finite bounds confines a variable if its other variables are confined. -/
theorem confines_of_row {a b : K} (hlower : row.lower = .finite a) (hupper : row.upper = .finite b)
    (hd : d ≠ 0) : p.Confines v := fun _ =>
  hasLowerBound_lead hlead hd hrest (hasLowerBound_mul
    (fun _ hx => hx.row_lower row hrow a hlower) (fun _ hx => hx.row_upper row hrow b hupper) _)

/-- A row with a finite upper bound keeps a variable from rising if its other variables are
confined. -/
theorem hasLowerBound_neg_of_row {b : K} (hupper : row.upper = .finite b) (hd : 0 < d) :
    p.HasLowerBound fun x => -1 * x v := by
  refine hasLowerBound_lead hlead hd.ne' hrest ⟨-1 / d * b, fun x hx => ?_⟩
  exact mul_le_mul_of_nonpos_left (hx.row_upper row hrow b hupper)
    (div_nonpos_of_nonpos_of_nonneg (by simp) hd.le)

omit hrow hlead hrest

/-! ### The objective -/

/-- There is a feasible point. -/
def IsFeasible (p : LinearProblem K) : Prop := ∃ x, p.Satisfies x

/-- The objective has a lower bound over the feasible points. -/
def IsBounded (p : LinearProblem K) : Prop := ∃ b, ∀ x, p.Satisfies x → b ≤ p.objective.eval x

variable {x : VariableId → K}

/-- A feasible point keeps the finite bounds and the integrality of a problem. -/
theorem Satisfies.keeps (h : p.Satisfies x) : p.Keeps x := by
  obtain ⟨hcolumns, hrows⟩ := h
  constructor
  · intro v data a hdata ha
    have hwithin := (hcolumns v data hdata).1.1
    rwa [ha] at hwithin
  · intro v data b hdata hb
    have hwithin := (hcolumns v data hdata).1.2
    rwa [hb] at hwithin
  · intro v data hdata hkind
    have hallows := (hcolumns v data hdata).2
    cases hdatakind : data.kind with
    | continuous => exact absurd hdatakind hkind
    | integer =>
      rw [hdatakind] at hallows
      obtain ⟨n, hn⟩ := hallows
      exact ⟨n, hn.trans (ExactScalar.ofInt_eq n)⟩
    | binary =>
      rw [hdatakind] at hallows
      rcases hallows with hzero | hone
      · exact ⟨0, by rw [hzero, Int.cast_zero]⟩
      · exact ⟨1, by rw [hone, Int.cast_one]⟩
  · intro row hrow a ha
    have hwithin := (hrows row hrow).1
    rwa [ha] at hwithin
  · intro row hrow b hb
    have hwithin := (hrows row hrow).2
    rwa [hb] at hwithin

/-! Whether a rational point is feasible can be evaluated. -/

instance (lower upper : Bound ℚ) (x : ℚ) : Decidable (within lower upper x) :=
  match lower, upper with
  | .negInf, .negInf => inferInstanceAs (Decidable (True ∧ False))
  | .negInf, .finite b => inferInstanceAs (Decidable (True ∧ x ≤ b))
  | .negInf, .posInf => inferInstanceAs (Decidable (True ∧ True))
  | .finite a, .negInf => inferInstanceAs (Decidable (a ≤ x ∧ False))
  | .finite a, .finite b => inferInstanceAs (Decidable (a ≤ x ∧ x ≤ b))
  | .finite a, .posInf => inferInstanceAs (Decidable (a ≤ x ∧ True))
  | .posInf, .negInf => inferInstanceAs (Decidable (False ∧ False))
  | .posInf, .finite b => inferInstanceAs (Decidable (False ∧ x ≤ b))
  | .posInf, .posInf => inferInstanceAs (Decidable (False ∧ True))

instance (kind : VariableKind) (x : ℚ) : Decidable (kindAllows kind x) :=
  match kind with
  | .continuous => inferInstanceAs (Decidable True)
  | .integer => decidable_of_iff (x.den = 1)
      ⟨fun h => ⟨x.num, ((Rat.den_eq_one_iff x).mp h).symm⟩, fun ⟨n, hn⟩ => hn ▸ Rat.den_intCast n⟩
  | .binary => inferInstanceAs (Decidable (x = 0 ∨ x = 1))

instance (p : LinearProblem ℚ) (x : VariableId → ℚ) : Decidable (p.Satisfies x) :=
  decidable_of_iff ((∀ entry ∈ p.columns.zipIdx,
      within entry.1.lower entry.1.upper (x entry.2) ∧ kindAllows entry.1.kind (x entry.2)) ∧
        ∀ row ∈ p.rows, within row.lower row.upper (row.form.eval x))
    (and_congr_left' ⟨fun h v data hdata => h (data, v) (List.mem_zipIdx_iff_getElem?.mpr hdata),
      fun h entry hentry => h entry.2 entry.1 (List.mem_zipIdx_iff_getElem?.mp hentry)⟩)

theorem isBounded_of_hasLowerBound (h : p.HasLowerBound p.objective.eval) : p.IsBounded := by
  obtain ⟨b, hb⟩ := h
  exact ⟨b, fun x hx => hb x hx.keeps⟩

/-- A variable without a term does not count for the value of a form. -/
theorem eval_update (h : form[v]? = none) (x : VariableId → K) (y : K) :
    form.eval (Function.update x v y) = form.eval x := by
  unfold LinearForm.eval
  congr 1
  refine List.map_congr_left fun term hterm => ?_
  have hget := Std.ExtTreeMap.mem_toList_iff_getElem?_eq_some.mp hterm
  have hne : term.1 ≠ v := by
    intro heq
    rw [heq, h] at hget
    cases hget
  rw [Function.update_of_ne hne]

/-- The value of a form after a variable of it has changed. -/
theorem eval_update_add (h : form[v]? = some c) (x : VariableId → K) (t : K) :
    form.eval (Function.update x v (x v + t)) = form.eval x + c * t := by
  have herase : (form.erase v)[v]? = none := by simp
  rw [LinearForm.eval_eq_add_erase form v, LinearForm.eval_eq_add_erase form v x,
    eval_update herase, Function.update_self, LinearForm.get, h, Option.getD_some]
  ring

/-- A variable that nothing limits. -/
structure IsFree (p : LinearProblem K) (v : VariableId) : Prop where
  column : ∀ data, p.columns[v]? = some data →
    data.lower = .negInf ∧ data.upper = .posInf ∧ data.kind = .continuous
  rows : ∀ row ∈ p.rows, row.form[v]? = none

/-- A feasible point stays feasible when a free variable changes. -/
theorem Satisfies.update (h : p.Satisfies x) (hfree : p.IsFree v) (y : K) :
    p.Satisfies (Function.update x v y) := by
  obtain ⟨hcolumns, hrows⟩ := h
  constructor
  · intro w data hdata
    by_cases hw : w = v
    · subst hw
      obtain ⟨hlower, hupper, hkind⟩ := hfree.column data hdata
      rw [hlower, hupper, hkind]
      exact ⟨⟨trivial, trivial⟩, trivial⟩
    · rw [Function.update_of_ne hw]
      exact hcolumns w data hdata
  · intro row hrow
    rw [eval_update (hfree.rows row hrow)]
    exact hrows row hrow

/-- The objective of a feasible problem has no lower bound if it falls with a free variable. -/
theorem not_isBounded_of_free (hfeasible : p.IsFeasible) (hfree : p.IsFree v)
    (hprice : p.objective[v]? = some c) (hc : c < 0) : ¬p.IsBounded := by
  rintro ⟨b, hb⟩
  obtain ⟨x, hx⟩ := hfeasible
  have hbelow := hb _ (hx.update hfree (x v + (b - 1 - p.objective.eval x) / c))
  rw [eval_update_add hprice, mul_div_cancel₀ _ hc.ne] at hbelow
  linarith only [hbelow]

/-! ### Solves -/

/-- The objective of a model has the value of the objective of its problem. -/
theorem value_of_toModel {model : Model K} (h : p.toModel = .ok model) (x : VariableId → K) :
    model.value x = p.objective.eval x := by
  obtain ⟨rows, -, rfl⟩ := exists_of_toModel h
  rfl

/-- No solve of a problem whose objective has a lower bound ends as unbounded. -/
theorem status_solve_ne_unbounded {services : Services N K σ} (hservices : services.ProvesUnbounded)
    (h : p.HasLowerBound p.objective.eval) (state : σ) :
    (p.solve services.solve state).1.status ≠ .unbounded := by
  intro hstatus
  unfold solve at hstatus
  cases hmodel : p.toModel with
  | error status =>
    rw [hmodel] at hstatus
    obtain rfl : status = .unbounded := hstatus
    unfold toModel at hmodel
    split at hmodel
    · cases hmodel
    · split at hmodel <;> cases hmodel
  | ok model =>
    rw [hmodel] at hstatus
    have hanswer : (services.solve model state).1 = .unbounded := by
      simp only [bind, StateT.bind] at hstatus
      rcases hsolve : services.solve model state with ⟨answer, after⟩
      rw [hsolve] at hstatus
      cases answer with
      | unbounded => rfl
      | solved | infeasible | failed => cases hstatus
    obtain ⟨b, hb⟩ := h
    obtain ⟨values, hmet, hvalue⟩ := hservices model state hanswer b
    rw [value_of_toModel hmodel] at hvalue
    exact absurd (hb _ (keeps_of_isMetBy hmodel hmet)) (not_le.mpr hvalue)

end LinearProblem

end GridRelief
