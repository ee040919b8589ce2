import GridRelief.Proofs.Problem.Forms
import GridRelief.Services

/-!
# What a solver is trusted with

A solver answers a model with values that meet it, or with none. A model has the finite bounds of a
problem only and leaves out rows without terms, but these hold when the problem has a model. So the
values keep the problem, as far as its bounds are finite.

* `Model.IsMetBy`: what values are trusted to do.
* `LinearProblem.Keeps`: an assignment keeps the finite bounds and the integrality of a problem.
* `LinearProblem.keeps_of_isMetBy`: values that meet the model of a problem keep the problem.
* `LinearProblem.keeps_of_optimal`: so do those that an optimal solve has recorded.
-/

namespace GridRelief

variable {K N σ : Type} [ExactScalar K]

/-! ### Models -/

/-- A number is between the bounds of a variable, and an integer if it has to be. -/
structure ModelVariable.Allows (v : ModelVariable K) (x : K) : Prop where
  lower : ∀ a, v.min = some a → a ≤ x
  upper : ∀ b, v.max = some b → x ≤ b
  integer : v.integer = true → ∃ n : ℤ, x = n

/-- An assignment keeps a row. -/
def ModelRow.Holds (row : ModelRow K) (x : VariableId → K) : Prop :=
  let value := Scalar.sum (row.terms.map fun term => term.2 * x term.1)
  match row.relation with
  | .eq => value = row.bound
  | .geq => row.bound ≤ value
  | .leq => value ≤ row.bound

/-- Values for all variables of a model, which keep all its rows. -/
structure Model.IsMetBy (model : Model K) (values : List K) : Prop where
  columns : ∀ (v : VariableId) column, model.columns[v]? = some column →
    ∃ x, values[v]? = some x ∧ column.Allows x
  rows : ∀ row ∈ model.rows, row.Holds fun v => values.getD v 0

/-! Whether rational values meet a model can be evaluated. -/

instance (v : ModelVariable ℚ) (x : ℚ) : Decidable (v.Allows x) :=
  decidable_of_iff ((∀ a ∈ v.min, a ≤ x) ∧ (∀ b ∈ v.max, x ≤ b) ∧ (v.integer = true → x.den = 1))
    ⟨fun h => ⟨h.1, h.2.1, fun hv => ⟨x.num, (Rat.den_eq_one_iff x).mp (h.2.2 hv) |>.symm⟩⟩,
      fun h => ⟨h.lower, h.upper, fun hv => by
        obtain ⟨n, rfl⟩ := h.integer hv
        exact Rat.den_intCast n⟩⟩

instance (row : ModelRow ℚ) (x : VariableId → ℚ) : Decidable (row.Holds x) :=
  match row with
  | ⟨_, .eq, _⟩ => inferInstanceAs (Decidable (_ = _))
  | ⟨_, .geq, _⟩ => inferInstanceAs (Decidable (_ ≤ _))
  | ⟨_, .leq, _⟩ => inferInstanceAs (Decidable (_ ≤ _))

/-- What values are trusted to do, as it can be checked one variable after the other. -/
theorem Model.isMetBy_iff {model : Model K} {values : List K} : model.IsMetBy values ↔
    model.columns.length ≤ values.length ∧
      (∀ entry ∈ model.columns.zip values, entry.1.Allows entry.2) ∧
        ∀ row ∈ model.rows, row.Holds fun v => values.getD v 0 := by
  constructor
  · intro h
    refine ⟨?_, fun entry hentry => ?_, h.rows⟩
    · by_contra hshort
      obtain ⟨x, hx, -⟩ := h.columns values.length _
        (List.getElem?_eq_getElem (not_le.mp hshort))
      rw [List.getElem?_eq_none le_rfl] at hx
      cases hx
    · obtain ⟨v, hv⟩ := List.mem_iff_getElem?.mp hentry
      obtain ⟨hcolumn, hvalue⟩ := List.getElem?_zip_eq_some.mp hv
      obtain ⟨x, hx, hallows⟩ := h.columns v _ hcolumn
      rw [hvalue] at hx
      rwa [Option.some.inj hx]
  · rintro ⟨hlength, hcolumns, hrows⟩
    refine ⟨fun v column hcolumn => ?_, hrows⟩
    have hv : v < values.length :=
      Nat.lt_of_lt_of_le (List.getElem?_eq_some_iff.mp hcolumn).1 hlength
    have hentry : (column, values[v]) ∈ model.columns.zip values :=
      List.mem_iff_getElem?.mpr
        ⟨v, List.getElem?_zip_eq_some.mpr ⟨hcolumn, List.getElem?_eq_getElem hv⟩⟩
    exact ⟨values[v], List.getElem?_eq_getElem hv, hcolumns _ hentry⟩

instance (model : Model ℚ) (values : List ℚ) : Decidable (model.IsMetBy values) :=
  decidable_of_iff _ Model.isMetBy_iff.symm

/-- Whatever services answer to a model meets it. -/
def Services.SolvesModels (services : Services N K σ) : Prop :=
  ∀ model state values, (services.solve model state).1 = .solved values → model.IsMetBy values

/-! ### Problems -/

@[simp] theorem Bound.finite?_finite (a : K) : (Bound.finite a).finite? = some a := by
  simp [Bound.finite?, ExactScalar.isFinite_eq]

/-- An exact number as a bound is a finite one. -/
@[simp] theorem Bound.ofScalar_eq (a : K) : Bound.ofScalar a = .finite a := by
  simp [Bound.ofScalar, ExactScalar.isFinite_eq]

@[simp] theorem Bound.isInterval_finite (a b : K) :
    isInterval (.finite a) (.finite b) = decide (a ≤ b) := by
  rw [Bool.eq_iff_iff]
  simp [isInterval, isUndefined, isAbove]

@[simp] theorem Bound.isInterval_above (a : K) : isInterval (.finite a) .posInf = true := by
  simp [isInterval, isUndefined, isAbove]

@[simp] theorem Bound.isInterval_below (a : K) : isInterval .negInf (.finite a) = true := by
  simp [isInterval, isUndefined, isAbove]

namespace LinearProblem

/-- An assignment keeps the finite bounds of a problem's variables and rows, and its integrality
conditions. -/
structure Keeps (p : LinearProblem K) (x : VariableId → K) : Prop where
  lower : ∀ v data a, p.columns[v]? = some data → data.lower = .finite a → a ≤ x v
  upper : ∀ v data b, p.columns[v]? = some data → data.upper = .finite b → x v ≤ b
  integer : ∀ v data, p.columns[v]? = some data → data.kind ≠ .continuous → ∃ n : ℤ, x v = n
  row_lower : ∀ row ∈ p.rows, ∀ a, row.lower = .finite a → a ≤ row.form.eval x
  row_upper : ∀ row ∈ p.rows, ∀ b, row.upper = .finite b → row.form.eval x ≤ b

/-- An integer between zero and one is one of them. -/
theorem eq_zero_or_one_of_integer {x : K} (hinteger : ∃ n : ℤ, x = n) (hzero : 0 ≤ x)
    (hone : x ≤ 1) : x = 0 ∨ x = 1 := by
  obtain ⟨n, rfl⟩ := hinteger
  norm_cast at hzero hone ⊢
  omega

/-- An integer variable between zero and one is zero or one. -/
theorem Keeps.eq_zero_or_one {p : LinearProblem K} {x : VariableId → K} (h : p.Keeps x)
    {v : VariableId} {data : Variable K} (hdata : p.columns[v]? = some data)
    (hlower : data.lower = .finite 0) (hupper : data.upper = .finite 1)
    (hkind : data.kind ≠ .continuous) : x v = 0 ∨ x v = 1 :=
  eq_zero_or_one_of_integer (h.integer v data hdata hkind) (h.lower v data 0 hdata hlower)
    (h.upper v data 1 hdata hupper)

/-- What keeps a problem keeps one with the same variables and rows. -/
theorem Keeps.of_eq {p q : LinearProblem K} {x : VariableId → K} (h : p.Keeps x)
    (hcolumns : q.columns = p.columns) (hrows : q.rows = p.rows) : q.Keeps x := by
  constructor
  · rw [hcolumns]
    exact h.lower
  · rw [hcolumns]
    exact h.upper
  · rw [hcolumns]
    exact h.integer
  · rw [hrows]
    exact h.row_lower
  · rw [hrows]
    exact h.row_upper

end LinearProblem

/-- What a model asks of a variable is what the problem asks. -/
theorem Variable.toModel_allows {v : Variable K} {x : K} (h : v.toModel.Allows x) :
    (∀ a, v.lower = .finite a → a ≤ x) ∧ (∀ b, v.upper = .finite b → x ≤ b) ∧
      (v.kind ≠ .continuous → ∃ n : ℤ, x = n) := by
  obtain ⟨hlower, hupper, hinteger⟩ := h
  unfold Variable.toModel at hlower hupper hinteger
  refine ⟨fun a ha => hlower a ?_, fun b hb => hupper b ?_, fun hkind => hinteger ?_⟩
  · cases v.kind <;> simp [ha]
  · cases v.kind <;> simp [hb]
  · cases hv : v.kind with
    | continuous => exact absurd hv hkind
    | integer | binary => rfl

/-- A row of a problem holds where its rows in the model hold. -/
theorem Row.eval_of_holds {row : Row K} {rows : List (ModelRow K)} {x : VariableId → K}
    (h : row.toModel? = some rows) (hrows : ∀ r ∈ rows, r.Holds x) :
    (∀ a, row.lower = .finite a → a ≤ row.form.eval x) ∧
      ∀ b, row.upper = .finite b → row.form.eval x ≤ b := by
  unfold Row.toModel? at h
  split at h
  · next hempty =>
    -- a row without terms is not in the model, but then its value is between its bounds
    have heval : row.form.eval x = 0 := by
      rw [Std.ExtTreeMap.isEmpty_iff.mp hempty]
      exact LinearForm.eval_empty x
    split at h
    · cases h
    · next hholds =>
      rw [Bool.or_eq_true, not_or] at hholds
      rw [heval]
      constructor
      · intro a ha
        have hbelow := hholds.1
        rw [ha, Bound.isAbove, decide_eq_true_eq, not_lt] at hbelow
        exact hbelow
      · intro b hb
        have habove := hholds.2
        rw [hb, Bound.isAbove, decide_eq_true_eq, not_lt] at habove
        exact habove
  · have hfinite : (∀ a, row.lower.finite? = some a → a ≤ row.form.eval x) ∧
        ∀ b, row.upper.finite? = some b → row.form.eval x ≤ b := by
      dsimp only at h
      split at h
      · next a b hlower hupper =>
        rw [hlower, hupper]
        split at h
        · next hab =>
          obtain rfl := Option.some.inj h
          obtain rfl := (ExactScalar.beq_iff a b).mp hab
          have hvalue : row.form.eval x = a := hrows ⟨_, .eq, a⟩ List.mem_cons_self
          simp [hvalue]
        · obtain rfl := Option.some.inj h
          have habove : a ≤ row.form.eval x := hrows ⟨_, .geq, a⟩ List.mem_cons_self
          have hbelow : row.form.eval x ≤ b :=
            hrows ⟨_, .leq, b⟩ (List.mem_cons_of_mem _ List.mem_cons_self)
          simp [habove, hbelow]
      · next a hlower hupper =>
        obtain rfl := Option.some.inj h
        have habove : a ≤ row.form.eval x := hrows ⟨_, .geq, a⟩ List.mem_cons_self
        simp [hlower, hupper, habove]
      · next b hlower hupper =>
        obtain rfl := Option.some.inj h
        have hbelow : row.form.eval x ≤ b := hrows ⟨_, .leq, b⟩ List.mem_cons_self
        simp [hlower, hupper, hbelow]
      · next hlower hupper => simp [hlower, hupper]
    constructor
    · intro a ha
      exact hfinite.1 a (by rw [ha, Bound.finite?_finite])
    · intro b hb
      exact hfinite.2 b (by rw [hb, Bound.finite?_finite])

namespace LinearProblem

variable {p : LinearProblem K}

omit [ExactScalar K] in
theorem exists_of_mapM_eq_some {α β : Type} {f : α → Option β} {xs : List α} {ys : List β}
    (h : xs.mapM f = some ys) : ∀ x ∈ xs, ∃ y ∈ ys, f x = some y := by
  induction xs generalizing ys with
  | nil => simp
  | cons x xs ih =>
    rw [List.mapM_cons] at h
    obtain ⟨y, hy, hrest⟩ := Option.bind_eq_some_iff.mp h
    obtain ⟨rest, hxs, heq⟩ := Option.bind_eq_some_iff.mp hrest
    obtain rfl := Option.some.inj heq
    intro x' hx'
    rcases List.mem_cons.mp hx' with rfl | hx'
    · exact ⟨y, List.mem_cons_self, hy⟩
    · obtain ⟨y', hy', hx'⟩ := ih hxs x' hx'
      exact ⟨y', List.mem_cons_of_mem _ hy', hx'⟩

omit [ExactScalar K] in
/-- A model has the variables and the objective of its problem, and what its rows become. -/
theorem exists_of_toModel [Scalar K] {model : Model K} (h : p.toModel = .ok model) :
    ∃ rows, p.rows.mapM Row.toModel? = some rows ∧
      model = ⟨p.columns.map Variable.toModel, rows.flatten, p.objective.toList⟩ := by
  unfold toModel at h
  split at h
  · cases h
  · split at h
    · cases h
    · next rows hrows => exact ⟨rows, hrows, (Except.ok.inj h).symm⟩

/-- Values that meet the model of a problem keep the problem. -/
theorem keeps_of_isMetBy {model : Model K} {values : List K} (hmodel : p.toModel = .ok model)
    (h : model.IsMetBy values) : p.Keeps fun v => values.getD v 0 := by
  obtain ⟨rows, hrows, rfl⟩ := exists_of_toModel hmodel
  have hcolumn : ∀ (v : VariableId) data, p.columns[v]? = some data →
      data.toModel.Allows (values.getD v 0) := by
    intro v data hdata
    obtain ⟨x, hx, hallows⟩ := h.columns v data.toModel (by simp [hdata])
    rw [List.getD_eq_getElem?_getD, hx]
    exact hallows
  have hrow : ∀ row ∈ p.rows,
      (∀ a, row.lower = .finite a → a ≤ row.form.eval fun v => values.getD v 0) ∧
        ∀ b, row.upper = .finite b → (row.form.eval fun v => values.getD v 0) ≤ b := by
    intro row hmem
    obtain ⟨parts, hparts, htoModel⟩ := exists_of_mapM_eq_some hrows row hmem
    refine Row.eval_of_holds htoModel fun r hr => ?_
    exact h.rows r (List.mem_flatten.mpr ⟨parts, hparts, hr⟩)
  constructor
  · intro v data a hdata
    exact (Variable.toModel_allows (hcolumn v data hdata)).1 a
  · intro v data b hdata
    exact (Variable.toModel_allows (hcolumn v data hdata)).2.1 b
  · intro v data hdata
    exact (Variable.toModel_allows (hcolumn v data hdata)).2.2
  · intro row hmem
    exact (hrow row hmem).1
  · intro row hmem
    exact (hrow row hmem).2

/-! ### Solves -/

variable {services : Services N K σ}

omit [ExactScalar K] in
/-- A solve changes neither variables nor rows. -/
theorem columns_rows_solve [Scalar K] (p : LinearProblem K) (services : Services N K σ)
    (state : σ) : (p.solve services.solve state).1.columns = p.columns ∧
      (p.solve services.solve state).1.rows = p.rows := by
  unfold solve
  cases p.toModel with
  | error status => exact ⟨rfl, rfl⟩
  | ok model =>
    simp only [bind, StateT.bind]
    rcases services.solve model state with ⟨answer, after⟩
    cases answer <;> exact ⟨rfl, rfl⟩

/-- A problem without a model is not solved. -/
theorem ne_optimal_of_toModel_eq_error {status : SolveStatus} (h : p.toModel = .error status) :
    status ≠ .optimal := by
  unfold toModel at h
  split at h
  · obtain rfl := Except.error.inj h
    simp
  · split at h
    · obtain rfl := Except.error.inj h
      simp
    · cases h

/-- After an optimal solve the values that are recorded keep the problem. -/
theorem keeps_of_optimal (hservices : services.SolvesModels) {state : σ}
    (h : (p.solve services.solve state).1.status = .optimal) :
    ∃ values, (p.solve services.solve state).1.solution = some values ∧
      p.Keeps fun v => values.getD v 0 := by
  cases hmodel : p.toModel with
  | error status =>
    have hsolve : p.solve services.solve state = (p.withoutSolution status, state) := by
      unfold solve
      rw [hmodel]
      rfl
    rw [hsolve] at h
    exact absurd h (ne_optimal_of_toModel_eq_error hmodel)
  | ok model =>
    rcases hanswer : services.solve model state with ⟨answer, after⟩
    have hsolve : p.solve services.solve state = (p.record answer, after) := by
      unfold solve
      simp only [hmodel, bind, StateT.bind, hanswer]
      rfl
    rw [hsolve] at h ⊢
    cases answer with
    | solved values =>
      have hmet := hservices model state values (by rw [hanswer])
      exact ⟨values, rfl, keeps_of_isMetBy hmodel hmet⟩
    | infeasible | unbounded | failed => cases h

end LinearProblem

end GridRelief
