import GridRelief.Proofs.Problem.Feasibility

/-!
# What a solver is told of a problem

A model has no infinite bounds, merges two equal bounds of a row into an equation, splits two
different ones, and leaves out rows without terms. None of this changes which values are allowed,
as long as no bound is infinite on the wrong side and a binary has no bounds beyond zero and one:
what meets the model is what satisfies the problem, and a problem without a model has a row without
terms that does not hold.

* `LinearProblem.IsTranslatable`: the problems that a model can say all of.
* `LinearProblem.toModel_eq_error_iff`: when such a problem has no model.
* `LinearProblem.satisfies_iff_isMetBy`: what meets the model is what satisfies the problem.
-/

namespace GridRelief

variable {K : Type} [ExactScalar K]

namespace LinearProblem

variable {p : LinearProblem K} {values : List K}

/-- No bound is infinite on the wrong side, binaries have bounds between zero and one, and the
solver handles the kinds of the variables. The bounds of a row may be crossed. -/
structure IsTranslatable (p : LinearProblem K) : Prop where
  columns : ∀ data ∈ p.columns, data.lower ≠ .posInf ∧ data.upper ≠ .negInf
  binaries : ∀ data ∈ p.columns, data.kind = .binary →
    ∃ a b, data.lower = .finite a ∧ data.upper = .finite b ∧ 0 ≤ a ∧ b ≤ 1
  rows : ∀ row ∈ p.rows, row.lower ≠ .posInf ∧ row.upper ≠ .negInf
  solver : p.hasIntegers = true → p.solver.supportsIntegers = true

/-! ### Rows that the model leaves out -/

/-- A row is refused if it has no terms and zero is not between its bounds. -/
theorem toModel?_eq_none_iff {row : Row K} :
    row.toModel? = none ↔ row.form.isEmpty = true ∧ ¬within row.lower row.upper 0 := by
  unfold Row.toModel?
  rw [within_iff_isAbove]
  split
  · next hempty =>
    rw [ite_eq_left_iff, hempty, Bool.or_eq_true]
    cases row.lower.isAbove (.finite 0) <;> cases (Bound.finite 0).isAbove row.upper <;> simp
  · next hterms =>
    dsimp only
    split
    · split <;> simp [hterms]
    all_goals simp [hterms]

omit [ExactScalar K] in
/-- A partial function fails on a list if it fails on an element. -/
theorem mapM_eq_none_iff {α β : Type} {f : α → Option β} {xs : List α} :
    xs.mapM f = none ↔ ∃ x ∈ xs, f x = none := by
  constructor
  · intro h
    by_contra hall
    push Not at hall
    obtain ⟨ys, hys, -⟩ := exists_mapM_eq_some (P := fun _ => True) fun x hx => by
      obtain ⟨y, hy⟩ := Option.ne_none_iff_exists'.mp (hall x hx)
      exact ⟨y, hy, trivial⟩
    rw [h] at hys
    cases hys
  · rintro ⟨x, hx, hnone⟩
    by_contra hsome
    obtain ⟨ys, hys⟩ := Option.ne_none_iff_exists'.mp hsome
    obtain ⟨y, -, hy⟩ := exists_of_mapM_eq_some hys x hx
    rw [hnone] at hy
    cases hy

/-- A problem that a model can say all of has none only because of a row that is refused. -/
theorem toModel_eq_error_iff (h : p.IsTranslatable) {status : SolveStatus} :
    p.toModel = .error status ↔ status = .infeasible ∧
      ∃ row ∈ p.rows, row.form.isEmpty = true ∧ ¬within row.lower row.upper 0 := by
  have hsupported : (p.hasIntegers && !p.solver.supportsIntegers) = false := by
    cases hintegers : p.hasIntegers with
    | false => rfl
    | true => rw [h.solver hintegers]; rfl
  have hrefused : p.rows.mapM Row.toModel? = none ↔
      ∃ row ∈ p.rows, row.form.isEmpty = true ∧ ¬within row.lower row.upper 0 := by
    simp only [mapM_eq_none_iff, toModel?_eq_none_iff]
  unfold toModel
  rw [hsupported, if_neg Bool.false_ne_true, ← hrefused]
  cases p.rows.mapM Row.toModel? with
  | none => simp [eq_comm]
  | some rows => simp

/-! ### What is satisfied and what is met -/

/-- Between two bounds that are not infinite on the wrong side is what keeps those that are finite.
-/
theorem within_of_finite {lower upper : Bound K} {y : K} (hlower : lower ≠ .posInf)
    (hupper : upper ≠ .negInf) (habove : ∀ a, lower = .finite a → a ≤ y)
    (hbelow : ∀ b, upper = .finite b → y ≤ b) : within lower upper y := by
  constructor
  · cases lower with
    | negInf => trivial
    | finite a => exact habove a rfl
    | posInf => exact hlower rfl
  · cases upper with
    | negInf => exact hupper rfl
    | finite b => exact hbelow b rfl
    | posInf => trivial

/-- What keeps the finite bounds and the integrality of a problem that a model can say all of
satisfies it. -/
theorem IsTranslatable.satisfies (h : p.IsTranslatable) {x : VariableId → K} (hx : p.Keeps x) :
    p.Satisfies x := by
  constructor
  · intro v data hdata
    obtain ⟨hlower, hupper⟩ := h.columns data (List.mem_of_getElem? hdata)
    refine ⟨within_of_finite hlower hupper (hx.lower v data · hdata) (hx.upper v data · hdata), ?_⟩
    cases hkind : data.kind with
    | continuous => trivial
    | integer =>
      obtain ⟨n, hn⟩ := hx.integer v data hdata (by simp [hkind])
      exact ⟨n, hn.trans (ExactScalar.ofInt_eq n).symm⟩
    | binary =>
      obtain ⟨a, b, ha, hb, hzero, hone⟩ := h.binaries data (List.mem_of_getElem? hdata) hkind
      exact eq_zero_or_one_of_integer (hx.integer v data hdata (by simp [hkind]))
        (hzero.trans (hx.lower v data a hdata ha)) ((hx.upper v data b hdata hb).trans hone)
  · intro row hrow
    obtain ⟨hlower, hupper⟩ := h.rows row hrow
    exact within_of_finite hlower hupper (hx.row_lower row hrow) (hx.row_upper row hrow)

/-- Values for the variables satisfy a problem if and only if it has a model that they meet. The
model has the objective of the problem, and there is none only because of a row without terms that
does not hold. -/
theorem satisfies_iff_isMetBy (h : p.IsTranslatable) (values : List K)
    (hlength : values.length = p.columns.length) :
    ((p.Satisfies fun v => values.getD v 0) ↔
      ∃ model, p.toModel = .ok model ∧ model.IsMetBy values) ∧
    (∀ model, p.toModel = .ok model → ∀ x, model.value x = p.objective.eval x) ∧
    ∀ status, p.toModel = .error status ↔ status = .infeasible ∧
      ∃ row ∈ p.rows, row.form.isEmpty = true ∧ ¬within row.lower row.upper 0 := by
  refine ⟨⟨fun hsatisfies => ?_, ?_⟩, fun _ => value_of_toModel, fun _ => toModel_eq_error_iff h⟩
  · rcases isMetBy_of_satisfies hlength hsatisfies with hmodel | hmodel
    · cases ((toModel_eq_error_iff h).mp hmodel).1
    · exact hmodel
  · rintro ⟨model, hmodel, hmet⟩
    exact h.satisfies (keeps_of_isMetBy hmodel hmet)

end LinearProblem

namespace MixedKinds

/-- A problem with variables of all kinds: an equation, a row with two bounds, one with an upper
bound and one without terms. -/
def problem : LinearProblem ℚ where
  columns := [⟨.setpoint "shift", .negInf, .finite 5, .continuous⟩,
    ⟨.tapDistance "turn", .finite 0, .posInf, .integer⟩,
    ⟨.variation "shift", .finite 0, .finite 1, .binary⟩]
  rows := [⟨.flow "line", .finite 3, .finite 3, .ofTerms [(0, 1), (1, 2)]⟩,
    ⟨.shrink "shift", .finite (-2), .finite 2, .ofTerms [(0, 1)]⟩,
    ⟨.variation "shift", .negInf, .finite 0, .ofTerms [(0, 1), (2, -5)]⟩,
    ⟨.maxTso, .negInf, .finite 1, ∅⟩]
  objective := .ofTerms [(1, 10)]
  solver := .microlp

theorem satisfied_and_met : problem.IsTranslatable ∧
    (problem.Satisfies fun v => [1, 1, (1 : ℚ)].getD v 0) ∧
      ∃ model, problem.toModel = .ok model ∧ model.IsMetBy [1, 1, 1] := by
  have htranslatable : problem.IsTranslatable :=
    ⟨by simp [problem], by simp [problem], by simp [problem], fun _ => rfl⟩
  have hsatisfies : problem.Satisfies fun v => [1, 1, (1 : ℚ)].getD v 0 := by decide +kernel
  obtain ⟨hmeets, -⟩ := LinearProblem.satisfies_iff_isMetBy htranslatable [1, 1, 1] rfl
  exact ⟨htranslatable, hsatisfies, hmeets.mp hsatisfies⟩

end MixedKinds

end GridRelief
