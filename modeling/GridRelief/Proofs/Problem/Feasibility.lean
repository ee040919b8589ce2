import GridRelief.Proofs.Problem.Boundedness

/-!
# Feasible problems

A model asks of values no more than its problem does, and a row without terms that holds is not
refused. So a feasible problem has a model that some values meet, unless its solver does not
handle integers, and a solver that is right about it does not call such a model infeasible.

* `Services.ProvesInfeasible`: what a solver is trusted with.
* `LinearProblem.isMetBy_of_satisfies`: a feasible point meets the model.
* `LinearProblem.status_solve_ne_infeasible`: no solve of a feasible problem ends as infeasible.
-/

namespace GridRelief

variable {K N σ : Type} [ExactScalar K]

/-- Services call a model infeasible only if no values meet it. -/
def Services.ProvesInfeasible (services : Services N K σ) : Prop :=
  ∀ model state, (services.solve model state).1 = .infeasible → ∀ values, ¬model.IsMetBy values

open LinearProblem

/-! ### Variables and rows -/

section Rows

variable {lower upper : Bound K} {x : K}

/-- What lies between two bounds keeps those of them that are numbers. -/
theorem LinearProblem.finite?_of_within (h : within lower upper x) :
    (∀ a, lower.finite? = some a → a ≤ x) ∧ ∀ b, upper.finite? = some b → x ≤ b := by
  obtain ⟨hlower, hupper⟩ := h
  constructor
  · intro a ha
    cases lower with
    | finite a' =>
      rw [Bound.finite?_finite, Option.some.injEq] at ha
      exact ha ▸ hlower
    | negInf | posInf => cases ha
  · intro b hb
    cases upper with
    | finite b' =>
      rw [Bound.finite?_finite, Option.some.injEq] at hb
      exact hb ▸ hupper
    | negInf | posInf => cases hb

/-- What lies between two bounds is what the lower one is not above and that is not above the upper
one. -/
theorem LinearProblem.within_iff_isAbove : within lower upper x ↔
    lower.isAbove (.finite x) = false ∧ (Bound.finite x).isAbove upper = false := by
  unfold within
  refine and_congr ?_ ?_
  · cases lower <;> simp [Bound.isAbove]
  · cases upper <;> simp [Bound.isAbove]

end Rows

/-- A model asks of a variable no more than the problem. -/
theorem Variable.allows_toModel {data : Variable K} {x : K}
    (hwithin : within data.lower data.upper x) (hkind : kindAllows data.kind x) :
    data.toModel.Allows x := by
  obtain ⟨hlower, hupper⟩ := finite?_of_within hwithin
  unfold Variable.toModel
  cases hdata : data.kind with
  | continuous => exact ⟨hlower, hupper, nofun⟩
  | integer =>
    rw [hdata] at hkind
    obtain ⟨n, hn⟩ := hkind
    exact ⟨hlower, hupper, fun _ => ⟨n, hn.trans (ExactScalar.ofInt_eq n)⟩⟩
  | binary =>
    rw [hdata] at hkind
    -- bounds that are no numbers are replaced by zero and one
    have hbetween : 0 ≤ x ∧ x ≤ 1 := by
      rcases hkind with rfl | rfl <;> simp
    refine ⟨fun a ha => ?_, fun b hb => ?_, fun _ => ?_⟩
    · obtain rfl := Option.some.inj ha
      cases hfinite : data.lower.finite? with
      | none => exact hbetween.1
      | some a => exact hlower a hfinite
    · obtain rfl := Option.some.inj hb
      cases hfinite : data.upper.finite? with
      | none => exact hbetween.2
      | some b => exact hupper b hfinite
    · rcases hkind with rfl | rfl
      · exact ⟨0, Int.cast_zero.symm⟩
      · exact ⟨1, Int.cast_one.symm⟩

/-- A row that holds is not refused, and its rows in the model hold. -/
theorem Row.exists_toModel?_of_within {row : Row K} {x : VariableId → K}
    (h : within row.lower row.upper (row.form.eval x)) :
    ∃ rows, row.toModel? = some rows ∧ ∀ r ∈ rows, r.Holds x := by
  unfold Row.toModel?
  split
  · next hempty =>
    have heval : row.form.eval x = 0 := by
      rw [Std.ExtTreeMap.isEmpty_iff.mp hempty]
      exact LinearForm.eval_empty x
    obtain ⟨hlower, hupper⟩ := within_iff_isAbove.mp (heval ▸ h)
    rw [hlower, hupper]
    exact ⟨[], rfl, by simp⟩
  · obtain ⟨hlower, hupper⟩ := finite?_of_within h
    dsimp only
    split
    · next a b ha hb =>
      split
      · next hab =>
        obtain rfl := (ExactScalar.beq_iff a b).mp hab
        refine ⟨_, rfl, List.forall_mem_singleton.mpr ?_⟩
        exact le_antisymm (hupper a hb) (hlower a ha)
      · refine ⟨_, rfl, List.forall_mem_cons.mpr ⟨hlower a ha, ?_⟩⟩
        exact List.forall_mem_singleton.mpr (hupper b hb)
    · next a ha _ => exact ⟨_, rfl, List.forall_mem_singleton.mpr (hlower a ha)⟩
    · next b _ hb => exact ⟨_, rfl, List.forall_mem_singleton.mpr (hupper b hb)⟩
    · exact ⟨[], rfl, by simp⟩

/-! ### Models -/

namespace LinearProblem

variable {p : LinearProblem K} {values : List K}

omit [ExactScalar K] in
/-- If a partial function has an answer of some kind for each element, it has one for a list. -/
theorem exists_mapM_eq_some {α β : Type} {f : α → Option β} {P : β → Prop} {xs : List α}
    (h : ∀ x ∈ xs, ∃ y, f x = some y ∧ P y) : ∃ ys, xs.mapM f = some ys ∧ ∀ y ∈ ys, P y := by
  induction xs with
  | nil => exact ⟨[], rfl, by simp⟩
  | cons x xs ih =>
    obtain ⟨y, hy, hP⟩ := h x List.mem_cons_self
    obtain ⟨ys, hys, hall⟩ := ih fun x' hx' => h x' (List.mem_cons_of_mem _ hx')
    refine ⟨y :: ys, ?_, List.forall_mem_cons.mpr ⟨hP, hall⟩⟩
    rw [List.mapM_cons, hy, hys]
    rfl

/-- A feasible point meets the model, if there is one, and it is not for a row that there is
none. -/
theorem isMetBy_of_satisfies (hlength : values.length = p.columns.length)
    (h : p.Satisfies fun v => values.getD v 0) :
    p.toModel = .error .abnormal ∨ ∃ model, p.toModel = .ok model ∧ model.IsMetBy values := by
  unfold toModel
  split
  · exact .inl rfl
  · obtain ⟨rows, hrows, hhold⟩ := exists_mapM_eq_some fun row hrow =>
      Row.exists_toModel?_of_within (h.2 row hrow)
    rw [hrows]
    refine .inr ⟨_, rfl, ?_, fun row hrow => ?_⟩
    · intro v column hcolumn
      obtain ⟨data, hdata, rfl⟩ := Option.map_eq_some_iff.mp (List.getElem?_map ▸ hcolumn)
      have hv : v < values.length := hlength ▸ (List.getElem?_eq_some_iff.mp hdata).1
      have hvalue : values[v]? = some (values.getD v 0) := by
        rw [List.getD_eq_getElem?_getD, List.getElem?_eq_getElem hv, Option.getD_some]
      obtain ⟨hwithin, hkind⟩ := h.1 v data hdata
      exact ⟨values.getD v 0, hvalue, Variable.allows_toModel hwithin hkind⟩
    · obtain ⟨part, hpart, hmem⟩ := List.mem_flatten.mp hrow
      exact hhold part hpart row hmem

/-- No solve of a feasible problem ends as infeasible. -/
theorem status_solve_ne_infeasible {services : Services N K σ}
    (hservices : services.ProvesInfeasible) (hlength : values.length = p.columns.length)
    (h : p.Satisfies fun v => values.getD v 0) (state : σ) :
    (p.solve services.solve state).1.status ≠ .infeasible := by
  intro hstatus
  unfold solve at hstatus
  rcases isMetBy_of_satisfies hlength h with hmodel | ⟨model, hmodel, hmet⟩
  · rw [hmodel] at hstatus
    cases hstatus
  · rw [hmodel] at hstatus
    simp only [bind, StateT.bind] at hstatus
    rcases hsolve : services.solve model state with ⟨answer, after⟩
    rw [hsolve] at hstatus
    cases answer with
    | infeasible => exact hservices model state (by rw [hsolve]) values hmet
    | solved | unbounded | failed => cases hstatus

end LinearProblem

end GridRelief
