import Mathlib.Data.List.Induction
import GridRelief.Proofs.Problem.Extension

/-!
# Histories of a problem

A problem is changed by edits, which it may refuse, and is solved from time to time. Its history is
the list of these operations in their order. An operation names variables and rows by the numbers
that the problem has given them, and a solver that has solved a model has a value for each of its
variables; nothing else is asked of operations.

A solve that finds values makes a copy of them for the variables of that time. The variables that
are added later are not in the copy. So their values, and that of an objective with a term of one of
them, are outside of it until the next solve.

* `ProblemEdit K`, `ProblemOperation K`: what is done with a problem.
* `LinearProblem.after`: a problem after a history.
* `LinearProblem.Accepts`: the histories that name given numbers only.
* `LinearProblem.after_induction`: what every operation keeps, every history keeps.
* `LinearProblem.LastFound`: what the last solve of a history has found.
* `LinearProblem.values_after`: which values can be read after a history.
-/

namespace GridRelief

variable {K : Type} [Scalar K]

/-! ### Operations -/

/-- A change of a problem. -/
inductive ProblemEdit (K : Type) where
  | addVariable (key : VariableKey) (lower upper : Bound K) (kind : VariableKind)
  | setVariableBounds (v : VariableId) (lower upper : Bound K)
  | addRow (key : RowKey) (lower upper : Bound K)
  | setRowBounds (r : RowId) (lower upper : Bound K)
  | setRowLower (r : RowId) (lower : Bound K)
  | setRowUpper (r : RowId) (upper : Bound K)
  | setCoefficient (r : RowId) (v : VariableId) (value : K)
  | setObjective (v : VariableId) (value : K)

/-- What is done with a problem. -/
inductive ProblemOperation (K : Type) where
  | edit (edit : ProblemEdit K)
  /-- Solve it with a solver that gives these answers. -/
  | solve (answers : Model K → Answer K)

namespace ProblemEdit

/-- A problem with a change made, unless it refuses that. -/
def apply (p : LinearProblem K) : ProblemEdit K → Except (ProblemFault K) (LinearProblem K)
  | addVariable key lower upper kind => p.addVariable key lower upper kind
  | setVariableBounds v lower upper => p.setVariableBounds v lower upper
  | addRow key lower upper => p.addRow key lower upper
  | setRowBounds r lower upper => p.setRowBounds r lower upper
  | setRowLower r lower => .ok (p.setRowLower r lower)
  | setRowUpper r upper => .ok (p.setRowUpper r upper)
  | setCoefficient r v value => .ok (p.setCoefficient r v value)
  | setObjective v value => .ok (p.setObjective v value)

/-- The variables and rows that a change names are there. -/
def Fits (p : LinearProblem K) : ProblemEdit K → Prop
  | addVariable _ _ _ _ | addRow _ _ _ => True
  | setVariableBounds v _ _ | setObjective v _ => v < p.columns.length
  | setRowBounds r _ _ | setRowLower r _ | setRowUpper r _ => r < p.rows.length
  | setCoefficient r v _ => r < p.rows.length ∧ v < p.columns.length

end ProblemEdit

namespace ProblemOperation

/-- A problem after an operation; a change that it refuses leaves it as it was. -/
def perform (p : LinearProblem K) : ProblemOperation K → LinearProblem K
  | edit change =>
    match change.apply p with
    | .ok q => q
    | .error _ => p
  | solve answers => Id.run (p.solve answers)

/-- An operation names what is there, and solving finds a value for each variable of a model. -/
def Fits (p : LinearProblem K) : ProblemOperation K → Prop
  | edit change => change.Fits p
  | solve answers => ∀ model values, answers model = .solved values →
      values.length = model.columns.length

end ProblemOperation

namespace LinearProblem

variable {p q : LinearProblem K} {ops more : List (ProblemOperation K)} {change : ProblemEdit K}
  {edits : List (ProblemEdit K)} {answers : Model K → Answer K} {values : List K}

/-! ### Histories -/

/-- A problem after a history. -/
def after (p : LinearProblem K) (ops : List (ProblemOperation K)) : LinearProblem K :=
  ops.foldl ProblemOperation.perform p

/-- Every operation of a history fits the problem that it is performed on. -/
def Accepts (p : LinearProblem K) : List (ProblemOperation K) → Prop
  | [] => True
  | op :: ops => op.Fits p ∧ (op.perform p).Accepts ops

theorem after_append : p.after (ops ++ more) = (p.after ops).after more := by
  unfold after
  rw [List.foldl_append]

theorem after_append_singleton {op : ProblemOperation K} :
    p.after (ops ++ [op]) = op.perform (p.after ops) := after_append

theorem accepts_append : p.Accepts (ops ++ more) ↔ p.Accepts ops ∧ (p.after ops).Accepts more := by
  induction ops generalizing p with
  | nil => simp [Accepts, after]
  | cons op ops ih =>
    rw [List.cons_append, Accepts, Accepts, ih, and_assoc]
    rfl

/-- What every operation keeps, every history keeps. -/
theorem after_induction {P : LinearProblem K → Prop} (hops : p.Accepts ops) (hp : P p)
    (hperform : ∀ q op, ProblemOperation.Fits q op → P q → P (op.perform q)) : P (p.after ops) := by
  induction ops generalizing p with
  | nil => exact hp
  | cons op ops ih => exact ih hops.2 (hperform p op hops.1 hp)

/-! ### What an operation leaves -/

/-- A change that is made leaves the last solution, and takes no variable away. The only term of the
objective that it can add is the one that it sets. -/
theorem solution_of_apply (h : change.apply p = .ok q) :
    q.solution = p.solution ∧ p.columns.length ≤ q.columns.length ∧
      ∀ v ∈ q.objective, v ∈ p.objective ∨ ∃ value, change = .setObjective v value := by
  cases change with
  | addVariable key lower upper kind =>
    obtain ⟨-, -, rfl⟩ := addVariable_eq_ok_iff.mp h
    exact ⟨rfl, by simp, fun v hv => .inl hv⟩
  | setVariableBounds v lower upper =>
    obtain rfl := eq_of_setVariableBounds h
    exact ⟨rfl, by simp, fun v hv => .inl hv⟩
  | addRow key lower upper =>
    obtain ⟨-, -, rfl⟩ := addRow_eq_ok_iff.mp h
    exact ⟨rfl, le_rfl, fun v hv => .inl hv⟩
  | setRowBounds r lower upper =>
    obtain rfl := eq_of_setRowBounds h
    exact ⟨rfl, le_rfl, fun v hv => .inl hv⟩
  | setRowLower | setRowUpper | setCoefficient =>
    obtain rfl := Except.ok.inj h
    exact ⟨rfl, le_rfl, fun v hv => .inl hv⟩
  | setObjective v value =>
    obtain rfl := Except.ok.inj h
    refine ⟨rfl, le_rfl, fun w hw => ?_⟩
    rcases LinearForm.mem_or_eq_of_mem_set hw with hw | rfl
    · exact .inl hw
    · exact .inr ⟨value, rfl⟩

/-- So it is with a change that may be refused. -/
theorem solution_perform_edit (p : LinearProblem K) (change : ProblemEdit K) :
    (ProblemOperation.perform p (.edit change)).solution = p.solution ∧
      p.columns.length ≤ (ProblemOperation.perform p (.edit change)).columns.length ∧
      ∀ v ∈ (ProblemOperation.perform p (.edit change)).objective,
        v ∈ p.objective ∨ ∃ value, change = .setObjective v value := by
  unfold ProblemOperation.perform
  dsimp only
  cases happly : change.apply p with
  | ok q => exact solution_of_apply happly
  | error fault => exact ⟨rfl, le_rfl, fun v hv => .inl hv⟩

/-- What a solve leaves: the answer, if there is a model. -/
theorem perform_solve (p : LinearProblem K) (answers : Model K → Answer K) :
    ProblemOperation.perform p (.solve answers) =
      match p.toModel with
      | .error status => p.withoutSolution status
      | .ok model => p.record (answers model) := by
  change p.solve (M := Id) answers = _
  unfold solve
  cases p.toModel <;> rfl

/-- A solve leaves the variables and the objective. -/
theorem columns_objective_perform_solve (p : LinearProblem K) (answers : Model K → Answer K) :
    (ProblemOperation.perform p (.solve answers)).columns = p.columns ∧
      (ProblemOperation.perform p (.solve answers)).objective = p.objective := by
  rw [perform_solve]
  cases p.toModel with
  | error status => exact ⟨rfl, rfl⟩
  | ok model =>
    dsimp only
    cases answers model <;> exact ⟨rfl, rfl⟩

/-- A solve finds values if there is a model and the solver solves it. Otherwise there are none. -/
theorem solution_perform_solve_eq_some_iff :
    (ProblemOperation.perform p (.solve answers)).solution = some values ↔
      ∃ model, p.toModel = .ok model ∧ answers model = .solved values := by
  rw [perform_solve]
  cases p.toModel with
  | error status => simp [withoutSolution]
  | ok model =>
    dsimp only
    cases hanswer : answers model <;> simp [record, withSolution, withoutSolution, hanswer]

/-! ### What is left of a solve -/

/-- The last solve of a history was called on a problem and has found values; only changes have
been made since. -/
def LastFound (p : LinearProblem K) (ops : List (ProblemOperation K)) (q : LinearProblem K)
    (values : List K) : Prop :=
  ∃ before answers model, ∃ edits : List (ProblemEdit K),
    ops = before ++ .solve answers :: edits.map .edit ∧
      p.after before = q ∧ q.toModel = .ok model ∧ answers model = .solved values

/-- There is one value for each variable of the problem that was solved. -/
theorem LastFound.length_eq (h : p.LastFound ops q values) (hops : p.Accepts ops) :
    values.length = q.columns.length := by
  obtain ⟨before, answers, model, edits, rfl, rfl, hmodel, hvalues⟩ := h
  obtain ⟨-, hfits, -⟩ := accepts_append.mp hops
  rw [hfits model values hvalues]
  obtain ⟨rows, -, rfl⟩ := exists_of_toModel hmodel
  exact List.length_map _

theorem solution_after_edits (p : LinearProblem K) (edits : List (ProblemEdit K)) :
    (p.after (edits.map .edit)).solution = p.solution := by
  induction edits generalizing p with
  | nil => rfl
  | cons change edits ih => exact (ih _).trans (solution_perform_edit p change).1

/-- A problem that starts without a solution has the one that the last solve has found. -/
theorem solution_after_eq_some_iff (hp : p.solution = none) :
    (p.after ops).solution = some values ↔ ∃ q, p.LastFound ops q values := by
  constructor
  · -- the history is followed back to the solve
    induction ops using List.reverseRecOn with
    | nil =>
      intro hvalues
      cases hp.symm.trans hvalues
    | append_singleton ops op ih =>
      intro hvalues
      rw [after_append_singleton] at hvalues
      cases op with
      | edit change =>
        rw [(solution_perform_edit _ change).1] at hvalues
        obtain ⟨q, before, answers, model, edits, rfl, hrest⟩ := ih hvalues
        exact ⟨q, before, answers, model, edits ++ [change], by simp, hrest⟩
      | solve answers =>
        obtain ⟨model, hmodel, hanswer⟩ := solution_perform_solve_eq_some_iff.mp hvalues
        exact ⟨_, ops, answers, model, [], rfl, rfl, hmodel, hanswer⟩
  · rintro ⟨q, before, answers, model, edits, rfl, rfl, hfound⟩
    rw [after_append]
    rw [LinearProblem.after, List.foldl_cons]
    exact (solution_after_edits _ edits).trans
      (solution_perform_solve_eq_some_iff.mpr ⟨model, hfound⟩)

/-- The objective of a problem that starts without one has terms of its variables only. -/
theorem lt_of_mem_objective_after (solver : SolverKind)
    (hops : (empty solver : LinearProblem K).Accepts ops) :
    ∀ v ∈ ((empty solver : LinearProblem K).after ops).objective,
      v < ((empty solver : LinearProblem K).after ops).columns.length := by
  refine after_induction (P := fun p => ∀ v ∈ p.objective, v < p.columns.length) hops ?_ ?_
  · intro v hv
    exact absurd hv Std.ExtTreeMap.not_mem_empty
  · intro q op hfits hq v hv
    cases op with
    | solve answers =>
      obtain ⟨hcolumns, hobjective⟩ := columns_objective_perform_solve q answers
      rw [hcolumns]
      exact hq v (hobjective ▸ hv)
    | edit change =>
      obtain ⟨-, hcolumns, hterms⟩ := solution_perform_edit q change
      refine Nat.lt_of_lt_of_le ?_ hcolumns
      rcases hterms v hv with hold | ⟨value, rfl⟩
      · exact hq v hold
      · exact hfits

/-! ### Values that can be read -/

/-- While there is no solution, reading a value is an error that says so. -/
theorem values_of_solution_eq_none (h : p.solution = none) :
    (∀ (v : VariableId) data, p.columns[v]? = some data →
      p.solutionValue v = .error (.noSolutionFor data.key p.status.label)) ∧
      p.objectiveValue = .error (.noSolution p.status.label) := by
  unfold solutionValue objectiveValue
  rw [h]
  refine ⟨fun v data hdata => ?_, rfl⟩
  dsimp only
  rw [hdata]

/-- Values are read from the solution where it has them; beyond its end is no value. -/
theorem values_of_solution_eq_some (h : p.solution = some values) :
    (∀ v x, values[v]? = some x → p.solutionValue v = .ok x) ∧
      (∀ v, values.length ≤ v → p.solutionValue v = .error .outsideSolution) ∧
      ((∀ v ∈ p.objective, v < values.length) →
        p.objectiveValue = .ok (p.objective.eval fun v => values.getD v 0)) ∧
      ∀ v ∈ p.objective, values.length ≤ v → p.objectiveValue = .error .outsideSolution := by
  unfold solutionValue objectiveValue
  rw [h]
  dsimp only
  have hall : (p.objective.toList.all fun term => term.1 < values.length) = true ↔
      ∀ v ∈ p.objective, v < values.length := by
    simp only [List.all_eq_true, decide_eq_true_eq, Prod.forall,
      Std.ExtTreeMap.mem_toList_iff_getElem?_eq_some, Std.ExtTreeMap.mem_iff_isSome_getElem?,
      Option.isSome_iff_exists, forall_exists_index]
  refine ⟨fun v x hx => by rw [hx], fun v hv => by rw [List.getElem?_eq_none hv],
    fun hterms => if_pos (hall.mpr hterms), fun v hv hle => if_neg fun hterms => ?_⟩
  exact absurd (hall.mp hterms v hv) hle.not_gt

/-- What can be read after a history. If the last solve has found values, those of the variables
that the problem had then can be read, and that of the objective if it is about them; a value of a
variable that was added since is outside of what was found, and so is the value of an objective
with a term of one. Otherwise reading says that there is no solution. -/
theorem values_after (solver : SolverKind) (hops : (empty solver : LinearProblem K).Accepts ops) :
    let start : LinearProblem K := empty solver
    let p := start.after ops
    (∀ q values, start.LastFound ops q values →
      (∀ v < q.columns.length, ∃ x, values[v]? = some x ∧ p.solutionValue v = .ok x) ∧
      (∀ v, q.columns.length ≤ v → p.solutionValue v = .error .outsideSolution) ∧
      ((∀ v ∈ p.objective, v < q.columns.length) →
        p.objectiveValue = .ok (p.objective.eval fun v => values.getD v 0)) ∧
      ∀ v ∈ p.objective, q.columns.length ≤ v →
        v < p.columns.length ∧ p.objectiveValue = .error .outsideSolution) ∧
    ((∀ q values, ¬start.LastFound ops q values) →
      (∀ (v : VariableId) data, p.columns[v]? = some data →
        p.solutionValue v = .error (.noSolutionFor data.key p.status.label)) ∧
      p.objectiveValue = .error (.noSolution p.status.label)) := by
  intro start p
  constructor
  · intro q values hfound
    have hsolution : p.solution = some values := (solution_after_eq_some_iff rfl).mpr ⟨q, hfound⟩
    obtain ⟨hinside, houtside, hobjective, hbeyond⟩ := values_of_solution_eq_some hsolution
    rw [← hfound.length_eq hops]
    refine ⟨fun v hv => ?_, houtside, hobjective, fun v hv hle => ?_⟩
    · exact ⟨values[v], List.getElem?_eq_getElem hv, hinside v _ (List.getElem?_eq_getElem hv)⟩
    · exact ⟨lt_of_mem_objective_after solver hops v hv, hbeyond v hv hle⟩
  · intro hnone
    refine values_of_solution_eq_none (Option.eq_none_iff_forall_ne_some.mpr ?_)
    intro values hvalues
    obtain ⟨q, hfound⟩ := (solution_after_eq_some_iff rfl).mp hvalues
    exact hnone q values hfound

end LinearProblem

namespace LateVariable

/-- A problem is solved. Then it gets another variable, and the objective a term of it. -/
def history : List (ProblemOperation ℚ) :=
  [.edit (.addVariable (.flow "x") (.finite 0) (.finite 1) .continuous),
    .solve fun model => .solved (model.columns.map fun _ => 0),
    .edit (.addVariable (.flow "y") (.finite 0) (.finite 1) .continuous),
    .edit (.setObjective 1 1)]

theorem accepts_history : (LinearProblem.empty .microlp).Accepts history := by
  refine ⟨trivial, fun model values hvalues => ?_, trivial, Nat.one_lt_two, trivial⟩
  rw [← Answer.solved.inj hvalues, List.length_map]

theorem value_read_and_not_read : (LinearProblem.empty .microlp).Accepts history ∧
    ((LinearProblem.empty .microlp).after history).solutionValue 0 = .ok (0 : ℚ) ∧
    ((LinearProblem.empty .microlp).after history).solutionValue 1 = .error .outsideSolution := by
  obtain ⟨hread, -⟩ := LinearProblem.values_after .microlp accepts_history
  obtain ⟨hinside, houtside, -⟩ := hread
    ((LinearProblem.empty .microlp).after (history.take 1)) [0]
    ⟨history.take 1, _, _, [_, _], rfl, rfl, rfl, rfl⟩
  obtain ⟨x, hx, hvalue⟩ := hinside 0 (by decide +kernel)
  cases hx
  exact ⟨accepts_history, hvalue, houtside 1 (by decide +kernel)⟩

theorem not_read_after_addition : (LinearProblem.empty .microlp).Accepts history ∧
    1 < ((LinearProblem.empty .microlp).after history).columns.length ∧
    ((LinearProblem.empty .microlp).after history).solutionValue 1 = .error .outsideSolution ∧
    ((LinearProblem.empty .microlp).after history).objectiveValue = .error .outsideSolution :=
  ⟨accepts_history, by decide +kernel, rfl, rfl⟩

end LateVariable

end GridRelief
