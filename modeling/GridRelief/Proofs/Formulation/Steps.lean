import GridRelief.Formulation.Writing
import GridRelief.Proofs.Problem.Extension
import GridRelief.Proofs.Work

/-!
# Steps of writing

What each step of writing does when it succeeds: which variable or row it has added, and that the
problem has grown.

* `Writing.succeeds_addVariable`, `Writing.succeeds_addRow`: what has been added.
* `Writing.extends_addRow` and its likes: the problem has grown, and a step that changes a row has
  adapted it.
* `Part.Extends`: a part that lets the problem grow and adapts rows of some names only.
-/

namespace GridRelief

variable {K α : Type} {touched : RowKey → Prop} {p q : LinearProblem K} {a : α}
  {u : PUnit} {v : VariableId} {i : RowId}

namespace Writing

/-! ### Questions and changes -/

@[simp] theorem succeeds_ask_iff {question : LinearProblem K → Except (ProblemFault K) α} :
    Succeeds (ask question) p a q ↔ question p = .ok a ∧ p = q := by
  cases hanswer : question p with
  | ok answer =>
    have hrun : (ask question).run p = (.ok answer, p) := by
      simp [ask, ExceptT.run, ExceptT.mk, hanswer]
    rw [succeeds_iff hrun]
    simp
  | error fault =>
    have hrun : (ask question).run p = (.error (.problem fault), p) := by
      simp [ask, ExceptT.run, ExceptT.mk, hanswer]
    rw [succeeds_iff hrun]
    simp

@[simp] theorem succeeds_change_iff
    {edit : LinearProblem K → Except (ProblemFault K) (LinearProblem K)} :
    Succeeds (change edit) p u q ↔ edit p = .ok q := by
  cases hedit : edit p with
  | ok r =>
    have hrun : (change edit).run p = (.ok (), r) := by
      simp [change, ExceptT.run, ExceptT.mk, hedit]
    rw [succeeds_iff hrun]
    simp
  | error fault =>
    have hrun : (change edit).run p = (.error (.problem fault), p) := by
      simp [change, ExceptT.run, ExceptT.mk, hedit]
    rw [succeeds_iff hrun]
    simp

@[simp] theorem succeeds_variableId?_iff {key : VariableKey} {answer : Option VariableId} :
    Succeeds (variableId? key) p answer q ↔ p.variableId? key = answer ∧ p = q := by
  unfold variableId?
  simp only [succeeds_bind_iff, succeeds_get_iff, succeeds_pure_iff]
  constructor
  · rintro ⟨_, _, ⟨rfl, rfl⟩, hanswer, hstate⟩
    exact ⟨hanswer, hstate⟩
  · rintro ⟨hanswer, hstate⟩
    exact ⟨p, p, ⟨rfl, rfl⟩, hanswer, hstate⟩

@[simp] theorem succeeds_rowId?_iff {key : RowKey} {answer : Option RowId} :
    Succeeds (rowId? key) p answer q ↔ p.rowId? key = answer ∧ p = q := by
  unfold rowId?
  simp only [succeeds_bind_iff, succeeds_get_iff, succeeds_pure_iff]
  constructor
  · rintro ⟨_, _, ⟨rfl, rfl⟩, hanswer, hstate⟩
    exact ⟨hanswer, hstate⟩
  · rintro ⟨hanswer, hstate⟩
    exact ⟨p, p, ⟨rfl, rfl⟩, hanswer, hstate⟩

@[simp] theorem succeeds_requireVariable_iff {key : VariableKey} :
    Succeeds (requireVariable key) p v q ↔ p.variableId? key = some v ∧ p = q := by
  unfold requireVariable LinearProblem.requireVariable
  rw [succeeds_ask_iff]
  cases p.variableId? key <;> simp

@[simp] theorem succeeds_requireRow_iff {key : RowKey} :
    Succeeds (requireRow key) p i q ↔ p.rowId? key = some i ∧ p = q := by
  unfold requireRow LinearProblem.requireRow
  rw [succeeds_ask_iff]
  cases p.rowId? key <;> simp

/-! ### Additions -/

variable [Scalar K]

/-- A variable is added behind the others, under a new name. -/
theorem succeeds_addVariable {key : VariableKey} {lower upper : Bound K} {kind : VariableKind}
    (h : Succeeds (addVariable key lower upper kind) p v q) :
    p.variableId? key = none ∧ v = p.columns.length ∧
      q = { p with columns := p.columns ++ [⟨key, lower, upper, kind⟩] } := by
  unfold addVariable at h
  simp only [succeeds_bind_iff, succeeds_get_iff, succeeds_change_iff, succeeds_pure_iff] at h
  obtain ⟨_, _, ⟨rfl, rfl⟩, _, _, hadd, rfl, rfl⟩ := h
  obtain ⟨hfresh, -, rfl⟩ := LinearProblem.addVariable_eq_ok_iff.mp hadd
  exact ⟨hfresh, rfl, rfl⟩

/-- Coefficients that are set in the last row. -/
theorem succeeds_setCoefficients_last {rows : List (Row K)} {row : Row K}
    {terms : List (VariableId × K)}
    (h : Succeeds (setCoefficients rows.length terms) { p with rows := rows ++ [row] } u q) :
    q = { p with rows := rows ++ [{ row with
      form := terms.foldl (fun form term => form.set term.1 term.2) row.form }] } := by
  unfold setCoefficients at h
  induction terms generalizing row with
  | nil =>
    obtain ⟨-, rfl⟩ := succeeds_pure_iff.mp h
    rfl
  | cons term terms ih =>
    obtain ⟨r, hfirst, hrest⟩ := succeeds_forM_cons_iff.mp h
    rw [setCoefficient, succeeds_modify_iff] at hfirst
    have hset : r = { p with
        rows := rows ++ [{ row with form := row.form.set term.1 term.2 }] } := by
      rw [← hfirst]
      simp [LinearProblem.setCoefficient, LinearProblem.modifyRow, List.modify_eq_take_drop]
    rw [hset] at hrest
    exact ih hrest

/-- A row with its terms is added behind the others. -/
theorem succeeds_addRow {key : RowKey} {lower upper : Bound K} {terms : List (VariableId × K)}
    (h : Succeeds (addRow key lower upper terms) p i q) :
    i = p.rows.length ∧
      q = { p with rows := p.rows ++ [⟨key, lower, upper, .ofTerms terms⟩] } := by
  unfold addRow at h
  simp only [succeeds_bind_iff, succeeds_get_iff, succeeds_change_iff, succeeds_pure_iff] at h
  obtain ⟨_, _, ⟨rfl, rfl⟩, _, r, hadd, _, _, hset, rfl, rfl⟩ := h
  obtain ⟨-, -, rfl⟩ := LinearProblem.addRow_eq_ok_iff.mp hadd
  exact ⟨rfl, succeeds_setCoefficients_last hset⟩

/-- A row is added under a new name. -/
theorem rowId?_eq_none_of_addRow {key : RowKey} {lower upper : Bound K}
    {terms : List (VariableId × K)} (h : Succeeds (addRow key lower upper terms) p i q) :
    p.rowId? key = none := by
  unfold addRow at h
  simp only [succeeds_bind_iff, succeeds_get_iff, succeeds_change_iff] at h
  obtain ⟨_, _, ⟨rfl, rfl⟩, _, r, hadd, -⟩ := h
  exact (LinearProblem.addRow_eq_ok_iff.mp hadd).1

/-- A variable can be added under a new name if its bounds are an interval. -/
theorem exists_succeeds_addVariable {key : VariableKey} {lower upper : Bound K}
    (kind : VariableKind) (hfresh : p.variableId? key = none)
    (hbounds : lower.isInterval upper = true) :
    ∃ q, Succeeds (addVariable key lower upper kind) p p.columns.length q := by
  unfold addVariable
  simp only [succeeds_bind_iff, succeeds_get_iff, succeeds_change_iff, succeeds_pure_iff]
  exact ⟨_, p, p, ⟨rfl, rfl⟩, ⟨⟩, _,
    LinearProblem.addVariable_eq_ok_iff.mpr ⟨hfresh, hbounds, rfl⟩, rfl, rfl⟩

/-- A row can be added under a new name if its bounds are an interval. -/
theorem exists_succeeds_addRow {key : RowKey} {lower upper : Bound K}
    (terms : List (VariableId × K)) (hfresh : p.rowId? key = none)
    (hbounds : lower.isInterval upper = true) :
    ∃ q, Succeeds (addRow key lower upper terms) p p.rows.length q := by
  have hterms : ∀ s : LinearProblem K, ∃ t, Succeeds (setCoefficients p.rows.length terms) s ⟨⟩ t :=
    fun s => exists_succeeds_forM (P := fun _ _ => True)
      (fun term _ r _ => ⟨_, succeeds_modify_iff.mpr rfl, trivial⟩) trivial
  obtain ⟨q, hq⟩ := hterms { p with rows := p.rows ++ [{ key, lower, upper }] }
  refine ⟨q, ?_⟩
  unfold addRow
  simp only [succeeds_bind_iff, succeeds_get_iff, succeeds_change_iff, succeeds_pure_iff]
  exact ⟨p, p, ⟨rfl, rfl⟩, ⟨⟩, _, LinearProblem.addRow_eq_ok_iff.mpr ⟨hfresh, hbounds, rfl⟩, ⟨⟩, q,
    hq, rfl, rfl⟩

/-- A name of variables that was new stays new while a variable is added under another one. -/
theorem variableId?_eq_none_of_addVariable_ne {key other : VariableKey} {lower upper : Bound K}
    {kind : VariableKind} (h : Succeeds (addVariable key lower upper kind) p v q)
    (hother : p.variableId? other = none) (hne : key ≠ other) : q.variableId? other = none := by
  obtain ⟨-, -, rfl⟩ := succeeds_addVariable h
  unfold LinearProblem.variableId? at hother ⊢
  rw [List.findIdx?_append, hother]
  simp [hne]

/-- A name of rows that was new stays new while a row is added under another one. -/
theorem rowId?_eq_none_of_addRow_ne {key other : RowKey} {lower upper : Bound K}
    {terms : List (VariableId × K)} (h : Succeeds (addRow key lower upper terms) p i q)
    (hother : p.rowId? other = none) (hne : key ≠ other) : q.rowId? other = none := by
  obtain ⟨-, rfl⟩ := succeeds_addRow h
  unfold LinearProblem.rowId? at hother ⊢
  rw [List.findIdx?_append, hother]
  simp [hne]

/-- A row that is added for the value of an option, if there is one. -/
theorem succeeds_addRow_option {option : Option α} {key : RowKey} {lower upper : α → Bound K}
    {terms : List (VariableId × K)}
    (h : Succeeds (option.forM fun limit => do
      let _ ← addRow key (lower limit) (upper limit) terms) p u q) :
    q = { p with rows := p.rows ++ option.toList.map fun limit =>
      ⟨key, lower limit, upper limit, .ofTerms terms⟩ } := by
  cases option with
  | none =>
    obtain ⟨-, rfl⟩ := succeeds_pure_iff.mp h
    simp
  | some limit =>
    change Succeeds (do let _ ← addRow key (lower limit) (upper limit) terms) p u q at h
    simp only [succeeds_bind_iff, succeeds_pure_iff] at h
    obtain ⟨_, _, hrow, -, rfl⟩ := h
    exact (succeeds_addRow hrow).2

/-- A row can be added for the value of an option, if there is one, under a new name. -/
theorem exists_succeeds_addRow_option (option : Option α) {key : RowKey} {lower upper : α → Bound K}
    (terms : List (VariableId × K)) (hfresh : p.rowId? key = none)
    (hbounds : ∀ limit, (lower limit).isInterval (upper limit) = true) :
    ∃ q, Succeeds (option.forM fun limit => do
      let _ ← addRow key (lower limit) (upper limit) terms) p ⟨⟩ q := by
  cases option with
  | none => exact ⟨p, succeeds_pure_iff.mpr ⟨rfl, rfl⟩⟩
  | some limit =>
    obtain ⟨q, hq⟩ := exists_succeeds_addRow terms hfresh (hbounds limit)
    exact ⟨q, succeeds_bind_iff.mpr ⟨_, q, hq, succeeds_pure_iff.mpr ⟨rfl, rfl⟩⟩⟩

theorem rowId?_eq_none_of_addRow_option {option : Option α} {key other : RowKey}
    {lower upper : α → Bound K} {terms : List (VariableId × K)}
    (h : Succeeds (option.forM fun limit => do
      let _ ← addRow key (lower limit) (upper limit) terms) p u q)
    (hother : p.rowId? other = none) (hne : key ≠ other) : q.rowId? other = none := by
  refine h.forM_option (P := fun s => s.rowId? other = none) (fun limit _ hrow => ?_) hother
  simp only [succeeds_bind_iff, succeeds_pure_iff] at hrow
  obtain ⟨_, _, hrow, -, rfl⟩ := hrow
  exact rowId?_eq_none_of_addRow_ne hrow hother hne

/-- Both bounds of a row are changed. -/
theorem succeeds_setRowBounds {lower upper : Bound K}
    (h : Succeeds (setRowBounds i lower upper) p u q) :
    q = p.modifyRow i fun row => { row with lower, upper } :=
  LinearProblem.eq_of_setRowBounds (succeeds_change_iff.mp h)

/-- Both bounds of a row can be changed to those of an interval. -/
theorem exists_succeeds_setRowBounds {key : RowKey} {lower upper : Bound K} (hi : p.NamesRow i key)
    (hbounds : lower.isInterval upper = true) :
    ∃ q, Succeeds (setRowBounds i lower upper) p ⟨⟩ q := by
  obtain ⟨row, hrow, -⟩ := hi
  refine ⟨p.modifyRow i fun row => { row with lower, upper }, ?_⟩
  unfold setRowBounds LinearProblem.setRowBounds
  rw [succeeds_change_iff, hrow]
  exact if_pos hbounds

/-! ### Growth -/

omit [Scalar K] in
theorem extends_pure {answer : α} (h : Succeeds (pure answer : Writing K α) p a q) :
    p.Extends touched q := by
  obtain ⟨-, rfl⟩ := succeeds_pure_iff.mp h
  exact .refl p

theorem extends_addVariable {key : VariableKey} {lower upper : Bound K} {kind : VariableKind}
    (h : Succeeds (addVariable key lower upper kind) p v q) : p.Extends touched q := by
  obtain ⟨-, -, rfl⟩ := succeeds_addVariable h
  exact .append_columns _

/-- A variable that has been added is there, under its number. -/
theorem declares_of_addVariable {key : VariableKey} {lower upper : Bound K} {kind : VariableKind}
    (h : Succeeds (addVariable key lower upper kind) p v q) :
    q.Declares ⟨key, lower, upper, kind⟩ ∧ q.number key = v := by
  obtain ⟨hfresh, rfl, rfl⟩ := succeeds_addVariable h
  exact LinearProblem.declares_append hfresh

theorem namesVariable_of_addVariable {key : VariableKey} {lower upper : Bound K}
    {kind : VariableKind} (h : Succeeds (addVariable key lower upper kind) p v q) :
    q.NamesVariable v key := by
  obtain ⟨-, rfl, rfl⟩ := succeeds_addVariable h
  exact ⟨_, List.getElem?_concat_length, rfl⟩

theorem extends_addRow {key : RowKey} {lower upper : Bound K} {terms : List (VariableId × K)}
    (h : Succeeds (addRow key lower upper terms) p i q) : p.Extends touched q := by
  obtain ⟨-, rfl⟩ := succeeds_addRow h
  exact .append_rows _

theorem extends_addRow_pure {key : RowKey} {lower upper : Bound K}
    {terms : List (VariableId × K)}
    (h : Succeeds (do let _ ← addRow key lower upper terms) p u q) : p.Extends touched q := by
  simp only [succeeds_bind_iff, succeeds_pure_iff] at h
  obtain ⟨_, _, hrow, -, rfl⟩ := h
  exact extends_addRow hrow

theorem namesRow_of_addRow {key : RowKey} {lower upper : Bound K} {terms : List (VariableId × K)}
    (h : Succeeds (addRow key lower upper terms) p i q) : q.NamesRow i key := by
  obtain ⟨rfl, rfl⟩ := succeeds_addRow h
  exact ⟨_, List.getElem?_concat_length, rfl⟩

theorem extends_setObjective {value : K} (h : Succeeds (setObjective v value) p u q) :
    p.Extends touched q := by
  rw [setObjective, succeeds_modify_iff] at h
  exact .of_eq (h ▸ rfl) (h ▸ rfl)

omit [Scalar K] in
/-- A problem grows along a list if it grows at each element. -/
theorem extends_forM {xs : List α} {work : α → Writing K PUnit} (h : Succeeds (xs.forM work) p u q)
    (hstep : ∀ x ∈ xs, ∀ s t, p.Extends touched s → Succeeds (work x) s ⟨⟩ t →
      s.Extends touched t) : p.Extends touched q := by
  refine h.forM_induction (P := p.Extends touched) ?_ (.refl p)
  intro x hx s t hs ht
  exact hs.trans (hstep x hx s t hs ht)

omit [Scalar K] in
theorem extends_forM_option {option : Option α} {work : α → Writing K PUnit}
    (h : Succeeds (option.forM work) p u q)
    (hstep : ∀ x, option = some x → Succeeds (work x) p ⟨⟩ q → p.Extends touched q) :
    p.Extends touched q :=
  h.forM_option hstep (.refl p)

variable {key : RowKey} (hrow : p.NamesRow i key) (htouched : touched key)
include hrow htouched

theorem extends_setCoefficient {value : K} (h : Succeeds (setCoefficient i v value) p u q) :
    p.Extends touched q := by
  rw [setCoefficient, succeeds_modify_iff] at h
  obtain rfl := h
  exact hrow.extends_modifyRow htouched fun _ => rfl

theorem extends_setCoefficients {terms : List (VariableId × K)}
    (h : Succeeds (setCoefficients i terms) p u q) : p.Extends touched q := by
  unfold setCoefficients at h
  refine extends_forM h ?_
  intro term _ s t hs ht
  exact extends_setCoefficient (hrow.of_extends hs) htouched ht

theorem extends_setRowBounds {lower upper : Bound K}
    (h : Succeeds (setRowBounds i lower upper) p u q) : p.Extends touched q := by
  unfold setRowBounds LinearProblem.setRowBounds at h
  rw [succeeds_change_iff] at h
  split at h
  · obtain rfl := Except.ok.inj h
    exact .refl p
  · split at h
    · obtain rfl := Except.ok.inj h
      exact hrow.extends_modifyRow htouched fun _ => rfl
    · cases h

omit hrow in
theorem extends_putRow {lower upper : Bound K} {terms : List (VariableId × K)}
    (h : Succeeds (putRow key lower upper terms) p u q) : p.Extends touched q := by
  unfold putRow at h
  simp only [succeeds_bind_iff, succeeds_rowId?_iff] at h
  obtain ⟨_, _, ⟨hrow, rfl⟩, h⟩ := h
  split at h
  · rw [succeeds_bind_iff] at h
    obtain ⟨_, s, hbounds, hset⟩ := h
    have hnames := LinearProblem.namesRow_of_rowId? hrow
    have hs : p.Extends touched s := extends_setRowBounds hnames htouched hbounds
    exact hs.trans (extends_setCoefficients (hnames.of_extends hs) htouched hset)
  · exact extends_addRow_pure h

end Writing

/-! ### Parts -/

/-- A part that lets the problem grow and adapts rows of some names only. -/
structure Part.Extends [Scalar K] (touched : RowKey → Prop) (part : Part K) : Prop where
  fill : ∀ {point p u q}, Succeeds (part.fill point) p u q → p.Extends touched q
  refresh : ∀ {point iteration p u q}, Succeeds (part.refresh point iteration) p u q →
    p.Extends touched q
  adjust : ∀ {activation p u q}, Succeeds (part.adjust activation) p u q → p.Extends touched q

theorem Part.Extends.mono [Scalar K] {other : RowKey → Prop} {part : Part K}
    (h : part.Extends touched) (hother : ∀ key, touched key → other key) : part.Extends other :=
  ⟨fun hfill => (h.fill hfill).mono hother, fun hrefresh => (h.refresh hrefresh).mono hother,
    fun hadjust => (h.adjust hadjust).mono hother⟩

end GridRelief
