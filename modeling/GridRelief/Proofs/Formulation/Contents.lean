import Mathlib.Logic.Relation
import GridRelief.Proofs.Formulation.Steps

/-!
# What a problem may hold

What may stand in a linear problem can be said name by name: the bounds of a variable or a row, the
terms of a row, the price of a variable in the objective. Writing makes a few kinds of changes
only, and what is said of a problem in this way holds of it after writing if every change is
admissible. Names do not change while a problem grows, so they are judged in the problem that all
writing ends with.

* `Contents K`: what a problem may hold, by names.
* `Contents.Edit`: one admissible change; `Contents.Edits`: any number of them.
* `Contents.Obeys`: a problem holds nothing else; `Contents.Edits.obeys`.
* `Contents.Covers`: work that makes admissible changes only, with one rule for each way in which
  work is put together.
-/

namespace GridRelief

open LinearProblem Writing

variable {K α β : Type}

/-! ### Forms -/

section Forms

variable [Scalar K] {last later : LinearProblem K} {form : LinearForm K} {v : VariableId}
  {key other : VariableKey} {c : K} {allowed : VariableKey → K → Prop}

/-- All terms of a form are allowed, by the names of their variables. -/
def LinearForm.Within (form : LinearForm K) (last : LinearProblem K)
    (allowed : VariableKey → K → Prop) : Prop :=
  ∀ v c, form[v]? = some c → ∃ key, last.NamesVariable v key ∧ allowed key c

/-- A form has an allowed coefficient for the variable of a name. -/
def LinearForm.Carries (form : LinearForm K) (last : LinearProblem K)
    (allowed : VariableKey → K → Prop) (key : VariableKey) : Prop :=
  ∃ v c, last.NamesVariable v key ∧ allowed key c ∧ form[v]? = LinearForm.stored c

namespace LinearForm

omit [Scalar K] in
theorem within_empty : (∅ : LinearForm K).Within last allowed := by
  intro v c h
  rw [Std.ExtTreeMap.getElem?_empty] at h
  cases h

omit [Scalar K] in
theorem Within.of_extends (h : form.Within last allowed)
    (hgrows : last.Extends (fun _ => True) later) : form.Within later allowed := by
  intro v c hc
  obtain ⟨key, hkey, hallowed⟩ := h v c hc
  exact ⟨key, hkey.of_extends hgrows, hallowed⟩

theorem Carries.of_extends (h : form.Carries last allowed key)
    (hgrows : last.Extends (fun _ => True) later) : form.Carries later allowed key := by
  obtain ⟨v, c, hv, hrest⟩ := h
  exact ⟨v, c, hv.of_extends hgrows, hrest⟩

variable (hv : last.NamesVariable v other) (hallowed : allowed other c)
include hv hallowed

theorem Within.set (h : form.Within last allowed) : (form.set v c).Within last allowed := by
  intro w d hd
  rw [getElem?_set_eq_stored] at hd
  split at hd
  · next hvw =>
    subst hvw
    rw [← eq_of_stored_eq_some hd]
    exact ⟨other, hv, hallowed⟩
  · exact h w d hd

theorem carries_set : (form.set v c).Carries last allowed other :=
  ⟨v, c, hv, hallowed, by rw [getElem?_set_eq_stored, if_pos rfl]⟩

/-- Setting an allowed coefficient leaves one for each name that had one. -/
theorem Carries.set (h : form.Carries last allowed key) :
    (form.set v c).Carries last allowed key := by
  obtain ⟨w, d, hw, hd, hstored⟩ := h
  by_cases hvw : v = w
  · subst hvw
    obtain rfl := hv.eq hw
    exact carries_set hv hallowed
  · exact ⟨w, d, hw, hd, by rwa [getElem?_set_eq_stored, if_neg hvw]⟩

omit hv hallowed

/-- The form of a list of allowed terms. -/
theorem within_ofTerms {terms : List (VariableId × K)}
    (h : ∀ term ∈ terms, ∃ key, last.NamesVariable term.1 key ∧ allowed key term.2) :
    (ofTerms terms).Within last allowed ∧
      ∀ key, (∃ term ∈ terms, last.NamesVariable term.1 key) →
        (ofTerms terms).Carries last allowed key := by
  induction terms using List.reverseRecOn with
  | nil => exact ⟨within_empty, by simp⟩
  | append_singleton terms term ih =>
    obtain ⟨hwithin, hcarries⟩ := ih fun t ht => h t (List.mem_append_left _ ht)
    obtain ⟨key, hkey, hterm⟩ := h term (List.mem_append_right _ List.mem_cons_self)
    rw [ofTerms_append]
    refine ⟨hwithin.set hkey hterm, fun key' ⟨t, ht, hnamed⟩ => ?_⟩
    rcases List.mem_append.mp ht with ht | ht
    · exact (hcarries key' ⟨t, ht, hnamed⟩).set hkey hterm
    · rw [List.mem_singleton.mp ht] at hnamed
      obtain rfl := hkey.eq hnamed
      exact carries_set hkey hterm

end LinearForm

end Forms

/-! ### Contents -/

/-- What a problem may hold, by names. -/
structure Contents (K : Type) [Scalar K] where
  /-- The variables. -/
  column : Variable K → Prop
  /-- The lower bounds of the rows of a name. -/
  lower : RowKey → Bound K → Prop
  /-- The upper bounds of the rows of a name. -/
  upper : RowKey → Bound K → Prop
  /-- An upper bound may be moved. -/
  upper_shift : ∀ {key b}, upper key b → ∀ distance, upper key (b.shift distance)
  /-- The coefficients of a variable in the rows of a name. -/
  term : RowKey → VariableKey → K → Prop
  /-- A variable that the rows of a name must have a term of. -/
  lead : RowKey → Option VariableKey
  /-- The prices of a variable in the objective. -/
  price : VariableKey → K → Prop

namespace Contents

variable [Scalar K] {S : Contents K} {last later p q r : LinearProblem K} {row : Row K}
  {i : RowId} {v : VariableId} {rowKey : RowKey} {key : VariableKey} {c : K}
  {lower upper : Bound K} {terms : List (VariableId × K)}

/-- A row is one that a problem may hold. -/
structure Admits (S : Contents K) (last : LinearProblem K) (row : Row K) : Prop where
  lower : S.lower row.key row.lower
  upper : S.upper row.key row.upper
  terms : row.form.Within last (S.term row.key)
  lead : ∀ key, S.lead row.key = some key → row.form.Carries last (S.term row.key) key

theorem Admits.of_extends (h : S.Admits last row) (hgrows : last.Extends (fun _ => True) later) :
    S.Admits later row :=
  ⟨h.lower, h.upper, h.terms.of_extends hgrows, fun key hkey =>
    (h.lead key hkey).of_extends hgrows⟩

/-- A row is admitted with allowed terms, one of which is of the variable that it must have. -/
theorem admits_ofTerms (hlower : S.lower rowKey lower) (hupper : S.upper rowKey upper)
    (hterms : ∀ term ∈ terms, ∃ key, last.NamesVariable term.1 key ∧ S.term rowKey key term.2)
    (hlead : ∀ key, S.lead rowKey = some key → ∃ term ∈ terms, last.NamesVariable term.1 key) :
    S.Admits last ⟨rowKey, lower, upper, .ofTerms terms⟩ := by
  obtain ⟨hwithin, hcarries⟩ := LinearForm.within_ofTerms hterms
  exact ⟨hlower, hupper, hwithin, fun key hkey => hcarries key (hlead key hkey)⟩

/-! ### Changes -/

/-- One admissible change of a problem. The names of variables and rows are those in the last
problem. -/
inductive Edit (S : Contents K) (last : LinearProblem K) :
    LinearProblem K → LinearProblem K → Prop
  | column {p : LinearProblem K} {data : Variable K} (hfresh : p.variableId? data.key = none)
    (h : S.column data) : Edit S last p { p with columns := p.columns ++ [data] }
  | row {p : LinearProblem K} {row : Row K} (h : S.Admits last row) :
    Edit S last p { p with rows := p.rows ++ [row] }
  | coefficient {p : LinearProblem K} {i : RowId} {v : VariableId} {rowKey : RowKey}
    {key : VariableKey} {c : K} (hrow : last.NamesRow i rowKey) (hv : last.NamesVariable v key)
    (h : S.term rowKey key c) : Edit S last p (p.setCoefficient i v c)
  | lower {p : LinearProblem K} {i : RowId} {rowKey : RowKey} {b : Bound K}
    (hrow : last.NamesRow i rowKey) (h : S.lower rowKey b) : Edit S last p (p.setRowLower i b)
  | bounds {p : LinearProblem K} {i : RowId} {rowKey : RowKey} {a b : Bound K}
    (hrow : last.NamesRow i rowKey) (ha : S.lower rowKey a) (hb : S.upper rowKey b) :
    Edit S last p (p.modifyRow i fun row => { row with lower := a, upper := b })
  | shift {p : LinearProblem K} (i : RowId) (distance : K) :
    Edit S last p (p.setRowUpper i ((p.rowBounds i).2.shift distance))
  | price {p : LinearProblem K} {v : VariableId} {key : VariableKey} {c : K}
    (hv : last.NamesVariable v key) (h : S.price key c) : Edit S last p (p.setObjective v c)

/-- Any number of admissible changes. -/
def Edits (S : Contents K) (last : LinearProblem K) : LinearProblem K → LinearProblem K → Prop :=
  Relation.ReflTransGen (S.Edit last)

theorem Edits.refl (p : LinearProblem K) : S.Edits last p p := Relation.ReflTransGen.refl

theorem Edit.edits (h : S.Edit last p q) : S.Edits last p q := Relation.ReflTransGen.single h

theorem Edits.trans (hpq : S.Edits last p q) (hqr : S.Edits last q r) : S.Edits last p r :=
  Relation.ReflTransGen.trans hpq hqr

/-- Any change lets a problem grow, as far as names go. -/
theorem Edit.extends (h : S.Edit last p q) : p.Extends (fun _ => True) q := by
  cases h with
  | column => exact .append_columns _
  | row => exact .append_rows _
  | coefficient | lower | bounds | shift => exact extends_modifyRow fun _ => rfl
  | price => exact .of_eq rfl rfl

/-! ### What changes keep -/

/-- A problem holds nothing but what it may hold. -/
structure Obeys (S : Contents K) (last p : LinearProblem K) : Prop where
  columns : ∀ data ∈ p.columns, S.column data
  nodup : (p.columns.map Variable.key).Nodup
  rows : ∀ row ∈ p.rows, S.Admits last row
  objective : p.objective.Within last S.price

theorem obeys_empty (solver : SolverKind) : S.Obeys last (.empty solver) :=
  ⟨by simp [LinearProblem.empty], List.nodup_nil, by simp [LinearProblem.empty],
    LinearForm.within_empty⟩

theorem Obeys.of_extends (h : S.Obeys last p) (hgrows : last.Extends (fun _ => True) later) :
    S.Obeys later p :=
  ⟨h.columns, h.nodup, fun row hrow => (h.rows row hrow).of_extends hgrows,
    h.objective.of_extends hgrows⟩

/-- A changed row is admitted if the change keeps rows of its name admitted. -/
theorem Obeys.modifyRow (h : S.Obeys last p) {change : Row K → Row K}
    (hchange : ∀ row, p.rows[i]? = some row → S.Admits last row → S.Admits last (change row)) :
    S.Obeys last (p.modifyRow i change) := by
  refine ⟨h.columns, h.nodup, fun row hrow => ?_, h.objective⟩
  obtain ⟨j, hj⟩ := List.mem_iff_getElem?.mp hrow
  change (p.rows.modify i change)[j]? = some row at hj
  rw [List.getElem?_modify, Option.map_eq_map, Option.map_eq_some_iff] at hj
  obtain ⟨before, hbefore, rfl⟩ := hj
  have hadmits := h.rows before (List.mem_of_getElem? hbefore)
  split
  · next hij =>
    subst hij
    exact hchange before hbefore hadmits
  · exact hadmits

/-- Variables of different places have different names. -/
theorem Obeys.eq_of_namesVariable (h : S.Obeys last p) {w : VariableId}
    (hv : p.NamesVariable v key) (hw : p.NamesVariable w key) : v = w := by
  obtain ⟨data, hdata, hkey⟩ := hv
  obtain ⟨data', hdata', hkey'⟩ := hw
  have hnames : ∀ {u : VariableId} {d : Variable K}, p.columns[u]? = some d →
      (p.columns.map Variable.key)[u]? = some d.key := by
    intro u d hd
    rw [List.getElem?_map, hd]
    rfl
  have hbound : v < (p.columns.map Variable.key).length :=
    (List.getElem?_eq_some_iff.mp (hnames hdata)).1
  refine (List.getElem?_inj hbound h.nodup).mp ?_
  rw [hnames hdata, hnames hdata', hkey, hkey']

/-- An admissible change keeps to what a problem may hold. -/
theorem Edit.obeys (h : S.Edit last p q) (hgrows : p.Extends (fun _ => True) last)
    (hp : S.Obeys last p) : S.Obeys last q := by
  have hnamed : ∀ {i : RowId} {rowKey : RowKey} {row : Row K}, last.NamesRow i rowKey →
      p.rows[i]? = some row → row.key = rowKey := by
    intro i rowKey row hi hrow
    exact (NamesRow.of_extends ⟨row, hrow, rfl⟩ hgrows).eq hi
  cases h with
  | @column data hfresh hdata =>
    refine ⟨fun other hother => ?_, ?_, hp.rows, hp.objective⟩
    · rcases List.mem_append.mp hother with hother | hother
      · exact hp.columns other hother
      · rwa [List.mem_singleton.mp hother]
    · rw [List.map_append, List.map_singleton, List.nodup_append']
      refine ⟨hp.nodup, List.nodup_singleton _, fun key hkey hlast => ?_⟩
      obtain ⟨other, hother, rfl⟩ := List.mem_map.mp hkey
      have hne := List.findIdx?_eq_none_iff.mp hfresh other hother
      simp [List.mem_singleton.mp hlast] at hne
  | @row row hrow =>
    refine ⟨hp.columns, hp.nodup, fun other hother => ?_, hp.objective⟩
    rcases List.mem_append.mp hother with hother | hother
    · exact hp.rows other hother
    · rwa [List.mem_singleton.mp hother]
  | coefficient hi hv hterm =>
    refine hp.modifyRow fun row hrow hadmits => ?_
    rw [← hnamed hi hrow] at hterm
    exact ⟨hadmits.lower, hadmits.upper, hadmits.terms.set hv hterm,
      fun key hkey => (hadmits.lead key hkey).set hv hterm⟩
  | lower hi hb =>
    refine hp.modifyRow fun row hrow hadmits => ?_
    rw [← hnamed hi hrow] at hb
    exact ⟨hb, hadmits.upper, hadmits.terms, hadmits.lead⟩
  | bounds hi ha hb =>
    refine hp.modifyRow fun row hrow hadmits => ?_
    rw [← hnamed hi hrow] at ha hb
    exact ⟨ha, hb, hadmits.terms, hadmits.lead⟩
  | shift i distance =>
    refine hp.modifyRow fun row hrow hadmits => ?_
    have hbounds : (p.rowBounds i).2 = row.upper := by
      unfold LinearProblem.rowBounds
      rw [hrow]
    rw [hbounds]
    exact ⟨hadmits.lower, S.upper_shift hadmits.upper distance, hadmits.terms, hadmits.lead⟩
  | price hv hc => exact ⟨hp.columns, hp.nodup, hp.rows, hp.objective.set hv hc⟩

/-- By induction on the changes: what one keeps, all keep. -/
theorem Edits.obeys (h : S.Edits last p q) (hgrows : q.Extends (fun _ => True) last)
    (hp : S.Obeys last p) : S.Obeys last q := by
  induction h with
  | refl => exact hp
  | tail _ hedit ih =>
    have hr := hedit.extends.trans hgrows
    exact hedit.obeys hr (ih hr)

/-- Once a variable has a price, it keeps one. -/
theorem Edits.carries (h : S.Edits last p q) (hp : p.objective.Carries last S.price key) :
    q.objective.Carries last S.price key := by
  induction h with
  | refl => exact hp
  | tail _ hedit ih =>
    cases hedit with
    | column | row | coefficient | lower | bounds | shift => exact ih
    | price hv hc => exact ih.set hv hc

theorem Edits.solver_eq (h : S.Edits last p q) : q.solver = p.solver := by
  induction h with
  | refl => rfl
  | tail _ hedit ih =>
    rw [← ih]
    cases hedit <;> rfl

/-! ### Work -/

/-- Work lets the problem grow whenever it succeeds. Under a condition it does so by admissible
changes, and its answer has a property.

That the problem grows must not depend on the condition: the condition of a later step is known
only once the later steps are known to keep the names that the earlier ones have found. -/
def Covers (S : Contents K) (last : LinearProblem K) (condition : Prop) (work : Writing K α)
    (property : α → Prop) : Prop :=
  ∀ p a q, Succeeds work p a q → p.Extends (fun _ => True) q ∧
    (q.Extends (fun _ => True) last → condition → S.Edits last p q ∧ property a)

namespace Covers

variable {C D : Prop} {work : Writing K α} {P Q : α → Prop}

theorem mono (h : S.Covers last C work P) (hcondition : D → C)
    (hproperty : D → ∀ a, P a → Q a) : S.Covers last D work Q := by
  intro p a q hwork
  obtain ⟨hgrows, hedits⟩ := h p a q hwork
  refine ⟨hgrows, fun hlast hd => ?_⟩
  obtain ⟨hpq, ha⟩ := hedits hlast (hcondition hd)
  exact ⟨hpq, hproperty hd a ha⟩

theorem ignore (h : S.Covers last C work P) : S.Covers last C work fun _ => True :=
  h.mono id fun _ _ _ => trivial

/-! #### Steps -/

/-- Work that changes nothing. -/
theorem of_eq (h : ∀ p a q, Succeeds work p a q → p = q ∧
    (p.Extends (fun _ => True) last → C → P a)) : S.Covers last C work P := by
  intro p a q hwork
  obtain ⟨rfl, hanswer⟩ := h p a q hwork
  exact ⟨.refl p, fun hlast hc => ⟨.refl p, hanswer hlast hc⟩⟩

/-- Work that makes one change. -/
theorem of_edit (h : ∀ p a q, Succeeds work p a q → p.Extends (fun _ => True) q ∧
    (q.Extends (fun _ => True) last → C → S.Edit last p q ∧ P a)) : S.Covers last C work P := by
  intro p a q hwork
  obtain ⟨hgrows, hedit⟩ := h p a q hwork
  refine ⟨hgrows, fun hlast hc => ?_⟩
  obtain ⟨hpq, ha⟩ := hedit hlast hc
  exact ⟨hpq.edits, ha⟩

protected theorem pure {a : α} (h : C → P a) : S.Covers last C (pure a : Writing K α) P := by
  refine of_eq fun p b q hwork => ?_
  obtain ⟨rfl, rfl⟩ := succeeds_pure_iff.mp hwork
  exact ⟨rfl, fun _ => h⟩

theorem ofExcept {answer : Except (Fault K) α} :
    S.Covers last C (ofExcept answer : Writing K α) fun a => answer = .ok a := by
  refine of_eq fun p a q hwork => ?_
  obtain ⟨hanswer, rfl⟩ := succeeds_ofExcept_iff.mp hwork
  exact ⟨rfl, fun _ _ => hanswer⟩

theorem variableId? : S.Covers last C (variableId? key) fun answer =>
    ∀ v, answer = some v → last.NamesVariable v key := by
  refine of_eq fun p answer q hwork => ?_
  obtain ⟨rfl, rfl⟩ := succeeds_variableId?_iff.mp hwork
  exact ⟨rfl, fun hlast _ v hv => (namesVariable_of_variableId? hv).of_extends hlast⟩

theorem rowId? : S.Covers last C (rowId? rowKey) fun answer =>
    ∀ i, answer = some i → last.NamesRow i rowKey := by
  refine of_eq fun p answer q hwork => ?_
  obtain ⟨rfl, rfl⟩ := succeeds_rowId?_iff.mp hwork
  exact ⟨rfl, fun hlast _ i hi => (namesRow_of_rowId? hi).of_extends hlast⟩

theorem requireVariable :
    S.Covers last C (requireVariable key) fun v => last.NamesVariable v key := by
  refine of_eq fun p v q hwork => ?_
  obtain ⟨hv, rfl⟩ := succeeds_requireVariable_iff.mp hwork
  exact ⟨rfl, fun hlast _ => (namesVariable_of_variableId? hv).of_extends hlast⟩

theorem requireRow : S.Covers last C (requireRow rowKey) fun i => last.NamesRow i rowKey := by
  refine of_eq fun p i q hwork => ?_
  obtain ⟨hi, rfl⟩ := succeeds_requireRow_iff.mp hwork
  exact ⟨rfl, fun hlast _ => (namesRow_of_rowId? hi).of_extends hlast⟩

theorem addVariable {kind : VariableKind} (h : C → S.column ⟨key, lower, upper, kind⟩) :
    S.Covers last C (addVariable key lower upper kind) fun v => last.NamesVariable v key := by
  refine of_edit fun p v q hwork => ⟨extends_addVariable hwork, fun hlast hc => ?_⟩
  have hnames := (namesVariable_of_addVariable hwork).of_extends hlast
  obtain ⟨hfresh, -, rfl⟩ := succeeds_addVariable hwork
  exact ⟨.column hfresh (h hc), hnames⟩

theorem addBinary (h : C → S.column ⟨key, .finite 0, .finite 1, .binary⟩) :
    S.Covers last C (addBinary key) fun v => last.NamesVariable v key :=
  addVariable h

theorem addRow (h : C → S.Admits last ⟨rowKey, lower, upper, .ofTerms terms⟩) :
    S.Covers last C (addRow rowKey lower upper terms) fun i => last.NamesRow i rowKey := by
  refine of_edit fun p i q hwork => ⟨extends_addRow hwork, fun hlast hc => ?_⟩
  have hnames := (namesRow_of_addRow hwork).of_extends hlast
  obtain ⟨-, rfl⟩ := succeeds_addRow hwork
  exact ⟨.row (h hc), hnames⟩

/-- Work that is a change. -/
theorem of_modify {change : LinearProblem K → LinearProblem K}
    (hgrows : ∀ p : LinearProblem K, p.Extends (fun _ => True) (change p))
    (h : ∀ p, C → S.Edit last p (change p)) :
    S.Covers last C (modify change : Writing K PUnit) fun _ => True := by
  refine of_edit fun p _ q hwork => ?_
  obtain rfl := succeeds_modify_iff.mp hwork
  exact ⟨hgrows p, fun _ hc => ⟨h p hc, trivial⟩⟩

theorem setCoefficient (hrow : C → last.NamesRow i rowKey)
    (h : C → ∃ key, last.NamesVariable v key ∧ S.term rowKey key c) :
    S.Covers last C (setCoefficient i v c) fun _ => True := by
  refine of_modify (fun _ => extends_modifyRow fun _ => rfl) fun p hc => ?_
  obtain ⟨key, hv, hterm⟩ := h hc
  exact .coefficient (hrow hc) hv hterm

theorem setRowLower (hrow : C → last.NamesRow i rowKey) (h : C → S.lower rowKey lower) :
    S.Covers last C (modify (·.setRowLower i lower) : Writing K PUnit) fun _ => True :=
  of_modify (fun _ => extends_modifyRow fun _ => rfl) fun _ hc => .lower (hrow hc) (h hc)

theorem setRowBounds (hrow : C → last.NamesRow i rowKey) (hlower : C → S.lower rowKey lower)
    (hupper : C → S.upper rowKey upper) :
    S.Covers last C (setRowBounds i lower upper) fun _ => True := by
  intro p u q hwork
  unfold Writing.setRowBounds LinearProblem.setRowBounds at hwork
  rw [succeeds_change_iff] at hwork
  split at hwork
  · obtain rfl := Except.ok.inj hwork
    exact ⟨.refl p, fun _ _ => ⟨.refl p, trivial⟩⟩
  · split at hwork
    · obtain rfl := Except.ok.inj hwork
      refine ⟨extends_modifyRow fun _ => rfl, fun _ hc => ⟨Edit.edits ?_, trivial⟩⟩
      exact .bounds (hrow hc) (hlower hc) (hupper hc)
    · cases hwork

theorem setObjective (hv : C → last.NamesVariable v key) (h : C → S.price key c) :
    S.Covers last C (setObjective v c) fun _ => True :=
  of_modify (fun _ => .of_eq rfl rfl) fun _ hc => .price (hv hc) (h hc)

/-! #### Sequences -/

/-- The second step may rely on what the first one has answered. -/
theorem bind {next : α → Writing K β} {R : β → Prop} (h : S.Covers last C work P)
    (hnext : ∀ a, S.Covers last (C ∧ P a) (next a) R) : S.Covers last C (work >>= next) R := by
  intro p b q hwork
  obtain ⟨a, r, hfirst, hsecond⟩ := succeeds_bind_iff.mp hwork
  obtain ⟨hpr, hedits⟩ := h p a r hfirst
  obtain ⟨hrq, hedits'⟩ := hnext a r b q hsecond
  refine ⟨hpr.trans hrq, fun hlast hc => ?_⟩
  obtain ⟨hfirst, ha⟩ := hedits (hrq.trans hlast) hc
  obtain ⟨hsecond, hb⟩ := hedits' hlast ⟨hc, ha⟩
  exact ⟨hfirst.trans hsecond, hb⟩

/-- The second step need not rely on what the first one has answered. -/
theorem seq {next : α → Writing K β} {R : β → Prop} (h : S.Covers last C work P)
    (hnext : ∀ a, S.Covers last C (next a) R) : S.Covers last C (work >>= next) R :=
  h.bind fun a => (hnext a).mono And.left fun _ _ => id

variable {xs : List α} {each : α → Writing K PUnit}

theorem forM (h : ∀ x ∈ xs, S.Covers last C (each x) fun _ => P x) :
    S.Covers last C (xs.forM each) fun _ => ∀ x ∈ xs, P x := by
  induction xs with
  | nil => exact .pure fun _ x hx => by cases hx
  | cons x xs ih =>
    refine .bind (h x List.mem_cons_self) fun _ => ?_
    refine (ih fun y hy => h y (List.mem_cons_of_mem _ hy)).mono And.left ?_
    intro hx _ hxs y hy
    rcases List.mem_cons.mp hy with rfl | hy
    · exact hx.2
    · exact hxs y hy

theorem forM_option {option : Option α}
    (h : ∀ x, option = some x → S.Covers last C (each x) fun _ => P x) :
    S.Covers last C (option.forM each) fun _ => ∀ x, option = some x → P x := by
  cases option with
  | none => exact .pure fun _ x hx => by cases hx
  | some x =>
    refine (h x rfl).mono id fun _ _ hx y hy => ?_
    rwa [← Option.some.inj hy]

theorem repeated (h : ∀ x ∈ xs, S.Covers last C (each x) fun _ => True) :
    S.Covers last C (xs.forM each) fun _ => True := ignore (forM h)

theorem optional {option : Option α}
    (h : ∀ x, option = some x → S.Covers last C (each x) fun _ => True) :
    S.Covers last C (option.forM each) fun _ => True := ignore (forM_option h)

theorem foldlM {step : β → α → Writing K β} {start : β}
    (h : ∀ x ∈ xs, ∀ b, S.Covers last C (step b x) fun _ => True) :
    S.Covers last C (xs.foldlM step start) fun _ => True := by
  induction xs generalizing start with
  | nil => exact .pure fun _ => trivial
  | cons x xs ih =>
    rw [List.foldlM_cons]
    refine .seq (h x List.mem_cons_self start) fun b => ?_
    exact ih fun y hy => h y (List.mem_cons_of_mem _ hy)

theorem setCoefficients (hrow : C → last.NamesRow i rowKey)
    (h : C → ∀ term ∈ terms, ∃ key, last.NamesVariable term.1 key ∧ S.term rowKey key term.2) :
    S.Covers last C (setCoefficients i terms) fun _ => True :=
  repeated fun term hterm => setCoefficient hrow fun hc => h hc term hterm

/-- A row is written anew or adapted. -/
theorem putRow (hlower : C → S.lower rowKey lower) (hupper : C → S.upper rowKey upper)
    (hterms : C → ∀ term ∈ terms, ∃ key,
      last.NamesVariable term.1 key ∧ S.term rowKey key term.2)
    (hlead : ∀ key, S.lead rowKey = some key → C → ∃ term ∈ terms,
      last.NamesVariable term.1 key) :
    S.Covers last C (putRow rowKey lower upper terms) fun _ => True := by
  unfold Writing.putRow
  refine .bind rowId? fun answer => ?_
  cases answer with
  | some row =>
    refine .seq (setRowBounds (fun h => h.2 row rfl) (fun h => hlower h.1)
      fun h => hupper h.1) fun _ => ?_
    exact setCoefficients (fun h => h.2 row rfl) fun h => hterms h.1
  | none =>
    refine .seq (addRow fun h => ?_) fun _ => .pure fun _ => trivial
    exact admits_ofTerms (hlower h.1) (hupper h.1) (hterms h.1) fun key hkey => hlead key hkey h.1

end Covers

end Contents

end GridRelief
