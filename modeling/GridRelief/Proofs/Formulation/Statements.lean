import GridRelief.Proofs.Formulation.ByName

/-!
# What rows state

A row states that a sum of terms of named variables lies between two bounds. What a row states does
not change while a problem goes on, unless the row is adapted, and then the steps of writing say
what it states afterwards.

* `Statement K`: what a row states.
* `LinearProblem.Shows`: the statement that a problem shows under a name, if there is a row.
* `LinearProblem.Shows.rowHolds_iff`: a row holds where its statement is true.
* `Writing.shows_addRow_option`, `Writing.shows_putRow_option`: what the steps of writing leave.
-/

namespace GridRelief

open Writing

variable {K : Type}

/-! ### Forms whose terms are set again -/

namespace LinearForm

variable [ExactScalar K]

/-- Where terms are set in a form, it has their coefficients. -/
theorem getElem?_foldl_set (terms : List (VariableId × K)) (form : LinearForm K) (v : VariableId) :
    (terms.foldl (fun form term => form.set term.1 term.2) form)[v]? =
      if v ∈ terms.map Prod.fst then (ofTerms terms)[v]? else form[v]? := by
  induction terms using List.reverseRecOn with
  | nil => rfl
  | append_singleton terms term ih =>
    rw [List.foldl_append, ofTerms_append]
    change (LinearForm.set _ term.1 term.2)[v]? = _
    rw [getElem?_set, ih, getElem?_set]
    by_cases hlast : term.1 = v
    · simp [hlast]
    · have hmem : v ∈ (terms ++ [term]).map Prod.fst ↔ v ∈ terms.map Prod.fst := by
        rw [List.map_append, List.mem_append, List.map_singleton, List.mem_singleton]
        exact or_iff_left (Ne.symm hlast)
      simp only [if_neg hlast, hmem]

/-- Where terms are set again behind others, nothing is left of earlier ones of the same
variables. -/
theorem foldl_set_ofTerms_append (first : List (VariableId × K))
    {terms later : List (VariableId × K)} (h : terms.map Prod.fst ⊆ later.map Prod.fst) :
    later.foldl (fun form term => form.set term.1 term.2) (ofTerms (first ++ terms)) =
      ofTerms (first ++ later) := by
  refine Std.ExtTreeMap.ext_getElem? fun v => ?_
  unfold ofTerms
  rw [List.foldl_append, List.foldl_append, getElem?_foldl_set later,
    getElem?_foldl_set later]
  split
  · rfl
  · next hv => rw [getElem?_foldl_set, if_neg fun hterms => hv (h hterms)]

/-- Where terms of the same variables are set again, nothing is left of the earlier ones. -/
theorem foldl_set_ofTerms {terms later : List (VariableId × K)}
    (h : later.map Prod.fst = terms.map Prod.fst) :
    later.foldl (fun form term => form.set term.1 term.2) (ofTerms terms) = ofTerms later :=
  foldl_set_ofTerms_append [] fun _ hv => h ▸ hv

theorem set_set (form : LinearForm K) (v : VariableId) (a b : K) :
    (form.set v a).set v b = form.set v b := by
  refine Std.ExtTreeMap.ext_getElem? fun w => ?_
  simp only [getElem?_set]
  split <;> rfl

theorem set_comm (form : LinearForm K) {v w : VariableId} (h : v ≠ w) (a b : K) :
    (form.set v a).set w b = (form.set w b).set v a := by
  refine Std.ExtTreeMap.ext_getElem? fun other => ?_
  simp only [getElem?_set]
  by_cases hv : v = other
  · have hw : w ≠ other := fun hw => h (hv.trans hw.symm)
    simp only [hv, hw, if_false]
  · simp only [hv, if_false]

/-- Setting a coefficient replaces the term of its variable. -/
theorem set_ofTerms {terms : List (VariableId × K)} (hnodup : (terms.map Prod.fst).Nodup)
    {v : VariableId} (hv : v ∈ terms.map Prod.fst) (c : K) :
    (ofTerms terms).set v c =
      ofTerms (terms.map fun term => if term.1 = v then (v, c) else term) := by
  induction terms using List.reverseRecOn with
  | nil => cases hv
  | append_singleton terms last ih =>
    rw [List.map_append, List.map_singleton, List.nodup_append'] at hnodup
    obtain ⟨hnodup, -, hdisjoint⟩ := hnodup
    rw [List.map_append, List.map_singleton, ofTerms_append]
    by_cases hlast : last.1 = v
    · have hothers : (terms.map fun term => if term.1 = v then (v, c) else term) = terms := by
        refine (List.map_congr_left fun term hterm => if_neg fun heq => ?_).trans
          (List.map_id terms)
        exact hdisjoint (List.mem_map_of_mem hterm) (List.mem_singleton.mpr (heq.trans hlast.symm))
      rw [if_pos hlast, hothers, hlast, set_set, ofTerms_append]
    · rw [List.map_append, List.mem_append] at hv
      have hmem := hv.resolve_right fun hmem => hlast (List.mem_singleton.mp hmem).symm
      rw [if_neg hlast, set_comm _ hlast, ih hnodup hmem]
      exact (ofTerms_append _ _ _).symm

/-- A term of zero leaves nothing in a form. -/
theorem ofTerms_append_zero {terms : List (VariableId × K)} {v : VariableId}
    (hv : v ∉ terms.map Prod.fst) : ofTerms (terms ++ [(v, 0)]) = ofTerms terms := by
  refine Std.ExtTreeMap.ext_getElem? fun w => ?_
  rw [ofTerms_append, getElem?_set, if_pos rfl]
  by_cases hvw : v = w
  · subst hvw
    rw [if_pos rfl, ofTerms, getElem?_foldl_set, if_neg hv]
    rfl
  · rw [if_neg hvw]

end LinearForm

/-! ### Statements -/

theorem ThresholdSide.forall_iff {P : ThresholdSide → Prop} :
    (∀ side, P side) ↔ P .below ∧ P .above := by
  refine ⟨fun h => ⟨h .below, h .above⟩, ?_⟩
  rintro ⟨hbelow, habove⟩ (_ | _)
  · exact hbelow
  · exact habove

/-- What a row states: a sum of terms of named variables lies between two bounds. -/
structure Statement (K : Type) where
  lower : Bound K
  upper : Bound K
  terms : List (VariableKey × K)

namespace Statement

open LinearProblem

variable [ExactScalar K] {touched : RowKey → Prop} {p q : LinearProblem K} {s : Statement K}

/-- A statement is true of named values. -/
def HoldsAt (s : Statement K) (y : VariableKey → K) : Prop :=
  within s.lower s.upper (s.terms.map fun term => term.2 * y term.1).sum

theorem holdsAt_lower_iff {bound : K} {terms : List (VariableKey × K)} {y : VariableKey → K} :
    HoldsAt ⟨.ofScalar bound, .posInf, terms⟩ y ↔
      bound ≤ (terms.map fun term => term.2 * y term.1).sum := by
  simp [HoldsAt, Bound.ofScalar_eq, within]

theorem holdsAt_upper_iff {bound : K} {terms : List (VariableKey × K)} {y : VariableKey → K} :
    HoldsAt ⟨.negInf, .ofScalar bound, terms⟩ y ↔
      (terms.map fun term => term.2 * y term.1).sum ≤ bound := by
  simp [HoldsAt, Bound.ofScalar_eq, within]

/-- The terms are those of different variables of a problem. -/
structure IsAbout (s : Statement K) (p : LinearProblem K) : Prop where
  named : ∀ term ∈ s.terms, p.HasVariable term.1
  nodup : (s.terms.map Prod.fst).Nodup

omit [ExactScalar K] in
theorem IsAbout.of_extends (h : s.IsAbout p) (hgrows : p.Extends touched q) : s.IsAbout q :=
  ⟨fun term hterm => ((h.named term hterm).of_extends hgrows).1, h.nodup⟩

omit [ExactScalar K] in
/-- Terms with the numbers that their variables had in an earlier problem. -/
theorem IsAbout.numbered (h : s.IsAbout p) (hgrows : p.Extends touched q) :
    (s.terms.map fun term => (p.number term.1, term.2)) =
      s.terms.map fun term => (q.number term.1, term.2) := by
  refine List.map_congr_left fun term hterm => ?_
  rw [((h.named term hterm).of_extends hgrows).2]

/-- The statement with another coefficient of a variable that it has a term of. -/
def withCoefficient (s : Statement K) (name : VariableKey) (value : K) : Statement K :=
  { s with terms := s.terms.map fun term => if term.1 = name then (name, value) else term }

omit [ExactScalar K] in
theorem keys_withCoefficient (s : Statement K) (name : VariableKey) (value : K) :
    (s.withCoefficient name value).terms.map Prod.fst = s.terms.map Prod.fst := by
  unfold withCoefficient
  rw [List.map_map]
  refine List.map_congr_left fun term _ => ?_
  by_cases hname : term.1 = name <;> simp [hname]

/-- The row of a name that makes a statement. -/
def row (s : Statement K) (p : LinearProblem K) (key : RowKey) : Row K :=
  ⟨key, s.lower, s.upper, p.formOf s.terms⟩

end Statement

namespace LinearProblem

variable [ExactScalar K] {touched : RowKey → Prop} {p q : LinearProblem K} {key : RowKey}
  {statement : Option (Statement K)} {x : VariableId → K}

/-- What a problem has under a name: a row that makes a statement, or none. -/
structure Shows (p : LinearProblem K) (key : RowKey) (statement : Option (Statement K)) :
    Prop where
  row?_eq : p.row? key = statement.map (·.row p key)
  isAbout : ∀ s ∈ statement, s.IsAbout p

theorem Shows.of_continues (h : p.Shows key statement) (hq : p.Continues touched q)
    (hkey : ¬touched key) : q.Shows key statement := by
  refine ⟨?_, fun s hs => (h.isAbout s hs).of_extends hq.grows⟩
  rw [hq.row?_eq key hkey, h.row?_eq]
  refine Option.map_congr fun s hs => ?_
  unfold Statement.row
  rw [formOf_of_extends (h.isAbout s hs).named hq.grows]

/-- A row that is there and is not adapted makes the same statement while a problem grows. -/
theorem Shows.of_extends {s : Statement K} (h : p.Shows key (some s)) (hq : p.Extends touched q)
    (hkey : ¬touched key) : q.Shows key (some s) := by
  have habout := h.isAbout s rfl
  refine ⟨?_, ?_⟩
  · obtain ⟨i, hi, hrow⟩ := Option.bind_eq_some_iff.mp h.row?_eq
    rw [row?_of_rowId? (hq.rowId? hi), hq.rows_getElem? hrow hkey]
    unfold Statement.row
    rw [Option.map_some, formOf_of_extends habout.named hq]
  · rintro _ ⟨⟩
    exact habout.of_extends hq

/-- A row that is changed makes another statement. -/
theorem Shows.modifyRow {s later : Statement K} {i : RowId} (h : p.Shows key (some s))
    (hi : p.rowId? key = some i) {change : Row K → Row K}
    (hname : ∀ row, (change row).key = row.key) (hchange : change (s.row p key) = later.row p key)
    (hlater : later.IsAbout p) : (p.modifyRow i change).Shows key (some later) := by
  constructor
  · rw [row?_modifyRow_self hi hname, h.row?_eq, Option.map_some, Option.map_some, hchange]
    rfl
  · rintro _ ⟨⟩
    exact ⟨hlater.named, hlater.nodup⟩

/-- A row holds where its statement is true of the named values. -/
theorem Shows.rowHolds_iff (h : p.Shows key statement) :
    p.RowHolds x key ↔ ∀ s ∈ statement, s.HoldsAt (p.valueOf x) := by
  unfold RowHolds
  rw [h.row?_eq]
  cases statement with
  | none => simp
  | some s =>
    have hs := h.isAbout s rfl
    have hvalue := eval_formOf (Extends.refl p : p.Extends (fun _ => True) p) hs.named hs.nodup x
    simp only [Option.map_some, Option.some.injEq, forall_eq', Option.mem_some_iff, Statement.row,
      Statement.HoldsAt, hvalue]

/-- A coefficient that is set replaces the term of its variable. -/
theorem Shows.setCoefficient {s : Statement K} {i : RowId} {name : VariableKey}
    (h : p.Shows key (some s)) (hi : p.rowId? key = some i) (hname : name ∈ s.terms.map Prod.fst)
    (value : K) : (p.setCoefficient i (p.number name) value).Shows key
      (some (s.withCoefficient name value)) := by
  have habout := h.isAbout s rfl
  have hkeys := s.keys_withCoefficient name value
  have hnamed : ∀ term ∈ s.terms.map Prod.fst, p.HasVariable term :=
    List.forall_mem_map.mpr habout.named
  refine h.modifyRow hi (fun _ => rfl) ?_ ⟨?_, hkeys ▸ habout.nodup⟩
  · have hform : (p.formOf s.terms).set (p.number name) value =
        p.formOf (s.withCoefficient name value).terms := by
      have hnumber : p.number name ∈ (s.terms.map fun term => (p.number term.1, term.2)).map
          Prod.fst := by
        obtain ⟨term, hterm, rfl⟩ := List.mem_map.mp hname
        exact List.mem_map_of_mem (List.mem_map_of_mem hterm)
      unfold formOf Statement.withCoefficient
      rw [LinearForm.set_ofTerms (nodup_numbers habout.named habout.nodup) hnumber, List.map_map,
        List.map_map]
      congr 1
      refine List.map_congr_left fun term hterm => ?_
      by_cases heq : term.1 = name
      · simp [heq]
      · have hne : p.number term.1 ≠ p.number name := fun hnumbers =>
          heq ((habout.named term hterm).eq_of_number_eq (hnamed name hname) hnumbers)
        simp [heq, hne]
    unfold Statement.row
    rw [hform]
    rfl
  · rw [← List.forall_mem_map (P := p.HasVariable), hkeys]
    exact hnamed

/-- A row has a term of zero for every variable that it has no other term of. -/
theorem Shows.append_zero {s : Statement K} {name : VariableKey} (h : p.Shows key (some s))
    (hvariable : p.HasVariable name) (hname : name ∉ s.terms.map Prod.fst) :
    p.Shows key (some { s with terms := s.terms ++ [(name, 0)] }) := by
  have habout := h.isAbout s rfl
  have hnumber : p.number name ∉ (s.terms.map fun term => (p.number term.1, term.2)).map
      Prod.fst := by
    rw [List.map_map]
    rintro hmem
    obtain ⟨term, hterm, heq⟩ := List.mem_map.mp hmem
    obtain rfl := (habout.named term hterm).eq_of_number_eq hvariable heq
    exact hname (List.mem_map_of_mem hterm)
  refine ⟨?_, ?_⟩
  · rw [h.row?_eq, Option.map_some, Option.map_some, Statement.row, Statement.row, formOf, formOf,
      List.map_append, List.map_singleton, LinearForm.ofTerms_append_zero hnumber]
  · rintro _ ⟨⟩
    refine ⟨List.forall_mem_append.mpr ⟨habout.named, List.forall_mem_singleton.mpr hvariable⟩, ?_⟩
    rw [List.map_append, List.map_singleton, List.nodup_append']
    exact ⟨habout.nodup, List.nodup_singleton _, by simpa using hname⟩

end LinearProblem

/-! ### Steps -/

namespace Writing

open LinearProblem

variable [ExactScalar K] {α : Type} {touched : RowKey → Prop} {p q r : LinearProblem K}
  {rowKey : RowKey} {u : PUnit} {i : RowId}

/-- A row that is added makes its statement, and no other row changes. -/
theorem shows_addRow {s : Statement K} (habout : s.IsAbout p)
    (h : Succeeds (addRow rowKey s.lower s.upper
      (s.terms.map fun term => (p.number term.1, term.2))) p i q) :
    p.Continues (· = rowKey) q ∧ q.columns = p.columns ∧ q.rowId? rowKey = some i ∧
      q.Shows rowKey (some s) := by
  have hfresh := rowId?_eq_none_of_addRow h
  have hgrows : p.Extends (fun _ => True) q := extends_addRow h
  obtain ⟨rfl, rfl⟩ := succeeds_addRow h
  refine ⟨.append_row ⟨rowKey, _, _, _⟩ hfresh, rfl,
    (rowId?_append hfresh : _ = some p.rows.length), row?_append_self ⟨rowKey, _, _, _⟩ hfresh, ?_⟩
  rintro _ ⟨⟩
  exact habout.of_extends hgrows

/-- A row that is added with the numbers that its variables had in an earlier problem. -/
theorem shows_addRow_of_extends {s : Statement K} (hgrows : r.Extends touched p)
    (habout : s.IsAbout r)
    (h : Succeeds (addRow rowKey s.lower s.upper
      (s.terms.map fun term => (r.number term.1, term.2))) p i q) :
    p.Extends (fun _ => False) q ∧ q.Shows rowKey (some s) := by
  rw [habout.numbered hgrows] at h
  exact ⟨extends_addRow h, (shows_addRow (habout.of_extends hgrows) h).2.2.2⟩

/-- A row whose bounds are changed states the same between these. -/
theorem shows_setRowBounds {s : Statement K} {lower upper : Bound K}
    (hp : p.Shows rowKey (some s)) (hi : p.rowId? rowKey = some i)
    (h : Succeeds (setRowBounds i lower upper) p u q) :
    q.Shows rowKey (some { s with lower, upper }) := by
  rw [succeeds_setRowBounds h]
  have habout := hp.isAbout s rfl
  exact hp.modifyRow hi (fun _ => rfl) rfl ⟨habout.named, habout.nodup⟩

/-- A coefficient that is set replaces a term of the statement of its row. -/
theorem shows_setCoefficient {s : Statement K} {name : VariableKey} {v : VariableId} {value : K}
    (hp : p.Shows rowKey (some s)) (hi : p.rowId? rowKey = some i)
    (hv : p.variableId? name = some v) (hname : name ∈ s.terms.map Prod.fst)
    (h : Succeeds (setCoefficient i v value) p u q) :
    q.Shows rowKey (some (s.withCoefficient name value)) := by
  rw [setCoefficient, succeeds_modify_iff] at h
  rw [← h, ← (hasVariable_of_variableId? hv).2]
  exact hp.setCoefficient hi hname value

section Options

variable {option : Option α} {lower upper : α → Bound K} {terms : List (VariableId × K)}

/-- A row that is added for the value of an option, if there is one, makes its statement. -/
theorem shows_addRow_option {named : List (VariableKey × K)} (hfresh : p.rowId? rowKey = none)
    (habout : ∀ limit, Statement.IsAbout ⟨lower limit, upper limit, named⟩ r)
    (hgrows : r.Extends (fun _ => True) p)
    (hterms : terms = named.map fun term => (r.number term.1, term.2))
    (h : Succeeds (option.forM fun limit => do
      let _ ← addRow rowKey (lower limit) (upper limit) terms) p u q) :
    q.Shows rowKey (option.map fun limit => ⟨lower limit, upper limit, named⟩) := by
  cases option with
  | none =>
    obtain ⟨-, rfl⟩ := succeeds_pure_iff.mp h
    exact ⟨row?_eq_none_iff.mpr hfresh, by simp⟩
  | some limit =>
    change Succeeds (do let _ ← addRow rowKey (lower limit) (upper limit) terms) p u q at h
    simp only [succeeds_bind_iff, succeeds_pure_iff] at h
    obtain ⟨_, _, hrow, -, rfl⟩ := h
    rw [hterms] at hrow
    exact (shows_addRow_of_extends hgrows (habout limit) hrow).2

omit [ExactScalar K] in
/-- Coefficients that are set in a row. -/
theorem succeeds_setCoefficients [Scalar K] {terms : List (VariableId × K)}
    (h : Succeeds (setCoefficients i terms) p u q) :
    q = p.modifyRow i fun row =>
      { row with form := terms.foldl (fun form term => form.set term.1 term.2) row.form } := by
  unfold setCoefficients at h
  induction terms generalizing p with
  | nil =>
    obtain ⟨-, rfl⟩ := succeeds_pure_iff.mp h
    exact (congrArg (fun rows => { p with rows }) (List.modify_id i p.rows)).symm
  | cons term terms ih =>
    obtain ⟨r, hfirst, hrest⟩ := succeeds_forM_cons_iff.mp h
    rw [setCoefficient, succeeds_modify_iff] at hfirst
    rw [ih hrest, ← hfirst]
    exact modifyRow_modifyRow _ _ _ _

omit [ExactScalar K] in
/-- A row that is put is added under a new name or changed in its place. -/
theorem succeeds_putRow [Scalar K] {lower upper : Bound K} {terms : List (VariableId × K)}
    (h : Succeeds (putRow rowKey lower upper terms) p u q) :
    (p.rowId? rowKey = none ∧
      q = { p with rows := p.rows ++ [⟨rowKey, lower, upper, .ofTerms terms⟩] }) ∨
    ∃ i, p.rowId? rowKey = some i ∧ q = p.modifyRow i fun row => { row with
      lower, upper, form := terms.foldl (fun form term => form.set term.1 term.2) row.form } := by
  unfold putRow at h
  simp only [succeeds_bind_iff, succeeds_rowId?_iff] at h
  obtain ⟨found, _, ⟨hfound, rfl⟩, h⟩ := h
  cases found with
  | none =>
    simp only [succeeds_bind_iff, succeeds_pure_iff] at h
    obtain ⟨_, _, hadd, -, rfl⟩ := h
    exact .inl ⟨hfound, (succeeds_addRow hadd).2⟩
  | some i =>
    simp only [succeeds_bind_iff] at h
    obtain ⟨_, b, hbounds, hset⟩ := h
    rw [succeeds_setRowBounds hbounds] at hset
    refine .inr ⟨i, hfound, ?_⟩
    rw [succeeds_setCoefficients hset, modifyRow_modifyRow]

theorem continues_putRow_option
    (h : Succeeds (option.forM fun limit => putRow rowKey (lower limit) (upper limit) terms)
      p u q) : p.Continues (· = rowKey) q ∧ q.columns = p.columns := by
  refine h.forM_option (P := fun s => p.Continues (· = rowKey) s ∧ s.columns = p.columns)
    (fun limit _ hrow => ?_) ⟨.refl p, rfl⟩
  rcases succeeds_putRow hrow with ⟨hnone, rfl⟩ | ⟨i, hi, rfl⟩
  · exact ⟨.append_row ⟨rowKey, _, _, _⟩ hnone, rfl⟩
  · exact ⟨.modifyRow hi fun _ => rfl, rfl⟩

/-- A row that is put for the value of an option, if there is one, makes its statement, and nothing
is left of an earlier one with terms of the same variables. -/
theorem shows_putRow_option {statement : Option (Statement K)} {named : List (VariableKey × K)}
    (hp : p.Shows rowKey statement) (hnone : option = none → statement = none)
    (hsame : ∀ earlier ∈ statement, named.map Prod.fst = earlier.terms.map Prod.fst)
    (habout : ∀ limit, Statement.IsAbout ⟨lower limit, upper limit, named⟩ r)
    (hgrows : r.Extends (fun _ => True) p)
    (hterms : terms = named.map fun term => (r.number term.1, term.2))
    (h : Succeeds (option.forM fun limit => putRow rowKey (lower limit) (upper limit) terms)
      p u q) :
    q.Shows rowKey (option.map fun limit => ⟨lower limit, upper limit, named⟩) := by
  cases option with
  | none =>
    obtain ⟨-, rfl⟩ := succeeds_pure_iff.mp h
    rw [hnone rfl] at hp
    exact hp
  | some limit =>
    have hq := (continues_putRow_option h).1.grows
    have hrow : Succeeds (putRow rowKey (lower limit) (upper limit) terms) p u q := h
    have hnumbered := (habout limit).numbered hgrows
    rcases succeeds_putRow hrow with ⟨hfresh, rfl⟩ | ⟨i, hi, rfl⟩
    · refine ⟨?_, ?_⟩
      · rw [row?_append_self ⟨rowKey, _, _, _⟩ hfresh, hterms, hnumbered]
        rfl
      · rintro s ⟨⟩
        exact (habout limit).of_extends (hgrows.trans hq)
    · cases statement with
      | none =>
        rw [row?_eq_none_iff.mp hp.row?_eq] at hi
        cases hi
      | some earlier =>
        refine hp.modifyRow hi (fun _ => rfl) ?_ ((habout limit).of_extends hgrows)
        unfold Statement.row formOf
        rw [hterms, hnumbered, LinearForm.foldl_set_ofTerms]
        simpa [Function.comp_def] using congrArg (List.map p.number) (hsame earlier rfl)

/-- A row can be put for the value of an option, if there is one. -/
theorem exists_succeeds_putRow_option (option : Option α) (terms : List (VariableId × K))
    (hbounds : ∀ limit, (lower limit).isInterval (upper limit) = true) :
    ∃ q, Succeeds (option.forM fun limit => putRow rowKey (lower limit) (upper limit) terms)
      p ⟨⟩ q := by
  cases option with
  | none => exact ⟨p, succeeds_pure_iff.mpr ⟨rfl, rfl⟩⟩
  | some limit =>
    change ∃ q, Succeeds (putRow rowKey (lower limit) (upper limit) terms) p ⟨⟩ q
    unfold putRow
    simp only [succeeds_bind_iff, succeeds_rowId?_iff]
    cases hi : p.rowId? rowKey with
    | none =>
      obtain ⟨q, hq⟩ := exists_succeeds_addRow terms hi (hbounds limit)
      exact ⟨q, none, p, ⟨rfl, rfl⟩,
        succeeds_bind_iff.mpr ⟨_, q, hq, succeeds_pure_iff.mpr ⟨rfl, rfl⟩⟩⟩
    | some i =>
      obtain ⟨s, hs⟩ := exists_succeeds_setRowBounds (namesRow_of_rowId? hi) (hbounds limit)
      obtain ⟨q, hq⟩ : ∃ q, Succeeds (setCoefficients i terms) s ⟨⟩ q :=
        exists_succeeds_forM (P := fun _ _ => True)
          (fun term _ r _ => ⟨_, succeeds_modify_iff.mpr rfl, trivial⟩) trivial
      exact ⟨q, some i, p, ⟨rfl, rfl⟩, succeeds_bind_iff.mpr ⟨⟨⟩, s, hs, hq⟩⟩

end Options

end Writing

end GridRelief
