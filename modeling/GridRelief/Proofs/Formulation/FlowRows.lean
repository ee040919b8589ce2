import GridRelief.Proofs.Formulation.Rest
import GridRelief.Proofs.Formulation.Statements

/-!
# Rows of flows

The row of a flow is written with the term of the flow alone, and every adaptation sets the terms of
all range actions again. So a sensitivity that has fallen below its threshold leaves no term behind,
and after any number of adaptations the row states what it would have stated had it been written at
the last linearisation.

* `Movement.flowStatement`: what the row of a flow states at a linearisation.
* `Movement.Carries`: the row of a flow has a term of the flow, and others of set-points only.
* `Movement.Follows`: all flows follow a linearisation.
* `Movement.follows_refresh`, `Movement.follows_refreshes`: adaptations.
* `Movement.flows_follow_last_point`: the rows of flows after any number of adaptations.
-/

namespace GridRelief

open LinearProblem Writing

variable {K : Type} [ExactScalar K]

namespace Movement

variable {m : Movement K} {point start : Linearization K} {c : Cnec K} {r : RangeAction K}
  {p q : LinearProblem K} {u : PUnit} {i : RowId} {constant answer : K}

/-! ### Statements of flows -/

/-- The terms of a flow's row at a linearisation. -/
def flowTerms (m : Movement K) (point : Linearization K) (c : Cnec K) : List (VariableKey × K) :=
  m.rangeActions.map fun r => (.setpoint r.id, -m.response point c.id r)

/-- The constant of a flow's row at a linearisation. -/
def flowConstant (m : Movement K) (point : Linearization K) (c : Cnec K) : K :=
  (point.flows.megawatts c.id).toOption.getD 0 -
    (m.rangeActions.map fun r => m.response point c.id r * present point r.id).sum

/-- What the row of a flow states at a linearisation. -/
def flowStatement (m : Movement K) (point : Linearization K) (c : Cnec K) : Statement K :=
  ⟨.ofScalar (m.flowConstant point c), .ofScalar (m.flowConstant point c),
    (.flow c.id, 1) :: m.flowTerms point c⟩

/-- A range action counts for a flow. -/
def Counts (m : Movement K) (point : Linearization K) (c : Cnec K) (r : RangeAction K) : Prop :=
  m.optimizer.sensitivityThreshold r ≤ |point.sensitivities.get c.id r.id|

instance : DecidablePred (m.Counts point c) := fun _ => inferInstanceAs (Decidable (_ ≤ _))

theorem response_eq : m.response point c.id r =
    if m.Counts point c r then point.sensitivities.get c.id r.id else 0 := by
  have hcounts : m.optimizer.sensitivityThreshold r ≤ Scalar.abs (point.sensitivities.get c.id r.id)
      ↔ m.Counts point c r := by
    rw [ExactScalar.abs_eq]
    rfl
  exact if_congr hcounts rfl rfl

/-- A linearisation has the flow on an element and the set-points that count for it. -/
structure Knows (m : Movement K) (point : Linearization K) (c : Cnec K) : Prop where
  flow : ∃ reference, point.flows.megawatts c.id = .ok reference
  setpoints : ∀ r ∈ m.rangeActions, m.Counts point c r →
    ∃ current, point.activation.get r.id = .ok current

/-- By induction on range actions: those that do not count have terms of zero. -/
theorem sum_counting (rangeActions : List (RangeAction K)) (y : VariableKey → K) :
    ((rangeActions.filter fun r => m.Counts point c r).map fun r =>
      point.sensitivities.get c.id r.id * (y (.setpoint r.id) - present point r.id)).sum =
        -(rangeActions.map fun r => -m.response point c.id r * y (.setpoint r.id)).sum -
          (rangeActions.map fun r => m.response point c.id r * present point r.id).sum := by
  induction rangeActions with
  | nil => simp
  | cons r rangeActions ih =>
    rw [List.filter_cons, List.map_cons, List.map_cons, List.sum_cons, List.sum_cons, response_eq]
    by_cases hcounts : m.Counts point c r
    · rw [if_pos (decide_eq_true hcounts), if_pos hcounts, List.map_cons, List.sum_cons, ih]
      ring
    · rw [if_neg (by simpa using hcounts), if_neg hcounts, ih]
      ring

/-- What the row of a flow states: the flow as a linear function of the set-points that count. -/
theorem flowStatement_holdsAt_iff {y : VariableKey → K} :
    (m.flowStatement point c).HoldsAt y ↔
      y (.flow c.id) = (point.flows.megawatts c.id).toOption.getD 0 +
        ((m.rangeActions.filter fun r => m.Counts point c r).map fun r =>
          point.sensitivities.get c.id r.id * (y (.setpoint r.id) - present point r.id)).sum := by
  have hterms : ((m.flowTerms point c).map fun term => term.2 * y term.1) =
      m.rangeActions.map fun r => -m.response point c.id r * y (.setpoint r.id) := by
    unfold flowTerms
    rw [List.map_map]
    rfl
  rw [sum_counting, Statement.HoldsAt, flowStatement, List.map_cons, List.sum_cons, one_mul, hterms,
    flowConstant, Bound.ofScalar_eq, within]
  constructor
  · rintro ⟨hlower, hupper⟩
    linarith only [hlower, hupper]
  · intro heq
    constructor <;> linarith only [heq]

/-! ### Adapting a row -/

theorem exists_current_of_writeTerm (h : Succeeds (m.writeTerm point c i constant r) p answer q)
    (hcounts : m.Counts point c r) : ∃ current, point.activation.get r.id = .ok current := by
  rw [Counts, ← ExactScalar.abs_eq] at hcounts
  unfold writeTerm at h
  simp only [succeeds_bind_iff, if_pos hcounts, succeeds_ofExcept_iff] at h
  obtain ⟨_, _, -, current, _, ⟨hcurrent, -⟩, -⟩ := h
  exact ⟨current, hcurrent⟩

theorem exists_succeeds_writeTerm (i : RowId) (constant : K)
    (hsetpoint : p.HasVariable (.setpoint r.id))
    (hcurrent : m.Counts point c r → ∃ current, point.activation.get r.id = .ok current) :
    ∃ answer q, Succeeds (m.writeTerm point c i constant r) p answer q := by
  unfold writeTerm
  simp only [succeeds_bind_iff, succeeds_requireVariable_iff]
  by_cases hcounts : m.Counts point c r
  · obtain ⟨current, hget⟩ := hcurrent hcounts
    rw [Counts, ← ExactScalar.abs_eq] at hcounts
    simp only [if_pos hcounts, hget]
    exact ⟨_, _, _, p, ⟨hsetpoint, rfl⟩, rfl⟩
  · rw [Counts, ← ExactScalar.abs_eq] at hcounts
    simp only [if_neg hcounts]
    exact ⟨_, _, _, p, ⟨hsetpoint, rfl⟩, rfl⟩

theorem exists_current_of_writeTerms {rangeActions : List (RangeAction K)}
    (h : Succeeds (rangeActions.foldlM (m.writeTerm point c i) constant) p answer q) :
    ∀ r ∈ rangeActions, m.Counts point c r →
      ∃ current, point.activation.get r.id = .ok current := by
  induction rangeActions generalizing p constant with
  | nil => simp
  | cons r rangeActions ih =>
    rw [List.foldlM_cons, succeeds_bind_iff] at h
    obtain ⟨_, s, hfirst, hrest⟩ := h
    exact List.forall_mem_cons.mpr ⟨exists_current_of_writeTerm hfirst, ih hrest⟩

theorem exists_succeeds_writeTerms (i : RowId) (constant : K) {rangeActions : List (RangeAction K)}
    (hsetpoints : ∀ r ∈ rangeActions, p.HasVariable (.setpoint r.id))
    (hcurrent : ∀ r ∈ rangeActions, m.Counts point c r →
      ∃ current, point.activation.get r.id = .ok current) :
    ∃ answer q, Succeeds (rangeActions.foldlM (m.writeTerm point c i) constant) p answer q := by
  induction rangeActions generalizing p constant with
  | nil => exact ⟨constant, p, succeeds_pure_iff.mpr ⟨rfl, rfl⟩⟩
  | cons r rangeActions ih =>
    obtain ⟨hsetpoint, hsetpoints⟩ := List.forall_mem_cons.mp hsetpoints
    obtain ⟨hcounted, hcurrent⟩ := List.forall_mem_cons.mp hcurrent
    obtain ⟨next, s, hfirst⟩ := exists_succeeds_writeTerm i constant hsetpoint hcounted
    obtain ⟨-, -, rfl⟩ := succeeds_writeTerm hfirst
    obtain ⟨answer, q, hrest⟩ :=
      ih (p := p.setCoefficient i (p.number (.setpoint r.id)) _) next hsetpoints hcurrent
    refine ⟨answer, q, ?_⟩
    rw [List.foldlM_cons, succeeds_bind_iff]
    exact ⟨next, _, hfirst, hrest⟩

/-- The row of a flow has a term of the flow, and others of set-points only. -/
def Carries (m : Movement K) (p : LinearProblem K) (c : Cnec K) : Prop :=
  ∃ lower upper terms, terms.map Prod.fst ⊆ m.rangeActions.map (.setpoint ·.id) ∧
    p.Shows (.flow c.id) (some ⟨lower, upper, (.flow c.id, 1) :: terms⟩)

theorem Carries.of_continues {touched : RowKey → Prop} (h : m.Carries p c)
    (hq : p.Continues touched q) (htouched : ¬touched (.flow c.id)) : m.Carries q c := by
  obtain ⟨lower, upper, terms, hkeys, hshows⟩ := h
  exact ⟨lower, upper, terms, hkeys, hshows.of_continues hq htouched⟩

theorem keys_flowTerms (m : Movement K) (point : Linearization K) (c : Cnec K) :
    (m.flowTerms point c).map Prod.fst = m.rangeActions.map (.setpoint ·.id) := by
  unfold flowTerms
  rw [List.map_map]
  rfl

theorem carries_of_shows (h : p.Shows (.flow c.id) (some (m.flowStatement point c))) :
    m.Carries p c :=
  ⟨_, _, _, fun _ hkey => keys_flowTerms m point c ▸ hkey, h⟩

theorem isAbout_flowStatement (hids : (m.rangeActions.map RangeAction.id).Nodup)
    (hflow : p.HasVariable (.flow c.id))
    (hsetpoints : ∀ r ∈ m.rangeActions, p.HasVariable (.setpoint r.id)) :
    (m.flowStatement point c).IsAbout p := by
  refine ⟨List.forall_mem_cons.mpr ⟨hflow, List.forall_mem_map.mpr hsetpoints⟩, ?_⟩
  have hkeys : (m.rangeActions.map (VariableKey.setpoint ·.id)).Nodup := by
    have hmap := hids.map fun _ _ => VariableKey.setpoint.inj
    rwa [List.map_map] at hmap
  rw [flowStatement, List.map_cons, keys_flowTerms, List.nodup_cons]
  exact ⟨by simp, hkeys⟩

/-- Where the terms of all range actions are set in a form, no others of set-points are left. -/
theorem foldl_set_formOf {terms : List (VariableKey × K)}
    (hkeys : terms.map Prod.fst ⊆ m.rangeActions.map (.setpoint ·.id)) :
    (m.rangeActions.map fun r => (p.number (.setpoint r.id), -m.response point c.id r)).foldl
        (fun form term => form.set term.1 term.2) (p.formOf ((.flow c.id, 1) :: terms)) =
      p.formOf ((.flow c.id, 1) :: m.flowTerms point c) := by
  have hlater : (m.rangeActions.map fun r =>
      (p.number (.setpoint r.id), -m.response point c.id r)) =
        (m.flowTerms point c).map fun term => (p.number term.1, term.2) := by
    unfold flowTerms
    rw [List.map_map]
    rfl
  have hnumbers : (terms.map fun term => (p.number term.1, term.2)).map Prod.fst ⊆
      ((m.flowTerms point c).map fun term => (p.number term.1, term.2)).map Prod.fst := by
    rw [← keys_flowTerms m point c] at hkeys
    have hmap := List.map_subset p.number hkeys
    rw [List.map_map, List.map_map] at hmap ⊢
    exact hmap
  unfold formOf
  rw [hlater, List.map_cons, List.map_cons]
  exact LinearForm.foldl_set_ofTerms_append [_] hnumbers

/-- Adapting the row of a flow sets its constant and the terms of all range actions. -/
theorem succeeds_adaptFlow (h : Succeeds (m.adaptFlow point c) p u q) :
    m.Knows point c ∧ (∀ r ∈ m.rangeActions, p.HasVariable (.setpoint r.id)) ∧
      ∃ i, p.rowId? (.flow c.id) = some i ∧ q = p.modifyRow i fun row => { row with
        lower := .ofScalar (m.flowConstant point c), upper := .ofScalar (m.flowConstant point c),
        form := (m.rangeActions.map fun r =>
          (p.number (.setpoint r.id), -m.response point c.id r)).foldl
            (fun form term => form.set term.1 term.2) row.form } := by
  unfold adaptFlow at h
  simp only [succeeds_bind_iff, succeeds_requireRow_iff, succeeds_ofExcept_iff] at h
  obtain ⟨i, _, ⟨hi, rfl⟩, reference, _, ⟨hreference, rfl⟩, constant, s, hterms, hbounds⟩ := h
  obtain ⟨hsetpoints, hconstant, hs⟩ := succeeds_writeTerms hterms
  have hlast : m.flowConstant point c = constant := by
    rw [flowConstant, hreference, hconstant]
    rfl
  refine ⟨⟨⟨reference, hreference⟩, exists_current_of_writeTerms hterms⟩, hsetpoints, i, hi, ?_⟩
  rw [succeeds_setRowBounds hbounds, hs, modifyRow_modifyRow, hlast]

theorem continues_adaptFlow (h : Succeeds (m.adaptFlow point c) p u q) :
    p.Continues (· = .flow c.id) q ∧ q.columns = p.columns := by
  obtain ⟨-, -, i, hi, rfl⟩ := succeeds_adaptFlow h
  exact ⟨.modifyRow hi fun _ => rfl, rfl⟩

/-- After its adaptation the row of a flow states what it states at the linearisation, whatever
terms of set-points it had. -/
theorem shows_adaptFlow (hids : (m.rangeActions.map RangeAction.id).Nodup) (hp : m.Carries p c)
    (h : Succeeds (m.adaptFlow point c) p u q) :
    q.Shows (.flow c.id) (some (m.flowStatement point c)) := by
  obtain ⟨-, hsetpoints, i, hi, rfl⟩ := succeeds_adaptFlow h
  obtain ⟨lower, upper, terms, hkeys, hshows⟩ := hp
  have hflow := (hshows.isAbout _ rfl).named _ List.mem_cons_self
  refine hshows.modifyRow hi (fun _ => rfl) ?_ (isAbout_flowStatement hids hflow hsetpoints)
  rw [Statement.row, Statement.row, flowStatement, ← foldl_set_formOf hkeys]

theorem exists_succeeds_adaptFlow (hknows : m.Knows point c) (hi : p.rowId? (.flow c.id) = some i)
    (hsetpoints : ∀ r ∈ m.rangeActions, p.HasVariable (.setpoint r.id)) :
    ∃ q, Succeeds (m.adaptFlow point c) p ⟨⟩ q := by
  obtain ⟨reference, hreference⟩ := hknows.flow
  obtain ⟨constant, s, hterms⟩ := exists_succeeds_writeTerms i reference hsetpoints hknows.setpoints
  unfold adaptFlow
  simp only [succeeds_bind_iff, succeeds_requireRow_iff, succeeds_ofExcept_iff]
  have hnames : s.NamesRow i (.flow c.id) := by
    obtain ⟨-, -, hs⟩ := succeeds_writeTerms hterms
    have hgrows : p.Extends (fun _ => True) s := hs ▸ extends_modifyRow fun _ => rfl
    exact (namesRow_of_rowId? hi).of_extends hgrows
  have hinterval : Bound.isInterval (.ofScalar constant) (.ofScalar constant) = true := by simp
  obtain ⟨q, hbounds⟩ := exists_succeeds_setRowBounds hnames hinterval
  exact ⟨q, i, p, ⟨hi, rfl⟩, reference, p, ⟨hreference, rfl⟩, constant, s, hterms, hbounds⟩

/-! ### Adapting all rows -/

/-- The rows that set-points and flows adapt. -/
def Adapts (m : Movement K) (key : RowKey) : Prop :=
  (∃ c ∈ m.cnecs, key = .flow c.id) ∨ ∃ id, key = .shrink id

omit [ExactScalar K] in
/-- The turns of other elements do not touch the row of a flow. -/
theorem not_touched_by_others {cnecs : List (Cnec K)} :
    ¬∃ c' ∈ cnecs, c'.id ≠ c.id ∧ RowKey.flow c.id = .flow c'.id := by
  rintro ⟨c', -, hne, heq⟩
  exact hne (RowKey.flow.inj heq).symm

/-- All flows follow a linearisation. -/
def Follows (m : Movement K) (point : Linearization K) (p : LinearProblem K) : Prop :=
  ∀ c ∈ m.cnecs, m.Knows point c ∧ p.Shows (.flow c.id) (some (m.flowStatement point c))

theorem Follows.carries (h : m.Follows point p) : ∀ c ∈ m.cnecs, m.Carries p c :=
  fun c hc => carries_of_shows (h c hc).2

theorem Follows.of_continues {touched : RowKey → Prop} (h : m.Follows point p)
    (hq : p.Continues touched q) (htouched : ∀ id, ¬touched (.flow id)) : m.Follows point q :=
  fun c hc => ⟨(h c hc).1, (h c hc).2.of_continues hq (htouched c.id)⟩

theorem follows_adaptFlows (hids : (m.rangeActions.map RangeAction.id).Nodup)
    (hcnecs : (m.cnecs.map Cnec.id).Nodup) (hp : ∀ c ∈ m.cnecs, m.Carries p c)
    (h : Succeeds (m.cnecs.forM (m.adaptFlow point)) p u q) :
    p.Continues m.Adapts q ∧ q.columns = p.columns ∧ m.Follows point q := by
  refine ⟨continues_forM h fun c hc s t ht => ?_, ?_, fun c hc => ?_⟩
  · exact (continues_adaptFlow ht).1.mono fun key hkey => .inl ⟨c, hc, hkey⟩
  · exact h.forM_induction (P := fun s => s.columns = p.columns)
      (fun c _ s t hs ht => (continues_adaptFlow ht).2.trans hs) rfl
  · obtain ⟨s, t, hbefore, hturn, hafter⟩ :=
      exists_turn h hcnecs (fun c _ s t ht => (continues_adaptFlow ht).1) hc
    have hcarries := (hp c hc).of_continues hbefore not_touched_by_others
    exact ⟨(succeeds_adaptFlow hturn).1,
      (shows_adaptFlow hids hcarries hturn).of_continues hafter not_touched_by_others⟩

theorem continues_shrinkRange {activation : Activation K} {iteration : Nat}
    (h : Succeeds (shrinkRange activation iteration r) p u q) :
    p.Continues (· = .shrink r.id) q ∧ q.columns = p.columns := by
  unfold shrinkRange at h
  simp only [succeeds_bind_iff, succeeds_ofExcept_iff, succeeds_rowId?_iff] at h
  obtain ⟨_, _, ⟨-, rfl⟩, row, _, ⟨hrow, rfl⟩, h⟩ := h
  cases row with
  | some row =>
    rw [succeeds_setRowBounds h]
    exact ⟨.modifyRow hrow fun _ => rfl, rfl⟩
  | none =>
    simp only [succeeds_bind_iff, succeeds_requireVariable_iff, succeeds_pure_iff] at h
    obtain ⟨_, _, ⟨-, rfl⟩, _, _, hadd, -, rfl⟩ := h
    rw [(succeeds_addRow hadd).2]
    exact ⟨.append_row ⟨.shrink r.id, _, _, _⟩ hrow, rfl⟩

/-- What one adaptation keeps: the flows follow its linearisation, whether or not ranges shrink. -/
theorem follows_refresh {iteration : Nat} (hids : (m.rangeActions.map RangeAction.id).Nodup)
    (hcnecs : (m.cnecs.map Cnec.id).Nodup) (hp : ∀ c ∈ m.cnecs, m.Carries p c)
    (h : Succeeds (m.part.refresh point iteration) p u q) :
    p.Continues m.Adapts q ∧ q.columns = p.columns ∧ m.Follows point q := by
  unfold part at h
  simp only [succeeds_bind_iff] at h
  obtain ⟨_, s, hadapts, h⟩ := h
  obtain ⟨hs, hcolumns, hfollows⟩ := follows_adaptFlows hids hcnecs hp hadapts
  obtain ⟨hq, hqcolumns⟩ :
      s.Continues (fun key => ∃ id, key = .shrink id) q ∧ q.columns = s.columns := by
    split at h
    · refine ⟨continues_forM h fun r _ a b hb => ?_, ?_⟩
      · exact (continues_shrinkRange hb).1.mono fun key hkey => ⟨r.id, hkey⟩
      · exact h.forM_induction (P := fun t => t.columns = s.columns)
          (fun r _ a b ha hb => (continues_shrinkRange hb).2.trans ha) rfl
    · obtain ⟨-, rfl⟩ := succeeds_pure_iff.mp h
      exact ⟨.refl s, rfl⟩
  exact ⟨hs.trans (hq.mono fun key hkey => .inr hkey), hqcolumns.trans hcolumns,
    hfollows.of_continues hq (by simp)⟩

/-- By induction on the adaptations: the flows follow the last linearisation. -/
theorem follows_refreshes {updates : List (Linearization K × Nat)}
    (hids : (m.rangeActions.map RangeAction.id).Nodup) (hcnecs : (m.cnecs.map Cnec.id).Nodup)
    (hp : m.Follows start p)
    (h : Succeeds (updates.forM fun update => m.part.refresh update.1 update.2) p u q) :
    p.Continues m.Adapts q ∧ q.columns = p.columns ∧
      m.Follows ((updates.map Prod.fst).getLastD start) q := by
  induction updates generalizing p start with
  | nil =>
    obtain ⟨-, rfl⟩ := succeeds_pure_iff.mp h
    exact ⟨.refl p, rfl, hp⟩
  | cons update updates ih =>
    obtain ⟨s, hfirst, hrest⟩ := succeeds_forM_cons_iff.mp h
    obtain ⟨hs, hcolumns, hfollows⟩ := follows_refresh hids hcnecs hp.carries hfirst
    obtain ⟨hq, hqcolumns, hlast⟩ := ih hfollows hrest
    rw [List.map_cons, List.getLastD_cons]
    exact ⟨hs.trans hq, hqcolumns.trans hcolumns, hlast⟩

/-! ### Writing all rows -/

/-- Writing a flow adds its variable and its row under new names. -/
theorem continues_writeFlow (h : Succeeds (writeFlow point c) p u q) :
    p.rowId? (.flow c.id) = none ∧ p.Continues (· = .flow c.id) q ∧
      q.columns = p.columns ++ [⟨.flow c.id, .negInf, .posInf, .continuous⟩] ∧
        ∃ lower upper, q.Shows (.flow c.id) (some ⟨lower, upper, [(.flow c.id, 1)]⟩) := by
  unfold writeFlow at h
  simp only [succeeds_bind_iff, succeeds_ofExcept_iff, succeeds_pure_iff] at h
  obtain ⟨_, s, hflow, reference, _, ⟨-, rfl⟩, _, _, hrow, -, rfl⟩ := h
  have hfresh := rowId?_eq_none_of_addRow hrow
  obtain ⟨hdeclares, rfl⟩ := declares_of_addVariable hflow
  have habout : Statement.IsAbout ⟨.ofScalar reference, .ofScalar reference, [(.flow c.id, 1)]⟩ s :=
    ⟨List.forall_mem_singleton.mpr hdeclares.hasVariable, by simp⟩
  obtain ⟨hq, hcolumns, -, hshows⟩ := shows_addRow habout hrow
  have hps : p.Continues (· = .flow c.id) s := continues_addVariable hflow
  obtain ⟨-, -, hs⟩ := succeeds_addVariable hflow
  refine ⟨?_, hps.trans hq, ?_, _, _, hshows⟩
  · rwa [hs] at hfresh
  · rw [hcolumns, hs]

theorem rowId?_eq_none_of_writeFlows {cnecs : List (Cnec K)} (hcnecs : (cnecs.map Cnec.id).Nodup)
    (h : Succeeds (cnecs.forM (writeFlow point)) p u q) :
    ∀ c ∈ cnecs, p.rowId? (.flow c.id) = none := by
  intro c hc
  obtain ⟨s, t, hbefore, hturn, -⟩ :=
    exists_turn h hcnecs (fun c _ s t ht => (continues_writeFlow ht).2.1) hc
  have hnone := (continues_writeFlow hturn).1
  cases hi : p.rowId? (.flow c.id) with
  | none => rfl
  | some i =>
    rw [hbefore.grows.rowId? hi] at hnone
    cases hnone

/-- Once flows are written, their rows have a term of the flow alone. -/
theorem carries_writeFlows (hcnecs : (m.cnecs.map Cnec.id).Nodup)
    (h : Succeeds (m.cnecs.forM (writeFlow point)) p u q) :
    p.Continues m.Adapts q ∧ q.columns = p.columns ++
      (m.cnecs.flatMap fun c => [⟨.flow c.id, .negInf, .posInf, .continuous⟩]) ∧
        ∀ c ∈ m.cnecs, m.Carries q c := by
  refine ⟨continues_forM h fun c hc s t ht => ?_, ?_, fun c hc => ?_⟩
  · exact (continues_writeFlow ht).2.1.mono fun key hkey => .inl ⟨c, hc, hkey⟩
  · exact columns_forM h fun c _ s t ht => (continues_writeFlow ht).2.2.1
  · obtain ⟨s, t, -, hturn, hafter⟩ :=
      exists_turn h hcnecs (fun c _ s t ht => (continues_writeFlow ht).2.1) hc
    obtain ⟨-, -, -, lower, upper, hshows⟩ := continues_writeFlow hturn
    exact ⟨lower, upper, [], by simp, hshows.of_continues hafter not_touched_by_others⟩

/-- A problem with the set-points has gone on with flows that follow a linearisation. -/
structure FilledFrom (m : Movement K) (point : Linearization K) (p q : LinearProblem K) : Prop where
  continues : p.Continues m.Adapts q
  columns : q.columns = p.columns ++
    m.cnecs.flatMap fun c => [⟨.flow c.id, .negInf, .posInf, .continuous⟩]
  follows : m.Follows point q

theorem filledFrom_of_writeFlows {s : LinearProblem K}
    (hids : (m.rangeActions.map RangeAction.id).Nodup) (hcnecs : (m.cnecs.map Cnec.id).Nodup)
    (hflows : Succeeds (m.cnecs.forM (writeFlow point)) p u s)
    (hadapts : Succeeds (m.cnecs.forM (m.adaptFlow point)) s u q) : m.FilledFrom point p q := by
  obtain ⟨hs, hcolumns, hcarries⟩ := carries_writeFlows hcnecs hflows
  obtain ⟨hq, hqcolumns, hfollows⟩ := follows_adaptFlows hids hcnecs hcarries hadapts
  exact ⟨hs.trans hq, hqcolumns.trans hcolumns, hfollows⟩

/-- Two problems that have gone on from the same one with flows that follow the same linearisation
have the same rows, those of shrinking ranges apart. -/
theorem FilledFrom.row?_eq {s : LinearProblem K} {key : RowKey} (hq : m.FilledFrom point p q)
    (hs : m.FilledFrom point p s) (hkey : ∀ id, key ≠ .shrink id) : q.row? key = s.row? key := by
  by_cases hadapts : m.Adapts key
  · rcases hadapts with ⟨c, hc, rfl⟩ | ⟨id, rfl⟩
    · have hform : ∀ terms, q.formOf terms = s.formOf terms := by
        intro terms
        unfold formOf number LinearProblem.variableId?
        rw [hq.columns, hs.columns]
      rw [(hq.follows c hc).2.row?_eq, (hs.follows c hc).2.row?_eq]
      unfold Statement.row
      simp only [hform]
    · exact absurd rfl (hkey id)
  · rw [hq.continues.row?_eq key hadapts, hs.continues.row?_eq key hadapts]

theorem exists_succeeds_writeFlow (hvariable : p.variableId? (.flow c.id) = none)
    (hrow : p.rowId? (.flow c.id) = none) (hknows : m.Knows point c) :
    ∃ q, Succeeds (writeFlow point c) p ⟨⟩ q := by
  obtain ⟨reference, hreference⟩ := hknows.flow
  obtain ⟨s, hs⟩ := exists_succeeds_addVariable .continuous hvariable
    (rfl : Bound.isInterval .negInf .posInf = true)
  have hinterval : Bound.isInterval (.ofScalar reference) (.ofScalar reference) = true := by simp
  have hsrow : s.rowId? (.flow c.id) = none := by
    obtain ⟨-, -, rfl⟩ := succeeds_addVariable hs
    exact hrow
  obtain ⟨q, hq⟩ := exists_succeeds_addRow [(p.columns.length, 1)] hsrow hinterval
  unfold writeFlow
  simp only [succeeds_bind_iff, succeeds_ofExcept_iff, succeeds_pure_iff]
  exact ⟨q, _, s, hs, reference, s, ⟨hreference, rfl⟩, _, q, hq, trivial, rfl⟩

/-- Flows can be written at any linearisation that has them and the set-points that count. -/
theorem exists_succeeds_writeFlows {cnecs : List (Cnec K)} (hcnecs : (cnecs.map Cnec.id).Nodup)
    (hvariables : ∀ c ∈ cnecs, p.variableId? (.flow c.id) = none)
    (hrows : ∀ c ∈ cnecs, p.rowId? (.flow c.id) = none)
    (hknows : ∀ c ∈ cnecs, m.Knows point c) :
    ∃ q, Succeeds (cnecs.forM (writeFlow point)) p ⟨⟩ q := by
  refine exists_succeeds_forM (P := fun rest s => (rest.map Cnec.id).Nodup ∧ ∀ c ∈ rest,
    s.variableId? (.flow c.id) = none ∧ s.rowId? (.flow c.id) = none ∧ m.Knows point c) ?_
      ⟨hcnecs, fun c hc => ⟨hvariables c hc, hrows c hc, hknows c hc⟩⟩
  rintro c rest s ⟨hrest, hs⟩
  obtain ⟨hfresh, hrest⟩ := List.nodup_cons.mp hrest
  obtain ⟨⟨hvariable, hrow, hknows⟩, hs⟩ := List.forall_mem_cons.mp hs
  obtain ⟨t, ht⟩ := exists_succeeds_writeFlow hvariable hrow hknows
  obtain ⟨-, hgoes, hcolumns, -⟩ := continues_writeFlow ht
  refine ⟨t, ht, hrest, fun c' hc' => ?_⟩
  have hne : c'.id ≠ c.id := fun heq => hfresh (List.mem_map.mpr ⟨c', hc', heq⟩)
  obtain ⟨hvariable', hrow', hknows'⟩ := hs c' hc'
  exact ⟨variableId?_eq_none_of_columns hcolumns hvariable' (by simpa using hne.symm),
    hgoes.rowId?_eq_none (by simpa using hne) hrow', hknows'⟩

/-- The flows of a problem with set-points can be written and adapted. -/
theorem exists_filledFrom (hids : (m.rangeActions.map RangeAction.id).Nodup)
    (hcnecs : (m.cnecs.map Cnec.id).Nodup)
    (hvariables : ∀ c ∈ m.cnecs, p.variableId? (.flow c.id) = none)
    (hrows : ∀ c ∈ m.cnecs, p.rowId? (.flow c.id) = none)
    (hsetpoints : ∀ r ∈ m.rangeActions, p.HasVariable (.setpoint r.id))
    (hknows : ∀ c ∈ m.cnecs, m.Knows point c) :
    ∃ q, Succeeds (do
        m.cnecs.forM (writeFlow point)
        m.cnecs.forM (m.adaptFlow point)) p ⟨⟩ q ∧ m.FilledFrom point p q := by
  obtain ⟨s, hs⟩ := exists_succeeds_writeFlows hcnecs hvariables hrows hknows
  obtain ⟨hgoes, -, hcarries⟩ := carries_writeFlows hcnecs hs
  obtain ⟨q, hq⟩ : ∃ q, Succeeds (m.cnecs.forM (m.adaptFlow point)) s ⟨⟩ q := by
    refine exists_succeeds_forM (P := fun rest t => s.Extends (fun _ => True) t ∧
      ∀ c ∈ rest, c ∈ m.cnecs) ?_ ⟨.refl s, fun _ hc => hc⟩
    rintro c rest t ⟨hst, hrest⟩
    obtain ⟨hc, hrest⟩ := List.forall_mem_cons.mp hrest
    obtain ⟨_, _, _, _, hshows⟩ := hcarries c hc
    obtain ⟨i, hi⟩ : ∃ i, s.rowId? (.flow c.id) = some i := by
      rw [← Option.ne_none_iff_exists', ne_eq, ← row?_eq_none_iff, hshows.row?_eq]
      simp
    obtain ⟨w, hw⟩ := exists_succeeds_adaptFlow (hknows c hc) (hst.rowId? hi)
      fun r hr => ((hsetpoints r hr).of_extends (hgoes.grows.trans hst)).1
    exact ⟨w, hw, hst.trans (continues_adaptFlow hw).1.grows, hrest⟩
  exact ⟨q, succeeds_bind_iff.mpr ⟨⟨⟩, s, hs, hq⟩, filledFrom_of_writeFlows hids hcnecs hs hq⟩

/-- After a fill and any number of adaptations, every flow is the linear function of the set-points
that its last linearisation makes it, and all rows but those of shrinking ranges are what a fill at
the last linearisation writes. -/
theorem flows_follow_last_point {updates : List (Linearization K × Nat)}
    (h : Succeeds (do
      m.part.fill start
      updates.forM fun update => m.part.refresh update.1 update.2) p u q) :
    let last := (updates.map Prod.fst).getLastD start
    (∀ c ∈ m.cnecs, ∃ (reference : K) (current : String → K),
      let counted := m.rangeActions.filter fun r =>
        m.optimizer.sensitivityThreshold r ≤ |last.sensitivities.get c.id r.id|
      last.flows.megawatts c.id = .ok reference ∧
        (∀ r ∈ counted, last.activation.get r.id = .ok (current r.id)) ∧
        ∀ x, q.Satisfies x → q.valueOf x (.flow c.id) = reference + (counted.map fun r =>
          last.sensitivities.get c.id r.id * (q.valueOf x (.setpoint r.id) - current r.id)).sum) ∧
    ∃ fresh, Succeeds (m.part.fill last) p ⟨⟩ fresh ∧ fresh.columns = q.columns ∧
      ∀ key, (∀ id, key ≠ .shrink id) → q.row? key = fresh.row? key := by
  intro last
  rw [succeeds_bind_iff] at h
  obtain ⟨_, filled, hfill, hupdates⟩ := h
  obtain ⟨hmeasures, hids⟩ := measures_of_fill hfill
  unfold part at hfill
  simp only [succeeds_bind_iff] at hfill
  obtain ⟨_, s, hset, _, t, hflows, hadapts⟩ := hfill
  obtain ⟨hvariables, hcnecs⟩ := Formulation.nodup_of_writeFlows hflows
  have hfilled := filledFrom_of_writeFlows hids hcnecs hflows hadapts
  obtain ⟨hq, hcolumns, hfollows⟩ := follows_refreshes hids hcnecs hfilled.follows hupdates
  have hlast : m.FilledFrom last s q :=
    ⟨hfilled.continues.trans hq, hcolumns.trans hfilled.columns, hfollows⟩
  constructor
  · intro c hc
    obtain ⟨hknows, hshows⟩ := hfollows c hc
    obtain ⟨reference, hreference⟩ := hknows.flow
    refine ⟨reference, present last, hreference, fun r hr => ?_, fun x hx => ?_⟩
    · obtain ⟨hr, hcounts⟩ := List.mem_filter.mp hr
      obtain ⟨current, hcurrent⟩ := hknows.setpoints r hr (of_decide_eq_true hcounts)
      rw [present, hcurrent]
      rfl
    · have hholds := flowStatement_holdsAt_iff.mp (hshows.rowHolds_iff.mp (hx.rowHolds _) _ rfl)
      rw [hreference] at hholds
      exact hholds
  · obtain ⟨fresh, hfresh, hfreshly⟩ := exists_filledFrom hids hcnecs hvariables
      (rowId?_eq_none_of_writeFlows hcnecs hflows)
      (fun r hr => ((measures_of_forM hset).1 r hr).1.setpoint) fun c hc => (hfollows c hc).1
    refine ⟨fresh, ?_, hfreshly.columns.trans hlast.columns.symm,
      fun key hkey => hlast.row?_eq hfreshly hkey⟩
    exact succeeds_bind_iff.mpr ⟨⟨⟩, s, hset, hfresh⟩

end Movement

/-! Two shifters act on a line. At the last linearisation the sensitivity to the first one, which
was large before, is below the threshold, and that to the second one, which was below, is large. -/

namespace CrossedThresholds

/-- A line with thresholds that do not matter for its flow. -/
def line : Cnec ℚ := { id := "line", element := "line", upper := some 100, voltage := 400 }

/-- A shifter with any set-point up to ten. -/
def shifter (id : String) : RangeAction ℚ :=
  { id, element := id, min := -10, max := 10, kind := .pst {} }

/-- Their set-points and the flow on the line, with a threshold of one and shrinking ranges. -/
def movement : Movement ℚ where
  cnecs := [line]
  rangeActions := [shifter "first", shifter "second"]
  initial := ⟨Table.ofPairs [("first", 0), ("second", 0)]⟩
  optimizer := { OptimizerParameters.default with pstSensitivityThreshold := 1 }
  shrinking := true

/-- A linearisation with a flow, the sensitivities to both shifters and one set-point of both. -/
def point (flow first second setpoint : ℚ) : Linearization ℚ where
  flows := { flows := Table.ofPairs [("line", flow)] }
  sensitivities := (Sensitivities.set {} "line" "first" first).set "line" "second" second
  activation := ⟨{}, Table.ofPairs [("first", setpoint), ("second", setpoint)]⟩

/-- A fill and two adaptations. -/
def written : Writing ℚ Unit := do
  movement.part.fill (point 500 10 0 0)
  [(point 300 20 (1 / 2) 2, 1), (point 250 (1 / 2) (-20) 3, 2)].forM fun update =>
    movement.part.refresh update.1 update.2

theorem flow_after_crossing : ∃ q, Succeeds written (.empty .microlp) ⟨⟩ q ∧
    q.Satisfies (fun v => [3, 3, 4, 4, (230 : ℚ)].getD v 0) ∧
      ∀ x, q.Satisfies x → q.valueOf x (.flow "line") =
        250 + -20 * (q.valueOf x (.setpoint "second") - 3) := by
  have hrun : ((do written; get : Writing ℚ (LinearProblem ℚ)).run (.empty .microlp)).1.toOption.any
      (fun q => decide (q.Satisfies fun v => [3, 3, 4, 4, (230 : ℚ)].getD v 0)) = true := by
    decide +kernel
  obtain ⟨_, q, hwritten, hpoint⟩ := exists_succeeds_of_any hrun
  simp only [succeeds_bind_iff, succeeds_get_iff] at hwritten
  obtain ⟨⟨⟩, _, hwritten, rfl, rfl⟩ := hwritten
  obtain ⟨hflows, -⟩ := Movement.flows_follow_last_point hwritten
  obtain ⟨reference, current, hreference, hcurrent, hvalue⟩ := hflows line List.mem_cons_self
  have hcounted : movement.rangeActions.filter (fun r =>
      decide (movement.optimizer.sensitivityThreshold r ≤
        |(point 250 (1 / 2) (-20) 3).sensitivities.get "line" r.id|)) = [shifter "second"] := by
    change List.filter _ [shifter "first", shifter "second"] = _
    rw [List.filter_cons_of_neg (by decide +kernel), List.filter_cons_of_pos (by decide +kernel),
      List.filter_nil]
  have hsensitivity : (point 250 (1 / 2) (-20) 3).sensitivities.get "line" "second" = -20 := by
    decide +kernel
  obtain rfl : 250 = reference := Except.ok.inj hreference
  obtain hsetpoint : 3 = current "second" :=
    Except.ok.inj (hcurrent (shifter "second") (hcounted ▸ List.mem_cons_self))
  refine ⟨_, hwritten, of_decide_eq_true hpoint, fun x hx => ?_⟩
  have hflow := hvalue x hx
  simp only [List.map_cons, List.map_nil, List.getLastD_cons, List.getLastD_nil] at hflow
  rw [show line.id = "line" from rfl, hcounted, List.map_singleton, List.sum_singleton,
    show (shifter "second").id = "second" from rfl, hsensitivity, ← hsetpoint] at hflow
  exact hflow

end CrossedThresholds

end GridRelief
