import GridRelief.Proofs.Formulation.Statements

/-!
# Rows of elements that count under a condition

For an element that counts under a condition, a problem has a variable that is zero or one, the rows
of the condition, and the rows of its smallest margins, which are relaxed. Elements of other names
do not touch these rows, and an adaptation to new sensitivities writes the rows of a condition anew.

* `Statement.relax`: what a relaxed row states; `Conditional.shows_relaxMargins`.
* `Conditional.fallsStatement`, `Conditional.beyondStatement`: what the rows of a condition state.
* `Conditional.Poses`: a problem has the rows of an element's condition.
* `Conditional.Awaits`: what the elements need before they are written.
* `Conditional.succeeds_fill`, `Conditional.poses_of_refresh`: what they leave.
-/

namespace GridRelief

open LinearProblem Writing

variable {K : Type} [ExactScalar K]

/-! ### Relaxed rows -/

/-- What a row states that is relaxed unless a variable is one. -/
def Statement.relax (s : Statement K) (counts : VariableKey) (slack : K) : Statement K :=
  ⟨s.lower, s.upper.shift slack, s.terms ++ [(counts, slack)]⟩

/-- The rows that belong to an element that counts under a condition. -/
def RowKey.IsOf (id : String) : RowKey → Prop
  | .dontOptimizeCnec c _ | .minimumMargin c _ | .minimumRelativeMargin c _ => c = id
  | _ => False

namespace Conditional

variable {d : Conditional K} {c : Cnec K} {entry : Cnec K × Condition K} {counts : VariableId}
  {p q r : LinearProblem K} {u : PUnit} {rowKey : RowKey} {key : VariableKey}
  {statement : Option (Statement K)} {point : Linearization K}

/-- A row is relaxed in its place, if there is one. -/
theorem succeeds_relaxRow (h : Succeeds (d.relaxRow counts rowKey) p u q) :
    (p.rowId? rowKey = none ∧ q = p) ∨ ∃ i row, p.rowId? rowKey = some i ∧
      p.rows[i]? = some row ∧ q = p.modifyRow i fun row' =>
        { row' with form := row'.form.set counts d.marginSlack,
                    upper := row.upper.shift d.marginSlack } := by
  unfold relaxRow at h
  simp only [succeeds_bind_iff, succeeds_rowId?_iff] at h
  obtain ⟨found, _, ⟨hfound, rfl⟩, h⟩ := h
  cases found with
  | none =>
    obtain ⟨-, rfl⟩ := succeeds_pure_iff.mp h
    exact .inl ⟨hfound, rfl⟩
  | some i =>
    simp only [succeeds_bind_iff, succeeds_get_iff, succeeds_modify_iff] at h
    obtain ⟨_, _, ⟨rfl, rfl⟩, _, s, hset, rfl⟩ := h
    rw [Writing.setCoefficient, succeeds_modify_iff] at hset
    obtain ⟨row, hrow, -⟩ := namesRow_of_rowId? hfound
    refine .inr ⟨i, row, hfound, hrow, ?_⟩
    rw [← hset]
    unfold LinearProblem.setRowUpper LinearProblem.setCoefficient LinearProblem.rowBounds
    rw [modifyRow_modifyRow, hrow]

theorem continues_relaxRow (h : Succeeds (d.relaxRow counts rowKey) p u q) :
    p.Continues (· = rowKey) q ∧ q.columns = p.columns := by
  rcases succeeds_relaxRow h with ⟨-, rfl⟩ | ⟨i, row, hi, -, rfl⟩
  · exact ⟨.refl _, rfl⟩
  · exact ⟨.modifyRow hi fun _ => rfl, rfl⟩

/-- A relaxed row states less. -/
theorem shows_relaxRow (hp : p.Shows rowKey statement) (hcounts : p.HasVariable key)
    (hne : ∀ s ∈ statement, key ∉ s.terms.map Prod.fst)
    (h : Succeeds (d.relaxRow (p.number key) rowKey) p u q) :
    q.Shows rowKey (statement.map (·.relax key d.marginSlack)) := by
  rcases succeeds_relaxRow h with ⟨hnone, rfl⟩ | ⟨i, row, hi, hrow, rfl⟩
  · cases statement with
    | none => exact hp
    | some s =>
      rw [← row?_eq_none_iff, hp.row?_eq] at hnone
      cases hnone
  · have hfound := hp.row?_eq
    rw [row?_of_rowId? hi, hrow] at hfound
    cases statement with
    | none => cases hfound
    | some s =>
      obtain rfl := Option.some.inj hfound
      have hs := hp.isAbout s rfl
      refine hp.modifyRow hi (fun _ => rfl) ?_ ⟨?_, ?_⟩
      · unfold Statement.row Statement.relax
        rw [formOf_append]
      · exact List.forall_mem_append.mpr ⟨hs.named, List.forall_mem_singleton.mpr hcounts⟩
      · unfold Statement.relax
        rw [List.map_append, List.nodup_append']
        exact ⟨hs.nodup, List.nodup_singleton _, List.disjoint_singleton.mpr (hne s rfl)⟩

/-- By induction on the names: rows of different names are relaxed one after the other. -/
theorem shows_relaxRows {keys : List RowKey} (hnodup : keys.Nodup)
    (h : Succeeds (keys.forM (d.relaxRow counts)) p u q) :
    p.Continues (· ∈ keys) q ∧ q.columns = p.columns ∧ ∀ rowKey ∈ keys, ∀ statement key,
      p.Shows rowKey statement → p.HasVariable key → p.number key = counts →
        (∀ s ∈ statement, key ∉ s.terms.map Prod.fst) →
          q.Shows rowKey (statement.map (·.relax key d.marginSlack)) := by
  induction keys generalizing p with
  | nil =>
    obtain ⟨-, rfl⟩ := succeeds_pure_iff.mp h
    exact ⟨.refl _, rfl, by simp⟩
  | cons first keys ih =>
    obtain ⟨hfresh, hrest⟩ := List.nodup_cons.mp hnodup
    obtain ⟨r, hfirst, hlater⟩ := succeeds_forM_cons_iff.mp h
    obtain ⟨hpr, hr⟩ := continues_relaxRow hfirst
    obtain ⟨hrq, hq, hshows⟩ := ih hrest hlater
    refine ⟨(hpr.mono ?_).trans (hrq.mono ?_), hq.trans hr, ?_⟩
    · rintro _ rfl
      exact List.mem_cons_self
    · exact fun _ => List.mem_cons_of_mem _
    · rintro rowKey hkey statement key hp hvariable rfl hne
      rcases List.mem_cons.mp hkey with rfl | hlist
      · exact (shows_relaxRow hp hvariable hne hfirst).of_continues hrq hfresh
      · have hapart : rowKey ≠ first := by
          rintro rfl
          exact hfresh hlist
        obtain ⟨hlaterVariable, hnumber⟩ := hvariable.of_extends hpr.grows
        exact hshows rowKey hlist statement key (hp.of_continues hpr hapart) hlaterVariable hnumber
          hne

/-- The rows of the smallest margins of an element. -/
def marginKeys (id : String) : List RowKey :=
  [.minimumMargin id .below, .minimumRelativeMargin id .below, .minimumMargin id .above,
    .minimumRelativeMargin id .above]

theorem succeeds_relaxMargins (h : Succeeds (d.relaxMargins c counts) p u q) :
    Succeeds ((marginKeys c.id).forM (d.relaxRow counts)) p ⟨⟩ q := by
  obtain ⟨s, hbelow, h⟩ := succeeds_forM_cons_iff.mp h
  obtain ⟨t, habove, h⟩ := succeeds_forM_cons_iff.mp h
  obtain ⟨-, rfl⟩ := succeeds_pure_iff.mp h
  obtain ⟨⟨⟩, a, hfirst, hsecond⟩ := succeeds_bind_iff.mp hbelow
  obtain ⟨⟨⟩, b, hthird, hfourth⟩ := succeeds_bind_iff.mp habove
  refine succeeds_forM_cons_iff.mpr ⟨a, hfirst, succeeds_forM_cons_iff.mpr ⟨s, hsecond, ?_⟩⟩
  refine succeeds_forM_cons_iff.mpr ⟨b, hthird, succeeds_forM_cons_iff.mpr ⟨t, hfourth, ?_⟩⟩
  exact succeeds_pure_iff.mpr ⟨rfl, rfl⟩

/-- The rows of the smallest margins of an element are relaxed. -/
theorem shows_relaxMargins (hcounts : p.HasVariable (.optimizeCnec c.id))
    (h : Succeeds (d.relaxMargins c (p.number (.optimizeCnec c.id))) p u q) :
    p.Continues (· ∈ marginKeys c.id) q ∧ q.columns = p.columns ∧
      ∀ rowKey ∈ marginKeys c.id, ∀ statement, p.Shows rowKey statement →
        (∀ s ∈ statement, .optimizeCnec c.id ∉ s.terms.map Prod.fst) →
          q.Shows rowKey (statement.map (·.relax (.optimizeCnec c.id) d.marginSlack)) := by
  obtain ⟨hq, hcolumns, hshows⟩ := shows_relaxRows (by simp [marginKeys]) (succeeds_relaxMargins h)
  exact ⟨hq, hcolumns, fun rowKey hkey statement hp hne =>
    hshows rowKey hkey statement _ hp hcounts rfl hne⟩

/-! ### Rows of conditions -/

/-- What the row states on the side of a threshold for an element that counts when its margin
falls. -/
def fallsStatement (d : Conditional K) (c : Cnec K) (margin : K) :
    ThresholdSide → Option (Statement K)
  | .below => c.lower.map fun lower => ⟨.ofScalar (margin + lower), .posInf,
      [(.flow c.id, 1), (.optimizeCnec c.id, d.conditionSlack)]⟩
  | .above => c.upper.map fun upper => ⟨.ofScalar (margin - upper), .posInf,
      [(.flow c.id, -1), (.optimizeCnec c.id, d.conditionSlack)]⟩

/-- What the row states on the side of a threshold for an element that counts when a phase shifter
cannot relieve it. -/
def beyondStatement (d : Conditional K) (c : Cnec K) (shifter : RangeAction K) (sensitivity : K) :
    ThresholdSide → Option (Statement K)
  | .below => c.lower.map fun lower =>
      ⟨.ofScalar (lower - greatestContribution shifter sensitivity), .posInf,
        [(.flow c.id, 1), (.setpoint shifter.id, -sensitivity),
          (.optimizeCnec c.id, d.conditionSlack)]⟩
  | .above => c.upper.map fun upper =>
      ⟨.ofScalar (-upper + leastContribution shifter sensitivity), .posInf,
        [(.flow c.id, -1), (.setpoint shifter.id, sensitivity),
          (.optimizeCnec c.id, d.conditionSlack)]⟩

/-- A problem has the rows of an element's condition, for some sensitivities. -/
def Poses (d : Conditional K) (s : Sensitivities K) (q : LinearProblem K) :
    Cnec K × Condition K → Prop
  | (c, .marginFalls) => ∃ margin, d.initial.margin c .megawatt = .ok margin ∧
      ∀ side, q.Shows (.dontOptimizeCnec c.id side) (d.fallsStatement c margin side)
  | (c, .beyond shifter) => ∀ side, q.Shows (.dontOptimizeCnec c.id side)
      (d.beyondStatement c shifter (s.get c.id shifter.id) side)

variable {touched : RowKey → Prop} {s s' : Sensitivities K}

theorem Poses.of_continues (h : d.Poses s p entry) (hq : p.Continues touched q)
    (hapart : ∀ side, ¬touched (.dontOptimizeCnec entry.1.id side)) : d.Poses s q entry := by
  obtain ⟨c, condition⟩ := entry
  cases condition with
  | marginFalls =>
    obtain ⟨margin, hmargin, hshows⟩ := h
    exact ⟨margin, hmargin, fun side => (hshows side).of_continues hq (hapart side)⟩
  | beyond shifter => exact fun side => (h side).of_continues hq (hapart side)

/-- The rows of an element that counts when its margin falls are added. -/
theorem poses_of_writeMarginFalls (hcounts : p.HasVariable (.optimizeCnec c.id))
    (h : Succeeds (d.writeMarginFalls c (p.number (.optimizeCnec c.id))) p u q) :
    p.Continues (fun key => ∃ side, key = .dontOptimizeCnec c.id side) q ∧
      q.columns = p.columns ∧
      ((∀ side, p.rowId? (.dontOptimizeCnec c.id side) = none) →
        d.Poses s q (c, .marginFalls)) := by
  unfold writeMarginFalls at h
  simp only [succeeds_bind_iff, succeeds_requireVariable_iff, succeeds_ofExcept_iff] at h
  obtain ⟨flow, _, ⟨hflow, rfl⟩, margin, _, ⟨hmargin, rfl⟩, _, a, hbelow, habove⟩ := h
  obtain ⟨hvariable, rfl⟩ := hasVariable_of_variableId? hflow
  obtain ⟨hpa, ha⟩ := continues_addRow_option hbelow
  obtain ⟨haq, hq⟩ := continues_addRow_option habove
  have habout : ∀ (lower upper : Bound K) factor, Statement.IsAbout
      ⟨lower, upper, [(.flow c.id, factor), (.optimizeCnec c.id, d.conditionSlack)]⟩ p :=
    fun _ _ _ => ⟨List.forall_mem_cons.mpr ⟨hvariable, List.forall_mem_singleton.mpr hcounts⟩,
      by simp⟩
  refine ⟨(hpa.mono fun _ hkey => ⟨_, hkey⟩).trans (haq.mono fun _ hkey => ⟨_, hkey⟩), hq.trans ha,
    fun hfresh => ⟨margin, hmargin, ?_⟩⟩
  have hshowsBelow : a.Shows (.dontOptimizeCnec c.id .below) (d.fallsStatement c margin .below) :=
    shows_addRow_option (hfresh .below) (fun _ => habout _ _ _) (.refl p) rfl hbelow
  have hshowsAbove : q.Shows (.dontOptimizeCnec c.id .above) (d.fallsStatement c margin .above) :=
    shows_addRow_option (hpa.rowId?_eq_none (by simp) (hfresh .above)) (fun _ => habout _ _ _)
      hpa.grows rfl habove
  rintro (_ | _)
  · exact hshowsBelow.of_continues haq (by simp)
  · exact hshowsAbove

variable {shifter : RangeAction K}

theorem continues_writeBeyond (h : Succeeds (d.writeBeyond s c shifter counts) p u q) :
    p.Continues (fun key => ∃ side, key = .dontOptimizeCnec c.id side) q ∧
      q.columns = p.columns := by
  unfold writeBeyond at h
  simp only [succeeds_bind_iff, succeeds_requireVariable_iff] at h
  obtain ⟨_, _, ⟨-, rfl⟩, _, _, ⟨-, rfl⟩, _, a, hbelow, habove⟩ := h
  obtain ⟨hpa, ha⟩ := continues_putRow_option hbelow
  obtain ⟨haq, hq⟩ := continues_putRow_option habove
  exact ⟨(hpa.mono fun _ hkey => ⟨_, hkey⟩).trans (haq.mono fun _ hkey => ⟨_, hkey⟩), hq.trans ha⟩

/-- The rows of an element that counts when a phase shifter cannot relieve it are added, or written
anew for other sensitivities. -/
theorem poses_of_writeBeyond (hcounts : p.HasVariable (.optimizeCnec c.id))
    (hp : (∀ side, p.rowId? (.dontOptimizeCnec c.id side) = none) ∨
      d.Poses s' p (c, .beyond shifter))
    (h : Succeeds (d.writeBeyond s c shifter (p.number (.optimizeCnec c.id))) p u q) :
    d.Poses s q (c, .beyond shifter) := by
  -- what is there of either row has the terms that are written
  have hearlier : ∀ side, ∃ statement, p.Shows (.dontOptimizeCnec c.id side) statement ∧
      (c.threshold? side = none → statement = none) ∧
      ∀ earlier ∈ statement, earlier.terms.map Prod.fst =
        [.flow c.id, .setpoint shifter.id, .optimizeCnec c.id] := by
    intro side
    rcases hp with hfresh | hposed
    · exact ⟨none, ⟨row?_eq_none_iff.mpr (hfresh side), by simp⟩, fun _ => rfl, by simp⟩
    · refine ⟨_, hposed side, ?_, ?_⟩
      · cases side <;> simp +contextual [Cnec.threshold?, beyondStatement]
      · cases side <;> simp +contextual [beyondStatement]
  unfold writeBeyond at h
  simp only [succeeds_bind_iff, succeeds_requireVariable_iff] at h
  obtain ⟨flow, _, ⟨hflow, rfl⟩, setpoint, _, ⟨hsetpoint, rfl⟩, _, a, hbelow, habove⟩ := h
  obtain ⟨hvariable, rfl⟩ := hasVariable_of_variableId? hflow
  obtain ⟨hshifter, rfl⟩ := hasVariable_of_variableId? hsetpoint
  obtain ⟨hpa, -⟩ := continues_putRow_option hbelow
  obtain ⟨haq, -⟩ := continues_putRow_option habove
  have habout : ∀ (lower upper : Bound K) a b, Statement.IsAbout ⟨lower, upper,
      [(.flow c.id, a), (.setpoint shifter.id, b), (.optimizeCnec c.id, d.conditionSlack)]⟩ p :=
    fun _ _ _ _ => ⟨List.forall_mem_cons.mpr ⟨hvariable, List.forall_mem_cons.mpr
      ⟨hshifter, List.forall_mem_singleton.mpr hcounts⟩⟩, by simp⟩
  have hshowsBelow : a.Shows (.dontOptimizeCnec c.id .below)
      (d.beyondStatement c shifter (s.get c.id shifter.id) .below) := by
    obtain ⟨statement, hshown, hnone, hnames⟩ := hearlier .below
    exact shows_putRow_option hshown hnone (fun earlier hearlier => (hnames earlier hearlier).symm)
      (fun _ => habout _ _ _ _) (.refl p) rfl hbelow
  have hshowsAbove : q.Shows (.dontOptimizeCnec c.id .above)
      (d.beyondStatement c shifter (s.get c.id shifter.id) .above) := by
    obtain ⟨statement, hshown, hnone, hnames⟩ := hearlier .above
    exact shows_putRow_option (hshown.of_continues hpa (by simp)) hnone
      (fun earlier hearlier => (hnames earlier hearlier).symm) (fun _ => habout _ _ _ _) hpa.grows
      rfl habove
  rintro (_ | _)
  · exact hshowsBelow.of_continues haq (by simp)
  · exact hshowsAbove

/-! ### Elements -/

/-- The variable of an element that counts under a condition, which is zero or one. -/
def countsVariable (entry : Cnec K × Condition K) : Variable K :=
  ⟨.optimizeCnec entry.1.id, .finite 0, .finite 1, .binary⟩

theorem countsVariable_allows_iff {value : K} :
    within (countsVariable entry).lower (countsVariable entry).upper value ∧
      kindAllows (countsVariable entry).kind value ↔ value = 0 ∨ value = 1 := by
  refine and_iff_right_of_imp ?_
  rintro (rfl | rfl)
  · exact ⟨le_rfl, zero_le_one⟩
  · exact ⟨zero_le_one, le_rfl⟩

/-- What an element that counts under a condition adds to a problem. -/
theorem succeeds_write (h : Succeeds (d.write point entry) p u q) :
    p.Continues (RowKey.IsOf entry.1.id) q ∧
      q.columns = p.columns ++ [countsVariable entry] ∧
      ((∀ side, p.rowId? (.dontOptimizeCnec entry.1.id side) = none) →
        d.Poses point.sensitivities q entry) ∧
      ∀ rowKey ∈ marginKeys entry.1.id, ∀ statement, p.Shows rowKey statement →
        (∀ s ∈ statement, .optimizeCnec entry.1.id ∉ s.terms.map Prod.fst) →
          q.Shows rowKey (statement.map (·.relax (.optimizeCnec entry.1.id) d.marginSlack)) := by
  obtain ⟨c, condition⟩ := entry
  unfold write addBinary at h
  simp only [succeeds_bind_iff] at h
  obtain ⟨counts, a, hadd, h⟩ := h
  obtain ⟨hdeclares, rfl⟩ := declares_of_addVariable hadd
  have hpa : p.Continues (fun _ => False) a := continues_addVariable hadd
  obtain ⟨-, -, ha⟩ := succeeds_addVariable hadd
  -- both kinds of conditions leave the rows of the smallest margins as they are
  obtain ⟨b, hab, hb, hposes, hrelax⟩ : ∃ b,
      a.Continues (fun key => ∃ side, key = .dontOptimizeCnec c.id side) b ∧
      b.columns = a.columns ∧
      ((∀ side, a.rowId? (.dontOptimizeCnec c.id side) = none) →
        d.Poses point.sensitivities b (c, condition)) ∧
      Succeeds (d.relaxMargins c (a.number (.optimizeCnec c.id))) b u q := by
    cases condition with
    | marginFalls =>
      simp only [succeeds_bind_iff] at h
      obtain ⟨_, b, hrows, hrelax⟩ := h
      obtain ⟨hab, hb, hposes⟩ := poses_of_writeMarginFalls hdeclares.hasVariable hrows
      exact ⟨b, hab, hb, hposes, hrelax⟩
    | beyond shifter =>
      simp only [succeeds_bind_iff] at h
      obtain ⟨_, b, hrows, hrelax⟩ := h
      obtain ⟨hab, hb⟩ := continues_writeBeyond hrows
      refine ⟨b, hab, hb, fun hfresh => ?_, hrelax⟩
      have hnew : _ ∨ d.Poses point.sensitivities a (c, .beyond shifter) := .inl hfresh
      exact poses_of_writeBeyond hdeclares.hasVariable hnew hrows
  obtain ⟨hvariable, hnumber⟩ := hdeclares.hasVariable.of_extends hab.grows
  rw [← hnumber] at hrelax
  obtain ⟨hbq, hq, hshows⟩ := shows_relaxMargins hvariable hrelax
  have hmargins : ∀ side, RowKey.dontOptimizeCnec c.id side ∉ marginKeys c.id := by
    simp [marginKeys]
  have hconditions : ∀ rowKey ∈ marginKeys c.id, ¬∃ side, rowKey = .dontOptimizeCnec c.id side := by
    simp [marginKeys]
  refine ⟨?_, by rw [hq, hb, ha]; rfl, fun hfresh => ?_, fun rowKey hkey statement hp hne => ?_⟩
  · refine hpa.of_untouched.trans ((hab.mono ?_).trans (hbq.mono ?_))
    · rintro _ ⟨side, rfl⟩
      rfl
    · simp [marginKeys, RowKey.IsOf]
  · exact (hposes fun side => hpa.rowId?_eq_none not_false (hfresh side)).of_continues hbq hmargins
  · have hb := (hp.of_continues hpa not_false).of_continues hab (hconditions rowKey hkey)
    exact hshows rowKey hkey statement hb hne

/-- An adaptation writes the rows of an element's condition for new sensitivities. -/
theorem succeeds_adapt (h : Succeeds (d.adapt point entry) p u q) :
    p.Continues (RowKey.IsOf entry.1.id) q ∧ q.columns = p.columns ∧
      ∀ s, d.Poses s p entry → d.Poses point.sensitivities q entry := by
  obtain ⟨c, condition⟩ := entry
  unfold adapt at h
  cases condition with
  | marginFalls =>
    obtain ⟨-, rfl⟩ := succeeds_pure_iff.mp h
    exact ⟨.refl _, rfl, fun _ => id⟩
  | beyond shifter =>
    simp only [succeeds_bind_iff, succeeds_requireVariable_iff] at h
    obtain ⟨counts, _, ⟨hcounts, rfl⟩, hrows⟩ := h
    obtain ⟨hvariable, rfl⟩ := hasVariable_of_variableId? hcounts
    obtain ⟨hq, hcolumns⟩ := continues_writeBeyond hrows
    refine ⟨hq.mono ?_, hcolumns, fun s hp => poses_of_writeBeyond hvariable (.inr hp) hrows⟩
    rintro _ ⟨side, rfl⟩
    rfl

/-! ### The part -/

theorem isOf_of_mem_marginKeys {id : String} (h : rowKey ∈ marginKeys id) : rowKey.IsOf id := by
  revert h
  simp only [marginKeys, List.mem_cons, List.not_mem_nil, or_false]
  rintro (rfl | rfl | rfl | rfl) <;> rfl

theorem isOf_dontOptimizeCnec (id : String) (side : ThresholdSide) :
    (RowKey.dontOptimizeCnec id side).IsOf id := rfl

/-- A row belongs to one element. -/
theorem eq_of_isOf {id other : String} (h : rowKey.IsOf id) (hother : rowKey.IsOf other) :
    id = other := by
  cases rowKey with
  | dontOptimizeCnec | minimumMargin | minimumRelativeMargin => exact h.symm.trans hother
  | _ => exact h.elim

omit [ExactScalar K] in
/-- The rows of an element do not belong to elements of other names. -/
theorem not_isOf_others {id : String} (h : rowKey.IsOf id)
    (entries : List (Cnec K × Condition K)) :
    ¬∃ other ∈ entries, other.1.id ≠ id ∧ rowKey.IsOf other.1.id := by
  rintro ⟨other, -, hne, hother⟩
  exact hne (eq_of_isOf hother h)

variable {cnecs : List (Cnec K)} {rangeActions : List (RangeAction K)} {initial : Flows K}
  {parameters : UnoptimizedParameters K} {condition : Condition K}

omit [ExactScalar K] in
/-- The elements of a perimeter that count under a condition. -/
theorem mem_ofParameters_iff [Scalar K] :
    entry ∈ (ofParameters cnecs rangeActions initial parameters).cnecs ↔
      entry.1 ∈ cnecs ∧ condition? rangeActions parameters entry.1 = some entry.2 := by
  change entry ∈ cnecs.filterMap (fun c => (condition? rangeActions parameters c).map (c, ·)) ↔ _
  simp only [List.mem_filterMap, Option.map_eq_some_iff]
  constructor
  · rintro ⟨c, hc, condition, hcondition, rfl⟩
    exact ⟨hc, hcondition⟩
  · rintro ⟨hc, hcondition⟩
    exact ⟨entry.1, hc, entry.2, hcondition, rfl⟩

omit [ExactScalar K] in
theorem nodup_ofParameters [Scalar K] (hids : (cnecs.map Cnec.id).Nodup) :
    ((ofParameters cnecs rangeActions initial parameters).cnecs.map (·.1.id)).Nodup := by
  refine hids.sublist ?_
  change List.Sublist ((cnecs.filterMap fun c =>
    (condition? rangeActions parameters c).map (c, ·)).map (·.1.id)) (cnecs.map Cnec.id)
  clear hids
  induction cnecs with
  | nil => exact .slnil
  | cons c cnecs ih =>
    cases hcondition : condition? rangeActions parameters c with
    | none => simpa [hcondition] using ih.cons c.id
    | some condition => simpa [hcondition] using ih

/-- What the elements need before they are written, in a problem that has nothing of them yet. -/
structure Awaits (d : Conditional K) (entries : List (Cnec K × Condition K))
    (p : LinearProblem K) : Prop where
  flows : ∀ entry ∈ entries, p.HasVariable (.flow entry.1.id)
  setpoints : ∀ entry ∈ entries, ∀ shifter, entry.2 = .beyond shifter →
    p.HasVariable (.setpoint shifter.id)
  known : ∀ entry ∈ entries, entry.2 = .marginFalls →
    ∃ margin, d.initial.margin entry.1 .megawatt = .ok margin
  variables_new : ∀ entry ∈ entries, p.variableId? (.optimizeCnec entry.1.id) = none
  rows_new : ∀ entry ∈ entries, ∀ side, p.rowId? (.dontOptimizeCnec entry.1.id side) = none

/-- A problem still awaits the elements after other variables and rows have been added. -/
theorem Awaits.of_continues {entries : List (Cnec K × Condition K)} {columns : List (Variable K)}
    (h : d.Awaits entries p) (hq : p.Continues touched q)
    (hcolumns : q.columns = p.columns ++ columns)
    (hother : ∀ data ∈ columns, ∀ id, data.key ≠ .optimizeCnec id)
    (hapart : ∀ id side, ¬touched (.dontOptimizeCnec id side)) : d.Awaits entries q where
  flows entry hentry := ((h.flows entry hentry).of_extends hq.grows).1
  setpoints entry hentry shifter hshifter :=
    ((h.setpoints entry hentry shifter hshifter).of_extends hq.grows).1
  known := h.known
  variables_new entry hentry :=
    variableId?_eq_none_of_columns hcolumns (h.variables_new entry hentry) fun data hdata =>
      hother data hdata _
  rows_new entry hentry side := hq.rowId?_eq_none (hapart _ side) (h.rows_new entry hentry side)

/-- What the elements that count under a condition leave: a variable of each element, the rows of
its condition, and its relaxed rows. -/
theorem succeeds_fill (hids : (d.cnecs.map (·.1.id)).Nodup)
    (hnew : ∀ entry ∈ d.cnecs, ∀ side, p.rowId? (.dontOptimizeCnec entry.1.id side) = none)
    (h : Succeeds (d.part.fill point) p u q) :
    p.Continues (fun key => ∃ entry ∈ d.cnecs, key.IsOf entry.1.id) q ∧
      q.columns = p.columns ++ d.cnecs.map countsVariable ∧
      (∀ entry ∈ d.cnecs, d.Poses point.sensitivities q entry) ∧
      ∀ entry ∈ d.cnecs, ∀ rowKey ∈ marginKeys entry.1.id, ∀ statement, p.Shows rowKey statement →
        (∀ s ∈ statement, .optimizeCnec entry.1.id ∉ s.terms.map Prod.fst) →
          q.Shows rowKey (statement.map (·.relax (.optimizeCnec entry.1.id) d.marginSlack)) := by
  have hfill : Succeeds (d.cnecs.forM (d.write point)) p u q := h
  have hstep : ∀ entry ∈ d.cnecs, ∀ s t, Succeeds (d.write point entry) s ⟨⟩ t →
      s.Continues (RowKey.IsOf entry.1.id) t := fun entry _ s t ht => (succeeds_write ht).1
  refine ⟨continues_forM hfill fun entry hentry s t ht =>
      (hstep entry hentry s t ht).mono fun _ hkey => ⟨entry, hentry, hkey⟩,
    List.map_eq_flatMap ▸ columns_forM hfill fun entry _ s t ht => (succeeds_write ht).2.1,
    fun entry hentry => ?_, fun entry hentry rowKey hkey statement hp hne => ?_⟩
  · obtain ⟨s, t, hs, hturn, ht⟩ := exists_turn hfill hids hstep hentry
    have hapart : ∀ side, ¬∃ other ∈ d.cnecs, other.1.id ≠ entry.1.id ∧
        (RowKey.dontOptimizeCnec entry.1.id side).IsOf other.1.id :=
      fun side => not_isOf_others (isOf_dontOptimizeCnec _ side) _
    have hposes := (succeeds_write hturn).2.2.1 fun side =>
      hs.rowId?_eq_none (hapart side) (hnew entry hentry side)
    exact hposes.of_continues ht hapart
  · obtain ⟨s, t, hs, hturn, ht⟩ := exists_turn hfill hids hstep hentry
    have hapart := not_isOf_others (isOf_of_mem_marginKeys hkey) d.cnecs
    have hrelaxed :=
      (succeeds_write hturn).2.2.2 rowKey hkey statement (hp.of_continues hs hapart) hne
    exact hrelaxed.of_continues ht hapart

/-- After an adaptation the rows of all conditions are those for the new sensitivities. -/
theorem poses_of_refresh {iteration : Nat} (hids : (d.cnecs.map (·.1.id)).Nodup)
    (hp : ∀ entry ∈ d.cnecs, d.Poses s p entry)
    (h : Succeeds (d.part.refresh point iteration) p u q) :
    ∀ entry ∈ d.cnecs, d.Poses point.sensitivities q entry := by
  intro entry hentry
  have hrefresh : Succeeds (d.cnecs.forM (d.adapt point)) p u q := h
  obtain ⟨a, b, ha, hturn, hb⟩ := exists_turn hrefresh hids
    (fun entry _ s t ht => (succeeds_adapt ht).1) hentry
  have hapart : ∀ side, ¬∃ other ∈ d.cnecs, other.1.id ≠ entry.1.id ∧
      (RowKey.dontOptimizeCnec entry.1.id side).IsOf other.1.id :=
    fun side => not_isOf_others (isOf_dontOptimizeCnec _ side) _
  have hposes := (succeeds_adapt hturn).2.2 s ((hp entry hentry).of_continues ha hapart)
  exact hposes.of_continues hb hapart

/-- An adaptation adds no variables. -/
theorem columns_of_refresh {iteration : Nat} (h : Succeeds (d.part.refresh point iteration) p u q) :
    q.columns = p.columns := by
  have hrefresh : Succeeds (d.cnecs.forM (d.adapt point)) p u q := h
  exact hrefresh.forM_induction (P := fun t => t.columns = p.columns)
    (fun entry _ s t hs ht => (succeeds_adapt ht).2.1.trans hs) rfl

/-! ### Success -/

theorem exists_succeeds_relaxRow : ∃ q, Succeeds (d.relaxRow counts rowKey) p ⟨⟩ q := by
  unfold relaxRow
  simp only [succeeds_bind_iff, succeeds_rowId?_iff]
  cases hi : p.rowId? rowKey with
  | none => exact ⟨p, none, p, ⟨rfl, rfl⟩, succeeds_pure_iff.mpr ⟨rfl, rfl⟩⟩
  | some i =>
    refine ⟨(p.setCoefficient i counts d.marginSlack).setRowUpper i
      ((p.rowBounds i).2.shift d.marginSlack), some i, p, ⟨rfl, rfl⟩, ?_⟩
    simp only [succeeds_bind_iff, succeeds_get_iff]
    exact ⟨p, p, ⟨rfl, rfl⟩, ⟨⟩, _, succeeds_modify_iff.mpr rfl, succeeds_modify_iff.mpr rfl⟩

theorem exists_succeeds_relaxMargins : ∃ q, Succeeds (d.relaxMargins c counts) p ⟨⟩ q := by
  refine exists_succeeds_forM (P := fun _ _ => True) (fun side _ s _ => ?_) trivial
  obtain ⟨a, ha⟩ : ∃ a, Succeeds (d.relaxRow counts (.minimumMargin c.id side)) s ⟨⟩ a :=
    exists_succeeds_relaxRow
  obtain ⟨b, hb⟩ : ∃ b, Succeeds (d.relaxRow counts (.minimumRelativeMargin c.id side)) a ⟨⟩ b :=
    exists_succeeds_relaxRow
  exact ⟨b, succeeds_bind_iff.mpr ⟨⟨⟩, a, ha, hb⟩, trivial⟩

theorem isInterval_lower (bound : K) : Bound.isInterval (.ofScalar bound) .posInf = true := by
  simp

/-- The rows of an element that counts when its margin falls can be added. -/
theorem exists_succeeds_writeMarginFalls {margin : K} (hflow : p.HasVariable (.flow c.id))
    (hmargin : d.initial.margin c .megawatt = .ok margin)
    (hnew : ∀ side, p.rowId? (.dontOptimizeCnec c.id side) = none) :
    ∃ q, Succeeds (d.writeMarginFalls c counts) p ⟨⟩ q := by
  obtain ⟨a, ha⟩ := exists_succeeds_addRow_option c.lower
    [(p.number (.flow c.id), 1), (counts, d.conditionSlack)] (hnew .below)
    fun lower => isInterval_lower (margin + lower)
  obtain ⟨b, hb⟩ := exists_succeeds_addRow_option c.upper
    [(p.number (.flow c.id), -1), (counts, d.conditionSlack)]
    (rowId?_eq_none_of_addRow_option ha (hnew .above) (by simp))
    fun upper => isInterval_lower (margin - upper)
  refine ⟨b, ?_⟩
  unfold writeMarginFalls
  simp only [succeeds_bind_iff, succeeds_requireVariable_iff, succeeds_ofExcept_iff]
  exact ⟨_, p, ⟨hflow, rfl⟩, margin, p, ⟨hmargin, rfl⟩, ⟨⟩, a, ha, hb⟩

/-- The rows of an element that counts when a phase shifter cannot relieve it can be written. -/
theorem exists_succeeds_writeBeyond (s : Sensitivities K) (hflow : p.HasVariable (.flow c.id))
    (hsetpoint : p.HasVariable (.setpoint shifter.id)) :
    ∃ q, Succeeds (d.writeBeyond s c shifter counts) p ⟨⟩ q := by
  let sensitivity := s.get c.id shifter.id
  obtain ⟨a, ha⟩ := exists_succeeds_putRow_option (p := p) c.lower
    [(p.number (.flow c.id), 1), (p.number (.setpoint shifter.id), -sensitivity),
      (counts, d.conditionSlack)]
    fun lower => isInterval_lower (lower - greatestContribution shifter sensitivity)
  obtain ⟨b, hb⟩ := exists_succeeds_putRow_option (p := a) c.upper
    [(p.number (.flow c.id), -1), (p.number (.setpoint shifter.id), sensitivity),
      (counts, d.conditionSlack)]
    fun upper => isInterval_lower (-upper + leastContribution shifter sensitivity)
  refine ⟨b, ?_⟩
  unfold writeBeyond
  simp only [succeeds_bind_iff, succeeds_requireVariable_iff]
  exact ⟨_, p, ⟨hflow, rfl⟩, _, p, ⟨hsetpoint, rfl⟩, ⟨⟩, a, ha, hb⟩

/-- The elements that count under a condition can be added to a problem that has nothing of them. -/
theorem exists_succeeds_fill (point : Linearization K) (hids : (d.cnecs.map (·.1.id)).Nodup)
    (hp : d.Awaits d.cnecs p) : ∃ q, Succeeds (d.part.fill point) p ⟨⟩ q := by
  refine exists_succeeds_forM
    (P := fun rest s => (rest.map (·.1.id)).Nodup ∧ d.Awaits rest s) ?_ ⟨hids, hp⟩
  rintro ⟨c, condition⟩ rest s ⟨hnodup, hs⟩
  obtain ⟨hfresh, hrest⟩ := List.nodup_cons.mp hnodup
  have hhead : (c, condition) ∈ (c, condition) :: rest := List.mem_cons_self
  have hbounds : Bound.isInterval (.finite (0 : K)) (.finite 1) = true := by simp
  obtain ⟨a, hadd⟩ := exists_succeeds_addVariable .binary (hs.variables_new _ hhead) hbounds
  have hsa : s.Continues (fun _ => False) a := continues_addVariable hadd
  have hflow := ((hs.flows _ hhead).of_extends hsa.grows).1
  have hrelax : ∀ b, ∃ t, Succeeds (d.relaxMargins c s.columns.length) b ⟨⟩ t :=
    fun b => exists_succeeds_relaxMargins
  obtain ⟨t, hturn⟩ : ∃ t, Succeeds (d.write point (c, condition)) s ⟨⟩ t := by
    unfold write addBinary
    simp only [succeeds_bind_iff]
    cases condition with
    | marginFalls =>
      obtain ⟨margin, hmargin⟩ := hs.known _ hhead rfl
      obtain ⟨b, hrows⟩ := exists_succeeds_writeMarginFalls hflow hmargin fun side =>
        hsa.rowId?_eq_none not_false (hs.rows_new _ hhead side)
      obtain ⟨t, ht⟩ := hrelax b
      exact ⟨t, _, a, hadd, succeeds_bind_iff.mpr ⟨_, b, hrows, ht⟩⟩
    | beyond shifter =>
      obtain ⟨b, hrows⟩ := exists_succeeds_writeBeyond point.sensitivities hflow
        ((hs.setpoints _ hhead shifter rfl).of_extends hsa.grows).1
      obtain ⟨t, ht⟩ := hrelax b
      exact ⟨t, _, a, hadd, succeeds_bind_iff.mpr ⟨_, b, hrows, ht⟩⟩
  obtain ⟨hst, hcolumns, -⟩ := succeeds_write hturn
  have hne : ∀ entry ∈ rest, c.id ≠ entry.1.id := fun entry hentry heq =>
    hfresh (List.mem_map.mpr ⟨entry, hentry, heq.symm⟩)
  refine ⟨t, hturn, hrest, ?_⟩
  constructor
  · exact fun entry hentry =>
      ((hs.flows entry (List.mem_cons_of_mem _ hentry)).of_extends hst.grows).1
  · exact fun entry hentry shifter hshifter =>
      ((hs.setpoints entry (List.mem_cons_of_mem _ hentry) shifter hshifter).of_extends hst.grows).1
  · exact fun entry hentry => hs.known entry (List.mem_cons_of_mem _ hentry)
  · intro entry hentry
    refine variableId?_eq_none_of_columns hcolumns
      (hs.variables_new entry (List.mem_cons_of_mem _ hentry)) ?_
    simpa [countsVariable] using hne entry hentry
  · intro entry hentry side
    refine hst.rowId?_eq_none (fun hsame => hne entry hentry ?_)
      (hs.rows_new entry (List.mem_cons_of_mem _ hentry) side)
    exact eq_of_isOf hsame (isOf_dontOptimizeCnec _ side)

/-- The conditions can be adapted in a problem that has the variables of all elements. -/
theorem exists_succeeds_refresh (point : Linearization K) (iteration : Nat)
    (hflows : ∀ entry ∈ d.cnecs, p.HasVariable (.flow entry.1.id))
    (hsetpoints : ∀ entry ∈ d.cnecs, ∀ shifter, entry.2 = .beyond shifter →
      p.HasVariable (.setpoint shifter.id))
    (hcounts : ∀ entry ∈ d.cnecs, p.HasVariable (.optimizeCnec entry.1.id)) :
    ∃ q, Succeeds (d.part.refresh point iteration) p ⟨⟩ q := by
  refine exists_succeeds_forM (P := fun rest s => (∀ entry ∈ rest, entry ∈ d.cnecs) ∧
    s.columns = p.columns) ?_ ⟨fun _ => id, rfl⟩
  rintro ⟨c, condition⟩ rest s ⟨hrest, hs⟩
  have hentry := hrest _ List.mem_cons_self
  obtain ⟨t, ht⟩ : ∃ t, Succeeds (d.adapt point (c, condition)) s ⟨⟩ t := by
    cases condition with
    | marginFalls => exact ⟨s, succeeds_pure_iff.mpr ⟨rfl, rfl⟩⟩
    | beyond shifter =>
      obtain ⟨t, ht⟩ := exists_succeeds_writeBeyond (d := d) (p := s) point.sensitivities
        ((hasVariable_congr hs).mpr (hflows _ hentry))
        ((hasVariable_congr hs).mpr (hsetpoints _ hentry shifter rfl))
      refine ⟨t, ?_⟩
      unfold adapt
      simp only [succeeds_bind_iff, succeeds_requireVariable_iff]
      exact ⟨_, s, ⟨(hasVariable_congr hs).mpr (hcounts _ hentry), rfl⟩, ht⟩
  exact ⟨t, ht, fun entry h => hrest entry (List.mem_cons_of_mem _ h),
    (succeeds_adapt ht).2.1.trans hs⟩

end Conditional

end GridRelief
