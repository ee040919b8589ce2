import GridRelief.Formulation
import GridRelief.Proofs.Formulation.Steps

/-!
# How the parts let a problem grow

Writing a part adds variables and rows. Adapting one changes rows that the part has written, and an
element that counts under a condition relaxes the rows of the smallest margins. All other rows stay
as they were written, whatever linearisations follow.

* `Movement.part_extends` and its likes: which rows a part adapts.
* `RowKey.IsAdapted`: the names of the rows that some part adapts.
* `Formulation.extends_of_mem_parts`: the parts of a formulation adapt no other rows.
-/

namespace GridRelief

open Writing LinearProblem

variable {K : Type} [Scalar K] {touched : RowKey → Prop} {p q : LinearProblem K} {u : PUnit}

/-! ### Set-points and flows -/

namespace Movement

variable {m : Movement K} {r : RangeAction K} {c : Cnec K} {point : Linearization K}

theorem extends_writeSetpoint (h : Succeeds (m.writeSetpoint r) p u q) : p.Extends touched q := by
  unfold writeSetpoint at h
  simp only [succeeds_bind_iff, succeeds_ofExcept_iff] at h
  obtain ⟨_, _, ⟨-, rfl⟩, _, _, hsetpoint, _, _, hdistance, _, _, hnegative, _, _, hpositive,
    hobjective⟩ := h
  refine (extends_addVariable hsetpoint).trans ?_
  refine (extends_addVariable hdistance).trans ?_
  refine (extends_addRow hnegative).trans ?_
  refine (extends_addRow hpositive).trans ?_
  exact extends_setObjective hobjective

theorem extends_shrinkRange {activation : Activation K} {iteration : Nat}
    (htouched : touched (.shrink r.id)) (h : Succeeds (shrinkRange activation iteration r) p u q) :
    p.Extends touched q := by
  unfold shrinkRange at h
  simp only [succeeds_bind_iff, succeeds_ofExcept_iff, succeeds_rowId?_iff] at h
  obtain ⟨_, _, ⟨-, rfl⟩, _, _, ⟨hrow, rfl⟩, h⟩ := h
  split at h
  · exact extends_setRowBounds (namesRow_of_rowId? hrow) htouched h
  · simp only [succeeds_bind_iff, succeeds_requireVariable_iff, succeeds_pure_iff] at h
    obtain ⟨_, _, ⟨-, rfl⟩, _, _, hadd, -, rfl⟩ := h
    exact extends_addRow hadd

theorem extends_writeFlow (h : Succeeds (writeFlow point c) p u q) : p.Extends touched q := by
  unfold writeFlow at h
  simp only [succeeds_bind_iff, succeeds_ofExcept_iff, succeeds_pure_iff] at h
  obtain ⟨_, _, hflow, _, _, ⟨-, rfl⟩, _, _, hrow, -, rfl⟩ := h
  exact (extends_addVariable hflow).trans (extends_addRow hrow)

theorem extends_writeTerm {row : RowId} {constant answer : K} (hrow : p.NamesRow row (.flow c.id))
    (htouched : touched (.flow c.id))
    (h : Succeeds (m.writeTerm point c row constant r) p answer q) : p.Extends touched q := by
  unfold writeTerm at h
  simp only [succeeds_bind_iff, succeeds_requireVariable_iff] at h
  obtain ⟨_, _, ⟨-, rfl⟩, h⟩ := h
  split at h
  · simp only [succeeds_bind_iff, succeeds_ofExcept_iff, succeeds_pure_iff] at h
    obtain ⟨_, _, ⟨-, rfl⟩, _, _, hset, -, rfl⟩ := h
    exact extends_setCoefficient hrow htouched hset
  · simp only [succeeds_bind_iff, succeeds_pure_iff] at h
    obtain ⟨_, _, hset, -, rfl⟩ := h
    exact extends_setCoefficient hrow htouched hset

theorem extends_adaptFlow (htouched : touched (.flow c.id))
    (h : Succeeds (m.adaptFlow point c) p u q) : p.Extends touched q := by
  unfold adaptFlow at h
  simp only [succeeds_bind_iff, succeeds_requireRow_iff, succeeds_ofExcept_iff] at h
  obtain ⟨row, _, ⟨hrow, rfl⟩, _, _, ⟨-, rfl⟩, _, s, hterms, hbounds⟩ := h
  have hnames := namesRow_of_rowId? hrow
  have hgrows : p.Extends touched s := by
    refine hterms.foldlM_induction (P := p.Extends touched) ?_ (.refl p)
    intro r _ constant answer s t hs ht
    exact hs.trans (extends_writeTerm (hnames.of_extends hs) htouched ht)
  exact hgrows.trans (extends_setRowBounds (hnames.of_extends hgrows) htouched hbounds)

/-- Set-points and flows adapt rows of flows and of shrinking ranges. -/
theorem part_extends (hflow : ∀ c, touched (.flow c)) (hshrink : ∀ r, touched (.shrink r)) :
    m.part.Extends touched := by
  have hadapt : ∀ {point : Linearization K} {p q : LinearProblem K} {u : PUnit},
      Succeeds (m.cnecs.forM (m.adaptFlow point)) p u q → p.Extends touched q := by
    intro point p q u h
    exact extends_forM h fun c _ s t _ ht => extends_adaptFlow (hflow c.id) ht
  constructor
  · intro point p u q h
    unfold part at h
    simp only [succeeds_bind_iff] at h
    obtain ⟨_, _, hsetpoints, _, _, hflows, hadapts⟩ := h
    refine (extends_forM hsetpoints fun r _ s t _ ht => extends_writeSetpoint ht).trans ?_
    refine (extends_forM hflows fun c _ s t _ ht => extends_writeFlow ht).trans ?_
    exact hadapt hadapts
  · intro point iteration p u q h
    unfold part at h
    simp only [succeeds_bind_iff] at h
    obtain ⟨_, _, hadapts, h⟩ := h
    refine (hadapt hadapts).trans ?_
    split at h
    · exact extends_forM h fun r _ s t _ ht => extends_shrinkRange (hshrink r.id) ht
    · exact extends_pure h
  · intro activation p u q h
    exact extends_pure h

end Movement

/-! ### Tap moves -/

namespace TapMoves

variable {activation : Activation K} {r : RangeAction K} {conversion : RowId} {moves : VariableId}

theorem extends_writeStep {room : Int} {step : Except (Fault K) K}
    (hrow : p.NamesRow conversion (.tapToAngle r.id)) (htouched : touched (.tapToAngle r.id))
    (h : Succeeds (writeStep conversion moves room step) p u q) : p.Extends touched q := by
  unfold writeStep at h
  split at h
  · simp only [succeeds_bind_iff, succeeds_ofExcept_iff] at h
    obtain ⟨_, _, ⟨-, rfl⟩, hset⟩ := h
    exact extends_setCoefficient hrow htouched hset
  · exact extends_pure h

/-- Writing the moves of a phase shifter adds a variable for each direction. -/
theorem extends_write_and_hasVariable (htouched : touched (.tapToAngle r.id))
    (h : Succeeds (write activation r) p u q) :
    p.Extends touched q ∧ ∀ direction, q.HasVariable (.tapVariation r.id direction) := by
  unfold write addBinary at h
  simp only [succeeds_bind_iff, succeeds_ofExcept_iff, succeeds_requireVariable_iff,
    succeeds_pure_iff, and_assoc, exists_and_left, exists_eq_left'] at h
  obtain ⟨_, -, _, -, _, a, hdown, _, b, hup, _, _, hmovesDown, _, _, hmovesUp, _, -, _, s,
    hconversion, _, t, hbelow, _, _, habove, _, _, hupOrDown, _, _, hdownward, _, last, hupward, -,
    rfl⟩ := h
  have hnames := namesRow_of_addRow hconversion
  have hst : s.Extends touched t := extends_writeStep hnames htouched hbelow
  have hab : a.Extends touched b := extends_addVariable hup
  have hbq : b.Extends touched last := by
    refine (extends_addVariable hmovesDown).trans ?_
    refine (extends_addVariable hmovesUp).trans ?_
    refine (extends_addRow hconversion).trans ?_
    refine hst.trans ?_
    refine (extends_writeStep (hnames.of_extends hst) htouched habove).trans ?_
    refine (extends_addRow hupOrDown).trans ?_
    refine (extends_addRow hdownward).trans ?_
    exact extends_addRow hupward
  refine ⟨(extends_addVariable hdown).trans (hab.trans hbq), fun direction => ?_⟩
  cases direction with
  | upward => exact ((declares_of_addVariable hup).1.hasVariable.of_extends hbq).1
  | downward => exact ((declares_of_addVariable hdown).1.hasVariable.of_extends (hab.trans hbq)).1

theorem extends_write (htouched : touched (.tapToAngle r.id))
    (h : Succeeds (write activation r) p u q) : p.Extends touched q :=
  (extends_write_and_hasVariable htouched h).1

theorem extends_adaptStep {step : Except (Fault K) K}
    (hrow : p.NamesRow conversion (.tapToAngle r.id)) (htouched : touched (.tapToAngle r.id))
    (h : Succeeds (adaptStep conversion moves step) p u q) : p.Extends touched q := by
  unfold adaptStep at h
  split at h
  · exact extends_setCoefficient hrow htouched h
  · exact extends_pure h

theorem extends_adapt (hconversion : touched (.tapToAngle r.id))
    (hdirection : ∀ d, touched (.variationInDirection r.id d))
    (h : Succeeds (adapt activation r) p u q) : p.Extends touched q := by
  unfold adapt at h
  simp only [succeeds_bind_iff, succeeds_ofExcept_iff, succeeds_requireVariable_iff,
    succeeds_requireRow_iff, and_assoc, exists_and_left, exists_eq_left'] at h
  obtain ⟨_, -, _, hrow, _, -, _, -, _, -, _, -, _, hupward, _, hdownward, _, s, hbounds, _, -, _,
    -, _, t, hup, _, -, _, t', hdown, _, t'', hsetDown, hsetUp⟩ := h
  have hnames := namesRow_of_rowId? hrow
  have hs : p.Extends touched s := extends_setRowBounds hnames hconversion hbounds
  have ht : p.Extends touched t :=
    hs.trans (extends_adaptStep (hnames.of_extends hs) hconversion hup)
  have ht' : p.Extends touched t' :=
    ht.trans (extends_adaptStep (hnames.of_extends ht) hconversion hdown)
  have ht'' : p.Extends touched t'' := by
    have hdownward := (namesRow_of_rowId? hdownward).of_extends ht'
    exact ht'.trans (extends_setCoefficient hdownward (hdirection _) hsetDown)
  have hupward := (namesRow_of_rowId? hupward).of_extends ht''
  exact ht''.trans (extends_setCoefficient hupward (hdirection _) hsetUp)

/-- Tap moves adapt the rows that tell an angle from moves and the room for moves. -/
theorem part_extends {rangeActions : List (RangeAction K)}
    (hconversion : ∀ r, touched (.tapToAngle r))
    (hdirection : ∀ r d, touched (.variationInDirection r d)) :
    (part rangeActions).Extends touched := by
  constructor
  · intro point p u q h
    exact extends_forM h fun r _ s t _ ht => extends_write (hconversion r.id) ht
  · intro point iteration p u q h
    exact extends_forM h fun r _ s t _ ht => extends_adapt (hconversion r.id) (hdirection r.id) ht
  · intro activation p u q h
    exact extends_forM h fun r _ s t _ ht => extends_adapt (hconversion r.id) (hdirection r.id) ht

end TapMoves

/-! ### Smallest margins -/

namespace Margin

theorem extends_writeRows {cnecs : List (Cnec K)} {margin : VariableId}
    {name : String → ThresholdSide → RowKey} {factor : Cnec K → K}
    (h : Succeeds (writeRows cnecs margin name factor) p u q) : p.Extends touched q := by
  refine extends_forM h fun c _ s t _ ht => ?_
  simp only [succeeds_bind_iff, succeeds_requireVariable_iff] at ht
  obtain ⟨_, _, ⟨-, rfl⟩, _, _, hlower, hupper⟩ := ht
  refine (extends_forM_option hlower fun _ _ hrow => extends_addRow_pure hrow).trans ?_
  exact extends_forM_option hupper fun _ _ hrow => extends_addRow_pure hrow

/-- The smallest margin adapts no rows. -/
theorem absolutePart_extends {cnecs : List (Cnec K)} {unit : FlowUnit} :
    (absolutePart cnecs unit).Extends touched := by
  constructor
  · intro point p u q h
    unfold absolutePart writeAbsoluteRows at h
    simp only [succeeds_bind_iff] at h
    obtain ⟨_, _, hmargin, _, _, hrows, hobjective⟩ := h
    refine (extends_addVariable hmargin).trans ?_
    exact (extends_writeRows hrows).trans (extends_setObjective hobjective)
  · intro point iteration p u q h
    exact extends_pure h
  · intro activation p u q h
    exact extends_pure h

/-- The smallest relative margin adapts no rows. -/
theorem relativePart_extends {cnecs : List (Cnec K)} {initial : Flows K} {unit : FlowUnit}
    {floor : K} : (relativePart cnecs initial unit floor).Extends touched := by
  constructor
  · intro point p u q h
    unfold relativePart writeAbsoluteRows at h
    simp only [succeeds_bind_iff] at h
    obtain ⟨_, _, hmargin, _, _, hrelative, _, _, hrows, _, _, hrelativeRows, _, _, hobjective,
      hrelativeObjective⟩ := h
    refine (extends_addVariable hmargin).trans ?_
    refine (extends_addVariable hrelative).trans ?_
    refine (extends_writeRows hrows).trans ?_
    refine (extends_writeRows hrelativeRows).trans ?_
    exact (extends_setObjective hobjective).trans (extends_setObjective hrelativeObjective)
  · intro point iteration p u q h
    exact extends_pure h
  · intro activation p u q h
    exact extends_pure h

end Margin

/-! ### Elements that count under a condition -/

namespace Conditional

variable {d : Conditional K} {c : Cnec K} {counts : VariableId}

theorem extends_writeMarginFalls (h : Succeeds (d.writeMarginFalls c counts) p u q) :
    p.Extends touched q := by
  unfold writeMarginFalls at h
  simp only [succeeds_bind_iff, succeeds_requireVariable_iff, succeeds_ofExcept_iff] at h
  obtain ⟨_, _, ⟨-, rfl⟩, _, _, ⟨-, rfl⟩, _, _, hlower, hupper⟩ := h
  refine (extends_forM_option hlower fun _ _ hrow => extends_addRow_pure hrow).trans ?_
  exact extends_forM_option hupper fun _ _ hrow => extends_addRow_pure hrow

theorem extends_writeBeyond {s : Sensitivities K} {shifter : RangeAction K}
    (htouched : ∀ side, touched (.dontOptimizeCnec c.id side))
    (h : Succeeds (d.writeBeyond s c shifter counts) p u q) : p.Extends touched q := by
  unfold writeBeyond at h
  simp only [succeeds_bind_iff, succeeds_requireVariable_iff] at h
  obtain ⟨_, _, ⟨-, rfl⟩, _, _, ⟨-, rfl⟩, _, _, hlower, hupper⟩ := h
  refine (extends_forM_option hlower fun _ _ hrow => extends_putRow (htouched _) hrow).trans ?_
  exact extends_forM_option hupper fun _ _ hrow => extends_putRow (htouched _) hrow

theorem extends_relaxRow {key : RowKey} (htouched : touched key)
    (h : Succeeds (d.relaxRow counts key) p u q) : p.Extends touched q := by
  unfold relaxRow at h
  simp only [succeeds_bind_iff, succeeds_rowId?_iff] at h
  obtain ⟨_, _, ⟨hrow, rfl⟩, h⟩ := h
  split at h
  · simp only [succeeds_bind_iff, succeeds_get_iff, succeeds_modify_iff] at h
    obtain ⟨_, _, ⟨rfl, rfl⟩, _, s, hset, rfl⟩ := h
    have hnames := namesRow_of_rowId? hrow
    have hs : p.Extends touched s := extends_setCoefficient hnames htouched hset
    exact hs.trans ((hnames.of_extends hs).extends_setRowUpper htouched _)
  · exact extends_pure h

/-- An element that counts under a condition adapts the rows of its condition and of its smallest
margins. -/
theorem part_extends (hcondition : ∀ c side, touched (.dontOptimizeCnec c side))
    (hmargin : ∀ c side, touched (.minimumMargin c side))
    (hrelative : ∀ c side, touched (.minimumRelativeMargin c side)) :
    d.part.Extends touched := by
  constructor
  · intro point p u q h
    refine extends_forM h fun entry _ s t _ ht => ?_
    unfold write addBinary at ht
    obtain ⟨c, condition⟩ := entry
    simp only [succeeds_bind_iff] at ht
    obtain ⟨counts, _, hcounts, ht⟩ := ht
    refine (extends_addVariable hcounts).trans ?_
    have hrelax : ∀ {s t : LinearProblem K} {u : PUnit},
        Succeeds (d.relaxMargins c counts) s u t → s.Extends touched t := by
      intro s t u h
      refine extends_forM h fun side _ s t _ ht => ?_
      rw [succeeds_bind_iff] at ht
      obtain ⟨_, _, hfirst, hsecond⟩ := ht
      exact (extends_relaxRow (hmargin _ _) hfirst).trans
        (extends_relaxRow (hrelative _ _) hsecond)
    cases condition with
    | marginFalls =>
      simp only [succeeds_bind_iff] at ht
      obtain ⟨_, _, hrows, hrest⟩ := ht
      exact (extends_writeMarginFalls hrows).trans (hrelax hrest)
    | beyond shifter =>
      simp only [succeeds_bind_iff] at ht
      obtain ⟨_, _, hrows, hrest⟩ := ht
      exact (extends_writeBeyond (hcondition c.id) hrows).trans (hrelax hrest)
  · intro point iteration p u q h
    refine extends_forM h fun entry _ s t _ ht => ?_
    unfold adapt at ht
    split at ht
    · exact extends_pure ht
    · simp only [succeeds_bind_iff, succeeds_requireVariable_iff] at ht
      obtain ⟨_, _, ⟨-, rfl⟩, hrows⟩ := ht
      exact extends_writeBeyond (hcondition _) hrows
  · intro activation p u q h
    exact extends_pure h

end Conditional

/-! ### Penalties -/

namespace Penalty

/-- The limits of monitored elements adapt no rows. -/
theorem monitoredPart_extends {parameters : MnecParameters K} {cnecs : List (Cnec K)}
    {initial : Flows K} {unit : FlowUnit} :
    (monitoredPart parameters cnecs initial unit).Extends touched := by
  constructor
  · intro point p u q h
    refine extends_forM h fun c _ s t _ ht => ?_
    unfold writeMonitored at ht
    simp only [succeeds_bind_iff, succeeds_ofExcept_iff, succeeds_requireVariable_iff] at ht
    obtain ⟨_, _, ⟨-, rfl⟩, _, _, ⟨-, rfl⟩, _, _, hexcess, _, _, hupper, _, _, hlower,
      hobjective⟩ := ht
    refine (extends_addVariable hexcess).trans ?_
    refine (extends_forM_option hupper fun _ _ hrow => extends_addRow_pure hrow).trans ?_
    refine (extends_forM_option hlower fun _ _ hrow => extends_addRow_pure hrow).trans ?_
    exact extends_setObjective hobjective
  · intro point iteration p u q h
    exact extends_pure h
  · intro activation p u q h
    exact extends_pure h

end Penalty

namespace LoopFlowRule

variable {rule : LoopFlowRule K} {flows : Flows K} {c : Cnec K}

theorem extends_write (h : Succeeds (rule.write c) p u q) : p.Extends touched q := by
  unfold write at h
  simp only [succeeds_bind_iff, succeeds_requireVariable_iff] at h
  obtain ⟨_, _, ⟨-, rfl⟩, _, _, hexcess, _, _, hpositive, _, _, hnegative, hobjective⟩ := h
  refine (extends_addVariable hexcess).trans ?_
  refine (extends_addRow hpositive).trans ?_
  exact (extends_addRow hnegative).trans (extends_setObjective hobjective)

theorem extends_adapt (htouched : ∀ side, touched (.loopFlowViolation c.id side))
    (h : Succeeds (rule.adapt flows c) p u q) : p.Extends touched q := by
  unfold adapt at h
  simp only [succeeds_bind_iff, succeeds_ofExcept_iff, succeeds_requireRow_iff] at h
  obtain ⟨_, _, ⟨-, rfl⟩, _, _, ⟨hpositive, rfl⟩, _, _, ⟨hnegative, rfl⟩, _, s, hfirst,
    hsecond⟩ := h
  have hs : p.Extends touched s :=
    extends_setRowBounds (namesRow_of_rowId? hpositive) (htouched _) hfirst
  have hnames := (namesRow_of_rowId? hnegative).of_extends hs
  exact hs.trans (extends_setRowBounds hnames (htouched _) hsecond)

/-- The limits of loop flows adapt their own rows. -/
theorem part_extends (htouched : ∀ c side, touched (.loopFlowViolation c side)) :
    rule.part.Extends touched := by
  constructor
  · intro point p u q h
    unfold part at h
    simp only [succeeds_bind_iff] at h
    obtain ⟨_, _, hwrite, hadapt⟩ := h
    refine (extends_forM hwrite fun c _ s t _ ht => extends_write ht).trans ?_
    exact extends_forM hadapt fun c _ s t _ ht => extends_adapt (htouched c.id) ht
  · intro point iteration p u q h
    exact extends_forM h fun c _ s t _ ht => extends_adapt (htouched c.id) ht
  · intro activation p u q h
    exact extends_pure h

end LoopFlowRule

/-! ### Limits on use -/

namespace Usage

variable {w : Usage K} {r : RangeAction K} {activation : Activation K}

theorem extends_writeMoves (h : Succeeds (w.writeMoves r) p u q) : p.Extends touched q := by
  unfold writeMoves addBinary at h
  simp only [succeeds_bind_iff, succeeds_requireVariable_iff, succeeds_ofExcept_iff,
    succeeds_pure_iff] at h
  obtain ⟨_, _, hmoves, _, _, ⟨-, rfl⟩, _, _, ⟨-, rfl⟩, _, _, hrow, -, rfl⟩ := h
  exact (extends_addVariable hmoves).trans (extends_addRow hrow)

/-- A row that counts the range actions that move, with all its terms. -/
theorem succeeds_writeCount {key : RowKey} {limit : Nat} {rangeActions : List (RangeAction K)}
    (h : Succeeds (writeCount key limit rangeActions) p u q) :
    (∀ r ∈ rangeActions, p.HasVariable (.variation r.id)) ∧
      q = { p with rows := p.rows ++ [⟨key, .finite 0, .finite (Scalar.ofInt limit),
        p.formOf (rangeActions.map fun r => (.variation r.id, 1))⟩] } := by
  have hterms : ∀ {row : Row K} {u : PUnit}, Succeeds (rangeActions.forM fun r => do
      setCoefficient p.rows.length (← requireVariable (.variation r.id)) 1)
        { p with rows := p.rows ++ [row] } u q →
      (∀ r ∈ rangeActions, p.HasVariable (.variation r.id)) ∧
        q = { p with rows := p.rows ++ [{ row with
          form := (rangeActions.map fun r => (p.number (.variation r.id), (1 : K))).foldl
            (fun form term => form.set term.1 term.2) row.form }] } := by
    clear h
    induction rangeActions with
    | nil =>
      intro row u h
      obtain ⟨-, rfl⟩ := succeeds_pure_iff.mp h
      exact ⟨by simp, rfl⟩
    | cons r rangeActions ih =>
      intro row u h
      obtain ⟨s, hfirst, hrest⟩ := succeeds_forM_cons_iff.mp h
      simp only [succeeds_bind_iff, succeeds_requireVariable_iff] at hfirst
      obtain ⟨v, _, ⟨hv, rfl⟩, hset⟩ := hfirst
      obtain ⟨hvariable, hnumber⟩ := hasVariable_of_variableId? (p := p) hv
      have hlast : Succeeds (setCoefficients p.rows.length [(v, (1 : K))])
          { p with rows := p.rows ++ [row] } ⟨⟩ s :=
        succeeds_forM_cons_iff.mpr ⟨s, hset, succeeds_pure_iff.mpr ⟨rfl, rfl⟩⟩
      rw [succeeds_setCoefficients_last hlast] at hrest
      obtain ⟨hvariables, hq⟩ := ih hrest
      refine ⟨List.forall_mem_cons.mpr ⟨hvariable, hvariables⟩, ?_⟩
      rw [hq, List.map_cons, hnumber]
      rfl
  unfold writeCount at h
  rw [succeeds_bind_iff] at h
  obtain ⟨_, _, hrow, hrest⟩ := h
  obtain ⟨rfl, rfl⟩ := succeeds_addRow hrow
  obtain ⟨hvariables, hq⟩ := hterms hrest
  refine ⟨hvariables, hq.trans ?_⟩
  unfold formOf
  rw [List.map_map]
  rfl

theorem extends_writeCount {key : RowKey} {limit : Nat} {rangeActions : List (RangeAction K)}
    (h : Succeeds (writeCount key limit rangeActions) p u q) : p.Extends touched q := by
  obtain ⟨-, rfl⟩ := succeeds_writeCount h
  exact .append_rows _

theorem extends_writeMaxRa {limit : Nat} (h : Succeeds (w.writeMaxRa limit) p u q) :
    p.Extends touched q := by
  unfold writeMaxRa at h
  split at h
  · exact extends_writeCount h
  · exact extends_pure h

/-- Writing that an operator is involved as far as its range actions move adds rows. -/
theorem extends_involve {used : VariableId} {operator : String}
    {rangeActions : List (RangeAction K)} (h : Succeeds (rangeActions.forM fun r => do
      let moves ← requireVariable (.variation r.id)
      let _ ← addRow (.operatorUsed operator r.id) (.finite 0) .posInf [(used, 1), (moves, -1)])
      p u q) : p.Extends touched q := by
  refine extends_forM h fun r _ s t _ ht => ?_
  simp only [succeeds_bind_iff, succeeds_requireVariable_iff] at ht
  obtain ⟨_, _, ⟨-, rfl⟩, hadd⟩ := ht
  exact extends_addRow_pure (by simpa only [succeeds_bind_iff] using hadd)

variable {s t : LinearProblem K} {row : RowId} (hs : p.Extends touched s)
  (hrow : p.rows.length ≤ row)
include hs hrow

/-- Writing whether an operator is involved changes a new row only. -/
theorem extends_writeOperator {operator : String}
    (h : Succeeds (w.writeOperator row operator) s u t) : p.Extends touched t := by
  unfold writeOperator Writing.setCoefficient at h
  simp only [succeeds_bind_iff, succeeds_modify_iff] at h
  obtain ⟨_, _, hused, _, _, rfl, hrows⟩ := h
  have hused : p.Extends touched _ := hs.trans (extends_addVariable hused)
  exact (hused.setCoefficient_of_le hrow _ _).trans (extends_involve hrows)

/-- Counting the taps of a phase shifter changes a new row only. -/
theorem extends_writeTapDistance (h : Succeeds (w.writeTapDistance activation row r) s u t) :
    p.Extends touched t := by
  unfold writeTapDistance at h
  simp only [succeeds_bind_iff, succeeds_variableId?_iff] at h
  obtain ⟨_, _, ⟨-, rfl⟩, h⟩ := h
  split at h
  · simp only [succeeds_bind_iff, succeeds_variableId?_iff] at h
    obtain ⟨_, _, ⟨-, rfl⟩, h⟩ := h
    split at h
    · unfold Writing.setCoefficient at h
      simp only [succeeds_bind_iff, succeeds_ofExcept_iff, succeeds_modify_iff] at h
      obtain ⟨_, _, ⟨-, rfl⟩, _, _, hmoved, _, _, hpositive, _, _, hnegative, rfl⟩ := h
      have hmoved : p.Extends touched _ := hs.trans (extends_addVariable hmoved)
      have hpositive : p.Extends touched _ := hmoved.trans (extends_addRow hpositive)
      have hnegative : p.Extends touched _ := hpositive.trans (extends_addRow hnegative)
      exact hnegative.setCoefficient_of_le hrow _ _
    · exact hs.trans (extends_pure h)
  · exact hs.trans (extends_pure h)

omit hs hrow

theorem extends_writeMaxTso {limit : Nat} (h : Succeeds (w.writeMaxTso limit) p u q) :
    p.Extends touched q := by
  unfold writeMaxTso at h
  split at h
  · rw [succeeds_bind_iff] at h
    obtain ⟨row, s, hadd, hoperators⟩ := h
    have hlast : p.rows.length ≤ row := (succeeds_addRow hadd).1.ge
    refine hoperators.forM_induction (P := p.Extends touched) ?_ (extends_addRow hadd)
    intro operator _ s t hs ht
    exact extends_writeOperator hs hlast ht
  · exact extends_pure h

theorem extends_writeMaxElementary {operator : String} {limit : Nat}
    (h : Succeeds (w.writeMaxElementary activation operator limit) p u q) :
    p.Extends touched q := by
  unfold writeMaxElementary at h
  rw [succeeds_bind_iff] at h
  obtain ⟨row, s, hadd, hshifters⟩ := h
  have hlast : p.rows.length ≤ row := (succeeds_addRow hadd).1.ge
  refine hshifters.forM_induction (P := p.Extends touched) ?_ (extends_addRow hadd)
  intro r _ s t hs ht
  exact extends_writeTapDistance hs hlast ht

theorem extends_write (h : Succeeds (w.write activation) p u q) : p.Extends touched q := by
  unfold write at h
  simp only [succeeds_bind_iff] at h
  obtain ⟨_, _, hmoves, _, _, hmaxRa, _, _, hmaxTso, _, _, hperTso, _, _, hpst, helementary⟩ := h
  refine (extends_forM hmoves fun r _ s t _ ht => extends_writeMoves ht).trans ?_
  refine (extends_forM_option hmaxRa fun _ _ ht => extends_writeMaxRa ht).trans ?_
  refine (extends_forM_option hmaxTso fun _ _ ht => extends_writeMaxTso ht).trans ?_
  refine (extends_forM hperTso fun _ _ s t _ ht => extends_writeCount ht).trans ?_
  refine (extends_forM hpst fun _ _ s t _ ht => extends_writeCount ht).trans ?_
  exact extends_forM helementary fun _ _ s t _ ht => extends_writeMaxElementary ht

/-- Adapting the count of a phase shifter's taps adapts its own rows. -/
theorem extends_adaptTapDistance (htouched : ∀ side, touched (.tapDistance r.id side))
    (h : Succeeds (w.adaptTapDistance activation r) p u q) : p.Extends touched q := by
  unfold adaptTapDistance at h
  simp only [succeeds_bind_iff, succeeds_rowId?_iff] at h
  obtain ⟨_, _, ⟨hpositive, rfl⟩, h⟩ := h
  split at h
  · simp only [succeeds_bind_iff, succeeds_rowId?_iff] at h
    obtain ⟨_, _, ⟨hnegative, rfl⟩, h⟩ := h
    split at h
    · simp only [succeeds_bind_iff, succeeds_ofExcept_iff, succeeds_modify_iff] at h
      obtain ⟨offset, _, ⟨-, rfl⟩, _, _, rfl, rfl⟩ := h
      have hfirst := (namesRow_of_rowId? hpositive).extends_setRowLower (htouched _)
        (.finite (Scalar.ofInt offset))
      have hnames := (namesRow_of_rowId? hnegative).of_extends hfirst
      exact hfirst.trans (hnames.extends_setRowLower (htouched _) _)
    · exact extends_pure h
  · exact extends_pure h

theorem extends_adapt (htouched : ∀ r side, touched (.tapDistance r side))
    (h : Succeeds (w.adapt activation) p u q) : p.Extends touched q := by
  refine extends_forM h fun entry _ s t _ ht => ?_
  exact extends_forM ht fun r _ s t _ ht => extends_adaptTapDistance (htouched r.id) ht

/-- Limits on use adapt the rows of the taps moved since before the optimisation. -/
theorem part_extends (htouched : ∀ r side, touched (.tapDistance r side)) :
    w.part.Extends touched := by
  constructor
  · intro point p u q h
    unfold part at h
    dsimp only at h
    split at h
    · exact extends_write h
    · exact extends_pure h
  · intro point iteration p u q h
    exact extends_adapt htouched h
  · intro activation p u q h
    exact extends_adapt htouched h

end Usage

/-! ### All parts -/

/-- The names of the rows that some part adapts. -/
def RowKey.IsAdapted : RowKey → Prop
  | .flow _ | .shrink _ | .tapToAngle _ | .variationInDirection _ _ | .minimumMargin _ _
  | .minimumRelativeMargin _ _ | .dontOptimizeCnec _ _ | .loopFlowViolation _ _
  | .tapDistance _ _ => True
  | _ => False

/-- The names of the rows that some part other than the limits on use adapts. -/
def RowKey.IsAdaptedElsewhere : RowKey → Prop
  | .tapDistance _ _ => False
  | key => key.IsAdapted

theorem RowKey.isAdapted_of_isAdaptedElsewhere (key : RowKey) (h : key.IsAdaptedElsewhere) :
    key.IsAdapted := by
  cases key with
  | tapDistance _ _ => trivial
  | _ => exact h

namespace Formulation

variable {f : Formulation K} {part : Part K}

omit [Scalar K] in
theorem mem_partIf {condition : Bool} {part other : Part K} (h : other ∈ partIf condition part) :
    condition = true ∧ other = part := by
  unfold partIf at h
  split at h
  · next hcondition => exact ⟨hcondition, List.mem_singleton.mp h⟩
  · cases h

/-- The parts that come before the limits on use: set-points and flows, tap moves where set-points
follow them, and other parts. -/
def firstParts (f : Formulation K) (others : List (Part K)) : List (Part K) :=
  f.movement.part :: (partIf f.byTaps (TapMoves.part f.perimeter.rangeActions) ++ others)

/-- The parts of a formulation other than set-points, tap moves and limits on use. -/
def otherParts (f : Formulation K) : List (Part K) :=
  [if f.parameters.objective.kind.isRelative then f.relativeMargin else f.absoluteMargin] ++
    partIf f.parameters.unoptimized.isActive f.conditional.part ++
    (match f.parameters.mnec with
    | some p => partIf (!f.perimeter.monitoredCnecs.isEmpty) (f.monitored p)
    | none => []) ++
    (match f.parameters.loopFlow with
    | some p =>
      let cnecs := f.perimeter.loopFlowCnecs
      partIf (!cnecs.isEmpty) (f.loopFlow p cnecs).part
    | none => [])

/-- The limits on use come last of all parts. -/
theorem parts_eq (f : Formulation K) : f.parts = f.firstParts f.otherParts ++
    match f.budget with
    | some budget => partIf budget.isLimited (f.usage budget).part
    | none => [] := by
  have hassoc : ∀ a b c d e g h : List (Part K),
      a ++ b ++ c ++ d ++ e ++ g ++ h = a ++ (b ++ (c ++ d ++ e ++ g)) ++ h := by
    simp only [List.append_assoc, implies_true]
  exact hassoc ..

theorem extends_of_mem_otherParts (h : part ∈ f.otherParts) :
    part.Extends RowKey.IsAdaptedElsewhere := by
  unfold otherParts at h
  simp only [List.mem_append, List.mem_singleton] at h
  rcases h with ((rfl | hconditional) | hmonitored) | hloopFlow
  · split
    · exact Margin.relativePart_extends
    · exact Margin.absolutePart_extends
  · rw [(mem_partIf hconditional).2]
    exact Conditional.part_extends (fun _ _ => trivial) (fun _ _ => trivial) fun _ _ => trivial
  · split at hmonitored
    · rw [(mem_partIf hmonitored).2]
      exact Penalty.monitoredPart_extends
    · cases hmonitored
  · split at hloopFlow
    · rw [(mem_partIf hloopFlow).2]
      exact LoopFlowRule.part_extends fun _ _ => trivial
    · cases hloopFlow

theorem extends_of_mem_firstParts {others : List (Part K)}
    (hothers : ∀ part ∈ others, part.Extends RowKey.IsAdaptedElsewhere)
    (h : part ∈ f.firstParts others) : part.Extends RowKey.IsAdaptedElsewhere := by
  rw [firstParts, List.mem_cons, List.mem_append] at h
  rcases h with rfl | htaps | hother
  · exact Movement.part_extends (fun _ => trivial) fun _ => trivial
  · rw [(mem_partIf htaps).2]
    exact TapMoves.part_extends (fun _ => trivial) fun _ _ => trivial
  · exact hothers part hother

/-- The parts of a formulation adapt no other rows. -/
theorem extends_of_mem_parts (h : part ∈ f.parts) : part.Extends RowKey.IsAdapted := by
  rw [parts_eq, List.mem_append] at h
  rcases h with hfirst | husage
  · exact (extends_of_mem_firstParts (fun _ => extends_of_mem_otherParts) hfirst).mono
      RowKey.isAdapted_of_isAdaptedElsewhere
  · split at husage
    · rw [(mem_partIf husage).2]
      exact Usage.part_extends fun _ _ => trivial
    · cases husage

/-- Set-points and flows are written first, and the other parts adapt what they have written. -/
theorem exists_movement_of_fill {point : Linearization K} {p q : LinearProblem K} {u : PUnit}
    (h : Succeeds (f.parts.forM (·.fill point)) p u q) :
    ∃ s, Succeeds (f.movement.part.fill point) p ⟨⟩ s ∧ s.Extends RowKey.IsAdapted q := by
  have hparts : ∀ part ∈ f.parts, part.Extends RowKey.IsAdapted := fun _ => extends_of_mem_parts
  rw [parts_eq, firstParts, List.cons_append] at h hparts
  obtain ⟨s, hmovement, hrest⟩ := succeeds_forM_cons_iff.mp h
  exact ⟨s, hmovement, extends_forM hrest fun part hpart _ _ _ ht =>
    (hparts part (List.mem_cons_of_mem _ hpart)).fill ht⟩

end Formulation

end GridRelief
