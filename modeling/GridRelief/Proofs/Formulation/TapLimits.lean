import GridRelief.Proofs.Formulation.Limits

/-!
# What limits on elementary actions force

Two rows keep the variable of a phase shifter's taps at least as large as the number of taps that it
is away from its tap before the optimisation: as far as its present tap is, changed by the moves
that are still to come. Their bounds are adapted whenever the present tap changes. The row of an
operator bounds the sum of these variables, and is not adapted.

* `LinearProblem.CountsTaps`: the taps of a phase shifter are counted from some offset.
* `Usage.Anchors`: they are counted from the present tap.
* `Usage.BoundsTaps`: so they are for all phase shifters of an operator, and their sum is bounded.
* `Usage.boundsTaps_of_write`, `Usage.BoundsTaps.of_adapt`: once the limits are written, and again
  once they are adapted.
* `Usage.BoundsTaps.sum_le`: what an assignment keeps then.
-/

namespace GridRelief

open LinearProblem Writing

variable {K : Type}

/-! ### Tap moves -/

/-- Once tap moves are written, every phase shifter has variables for its moves. -/
theorem TapMoves.hasVariable_of_fill [Scalar K] {rangeActions : List (RangeAction K)}
    {point : Linearization K} {p q : LinearProblem K} {u : PUnit}
    (h : Succeeds ((part rangeActions).fill point) p u q) :
    ∀ r ∈ rangeActions.filter RangeAction.isPst, ∀ direction,
      q.HasVariable (.tapVariation r.id direction) := by
  refine (h.forM_each (P := fun _ => True)
    (Q := fun r s => ∀ direction, s.HasVariable (.tapVariation r.id direction)) ?_ trivial).2.1
  intro r _ s t _ hwrite
  obtain ⟨hst, hvariables⟩ : s.Extends (fun _ => True) t ∧ _ :=
    extends_write_and_hasVariable trivial hwrite
  exact ⟨trivial, hvariables, fun _ hother direction => ((hother direction).of_extends hst).1⟩

/-! ### The taps of a phase shifter -/

/-- The number of taps that a side of the distance is counted from. -/
def AbsoluteSide.offset : AbsoluteSide → Int → Int
  | .positive, offset => offset
  | .negative, offset => -offset

/-- What a side of the distance is made up of. -/
def RangeAction.distanceTerms [Scalar K] (r : RangeAction K) :
    AbsoluteSide → List (VariableKey × K)
  | .positive =>
    [(.tapDistance r.id, 1), (.tapVariation r.id .upward, -1), (.tapVariation r.id .downward, 1)]
  | .negative =>
    [(.tapDistance r.id, 1), (.tapVariation r.id .upward, 1), (.tapVariation r.id .downward, -1)]

/-- The taps of a phase shifter are counted from an offset. -/
structure LinearProblem.CountsTaps [Scalar K] (p : LinearProblem K) (r : RangeAction K)
    (offset : Int) : Prop where
  hasVariables : ∀ side, ∀ term ∈ r.distanceTerms side, p.HasVariable term.1
  rows : ∀ side : AbsoluteSide, ∃ i, p.rowId? (.tapDistance r.id side) = some i ∧
    p.rows[i]? = some ⟨.tapDistance r.id side, .finite (Scalar.ofInt (side.offset offset)), .posInf,
      p.formOf (r.distanceTerms side)⟩

namespace LinearProblem.CountsTaps

variable {touched : RowKey → Prop} {r : RangeAction K} {offset : Int}

theorem of_extends [Scalar K] {p q : LinearProblem K} (h : p.CountsTaps r offset)
    (hgrows : p.Extends touched q) (hkey : ∀ side, ¬touched (.tapDistance r.id side)) :
    q.CountsTaps r offset := by
  refine ⟨fun side term hterm => ((h.hasVariables side term hterm).of_extends hgrows).1,
    fun side => ?_⟩
  obtain ⟨i, hi, hrow⟩ := h.rows side
  refine ⟨i, hgrows.rowId? hi, ?_⟩
  rw [formOf_of_extends (h.hasVariables side) hgrows]
  exact hgrows.rows_getElem? hrow (hkey side)

theorem hasVariable_tapVariation [Scalar K] {p : LinearProblem K} (h : p.CountsTaps r offset)
    (direction : TapDirection) : p.HasVariable (.tapVariation r.id direction) := by
  cases direction
  · exact h.hasVariables .positive (.tapVariation r.id .upward, -1)
      (by simp [RangeAction.distanceTerms])
  · exact h.hasVariables .positive (.tapVariation r.id .downward, 1)
      (by simp [RangeAction.distanceTerms])

/-- The variable of the distance is at least the number of taps away from the start. -/
theorem le_distance [ExactScalar K] {p : LinearProblem K} (h : p.CountsTaps r offset)
    {x : VariableId → K} (hx : p.Keeps x) :
    |(offset : K) + p.valueOf x (.tapVariation r.id .upward) -
        p.valueOf x (.tapVariation r.id .downward)| ≤ p.valueOf x (.tapDistance r.id) := by
  have hside : ∀ side : AbsoluteSide, ((side.offset offset : Int) : K) ≤
      ((r.distanceTerms side).map fun term => term.2 * p.valueOf x term.1).sum := by
    intro side
    obtain ⟨i, -, hrow⟩ := h.rows side
    have hnodup : ((r.distanceTerms side).map Prod.fst).Nodup := by
      cases side <;> simp [RangeAction.distanceTerms]
    have hbound : p.Forces (fun _ => False) _ :=
      forces_lower (List.mem_of_getElem? hrow) id (h.hasVariables side) hnodup
    rw [← ExactScalar.ofInt_eq]
    exact hbound p (.refl p) x hx
  have hpositive := hside .positive
  have hnegative := hside .negative
  simp only [RangeAction.distanceTerms, AbsoluteSide.offset, List.map_cons, List.map_nil,
    List.sum_cons, List.sum_nil, one_mul, neg_one_mul, add_zero, Int.cast_neg]
    at hpositive hnegative
  rw [abs_le]
  constructor
  · linarith only [hnegative]
  · linarith only [hpositive]

end LinearProblem.CountsTaps

namespace Usage

/-- Once both rows of a phase shifter are written, its taps are counted. -/
theorem countsTaps_of_addRow [ExactScalar K] {a b c : LinearProblem K} {r : RangeAction K}
    {offset : Int} {i j : RowId} (hmoved : a.HasVariable (.tapDistance r.id))
    (hup : a.HasVariable (.tapVariation r.id .upward))
    (hdown : a.HasVariable (.tapVariation r.id .downward))
    (hpositive : Succeeds (Writing.addRow (.tapDistance r.id .positive)
      (.finite (Scalar.ofInt offset)) .posInf
      ((r.distanceTerms .positive).map fun term => (a.number term.1, term.2))) a i b)
    (hnegative : Succeeds (Writing.addRow (.tapDistance r.id .negative)
      (.finite (Scalar.ofInt (-offset))) .posInf
      ((r.distanceTerms .negative).map fun term => (a.number term.1, term.2))) b j c) :
    c.CountsTaps r offset := by
  have hterms : ∀ side, ∀ term ∈ r.distanceTerms side, a.HasVariable term.1 := by
    intro side term hterm
    cases side <;>
    · simp only [RangeAction.distanceTerms, List.mem_cons, List.not_mem_nil, or_false] at hterm
      rcases hterm with rfl | rfl | rfl
      exacts [hmoved, hup, hdown]
  have haa : a.Extends (fun _ => False) a := .refl a
  have hab : a.Extends (fun _ => False) b := extends_addRow hpositive
  have hbc : b.Extends (fun _ => False) c := extends_addRow hnegative
  obtain ⟨hfound, hrow⟩ := getElem?_rows_of_addRow _ haa (hterms _) hpositive
  obtain ⟨hfound', hrow'⟩ := getElem?_rows_of_addRow _ hab (hterms _) hnegative
  refine ⟨fun side term hterm => ((hterms side term hterm).of_extends (hab.trans hbc)).1,
    fun side => ?_⟩
  cases side with
  | positive =>
    refine ⟨i, hbc.rowId? hfound, ?_⟩
    rw [formOf_of_extends (fun term hterm => ((hterms _ term hterm).of_extends hab).1) hbc]
    exact hbc.rows_getElem? hrow id
  | negative => exact ⟨j, hfound', hrow'⟩

variable [ExactScalar K] {w : Usage K} {r : RangeAction K} {activation : Activation K}
  {p q : LinearProblem K} {u : PUnit} {touched : RowKey → Prop}

/-- The taps of a phase shifter are counted from its present tap. -/
def Anchors (w : Usage K) (activation : Activation K) (p : LinearProblem K) (r : RangeAction K) :
    Prop :=
  ∃ offset, w.tapOffset activation r = .ok offset ∧ p.CountsTaps r offset

theorem Anchors.of_extends (h : w.Anchors activation p r) (hgrows : p.Extends touched q)
    (hkey : ∀ side, ¬touched (.tapDistance r.id side)) : w.Anchors activation q r := by
  obtain ⟨offset, hoffset, hcounts⟩ := h
  exact ⟨offset, hoffset, hcounts.of_extends hgrows hkey⟩

theorem Anchors.hasVariable (h : w.Anchors activation p r) : p.HasVariable (.tapDistance r.id) := by
  obtain ⟨offset, -, hcounts⟩ := h
  exact hcounts.hasVariables .positive (.tapDistance r.id, 1) List.mem_cons_self

/-! ### Writing -/

/-- What has been written about some phase shifters of an operator: a row bounds the sum of their
distances, and their taps are counted. -/
structure Elementary (w : Usage K) (activation : Activation K) (row : RowId) (operator : String)
    (limit : Nat) (shifters : List (RangeAction K)) (p : LinearProblem K) : Prop where
  row : p.rows[row]? = some ⟨.maxElementaryActionsPerTso operator, .finite 0,
    .finite (Scalar.ofInt limit), p.formOf (shifters.map fun r => (.tapDistance r.id, 1))⟩
  anchors : ∀ r ∈ shifters, w.Anchors activation p r

variable {row : RowId} {operator : String} {limit : Nat} {shifters : List (RangeAction K)}

/-- Writing the distance of a phase shifter that has tap moves counts it, and changes no row but
that of the limit. -/
theorem Elementary.of_writeTapDistance
    (h : w.Elementary activation row operator limit shifters p)
    (hmoves : ∀ direction, p.HasVariable (.tapVariation r.id direction))
    (hwrite : Succeeds (w.writeTapDistance activation row r) p u q) :
    w.Elementary activation row operator limit (shifters ++ [r]) q ∧
      p.Extends (· = .maxElementaryActionsPerTso operator) q := by
  unfold writeTapDistance Writing.setCoefficient at hwrite
  simp only [succeeds_bind_iff, succeeds_variableId?_iff] at hwrite
  obtain ⟨_, _, ⟨hup, rfl⟩, hwrite⟩ := hwrite
  obtain rfl := (hmoves .upward).symm.trans hup
  simp only [succeeds_bind_iff, succeeds_variableId?_iff] at hwrite
  obtain ⟨_, _, ⟨hdown, rfl⟩, hwrite⟩ := hwrite
  obtain rfl := (hmoves .downward).symm.trans hdown
  simp only [succeeds_bind_iff, succeeds_ofExcept_iff, succeeds_modify_iff] at hwrite
  obtain ⟨offset, _, ⟨hoffset, rfl⟩, _, a, hmoved, _, b, hpositive, _, c, hnegative, rfl⟩ := hwrite
  obtain ⟨hdeclared, rfl⟩ := declares_of_addVariable hmoved
  have hpa : p.Extends (fun _ => False) a := extends_addVariable hmoved
  have hab : a.Extends (fun _ => False) b := extends_addRow hpositive
  have hbc : b.Extends (fun _ => False) c := extends_addRow hnegative
  have hpc := hpa.trans (hab.trans hbc)
  have hnames : c.NamesRow row (.maxElementaryActionsPerTso operator) :=
    ⟨_, hpc.rows_getElem? h.row id, rfl⟩
  have hcq : c.Extends (· = .maxElementaryActionsPerTso operator)
      (c.setCoefficient row (a.number (.tapDistance r.id)) 1) :=
    hnames.extends_modifyRow (by rfl) fun _ => rfl
  have hpq := (hpc.mono fun _ => False.elim).trans hcq
  have hup := (hmoves .upward).of_extends hpa
  have hdown := (hmoves .downward).of_extends hpa
  rw [← hup.2, ← hdown.2] at hpositive hnegative
  have hcounts : c.CountsTaps r offset :=
    countsTaps_of_addRow hdeclared.hasVariable hup.1 hdown.1 hpositive hnegative
  refine ⟨⟨?_, ?_⟩, hpq⟩
  · have hnumber := hdeclared.hasVariable.of_extends (hab.trans hbc)
    have hcount := rows_getElem?_count h.row
      (fun other hother => (h.anchors other hother).hasVariable) hpc id r
    rwa [hnumber.2] at hcount
  · intro other hother
    rcases List.mem_append.mp hother with hother | hother
    · exact (h.anchors other hother).of_extends hpq (by simp)
    · rw [List.mem_singleton.mp hother]
      exact ⟨offset, hoffset, hcounts.of_extends hcq (by simp)⟩

/-- Once all phase shifters of a list are written, all are counted. -/
theorem Elementary.of_forM (h : w.Elementary activation row operator limit shifters p)
    {others : List (RangeAction K)}
    (hmoves : ∀ r ∈ others, ∀ direction, p.HasVariable (.tapVariation r.id direction))
    (hwrite : Succeeds (others.forM (w.writeTapDistance activation row)) p u q) :
    w.Elementary activation row operator limit (shifters ++ others) q := by
  induction others generalizing shifters p with
  | nil =>
    obtain ⟨-, rfl⟩ := succeeds_pure_iff.mp hwrite
    rwa [List.append_nil]
  | cons r others ih =>
    obtain ⟨s, hfirst, hrest⟩ := succeeds_forM_cons_iff.mp hwrite
    obtain ⟨hr, hothers⟩ := List.forall_mem_cons.mp hmoves
    obtain ⟨helementary, hps⟩ := h.of_writeTapDistance hr hfirst
    have hall := ih helementary
      (fun r hr direction => ((hothers r hr direction).of_extends hps).1) hrest
    rwa [List.append_assoc] at hall

/-- The limit of an operator bounds the sum of the distances of its phase shifters, and their taps
are counted from the present ones. -/
structure BoundsTaps (w : Usage K) (activation : Activation K) (operator : String) (limit : Nat)
    (p : LinearProblem K) : Prop where
  anchors : ∀ r ∈ w.shiftersOf operator, w.Anchors activation p r
  sum : p.Forces RowKey.IsAdapted fun y =>
    ((w.shiftersOf operator).map fun r => y (.tapDistance r.id)).sum ≤ (limit : K)

theorem BoundsTaps.of_extends (h : w.BoundsTaps activation operator limit p)
    (hgrows : p.Extends RowKey.IsAdaptedElsewhere q) :
    w.BoundsTaps activation operator limit q :=
  ⟨fun r hr => (h.anchors r hr).of_extends hgrows fun _ => id,
    h.sum.of_extends (hgrows.mono RowKey.isAdapted_of_isAdaptedElsewhere)⟩

/-- Writing the limit of an operator whose phase shifters have tap moves bounds their taps. -/
theorem boundsTaps_of_writeMaxElementary (hnodup : (w.rangeActions.map RangeAction.id).Nodup)
    (hmoves : ∀ r ∈ w.shiftersOf operator, ∀ direction,
      p.HasVariable (.tapVariation r.id direction))
    (h : Succeeds (w.writeMaxElementary activation operator limit) p u q) :
    w.BoundsTaps activation operator limit q := by
  unfold writeMaxElementary at h
  rw [succeeds_bind_iff] at h
  obtain ⟨row, s, hadd, hshifters⟩ := h
  have hnone : w.Elementary activation row operator limit [] s := by
    obtain ⟨rfl, rfl⟩ := succeeds_addRow hadd
    exact ⟨List.getElem?_concat_length, by simp⟩
  have hps : p.Extends (fun _ => False) s := extends_addRow hadd
  have hall := hnone.of_forM
    (fun r hr direction => ((hmoves r hr direction).of_extends hps).1) hshifters
  rw [List.nil_append] at hall
  refine ⟨hall.anchors, forces_count (List.mem_of_getElem? hall.row) id
    (fun r hr => (hall.anchors r hr).hasVariable) ?_⟩
  have hsub : ((w.shiftersOf operator).map RangeAction.id).Sublist
      (w.rangeActions.map RangeAction.id) :=
    (List.filter_sublist.trans List.filter_sublist).map _
  have hkeys := (hsub.nodup hnodup).map fun _ _ => VariableKey.tapDistance.inj
  rwa [List.map_map] at hkeys

/-- Once all limits are written, the taps of each operator with a limit on elementary actions are
bounded, if its phase shifters have tap moves. -/
theorem boundsTaps_of_write (hnodup : (w.rangeActions.map RangeAction.id).Nodup)
    (hmoves : ∀ r ∈ w.shiftersOf operator, ∀ direction,
      p.HasVariable (.tapVariation r.id direction))
    (h : Succeeds (w.write activation) p u q)
    (hlimit : w.budget.maxElementaryPerTso[operator]? = some limit) :
    w.BoundsTaps activation operator limit q := by
  unfold write at h
  simp only [succeeds_bind_iff] at h
  obtain ⟨_, a, hvariations, _, b, hmaxRa, _, c, hmaxTso, _, d, hperTso, _, e, hpst,
    helementary⟩ := h
  have hpe : p.Extends (fun _ => False) e := by
    refine (extends_forM hvariations fun _ _ s t _ ht => extends_writeMoves ht).trans ?_
    refine (extends_forM_option hmaxRa fun _ _ ht => extends_writeMaxRa ht).trans ?_
    refine (extends_forM_option hmaxTso fun _ _ ht => extends_writeMaxTso ht).trans ?_
    refine (extends_forM hperTso fun _ _ s t _ ht => extends_writeCount ht).trans ?_
    exact extends_forM hpst fun _ _ s t _ ht => extends_writeCount ht
  have hall := helementary.forM_each
    (P := fun s => ∀ r ∈ w.shiftersOf operator, ∀ direction,
      s.HasVariable (.tapVariation r.id direction))
    (Q := fun entry s => entry.1 = operator → w.BoundsTaps activation operator entry.2 s) ?_
    fun r hr direction => ((hmoves r hr direction).of_extends hpe).1
  · exact hall.2.1 _ (Std.ExtTreeMap.mem_toList_iff_getElem?_eq_some.mpr hlimit) rfl
  · intro entry _ s t hs ht
    have hst : s.Extends (fun _ => False) t := extends_writeMaxElementary ht
    refine ⟨fun r hr direction => ((hs r hr direction).of_extends hst).1, ?_, ?_⟩
    · rintro rfl
      exact boundsTaps_of_writeMaxElementary hnodup hs ht
    · intro other hother hsame
      exact (hother hsame).of_extends (hst.mono fun _ => False.elim)

/-! ### Adapting -/

/-- Adapting the rows of a phase shifter counts its taps from the present one. -/
theorem anchors_of_adaptTapDistance {offset : Int} (h : p.CountsTaps r offset)
    (hadapt : Succeeds (w.adaptTapDistance activation r) p u q) : w.Anchors activation q r := by
  obtain ⟨i, hi, hrow⟩ := h.rows .positive
  obtain ⟨j, hj, hrow'⟩ := h.rows .negative
  unfold adaptTapDistance at hadapt
  simp only [succeeds_bind_iff, succeeds_rowId?_iff] at hadapt
  obtain ⟨_, _, ⟨hpositive, rfl⟩, hadapt⟩ := hadapt
  obtain rfl := hi.symm.trans hpositive
  simp only [succeeds_bind_iff, succeeds_rowId?_iff] at hadapt
  obtain ⟨_, _, ⟨hnegative, rfl⟩, hadapt⟩ := hadapt
  obtain rfl := hj.symm.trans hnegative
  simp only [succeeds_bind_iff, succeeds_ofExcept_iff, succeeds_modify_iff] at hadapt
  obtain ⟨offset', _, ⟨hoffset, rfl⟩, _, _, rfl, rfl⟩ := hadapt
  refine ⟨offset', hoffset, ?_⟩
  -- the lower bounds are changed, each in the row of its side
  have hfirst : p.Extends (· = .tapDistance r.id .positive)
      (p.setRowLower i (.finite (Scalar.ofInt offset'))) :=
    (namesRow_of_rowId? hi).extends_setRowLower (by rfl) _
  have hsecond : Extends (· = .tapDistance r.id .negative)
      (p.setRowLower i (.finite (Scalar.ofInt offset')))
      ((p.setRowLower i (.finite (Scalar.ofInt offset'))).setRowLower j
        (.finite (Scalar.ofInt (-offset')))) :=
    ((namesRow_of_rowId? hj).of_extends hfirst).extends_setRowLower (by rfl) _
  refine ⟨fun side term hterm =>
    (((h.hasVariables side term hterm).of_extends hfirst).1.of_extends hsecond).1, fun side => ?_⟩
  cases side with
  | positive =>
    refine ⟨i, hsecond.rowId? (hfirst.rowId? hi), ?_⟩
    exact hsecond.rows_getElem? (rows_getElem?_setRowLower hrow _) (by simp)
  | negative =>
    refine ⟨j, hsecond.rowId? (hfirst.rowId? hj), ?_⟩
    exact rows_getElem?_setRowLower (hfirst.rows_getElem? hrow' (by simp)) _

/-- Adapting the rows of some phase shifters counts the taps of one of them from the present one if
it is among these, and leaves them as they were counted otherwise. -/
theorem anchors_of_adapt_forM (hnodup : (w.rangeActions.map RangeAction.id).Nodup)
    (hr : r ∈ w.rangeActions) (hshifters : shifters ⊆ w.rangeActions)
    (hadapt : Succeeds (shifters.forM (w.adaptTapDistance activation)) p u q)
    (h : ∃ offset, p.CountsTaps r offset) :
    (∃ offset, q.CountsTaps r offset) ∧ (r ∈ shifters → w.Anchors activation q r) ∧
      (w.Anchors activation p r → w.Anchors activation q r) := by
  have hall := hadapt.forM_each (P := fun s => ∃ offset, s.CountsTaps r offset)
    (Q := fun other s => other = r → w.Anchors activation s r) ?_ h
  · exact ⟨hall.1, fun hmem => hall.2.1 r hmem rfl, fun ha => hall.2.2 r (fun _ => ha) rfl⟩
  · intro other hother s t ⟨offset, hs⟩ ht
    by_cases hsame : other = r
    · subst hsame
      have hanchors := anchors_of_adaptTapDistance hs ht
      exact ⟨hanchors.imp fun _ h => h.2, fun _ => hanchors, fun _ _ _ => hanchors⟩
    · have hid : other.id ≠ r.id := fun hid =>
        hsame (List.inj_on_of_nodup_map hnodup (hshifters hother) hr hid)
      have hst : s.Extends (fun key => ∃ side, key = .tapDistance other.id side) t :=
        extends_adaptTapDistance (fun side => ⟨side, rfl⟩) ht
      have hkey : ∀ side, ¬∃ side', RowKey.tapDistance r.id side = .tapDistance other.id side' := by
        rintro side ⟨side', heq⟩
        exact hid (RowKey.tapDistance.inj heq).1.symm
      exact ⟨⟨offset, hs.of_extends hst hkey⟩, fun heq => absurd heq hsame,
        fun _ hanchors heq => (hanchors heq).of_extends hst hkey⟩

/-- Once the limits are adapted, the taps of each operator with a limit on elementary actions are
counted from the present ones again. -/
theorem BoundsTaps.of_adapt {later : Activation K} (h : w.BoundsTaps activation operator limit p)
    (hnodup : (w.rangeActions.map RangeAction.id).Nodup)
    (hlimit : w.budget.maxElementaryPerTso[operator]? = some limit)
    (hadapt : Succeeds (w.adapt later) p u q) : w.BoundsTaps later operator limit q := by
  refine ⟨fun r hr => ?_, h.sum.of_extends (extends_adapt (fun _ _ => trivial) hadapt)⟩
  have hsub : ∀ operator, w.shiftersOf operator ⊆ w.rangeActions := fun operator _ hr =>
    List.mem_of_mem_filter (List.mem_of_mem_filter hr)
  obtain ⟨offset, -, hcounts⟩ := h.anchors r hr
  have hall := hadapt.forM_each (P := fun s => ∃ offset, s.CountsTaps r offset)
    (Q := fun entry s => entry.1 = operator → w.Anchors later s r) ?_ ⟨offset, hcounts⟩
  · exact hall.2.1 _ (Std.ExtTreeMap.mem_toList_iff_getElem?_eq_some.mpr hlimit) rfl
  · intro entry _ s t hs ht
    obtain ⟨hcounts, hanchors, hkeeps⟩ :=
      anchors_of_adapt_forM hnodup (hsub operator hr) (hsub entry.1) ht hs
    exact ⟨hcounts, fun hsame => hanchors (hsame ▸ hr),
      fun other hother hsame => hkeeps (hother hsame)⟩

/-! ### What is kept -/

theorem exists_taps_of_tapOffset {offset : Int} (h : w.tapOffset activation r = .ok offset) :
    ∃ present start, activation.tap r = .ok present ∧ w.initial.tap r = .ok start ∧
      offset = present - start := by
  unfold tapOffset at h
  simp only [bind_eq_ok_iff, RangeAction.tapNumber_eq_ok_iff] at h
  obtain ⟨start, hstart, present, hpresent, _, -, hoffset, -⟩ := h
  exact ⟨present, start, hpresent, hstart, hoffset.symm⟩

/-- How many taps the phase shifters of an operator are away from those before the optimisation,
after the moves that are still to come: together at most the limit. -/
theorem BoundsTaps.sum_le (h : w.BoundsTaps activation operator limit p) {x : VariableId → K}
    (hx : p.Keeps x) :
    ∃ present start : RangeAction K → Int,
      (∀ r ∈ w.shiftersOf operator, (∀ direction, p.HasVariable (.tapVariation r.id direction)) ∧
        activation.tap r = .ok (present r) ∧ w.initial.tap r = .ok (start r)) ∧
      ((w.shiftersOf operator).map fun r =>
        |(present r : K) + p.valueOf x (.tapVariation r.id .upward) -
          p.valueOf x (.tapVariation r.id .downward) - start r|).sum ≤ (limit : K) := by
  have htaps : ∀ r ∈ w.shiftersOf operator, ∃ present start : Int,
      ((∀ direction, p.HasVariable (.tapVariation r.id direction)) ∧
        activation.tap r = .ok present ∧ w.initial.tap r = .ok start) ∧
        |(present : K) + p.valueOf x (.tapVariation r.id .upward) -
          p.valueOf x (.tapVariation r.id .downward) - start| ≤
            p.valueOf x (.tapDistance r.id) := by
    intro r hr
    obtain ⟨offset, hoffset, hcounts⟩ := h.anchors r hr
    obtain ⟨present, start, hpresent, hstart, rfl⟩ := exists_taps_of_tapOffset hoffset
    refine ⟨present, start, ⟨hcounts.hasVariable_tapVariation, hpresent, hstart⟩, ?_⟩
    have hdistance := hcounts.le_distance hx
    rwa [Int.cast_sub, sub_add_eq_add_sub, sub_right_comm] at hdistance
  choose! present start htaps using htaps
  refine ⟨present, start, fun r hr => (htaps r hr).1, ?_⟩
  exact (List.sum_le_sum fun r hr => (htaps r hr).2).trans (h.sum p (.refl p) x hx)

end Usage

end GridRelief
