import Mathlib.Algebra.Order.Group.Pointwise.Interval
import GridRelief.Proofs.Formulation.Conditions

/-!
# Elements that a phase shifter relieves

An element in series with a phase shifter need not count while the rows of its condition hold. They
take the contribution of the phase shifter out of the flow and put its most favourable one in, on
each side another one. Both rows together say that one set-point brings the flow within both
thresholds. That is so for the sensitivities of the last adaptation, whatever earlier ones were.

* `Conditional.image_contribution`: the contributions of a phase shifter are an interval.
* `Conditional.exists_contribution_iff`: one contribution for both sides.
* `Conditional.beyondStatements_hold_iff_exists_setpoint`: one set-point for both rows.
* `Conditional.poses_of_refreshes`: the rows after any number of adaptations.
* `Conditional.spared_iff_relieved`: what the rows of the condition say.
-/

namespace GridRelief

open LinearProblem Writing

variable {K : Type} [ExactScalar K]

/-- A flow is between the thresholds of an element. -/
def Cnec.IsWithin (c : Cnec K) (flow : K) : Prop :=
  (∀ lower ∈ c.lower, lower ≤ flow) ∧ ∀ upper ∈ c.upper, flow ≤ upper

instance (c : Cnec K) (flow : K) : Decidable (c.IsWithin flow) :=
  inferInstanceAs (Decidable ((∀ lower ∈ c.lower, lower ≤ flow) ∧ ∀ upper ∈ c.upper, flow ≤ upper))

namespace Conditional

variable {d : Conditional K} {c : Cnec K} {shifter : RangeAction K} {sensitivity base : K}
  {p q : LinearProblem K} {u : PUnit} {point : Linearization K}

/-! ### Contributions -/

/-- The contributions of a phase shifter to a flow are those between the least and the greatest. -/
theorem image_contribution (h : shifter.min ≤ shifter.max) (sensitivity : K) :
    (· * sensitivity) '' Set.Icc shifter.min shifter.max =
      Set.Icc (leastContribution shifter sensitivity)
        (greatestContribution shifter sensitivity) := by
  rw [← Set.uIcc_of_le h, Set.image_mul_const_uIcc]
  unfold leastContribution greatestContribution
  split
  · next hsign => exact Set.uIcc_of_le (mul_le_mul_of_nonneg_right h hsign)
  · next hsign => exact Set.uIcc_of_ge (mul_le_mul_of_nonpos_right h (not_le.mp hsign).le)

/-- Between a least and a greatest contribution there is one that takes a flow between both
thresholds, if the greatest one takes it above the lower and the least one below the upper. -/
theorem exists_contribution_iff {least greatest : K} (hle : least ≤ greatest) (h : c.IsOrdered) :
    (∃ contribution ∈ Set.Icc least greatest, c.IsWithin (base + contribution)) ↔
      (∀ lower ∈ c.lower, lower ≤ base + greatest) ∧ ∀ upper ∈ c.upper, base + least ≤ upper := by
  constructor
  · rintro ⟨contribution, ⟨hleast, hgreatest⟩, hlower, hupper⟩
    exact ⟨fun lower hl => (hlower lower hl).trans (add_le_add_right hgreatest base),
      fun upper hu => (add_le_add_right hleast base).trans (hupper upper hu)⟩
  · rintro ⟨hlower, hupper⟩
    cases hl : c.lower with
    | none =>
      refine ⟨least, ⟨le_rfl, hle⟩, ?_, hupper⟩
      simp [hl]
    | some lower =>
      -- the least contribution that reaches the lower threshold
      have hbound := hlower lower hl
      refine ⟨max least (lower - base), ⟨le_max_left _ _, max_le hle (by linarith only [hbound])⟩,
        fun lower' hl' => ?_, fun upper hu => ?_⟩
      · obtain rfl := Option.some.inj (hl.symm.trans hl')
        linarith only [le_max_right least (lower - base)]
      · have hreach : max least (lower - base) ≤ upper - base :=
          max_le (by linarith only [hupper upper hu]) (by linarith only [h lower hl upper hu])
        linarith only [hreach]

/-- For an element that does not count, the rows of its condition say that the greatest contribution
is enough for the lower threshold and the least one for the upper. -/
theorem beyondStatements_hold_iff {y : VariableKey → K} (hzero : y (.optimizeCnec c.id) = 0) :
    (∀ side, ∀ stated ∈ d.beyondStatement c shifter sensitivity side, stated.HoldsAt y) ↔
      (∀ lower ∈ c.lower, lower ≤ y (.flow c.id) - y (.setpoint shifter.id) * sensitivity +
        greatestContribution shifter sensitivity) ∧
      ∀ upper ∈ c.upper, y (.flow c.id) - y (.setpoint shifter.id) * sensitivity +
        leastContribution shifter sensitivity ≤ upper := by
  rw [ThresholdSide.forall_iff]
  simp only [beyondStatement, Option.mem_map, forall_exists_index, and_imp,
    forall_apply_eq_imp_iff₂, Statement.holdsAt_lower_iff, List.map_cons, List.map_nil,
    List.sum_cons, List.sum_nil, hzero]
  refine and_congr (forall₂_congr fun lower _ => ?_) (forall₂_congr fun upper _ => ?_)
  · constructor <;> intro h <;> linarith only [h]
  · constructor <;> intro h <;> linarith only [h]

/-- The contribution of one set-point serves both rows of the condition. -/
theorem beyondStatements_hold_iff_exists_setpoint {y : VariableKey → K}
    (hrange : shifter.min ≤ shifter.max) (horder : c.IsOrdered)
    (hzero : y (.optimizeCnec c.id) = 0) :
    (∀ side, ∀ stated ∈ d.beyondStatement c shifter sensitivity side, stated.HoldsAt y) ↔
      ∃ setpoint ∈ Set.Icc shifter.min shifter.max,
        c.IsWithin (y (.flow c.id) + sensitivity * (setpoint - y (.setpoint shifter.id))) := by
  have hnonempty :
      leastContribution shifter sensitivity ≤ greatestContribution shifter sensitivity := by
    rw [← Set.nonempty_Icc, ← image_contribution hrange]
    exact (Set.nonempty_Icc.mpr hrange).image _
  have hflow : ∀ setpoint : K,
      y (.flow c.id) + sensitivity * (setpoint - y (.setpoint shifter.id)) =
        y (.flow c.id) - y (.setpoint shifter.id) * sensitivity + setpoint * sensitivity := by
    intro setpoint
    ring
  rw [beyondStatements_hold_iff hzero, ← exists_contribution_iff hnonempty horder,
    ← image_contribution hrange, Set.exists_mem_image]
  simp only [hflow]

/-! ### Adaptations -/

/-- By induction on the adaptations: the rows of all conditions are those for the sensitivities of
the last one. -/
theorem poses_of_refreshes {updates : List (Linearization K × Nat)}
    (hids : (d.cnecs.map (·.1.id)).Nodup)
    (hp : ∀ entry ∈ d.cnecs, d.Poses point.sensitivities p entry)
    (h : Succeeds (updates.forM fun update => d.part.refresh update.1 update.2) p u q) :
    ∀ entry ∈ d.cnecs, d.Poses ((updates.map Prod.fst).getLastD point).sensitivities q entry := by
  induction updates generalizing p point with
  | nil =>
    obtain ⟨-, rfl⟩ := succeeds_pure_iff.mp h
    exact hp
  | cons update updates ih =>
    obtain ⟨r, hfirst, hrest⟩ := succeeds_forM_cons_iff.mp h
    rw [List.map_cons, List.getLastD_cons]
    exact ih (poses_of_refresh hids hp hfirst) hrest

/-- The conditions can be adapted any number of times. -/
theorem exists_succeeds_refreshes (updates : List (Linearization K × Nat))
    (hflows : ∀ entry ∈ d.cnecs, p.HasVariable (.flow entry.1.id))
    (hsetpoints : ∀ entry ∈ d.cnecs, ∀ shifter, entry.2 = .beyond shifter →
      p.HasVariable (.setpoint shifter.id))
    (hcounts : ∀ entry ∈ d.cnecs, p.HasVariable (.optimizeCnec entry.1.id)) :
    ∃ q, Succeeds (updates.forM fun update => d.part.refresh update.1 update.2) p ⟨⟩ q := by
  refine exists_succeeds_forM (P := fun _ s => s.columns = p.columns) ?_ rfl
  rintro update rest s hs
  obtain ⟨t, ht⟩ := exists_succeeds_refresh (p := s) update.1 update.2
    (fun entry hentry => (hasVariable_congr hs).mpr (hflows entry hentry))
    (fun entry hentry shifter h => (hasVariable_congr hs).mpr (hsetpoints entry hentry shifter h))
    (fun entry hentry => (hasVariable_congr hs).mpr (hcounts entry hentry))
  exact ⟨t, ht, (columns_of_refresh ht).trans hs⟩

/-! ### The condition -/

variable {rangeActions : List (RangeAction K)} {initial : Flows K}
  {parameters : UnoptimizedParameters K}

/-- After any number of adaptations, the rows of the condition of an element that does not count
hold if and only if one set-point of the phase shifter brings the flow between the thresholds. -/
theorem spared_iff_relieved (cnecs : List (Cnec K)) (hids : (cnecs.map Cnec.id).Nodup)
    (hp : (ofParameters cnecs rangeActions initial parameters).Awaits
      (ofParameters cnecs rangeActions initial parameters).cnecs p)
    (point : Linearization K) (updates : List (Linearization K × Nat)) :
    let d := ofParameters cnecs rangeActions initial parameters
    ∃ q, Succeeds (do
        d.part.fill point
        updates.forM fun update => d.part.refresh update.1 update.2) p ⟨⟩ q ∧
      p.Extends (fun _ => True) q ∧ ∀ c ∈ cnecs, ∀ id shifter,
        parameters.inSeries[c.id]? = some id →
        rangeActions.find? (·.id == id) = some shifter → c.IsOrdered → shifter.min ≤ shifter.max →
        let sensitivity :=
          ((updates.map Prod.fst).getLastD point).sensitivities.get c.id shifter.id
        q.HasVariable (.optimizeCnec c.id) ∧ ∀ x, q.valueOf x (.optimizeCnec c.id) = 0 →
          ((∀ side, q.RowHolds x (.dontOptimizeCnec c.id side)) ↔
            ∃ setpoint ∈ Set.Icc shifter.min shifter.max,
              c.IsWithin (q.valueOf x (.flow c.id) +
                sensitivity * (setpoint - q.valueOf x (.setpoint shifter.id)))) := by
  intro d
  have hentries : (d.cnecs.map (·.1.id)).Nodup := nodup_ofParameters hids
  obtain ⟨a, ha⟩ := exists_succeeds_fill point hentries hp
  obtain ⟨hpa, hcolumns, hposes, -⟩ := succeeds_fill hentries hp.rows_new ha
  obtain ⟨q, hq⟩ := exists_succeeds_refreshes (p := a) (d := d) updates
    (fun entry hentry => ((hp.flows entry hentry).of_extends hpa.grows).1)
    (fun entry hentry shifter h => ((hp.setpoints entry hentry shifter h).of_extends hpa.grows).1)
    (fun entry hentry => hpa.hasVariable hcolumns (List.mem_map_of_mem hentry))
  have haq : a.Extends (fun _ => True) q := by
    refine extends_forM hq fun update _ s t _ ht => ?_
    exact (part_extends (fun _ _ => trivial) (fun _ _ => trivial) fun _ _ => trivial).refresh ht
  refine ⟨q, succeeds_bind_iff.mpr ⟨⟨⟩, a, ha, hq⟩, hpa.grows.trans haq,
    fun c hc id shifter hid hshifter horder hrange => ?_⟩
  intro sensitivity
  have hentry : (c, .beyond shifter) ∈ d.cnecs := by
    refine mem_ofParameters_iff.mpr ⟨hc, ?_⟩
    unfold condition?
    rw [hid, Option.bind_some, hshifter]
  have hcounts : a.HasVariable (.optimizeCnec c.id) :=
    hpa.hasVariable hcolumns (List.mem_map_of_mem hentry)
  refine ⟨(hcounts.of_extends haq).1, fun x hzero => ?_⟩
  have hrows := poses_of_refreshes hentries hposes hq _ hentry
  calc (∀ side, q.RowHolds x (.dontOptimizeCnec c.id side))
      ↔ ∀ side, ∀ stated ∈ d.beyondStatement c shifter sensitivity side,
          stated.HoldsAt (q.valueOf x) := forall_congr' fun side => (hrows side).rowHolds_iff
    _ ↔ _ := beyondStatements_hold_iff_exists_setpoint hrange horder hzero

end Conditional

/-! The sensitivity of a line to a phase shifter turns from positive to negative. Then the highest
set-point brings 150 MW between its thresholds, and the line need not count. -/

namespace ShiftedLine

/-- A line in series with a phase shifter. -/
def line : Cnec ℚ :=
  { id := "line", element := "line", lower := some (-100), upper := some 100, voltage := 400 }

/-- The phase shifter. -/
def shifter : RangeAction ℚ :=
  { id := "shifter", element := "transformer", min := 0, max := 5, kind := .pst {} }

/-- The parameters that name the line. -/
def parameters : UnoptimizedParameters ℚ :=
  { UnoptimizedParameters.default with inSeries := Table.ofPairs [("line", "shifter")] }

/-- A problem with the flow and the set-point. -/
def flowOnly : LinearProblem ℚ where
  columns := [⟨.flow "line", .negInf, .posInf, .continuous⟩,
    ⟨.setpoint "shifter", .negInf, .posInf, .continuous⟩]
  solver := .microlp

/-- A linearization with a sensitivity of the line to the phase shifter. -/
def point (sensitivity : ℚ) : Linearization ℚ :=
  ⟨{}, Sensitivities.set {} "line" "shifter" sensitivity, ⟨{}, {}⟩⟩

theorem cnecs_eq : (Conditional.ofParameters [line] [shifter] {} parameters).cnecs =
    [(line, .beyond shifter)] := rfl

theorem awaits : (Conditional.ofParameters [line] [shifter] {} parameters).Awaits
    (Conditional.ofParameters [line] [shifter] {} parameters).cnecs flowOnly := by
  rw [cnecs_eq]
  constructor <;> simp only [List.forall_mem_singleton]
  · decide
  · rintro _ ⟨⟩
    decide
  · nofun
  · decide
  · exact fun _ => rfl

theorem spared :
    let d := Conditional.ofParameters [line] [shifter] {} parameters
    ∃ q, Succeeds (do
        d.part.fill (point 10)
        [(point (-20), 1)].forM fun update => d.part.refresh update.1 update.2) flowOnly ⟨⟩ q ∧
      ∃ x, q.valueOf x (.flow "line") = 150 ∧ q.valueOf x (.setpoint "shifter") = 0 ∧
        q.valueOf x (.optimizeCnec "line") = 0 ∧
        ∀ side, q.RowHolds x (.dontOptimizeCnec "line" side) := by
  intro d
  obtain ⟨q, hq, hgrows, hspared⟩ := Conditional.spared_iff_relieved (p := flowOnly) [line]
    (by decide) awaits (point 10) [(point (-20), 1)]
  obtain ⟨hcounts, hiff⟩ := hspared line List.mem_cons_self "shifter" shifter (by decide) rfl
    (by decide) (by decide)
  have hflow : flowOnly.HasVariable (.flow "line") := by decide
  have hsetpoint : flowOnly.HasVariable (.setpoint "shifter") := by decide
  obtain ⟨x, hx⟩ := q.exists_valueOf fun
    | .flow _ => 150
    | _ => 0
  have hflowValue := hx _ (hflow.of_extends hgrows).1
  have hsetpointValue := hx _ (hsetpoint.of_extends hgrows).1
  refine ⟨q, hq, x, hflowValue, hsetpointValue, hx _ hcounts, (hiff x (hx _ hcounts)).mpr ?_⟩
  have hsensitivity : (([(point (-20), 1)].map Prod.fst).getLastD (point 10)).sensitivities.get
      line.id shifter.id = -20 := by decide +kernel
  refine ⟨5, by decide, ?_⟩
  rw [hsensitivity, show q.valueOf x (.flow line.id) = 150 from hflowValue,
    show q.valueOf x (.setpoint shifter.id) = 0 from hsetpointValue]
  decide +kernel

end ShiftedLine

end GridRelief
