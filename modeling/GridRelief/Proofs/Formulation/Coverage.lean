import GridRelief.Proofs.Formulation.Catalogue
import GridRelief.Proofs.Formulation.Growth

/-!
# The parts keep to the lists

Each part of a formulation, whether it is written, adapted to a new linearisation or to rounded
set-points, keeps to what the problems of the formulation may hold. There is one lemma for each
function of the parts, whose proof goes through the steps of the function.

* `Formulation.covers_of_mem_parts`: all parts keep to the lists.
* `Formulation.covers_movement_fill`, `Formulation.covers_absoluteMargin_fill`: the rows that are
  written in any case.
-/

namespace GridRelief

open LinearProblem Writing

variable {K : Type} [Scalar K]

namespace Formulation

variable {f : Formulation K} {last : LinearProblem K} {C : Prop} {rowKey : RowKey}

/-! ### Set-points and flows -/

section Movement

variable {r : RangeAction K} {c : Cnec K} {point : Linearization K}

theorem covers_writeSetpoint (hr : r ∈ f.perimeter.rangeActions) :
    f.contents.Covers last C (f.movement.writeSetpoint r) fun _ => True := by
  unfold Movement.writeSetpoint
  refine .seq .ofExcept fun _ => ?_
  refine .bind (.addVariable fun _ => .setpoint hr) fun setpoint => ?_
  refine .bind (.addVariable fun _ => .distance r.id) fun distance => ?_
  refine .seq (covers_addRow trivial fun ⟨⟨_, hsetpoint⟩, hdistance⟩ => ?_) fun _ => ?_
  · exact spares_of_mem_pair ⟨_, hdistance, nofun⟩ ⟨_, hsetpoint, nofun⟩
  refine .seq (covers_addRow trivial fun ⟨⟨_, hsetpoint⟩, hdistance⟩ => ?_) fun _ => ?_
  · exact spares_of_mem_pair ⟨_, hdistance, nofun⟩ ⟨_, hsetpoint, nofun⟩
  exact .setObjective (fun ⟨_, hdistance⟩ => hdistance) fun _ => .distance r

theorem covers_shrinkRange {activation : Activation K} {iteration : Nat} :
    f.contents.Covers last C (Movement.shrinkRange activation iteration r) fun _ => True := by
  unfold Movement.shrinkRange
  refine .seq .ofExcept fun _ => ?_
  refine .bind .rowId? fun answer => ?_
  cases answer with
  | some row => exact covers_setRowBounds (fun ⟨_, hrow⟩ => hrow row rfl) (by trivial)
  | none =>
    refine .bind .requireVariable fun setpoint => ?_
    refine .seq (covers_addRow trivial fun ⟨_, hsetpoint⟩ => ?_) fun _ => .pure fun _ => trivial
    exact List.forall_mem_singleton.mpr ⟨_, hsetpoint, nofun⟩

theorem covers_writeFlow : f.contents.Covers last C (Movement.writeFlow point c) fun _ =>
    ∃ i, last.NamesRow i (.flow c.id) := by
  unfold Movement.writeFlow
  refine .bind (.addVariable fun _ => .flow c.id) fun flow => ?_
  refine .seq .ofExcept fun reference => ?_
  refine .bind (.addRow fun ⟨_, hflow⟩ => ?_) fun row => .pure fun ⟨_, hrow⟩ => ⟨row, hrow⟩
  refine Contents.admits_ofTerms (fun _ _ => .ofScalar reference) (fun _ => .ofScalar reference)
    (List.forall_mem_singleton.mpr ⟨_, hflow, .flow c.id⟩) ?_
  rintro _ ⟨⟩
  exact ⟨_, List.mem_cons_self, hflow⟩

theorem covers_writeTerm {row : RowId} {constant : K} (hrow : C → last.NamesRow row (.flow c.id)) :
    f.contents.Covers last C (f.movement.writeTerm point c row constant r) fun _ => True := by
  have hset : ∀ {setpoint : VariableId} {sensitivity : K}, f.contents.Covers last
      (C ∧ last.NamesVariable setpoint (.setpoint r.id))
      (setCoefficient row setpoint sensitivity) fun _ => True :=
    .setCoefficient (fun h => hrow h.1) fun h => ⟨_, h.2, .response c.id r.id _⟩
  unfold Movement.writeTerm
  refine .bind .requireVariable fun setpoint => ?_
  dsimp only
  split
  · refine .seq .ofExcept fun _ => ?_
    exact .seq hset fun _ => .pure fun _ => trivial
  · exact .seq hset fun _ => .pure fun _ => trivial

theorem covers_adaptFlow :
    f.contents.Covers last C (f.movement.adaptFlow point c) fun _ => True := by
  unfold Movement.adaptFlow
  refine .bind .requireRow fun row => ?_
  refine .seq .ofExcept fun _ => ?_
  refine .seq (.foldlM fun r _ _ => covers_writeTerm And.right) fun constant => ?_
  exact .setRowBounds And.right (fun _ _ _ => .ofScalar constant) fun _ _ => .ofScalar constant

/-- Writing set-points and flows writes the row of every flow. -/
theorem covers_movement_fill : f.contents.Covers last C (f.movement.part.fill point) fun _ =>
    ∀ c ∈ f.perimeter.cnecs, ∃ i, last.NamesRow i (.flow c.id) := by
  refine .seq (.repeated fun r hr => covers_writeSetpoint hr) fun _ => ?_
  refine .bind (.forM fun c _ => covers_writeFlow) fun _ => ?_
  exact (Contents.Covers.forM fun c _ => covers_adaptFlow).mono id fun h _ _ => h.2

end Movement

/-! ### Tap moves -/

section TapMoves

variable {activation : Activation K} {r : RangeAction K} {conversion : RowId}
  {moves : VariableId}

theorem covers_writeStep {room : Int} {step : Except (Fault K) K}
    (hrow : C → last.NamesRow conversion (.tapToAngle r.id)) (hmoves : C → Spares last moves) :
    f.contents.Covers last C (TapMoves.writeStep conversion moves room step) fun _ => True := by
  unfold TapMoves.writeStep
  split
  · exact .seq .ofExcept fun _ => covers_setCoefficient hrow hmoves (by trivial)
  · exact .pure fun _ => trivial

theorem covers_write_tapMoves (htaps : f.byTaps = true) :
    f.contents.Covers last C (TapMoves.write activation r) fun _ => True := by
  unfold TapMoves.write
  refine .seq .ofExcept fun _ => ?_
  refine .seq .ofExcept fun _ => ?_
  refine .bind (.addVariable fun _ => .moves htaps r.id .downward _) fun down => ?_
  refine .bind (.addVariable fun _ => .moves htaps r.id .upward _) fun up => ?_
  refine .bind (.addBinary fun _ => .moving htaps r.id .downward) fun movesDown => ?_
  refine .bind (.addBinary fun _ => .moving htaps r.id .upward) fun movesUp => ?_
  refine .bind .requireVariable fun setpoint => ?_
  refine .bind (covers_addRow trivial fun ⟨_, hsetpoint⟩ => ?_) fun conversion => ?_
  · exact List.forall_mem_singleton.mpr ⟨_, hsetpoint, nofun⟩
  -- the names found so far are all that the remaining steps rely on
  suffices h : f.contents.Covers last (last.NamesRow conversion (.tapToAngle r.id) ∧
      Spares last down ∧ Spares last up ∧ Spares last movesDown ∧ Spares last movesUp) _
      fun _ => True from
    h.mono (fun ⟨⟨⟨⟨⟨⟨_, hdown⟩, hup⟩, hmovesDown⟩, hmovesUp⟩, _⟩, hrow⟩ =>
      ⟨hrow, ⟨_, hdown, nofun⟩, ⟨_, hup, nofun⟩, ⟨_, hmovesDown, nofun⟩, ⟨_, hmovesUp, nofun⟩⟩)
      fun _ _ => id
  refine .seq (covers_writeStep And.left fun ⟨_, hdown, _⟩ => hdown) fun _ => ?_
  refine .seq (covers_writeStep And.left fun ⟨_, _, hup, _⟩ => hup) fun _ => ?_
  refine .seq (covers_addRow trivial fun ⟨_, _, _, hmovesDown, hmovesUp⟩ =>
    spares_of_mem_pair hmovesDown hmovesUp) fun _ => ?_
  refine .seq (covers_addRow trivial fun ⟨_, hdown, _, hmovesDown, _⟩ =>
    spares_of_mem_pair hdown hmovesDown) fun _ => ?_
  refine .seq (covers_addRow trivial fun ⟨_, _, hup, _, hmovesUp⟩ =>
    spares_of_mem_pair hup hmovesUp) fun _ => ?_
  exact .pure fun _ => trivial

theorem covers_adaptStep {step : Except (Fault K) K}
    (hrow : C → last.NamesRow conversion (.tapToAngle r.id)) (hmoves : C → Spares last moves) :
    f.contents.Covers last C (TapMoves.adaptStep conversion moves step) fun _ => True := by
  unfold TapMoves.adaptStep
  split
  · exact covers_setCoefficient hrow hmoves (by trivial)
  · exact .pure fun _ => trivial

theorem covers_adapt_tapMoves :
    f.contents.Covers last C (TapMoves.adapt activation r) fun _ => True := by
  unfold TapMoves.adapt
  refine .seq .ofExcept fun _ => ?_
  refine .bind .requireRow fun conversion => ?_
  refine .bind .requireVariable fun up => ?_
  refine .bind .requireVariable fun down => ?_
  refine .bind .requireVariable fun movesUp => ?_
  refine .bind .requireVariable fun movesDown => ?_
  refine .bind .requireRow fun upward => ?_
  refine .bind .requireRow fun downward => ?_
  suffices h : f.contents.Covers last (last.NamesRow conversion (.tapToAngle r.id) ∧
      Spares last up ∧ Spares last down ∧ Spares last movesUp ∧ Spares last movesDown ∧
      last.NamesRow upward (.variationInDirection r.id .upward) ∧
      last.NamesRow downward (.variationInDirection r.id .downward)) _ fun _ => True from
    h.mono (fun ⟨⟨⟨⟨⟨⟨⟨_, hrow⟩, hup⟩, hdown⟩, hmovesUp⟩, hmovesDown⟩, hupward⟩, hdownward⟩ =>
      ⟨hrow, ⟨_, hup, nofun⟩, ⟨_, hdown, nofun⟩, ⟨_, hmovesUp, nofun⟩, ⟨_, hmovesDown, nofun⟩,
        hupward, hdownward⟩) fun _ _ => id
  refine .seq (covers_setRowBounds And.left (by trivial)) fun _ => ?_
  refine .seq .ofExcept fun _ => ?_
  refine .seq .ofExcept fun _ => ?_
  refine .seq (covers_adaptStep And.left fun ⟨_, hup, _⟩ => hup) fun _ => ?_
  refine .seq .ofExcept fun _ => ?_
  refine .seq (covers_adaptStep And.left fun ⟨_, _, hdown, _⟩ => hdown) fun _ => ?_
  refine .seq (covers_setCoefficient (fun ⟨_, _, _, _, _, _, hdownward⟩ => hdownward)
    (fun ⟨_, _, _, _, hmovesDown, _⟩ => hmovesDown) (by trivial)) fun _ => ?_
  exact covers_setCoefficient (fun ⟨_, _, _, _, _, hupward, _⟩ => hupward)
    (fun ⟨_, _, _, hmovesUp, _⟩ => hmovesUp) (by trivial)

end TapMoves

/-! ### Smallest margins -/

section Margin

variable {cnecs : List (Cnec K)} {margin : VariableId} {point : Linearization K}

/-- The rows of all thresholds are written. -/
theorem covers_writeRows {name : String → ThresholdSide → RowKey} {factor : Cnec K → K}
    (hrow : C → ∀ c ∈ cnecs, ∀ side, (c.threshold? side).isSome = true →
      ∀ flow, last.NamesVariable flow (.flow c.id) → ∀ direction bound : K,
        f.contents.Admits last ⟨name c.id side, .negInf, .ofScalar bound,
          .ofTerms [(flow, direction), (margin, factor c)]⟩) :
    f.contents.Covers last C (Margin.writeRows cnecs margin name factor) fun _ =>
      ∀ c ∈ cnecs, ∀ side, (c.threshold? side).isSome = true →
        ∃ i, last.NamesRow i (name c.id side) := by
  refine .forM fun c hc => ?_
  refine .bind .requireVariable fun flow => ?_
  refine .bind (.forM_option (P := fun _ => ∃ i, last.NamesRow i (name c.id .below))
    fun lower hlower => ?_) fun _ => ?_
  · refine .bind (.addRow fun h => ?_) fun i => .pure fun h => ⟨i, h.2⟩
    exact hrow h.1 c hc .below (by simp [Cnec.threshold?, hlower]) flow h.2 _ _
  refine (Contents.Covers.forM_option (P := fun _ => ∃ i, last.NamesRow i (name c.id .above))
    fun upper hupper => ?_).mono id fun h _ habove side hside => ?_
  · refine .bind (.addRow fun h => ?_) fun i => .pure fun h => ⟨i, h.2⟩
    exact hrow h.1.1 c hc .above (by simp [Cnec.threshold?, hupper]) flow h.1.2 _ _
  · obtain ⟨threshold, hthreshold⟩ := Option.isSome_iff_exists.mp hside
    cases side with
    | below => exact h.2 threshold hthreshold
    | above => exact habove threshold hthreshold

theorem covers_writeAbsoluteRows (hmargin : C → last.NamesVariable margin .minimumMargin) :
    f.contents.Covers last C
      (Margin.writeAbsoluteRows f.perimeter.optimizedCnecs f.unit margin) fun _ =>
        ∀ c ∈ f.perimeter.optimizedCnecs, ∀ side, (c.threshold? side).isSome = true →
          ∃ i, last.NamesRow i (.minimumMargin c.id side) := by
  refine covers_writeRows fun h c hc side hside flow hflow direction bound => ?_
  refine Contents.admits_ofTerms nofun (fun _ => .ofScalar bound) ?_ ?_
  · refine List.forall_mem_cons.mpr ⟨⟨_, hflow, .flowOfMargin c.id side direction⟩, ?_⟩
    exact List.forall_mem_singleton.mpr ⟨_, hmargin h, .margin hc hside⟩
  · rintro _ ⟨⟩
    exact ⟨_, List.mem_cons_of_mem _ List.mem_cons_self, hmargin h⟩

/-- Writing the smallest margin writes a row for each threshold. -/
theorem covers_absoluteMargin_fill (hkind : f.parameters.objective.kind.isRelative = false) :
    f.contents.Covers last C (f.absoluteMargin.fill point) fun _ =>
      ∀ c ∈ f.perimeter.optimizedCnecs, ∀ side, (c.threshold? side).isSome = true →
        ∃ i, last.NamesRow i (.minimumMargin c.id side) := by
  refine .bind (.addVariable fun _ => .margin hkind) fun margin => ?_
  refine .bind (covers_writeAbsoluteRows And.right) fun _ => ?_
  refine (Contents.Covers.setObjective (fun h => h.1.2) fun _ => Price.margin).mono id ?_
  exact fun h _ _ => h.2

theorem covers_relativeMargin_fill (hkind : f.parameters.objective.kind.isRelative = true) :
    f.contents.Covers last C (f.relativeMargin.fill point) fun _ => True := by
  refine .bind (.addVariable fun _ => .overload hkind) fun margin => ?_
  refine .bind (.addVariable fun _ => .relativeMargin _) fun relative => ?_
  refine .seq (covers_writeAbsoluteRows fun h => h.1.2) fun _ => ?_
  refine .seq (covers_writeRows fun h c _ side _ flow hflow direction bound => ?_) fun _ => ?_
  · exact admits_of_spares trivial (spares_of_mem_pair ⟨_, hflow, nofun⟩ ⟨_, h.2, nofun⟩)
  refine .seq (.setObjective (fun h => h.1.2) fun _ => .margin) fun _ => ?_
  exact .setObjective And.right fun _ => .relativeMargin

end Margin

/-! ### Elements that count under a condition -/

section Conditional

variable {c : Cnec K} {counts : VariableId} {point : Linearization K}

theorem covers_writeMarginFalls (hcounts : C → last.NamesVariable counts (.optimizeCnec c.id)) :
    f.contents.Covers last C (f.conditional.writeMarginFalls c counts) fun _ => True := by
  have hrow : ∀ {flow : VariableId} {side : ThresholdSide} {direction bound : K},
      f.contents.Covers last (C ∧ last.NamesVariable flow (.flow c.id)) (do
        let _ ← addRow (.dontOptimizeCnec c.id side) (.ofScalar bound) .posInf
          [(flow, direction), (counts, f.conditional.conditionSlack)]) fun _ => True := by
    intro flow side direction bound
    refine .seq (covers_addRow trivial fun h => ?_) fun _ => .pure fun _ => trivial
    exact spares_of_mem_pair ⟨_, h.2, nofun⟩ ⟨_, hcounts h.1, nofun⟩
  unfold Conditional.writeMarginFalls
  refine .bind .requireVariable fun flow => ?_
  refine .seq .ofExcept fun _ => ?_
  exact .seq (.optional fun _ _ => hrow) fun _ => .optional fun _ _ => hrow

theorem covers_writeBeyond {s : Sensitivities K} {shifter : RangeAction K}
    (hcounts : C → last.NamesVariable counts (.optimizeCnec c.id)) :
    f.contents.Covers last C (f.conditional.writeBeyond s c shifter counts) fun _ => True := by
  have hrow : ∀ {flow setpoint : VariableId} {side : ThresholdSide} {direction response bound : K},
      f.contents.Covers last ((C ∧ last.NamesVariable flow (.flow c.id)) ∧
          last.NamesVariable setpoint (.setpoint shifter.id))
        (putRow (.dontOptimizeCnec c.id side) (.ofScalar bound) .posInf
          [(flow, direction), (setpoint, response), (counts, f.conditional.conditionSlack)])
        fun _ => True := by
    intro flow setpoint side direction response bound
    refine covers_putRow trivial fun ⟨⟨h, hflow⟩, hsetpoint⟩ => ?_
    refine List.forall_mem_cons.mpr ⟨⟨_, hflow, nofun⟩, ?_⟩
    exact spares_of_mem_pair ⟨_, hsetpoint, nofun⟩ ⟨_, hcounts h, nofun⟩
  unfold Conditional.writeBeyond
  refine .bind .requireVariable fun flow => ?_
  refine .bind .requireVariable fun setpoint => ?_
  exact .seq (.optional fun _ _ => hrow) fun _ => .optional fun _ _ => hrow

/-- A relaxed row has a term more, and its upper bound is moved. -/
theorem covers_relaxRow
    (hterm : C → ∃ key, last.NamesVariable counts key ∧
      f.Term rowKey key f.conditional.marginSlack) :
    f.contents.Covers last C (f.conditional.relaxRow counts rowKey) fun _ => True := by
  unfold Conditional.relaxRow
  refine .bind .rowId? fun answer => ?_
  cases answer with
  | none => exact .pure fun _ => trivial
  | some row =>
    intro p _ q h
    simp only [succeeds_bind_iff, succeeds_get_iff, succeeds_modify_iff] at h
    obtain ⟨_, _, ⟨rfl, rfl⟩, _, s, hset, rfl⟩ := h
    have hcoefficient : f.contents.Covers last (C ∧ ∀ i, some row = some i →
        last.NamesRow i rowKey) (Writing.setCoefficient row counts f.conditional.marginSlack)
        fun _ => True := .setCoefficient (fun h => h.2 row rfl) fun h => hterm h.1
    have hbounds : p.rowBounds row = s.rowBounds row := by
      rw [Writing.setCoefficient, succeeds_modify_iff] at hset
      rw [← hset, rowBounds_setCoefficient]
    obtain ⟨hps, hedits⟩ := hcoefficient p _ s hset
    have hshift : f.contents.Edit last s (s.setRowUpper row
        ((p.rowBounds row).2.shift f.conditional.marginSlack)) := by
      rw [hbounds]
      exact .shift row _
    refine ⟨hps.trans hshift.extends, fun hlast h => ⟨?_, trivial⟩⟩
    exact (hedits (hshift.extends.trans hlast) h).1.trans hshift.edits

theorem covers_relaxMargins (hcounts : C → last.NamesVariable counts (.optimizeCnec c.id)) :
    f.contents.Covers last C (f.conditional.relaxMargins c counts) fun _ => True := by
  refine .repeated fun side _ => ?_
  refine .seq (covers_relaxRow fun h => ⟨_, hcounts h, .slack c.id side _⟩) fun _ => ?_
  exact covers_relaxRow fun h => ⟨_, hcounts h, .plain (by trivial) (by nofun) _⟩

theorem covers_write_conditional {entry : Cnec K × Condition K}
    (hactive : f.parameters.unoptimized.isActive = true) :
    f.contents.Covers last C (f.conditional.write point entry) fun _ => True := by
  unfold Conditional.write
  obtain ⟨c, condition⟩ := entry
  refine .bind (.addBinary fun _ => .counts hactive c.id) fun counts => ?_
  cases condition with
  | marginFalls =>
    exact .seq (covers_writeMarginFalls And.right) fun _ => covers_relaxMargins And.right
  | beyond shifter =>
    exact .seq (covers_writeBeyond And.right) fun _ => covers_relaxMargins And.right

theorem covers_adapt_conditional {entry : Cnec K × Condition K} :
    f.contents.Covers last C (f.conditional.adapt point entry) fun _ => True := by
  unfold Conditional.adapt
  split
  · exact .pure fun _ => trivial
  · refine .bind .requireVariable fun counts => ?_
    exact covers_writeBeyond And.right

end Conditional

/-! ### Penalties -/

section Penalties

variable {c : Cnec K} {cnecs : List (Cnec K)} {flows : Flows K}

theorem covers_writeMonitored {p : MnecParameters K} (hp : f.parameters.mnec = some p)
    (hc : c ∈ f.perimeter.cnecs) :
    f.contents.Covers last C (Penalty.writeMonitored p f.baseline.flows f.unit c)
      fun _ => True := by
  unfold Penalty.writeMonitored
  refine .seq .ofExcept fun _ => ?_
  refine .bind .requireVariable fun flow => ?_
  refine .bind (.addVariable fun _ => .excess c.id) fun excess => ?_
  have hrow : ∀ {side : ThresholdSide} {lower upper : Bound K} {factor : K},
      f.contents.Covers last ((C ∧ last.NamesVariable flow (.flow c.id)) ∧
          last.NamesVariable excess (.mnecViolation c.id)) (do
        let _ ← addRow (.mnecViolation c.id side) lower upper [(flow, 1), (excess, factor)])
        fun _ => True := by
    intro side lower upper factor
    refine .seq (covers_addRow trivial fun ⟨⟨_, hflow⟩, hexcess⟩ => ?_)
      fun _ => .pure fun _ => trivial
    exact spares_of_mem_pair ⟨_, hflow, nofun⟩ ⟨_, hexcess, nofun⟩
  refine .seq (.optional fun _ _ => hrow) fun _ => ?_
  refine .seq (.optional fun _ _ => hrow) fun _ => ?_
  exact .setObjective And.right fun _ => .excess hp hc

theorem covers_write_loopFlow {p : LoopFlowParameters K} (hp : f.parameters.loopFlow = some p) :
    f.contents.Covers last C ((f.loopFlow p cnecs).write c) fun _ => True := by
  unfold LoopFlowRule.write
  refine .bind .requireVariable fun flow => ?_
  refine .bind (.addVariable fun _ => .loopFlowExcess c.id) fun excess => ?_
  have hrow : ∀ {side : AbsoluteSide} {factor : K},
      f.contents.Covers last ((C ∧ last.NamesVariable flow (.flow c.id)) ∧
          last.NamesVariable excess (.loopFlowViolation c.id))
        (addRow (.loopFlowViolation c.id side) .negInf .posInf [(flow, 1), (excess, factor)])
        fun i => last.NamesRow i (.loopFlowViolation c.id side) :=
    covers_addRow trivial fun ⟨⟨_, hflow⟩, hexcess⟩ =>
      spares_of_mem_pair ⟨_, hflow, nofun⟩ ⟨_, hexcess, nofun⟩
  refine .seq hrow fun _ => ?_
  refine .seq hrow fun _ => ?_
  exact .setObjective And.right fun _ => .loopFlowExcess hp c.id

theorem covers_adapt_loopFlow {p : LoopFlowParameters K} :
    f.contents.Covers last C ((f.loopFlow p cnecs).adapt flows c) fun _ => True := by
  unfold LoopFlowRule.adapt
  refine .seq .ofExcept fun _ => ?_
  refine .bind .requireRow fun positive => ?_
  refine .bind .requireRow fun negative => ?_
  refine .seq (covers_setRowBounds (fun ⟨⟨_, hpositive⟩, _⟩ => hpositive) (by trivial))
    fun _ => ?_
  exact covers_setRowBounds And.right (by trivial)

end Penalties

/-! ### Limits on use -/

section Usage

variable {budget : UsageBudget} {r : RangeAction K} {activation : Activation K} {limit : Nat}
  {operator : String} {row : RowId}

theorem covers_writeMoves (hbudget : f.budget.isSome = true) :
    f.contents.Covers last C ((f.usage budget).writeMoves r) fun _ => True := by
  unfold Usage.writeMoves
  refine .bind (.addBinary fun _ => .used hbudget r.id) fun moves => ?_
  refine .bind .requireVariable fun distance => ?_
  refine .seq .ofExcept fun _ => ?_
  refine .seq (covers_addRow trivial fun ⟨⟨_, hmoves⟩, hdistance⟩ => ?_)
    fun _ => .pure fun _ => trivial
  exact spares_of_mem_pair ⟨_, hdistance, nofun⟩ ⟨_, hmoves, nofun⟩

theorem covers_writeCount {rangeActions : List (RangeAction K)} (hrow : rowKey.IsPlain) :
    f.contents.Covers last C (Usage.writeCount rowKey limit rangeActions) fun _ => True := by
  unfold Usage.writeCount
  refine .bind (covers_addRow hrow fun _ _ hterm => nomatch hterm) fun row => ?_
  refine .repeated fun r _ => ?_
  refine .bind .requireVariable fun moves => ?_
  exact covers_setCoefficient (fun ⟨⟨_, hcount⟩, _⟩ => hcount)
    (fun ⟨_, hmoves⟩ => ⟨_, hmoves, nofun⟩) hrow

theorem covers_writeMaxRa :
    f.contents.Covers last C ((f.usage budget).writeMaxRa limit) fun _ => True := by
  unfold Usage.writeMaxRa
  split
  · exact covers_writeCount trivial
  · exact .pure fun _ => trivial

theorem covers_writeOperator (hrow : C → last.NamesRow row .maxTso) :
    f.contents.Covers last C ((f.usage budget).writeOperator row operator) fun _ => True := by
  unfold Usage.writeOperator
  refine .bind (.addVariable fun _ => .involved operator) fun used => ?_
  refine .seq (covers_setCoefficient (fun h => hrow h.1) (fun h => ⟨_, h.2, nofun⟩) (by trivial))
    fun _ => ?_
  refine .repeated fun r _ => ?_
  refine .bind .requireVariable fun moves => ?_
  refine .seq (covers_addRow trivial fun ⟨⟨_, hused⟩, hmoves⟩ => ?_) fun _ => .pure fun _ => trivial
  exact spares_of_mem_pair ⟨_, hused, nofun⟩ ⟨_, hmoves, nofun⟩

theorem covers_writeMaxTso :
    f.contents.Covers last C ((f.usage budget).writeMaxTso limit) fun _ => True := by
  unfold Usage.writeMaxTso
  split
  · refine .bind (covers_addRow trivial fun _ _ hterm => nomatch hterm) fun row => ?_
    exact .repeated fun operator _ => covers_writeOperator And.right
  · exact .pure fun _ => trivial

theorem covers_writeTapDistance
    (hrow : C → last.NamesRow row (.maxElementaryActionsPerTso operator)) :
    f.contents.Covers last C ((f.usage budget).writeTapDistance activation row r)
      fun _ => True := by
  unfold Usage.writeTapDistance
  refine .bind .variableId? fun answer => ?_
  cases answer with
  | none => exact .pure fun _ => trivial
  | some up =>
    refine .bind .variableId? fun answer => ?_
    cases answer with
    | none => exact .pure fun _ => trivial
    | some down =>
      refine .seq .ofExcept fun _ => ?_
      refine .bind (.addVariable fun _ => .tapDistance r.id) fun moved => ?_
      have hside : ∀ {side : AbsoluteSide} {lower : Bound K} {a b : K},
          f.contents.Covers last (((C ∧ ∀ v, some up = some v →
              last.NamesVariable v (.tapVariation r.id .upward)) ∧ ∀ v, some down = some v →
                last.NamesVariable v (.tapVariation r.id .downward)) ∧
              last.NamesVariable moved (.tapDistance r.id))
            (addRow (.tapDistance r.id side) lower .posInf [(moved, 1), (up, a), (down, b)])
            fun i => last.NamesRow i (.tapDistance r.id side) := by
        intro side lower a b
        refine covers_addRow trivial fun ⟨⟨⟨_, hup⟩, hdown⟩, hmoved⟩ => ?_
        refine List.forall_mem_cons.mpr ⟨⟨_, hmoved, nofun⟩, ?_⟩
        exact spares_of_mem_pair ⟨_, hup up rfl, nofun⟩ ⟨_, hdown down rfl, nofun⟩
      refine .seq hside fun _ => ?_
      refine .seq hside fun _ => ?_
      exact covers_setCoefficient (fun h => hrow h.1.1.1) (fun h => ⟨_, h.2, nofun⟩) (by trivial)

theorem covers_writeMaxElementary :
    f.contents.Covers last C ((f.usage budget).writeMaxElementary activation operator limit)
      fun _ => True := by
  unfold Usage.writeMaxElementary
  refine .bind (covers_addRow trivial fun _ _ hterm => nomatch hterm) fun row => ?_
  exact .repeated fun r _ => covers_writeTapDistance And.right

theorem covers_adaptTapDistance :
    f.contents.Covers last C ((f.usage budget).adaptTapDistance activation r) fun _ => True := by
  unfold Usage.adaptTapDistance
  refine .bind .rowId? fun answer => ?_
  cases answer with
  | none => exact .pure fun _ => trivial
  | some positive =>
    refine .bind .rowId? fun answer => ?_
    cases answer with
    | none => exact .pure fun _ => trivial
    | some negative =>
      refine .seq .ofExcept fun _ => ?_
      refine .seq (.setRowLower (fun ⟨⟨_, hpositive⟩, _⟩ => hpositive positive rfl)
        fun _ => lower_of_isPlain (by trivial)) fun _ => ?_
      exact .setRowLower (fun ⟨_, hnegative⟩ => hnegative negative rfl)
        fun _ => lower_of_isPlain (by trivial)

theorem covers_adapt_usage :
    f.contents.Covers last C ((f.usage budget).adapt activation) fun _ => True :=
  .repeated fun _ _ => .repeated fun _ _ => covers_adaptTapDistance

theorem covers_write_usage (hbudget : f.budget.isSome = true) :
    f.contents.Covers last C ((f.usage budget).write activation) fun _ => True := by
  unfold Usage.write
  refine .seq (.repeated fun r _ => covers_writeMoves hbudget) fun _ => ?_
  refine .seq (.optional fun limit _ => covers_writeMaxRa) fun _ => ?_
  refine .seq (.optional fun limit _ => covers_writeMaxTso) fun _ => ?_
  refine .seq (.repeated fun entry _ => covers_writeCount trivial) fun _ => ?_
  refine .seq (.repeated fun entry _ => covers_writeCount trivial) fun _ => ?_
  exact .repeated fun entry _ => covers_writeMaxElementary

end Usage

/-! ### All parts -/

/-- A part keeps to what a problem may hold, whatever it is written from or adapted to. -/
structure CoversPart (f : Formulation K) (last : LinearProblem K) (part : Part K) : Prop where
  fill : ∀ point, f.contents.Covers last True (part.fill point) fun _ => True
  refresh : ∀ point iteration,
    f.contents.Covers last True (part.refresh point iteration) fun _ => True
  adjust : ∀ activation, f.contents.Covers last True (part.adjust activation) fun _ => True

/-- All parts of a formulation keep to what its problems may hold. -/
theorem covers_of_mem_parts {part : Part K} (h : part ∈ f.parts) : f.CoversPart last part := by
  unfold parts at h
  simp only [List.mem_append, List.mem_singleton] at h
  rcases h with (((((rfl | htaps) | rfl) | hconditional) | hmonitored) | hloopFlow) | husage
  · refine ⟨fun _ => covers_movement_fill.ignore, fun point iteration => ?_, fun _ => ?_⟩
    · refine .seq (.repeated fun c _ => covers_adaptFlow) fun _ => ?_
      split
      · exact .repeated fun r _ => covers_shrinkRange
      · exact .pure fun _ => trivial
    · exact .pure fun _ => trivial
  · obtain ⟨hbyTaps, rfl⟩ := mem_partIf htaps
    exact ⟨fun _ => .repeated fun r _ => covers_write_tapMoves hbyTaps,
      fun _ _ => .repeated fun r _ => covers_adapt_tapMoves,
      fun _ => .repeated fun r _ => covers_adapt_tapMoves⟩
  · split
    · next hkind => exact ⟨fun _ => covers_relativeMargin_fill hkind,
        fun _ _ => .pure fun _ => trivial, fun _ => .pure fun _ => trivial⟩
    · next hkind => exact ⟨fun _ => (covers_absoluteMargin_fill (by simpa using hkind)).ignore,
        fun _ _ => .pure fun _ => trivial, fun _ => .pure fun _ => trivial⟩
  · obtain ⟨hactive, rfl⟩ := mem_partIf hconditional
    exact ⟨fun _ => .repeated fun entry _ => covers_write_conditional hactive,
      fun _ _ => .repeated fun entry _ => covers_adapt_conditional,
      fun _ => .pure fun _ => trivial⟩
  · split at hmonitored
    · next p hp =>
      obtain ⟨-, rfl⟩ := mem_partIf hmonitored
      exact ⟨fun _ => .repeated fun c hc => covers_writeMonitored hp (List.mem_of_mem_filter hc),
        fun _ _ => .pure fun _ => trivial, fun _ => .pure fun _ => trivial⟩
    · cases hmonitored
  · split at hloopFlow
    · next p hp =>
      obtain ⟨-, rfl⟩ := mem_partIf hloopFlow
      refine ⟨fun _ => ?_, fun _ _ => .repeated fun c _ => covers_adapt_loopFlow,
        fun _ => .pure fun _ => trivial⟩
      exact .seq (.repeated fun c _ => covers_write_loopFlow hp) fun _ =>
        .repeated fun c _ => covers_adapt_loopFlow
    · cases hloopFlow
  · split at husage
    · next budget hbudget =>
      obtain ⟨-, rfl⟩ := mem_partIf husage
      refine ⟨fun point => ?_, fun _ _ => covers_adapt_usage, fun _ => covers_adapt_usage⟩
      unfold Usage.part
      dsimp only
      split
      · exact covers_write_usage (by rw [hbudget]; rfl)
      · exact .pure fun _ => trivial
    · cases husage

end Formulation

end GridRelief
