import GridRelief.Proofs.Exact
import GridRelief.Formulation
import GridRelief.Proofs.Formulation.NamedValues
import GridRelief.Proofs.Formulation.Setpoints

/-!
# Values at rest

At rest all set-points are as before the optimisation. No range action has moved then, and flows
are what their linearisation makes of the set-points.

* `Formulation.atRest`: the values at rest.
* `Movement.restingFlow`: the flow on an element at rest.
* `Movement.succeeds_writeTerms`: the terms of range actions in the row of a flow.
* `Formulation.meets_movement_fill`: set-points and flows are met at rest.
-/

namespace GridRelief

open LinearProblem Writing

variable {K : Type}

namespace Movement

/-! ### Flows at rest -/

section Resting

variable [Scalar K]

/-- How a flow responds to the set-point of a range action, if the range action counts for it. -/
def response (m : Movement K) (point : Linearization K) (id : String) (r : RangeAction K) : K :=
  let sensitivity := point.sensitivities.get id r.id
  if m.optimizer.sensitivityThreshold r ≤ Scalar.abs sensitivity then sensitivity else 0

/-- The set-point before the optimisation. -/
def reference (m : Movement K) (id : String) : K := (m.initial.get id).toOption.getD 0

/-- The set-point around which flows are linear. -/
def present (point : Linearization K) (id : String) : K :=
  (point.activation.get id).toOption.getD 0

end Resting

variable [ExactScalar K] {m : Movement K} {point : Linearization K} {c : Cnec K}
  {r : RangeAction K} {p q : LinearProblem K} {u : PUnit} {i : RowId} {constant answer : K}

/-- The flow on an element once all set-points are as before the optimisation. -/
def restingFlow (m : Movement K) (point : Linearization K) (id : String) : K :=
  (point.flows.megawatts id).toOption.getD 0 + (m.rangeActions.map fun r =>
    m.response point id r * (m.reference r.id - present point r.id)).sum

omit [ExactScalar K] in
theorem reference_eq [Scalar K] {id : String} {x : K} (h : m.initial.get id = .ok x) :
    m.reference id = x := by
  unfold reference
  rw [h]
  rfl

/-- What flows at rest come to is set off by the terms of the range actions in their rows. -/
theorem restingFlow_eq : m.restingFlow point c.id =
    (point.flows.megawatts c.id).toOption.getD 0
      - (m.rangeActions.map fun r => m.response point c.id r * present point r.id).sum
      - (m.rangeActions.map fun r => -m.response point c.id r * m.reference r.id).sum := by
  have hsum : (m.rangeActions.map fun r =>
        m.response point c.id r * (m.reference r.id - present point r.id)).sum
      + (m.rangeActions.map fun r => m.response point c.id r * present point r.id).sum
      + (m.rangeActions.map fun r => -m.response point c.id r * m.reference r.id).sum = 0 := by
    rw [← List.sum_map_add, ← List.sum_map_add]
    refine List.sum_eq_zero fun term hterm => ?_
    obtain ⟨r, -, rfl⟩ := List.mem_map.mp hterm
    ring
  unfold restingFlow
  linarith only [hsum]

/-! ### The rows of flows -/

/-- The term of a range action, and what it takes off the constant. -/
theorem succeeds_writeTerm (h : Succeeds (m.writeTerm point c i constant r) p answer q) :
    p.HasVariable (.setpoint r.id) ∧
      answer = constant - m.response point c.id r * present point r.id ∧
        q = p.setCoefficient i (p.number (.setpoint r.id)) (-m.response point c.id r) := by
  unfold writeTerm at h
  simp only [succeeds_bind_iff, succeeds_requireVariable_iff] at h
  obtain ⟨v, _, ⟨hv, rfl⟩, h⟩ := h
  obtain ⟨hvariable, rfl⟩ := hasVariable_of_variableId? hv
  refine ⟨hvariable, ?_⟩
  unfold response
  dsimp only
  split at h
  · next hcounts =>
    simp only [Writing.setCoefficient, succeeds_bind_iff, succeeds_ofExcept_iff,
      succeeds_modify_iff, succeeds_pure_iff] at h
    obtain ⟨current, _, ⟨hcurrent, rfl⟩, _, _, rfl, rfl, rfl⟩ := h
    rw [if_pos hcounts, present, hcurrent]
    exact ⟨rfl, rfl⟩
  · next hcounts =>
    simp only [Writing.setCoefficient, succeeds_bind_iff, succeeds_modify_iff,
      succeeds_pure_iff] at h
    obtain ⟨_, _, rfl, rfl, rfl⟩ := h
    rw [if_neg hcounts, zero_mul, sub_zero, neg_zero]
    exact ⟨rfl, rfl⟩

/-- By induction on the range actions: their terms, and what they take off the constant. -/
theorem succeeds_writeTerms {rangeActions : List (RangeAction K)}
    (h : Succeeds (rangeActions.foldlM (m.writeTerm point c i) constant) p answer q) :
    (∀ r ∈ rangeActions, p.HasVariable (.setpoint r.id)) ∧
      answer = constant -
        (rangeActions.map fun r => m.response point c.id r * present point r.id).sum ∧
      q = p.modifyRow i fun row => { row with
        form := (rangeActions.map fun r =>
          (p.number (.setpoint r.id), -m.response point c.id r)).foldl
            (fun form term => form.set term.1 term.2) row.form } := by
  induction rangeActions generalizing p constant with
  | nil =>
    obtain ⟨rfl, rfl⟩ := succeeds_pure_iff.mp h
    refine ⟨by simp, by simp, ?_⟩
    change p = { p with rows := p.rows.modify i id }
    rw [List.modify_id]
  | cons r rangeActions ih =>
    rw [List.foldlM_cons, succeeds_bind_iff] at h
    obtain ⟨_, _, hfirst, hrest⟩ := h
    obtain ⟨hvariable, rfl, rfl⟩ := succeeds_writeTerm hfirst
    obtain ⟨hvariables, rfl, rfl⟩ := ih hrest
    refine ⟨List.forall_mem_cons.mpr ⟨hvariable, hvariables⟩, ?_, ?_⟩
    · rw [List.map_cons, List.sum_cons]
      ring
    · exact modifyRow_modifyRow p i _ _

end Movement

namespace Formulation

variable [ExactScalar K] {f : Formulation K} {point : Linearization K} {room : K}
  {c : Cnec K} {r : RangeAction K} {p q : LinearProblem K} {u : PUnit}
  {pending later : String → Prop}

/-! ### Values at rest -/

/-- The values at rest. The room is what violations have at their disposal, and what the smallest
margins are below zero. -/
def atRest (f : Formulation K) (point : Linearization K) (room : K) : VariableKey → K
  | .setpoint id => f.movement.reference id
  | .flow id => f.movement.restingFlow point id
  | .minimumMargin | .minimumRelativeMargin => -room
  | .mnecViolation _ | .loopFlowViolation _ => room
  | _ => 0

/-- The set-points before the optimisation are within the ranges. -/
def StartsWithinRanges (f : Formulation K) : Prop :=
  ∀ r ∈ f.perimeter.rangeActions, ∀ x, f.baseline.setpoints.get r.id = .ok x →
    r.min ≤ x ∧ x ≤ r.max

/-! ### Set-points and flows -/

theorem meets_writeSetpoint (hrange : f.StartsWithinRanges) (hr : r ∈ f.perimeter.rangeActions)
    (hp : p.Meets (f.atRest point room) pending)
    (h : Succeeds (f.movement.writeSetpoint r) p u q) :
    q.Meets (f.atRest point room) pending := by
  unfold Movement.writeSetpoint at h
  simp only [succeeds_bind_iff, succeeds_ofExcept_iff, Bound.ofScalar_eq] at h
  obtain ⟨reference, _, ⟨hreference, rfl⟩, setpoint, a, hsetpoint, distance, b, hdistance, _, d,
    hnegative, _, e, hpositive, hobjective⟩ := h
  have hvalue : f.atRest point room (.setpoint r.id) = reference :=
    Movement.reference_eq hreference
  have hzero : f.atRest point room (.absoluteVariation r.id) = 0 := rfl
  have hab : a.Extends (fun _ => True) b := extends_addVariable hdistance
  have hbd : b.Extends (fun _ => True) d := extends_addRow hnegative
  have hnamed := (namesVariable_of_addVariable hsetpoint).of_extends hab
  have hmeasured := namesVariable_of_addVariable hdistance
  have ha := hp.addVariable hsetpoint not_false (by
    rw [hvalue]
    exact hrange r hr _ hreference) trivial
  have hb := ha.addVariable hdistance not_false ⟨le_rfl, trivial⟩ trivial
  have hd := hb.addRow_pair hnegative trivial hmeasured hnamed (by simp) (by
    rw [hvalue, hzero]
    exact ⟨by linarith only, trivial⟩)
  have he := hd.addRow_pair hpositive trivial (hmeasured.of_extends hbd) (hnamed.of_extends hbd)
    (by simp) (by
      rw [hvalue, hzero]
      exact ⟨by linarith only, trivial⟩)
  exact he.setObjective hobjective

theorem meets_writeFlow (hpending : pending c.id) (hp : p.Meets (f.atRest point room) pending)
    (h : Succeeds (Movement.writeFlow point c) p u q) :
    q.Meets (f.atRest point room) pending := by
  unfold Movement.writeFlow at h
  simp only [succeeds_bind_iff, succeeds_ofExcept_iff, succeeds_pure_iff] at h
  obtain ⟨flow, a, hflow, _, _, ⟨-, rfl⟩, _, _, hrow, -, rfl⟩ := h
  obtain ⟨hdeclared, rfl⟩ := declares_of_addVariable hflow
  have ha := hp.addVariable hflow not_false ⟨trivial, trivial⟩ trivial
  refine ha.addRow hrow ⟨fun hsettled => ?_, ?_, by simp⟩
  · exact absurd hpending (hsettled c.id rfl)
  · rintro _ ⟨⟩ -
    exact ⟨hdeclared.hasVariable, rfl⟩

/-- The terms of a flow's row come to its constant at rest. -/
theorem eval_flow (hnodup : (f.movement.rangeActions.map RangeAction.id).Nodup)
    (hflow : p.HasVariable (.flow c.id))
    (hactions : ∀ r ∈ f.movement.rangeActions, p.HasVariable (.setpoint r.id))
    {x : VariableId → K} (hx : p.Reads x (f.atRest point room)) :
    (p.formOf ((.flow c.id, 1) :: f.movement.rangeActions.map fun r =>
      (.setpoint r.id, -f.movement.response point c.id r))).eval x =
        (point.flows.megawatts c.id).toOption.getD 0 - (f.movement.rangeActions.map fun r =>
          f.movement.response point c.id r * Movement.present point r.id).sum := by
  have hvariables : ∀ term ∈ (VariableKey.flow c.id, (1 : K)) ::
      f.movement.rangeActions.map fun r =>
        (.setpoint r.id, -f.movement.response point c.id r), p.HasVariable term.1 :=
    List.forall_mem_cons.mpr ⟨hflow, List.forall_mem_map.mpr hactions⟩
  have hnames : (((VariableKey.flow c.id, (1 : K)) :: f.movement.rangeActions.map fun r =>
      (.setpoint r.id, -f.movement.response point c.id r)).map Prod.fst).Nodup := by
    have hsetpoints := hnodup.map fun _ _ => VariableKey.setpoint.inj
    rw [List.map_map] at hsetpoints
    rw [List.map_cons, List.map_map, List.nodup_cons]
    exact ⟨by simp, hsetpoints⟩
  have hterms : (f.movement.rangeActions.map fun r =>
      -f.movement.response point c.id r * p.valueOf x (.setpoint r.id)) =
        f.movement.rangeActions.map fun r =>
          -f.movement.response point c.id r * f.movement.reference r.id := by
    refine List.map_congr_left fun r hr => ?_
    rw [hx.valueOf_eq (hactions r hr)]
    rfl
  have hrest : f.atRest point room (.flow c.id) = f.movement.restingFlow point c.id := rfl
  rw [eval_formOf (.refl p : p.Extends (fun _ => True) p) hvariables hnames, List.map_cons,
    List.sum_cons, hx.valueOf_eq hflow, List.map_map, Function.comp_def, hterms, hrest,
    Movement.restingFlow_eq]
  ring

/-- Adapting the row of a flow settles it. -/
theorem meets_adaptFlow (hnodup : (f.movement.rangeActions.map RangeAction.id).Nodup)
    (hpending : pending c.id) (hlater : ∀ id, later id ↔ pending id ∧ id ≠ c.id)
    (hp : p.Meets (f.atRest point room) pending)
    (h : Succeeds (f.movement.adaptFlow point c) p u q) :
    q.Meets (f.atRest point room) later := by
  unfold Movement.adaptFlow at h
  simp only [succeeds_bind_iff, succeeds_requireRow_iff, succeeds_ofExcept_iff,
    Bound.ofScalar_eq] at h
  obtain ⟨i, _, ⟨hi, rfl⟩, reference, _, ⟨hreference, rfl⟩, constant, s, hterms, hbounds⟩ := h
  have hnamed := namesRow_of_rowId? hi
  obtain ⟨hactions, hconstant, hs⟩ := Movement.succeeds_writeTerms hterms
  rw [succeeds_setRowBounds hbounds, hs, modifyRow_modifyRow]
  refine hp.settle hnamed hpending hlater (fun _ => rfl) fun hflow row hform x hx => ?_
  have hvalue := eval_flow hnodup hflow hactions hx
  rw [hreference] at hvalue
  -- the terms of the range actions follow the one of the flow
  have hterms : p.formOf ((.flow c.id, 1) :: f.movement.rangeActions.map fun r =>
      (.setpoint r.id, -f.movement.response point c.id r)) =
        (f.movement.rangeActions.map fun r =>
          (p.number (.setpoint r.id), -f.movement.response point c.id r)).foldl
            (fun form term => form.set term.1 term.2) row.form := by
    rw [hform]
    unfold formOf
    rw [List.map_cons, List.map_map]
    rfl
  rw [hterms] at hvalue
  rw [hconstant]
  exact ⟨hvalue.ge, hvalue.le⟩

/-- By induction on the elements: adapting the rows of their flows settles all of them. -/
theorem meets_adaptFlows {cnecs : List (Cnec K)} (hcnecs : (cnecs.map Cnec.id).Nodup)
    (hnodup : (f.movement.rangeActions.map RangeAction.id).Nodup)
    (hp : p.Meets (f.atRest point room) (· ∈ cnecs.map Cnec.id))
    (h : Succeeds (cnecs.forM (f.movement.adaptFlow point)) p u q) :
    q.Meets (f.atRest point room) fun _ => False := by
  induction cnecs generalizing p with
  | nil =>
    obtain ⟨-, rfl⟩ := succeeds_pure_iff.mp h
    simpa using hp
  | cons c cnecs ih =>
    obtain ⟨s, hfirst, hrest⟩ := succeeds_forM_cons_iff.mp h
    rw [List.map_cons, List.nodup_cons] at hcnecs
    refine ih hcnecs.2 (meets_adaptFlow hnodup (by simp) (fun id => ?_) hp hfirst) hrest
    rw [List.map_cons, List.mem_cons]
    constructor
    · intro hid
      refine ⟨.inr hid, ?_⟩
      rintro rfl
      exact hcnecs.1 hid
    · rintro ⟨rfl | hid, hne⟩
      · exact absurd rfl hne
      · exact hid

/-- By induction on the elements: once all flows are written, their names are different and were
new. -/
theorem nodup_of_writeFlows {cnecs : List (Cnec K)}
    (h : Succeeds (cnecs.forM (Movement.writeFlow point)) p u q) :
    (∀ c ∈ cnecs, p.variableId? (.flow c.id) = none) ∧ (cnecs.map Cnec.id).Nodup := by
  induction cnecs generalizing p with
  | nil => exact ⟨by simp, List.nodup_nil⟩
  | cons c cnecs ih =>
    obtain ⟨s, hfirst, hrest⟩ := succeeds_forM_cons_iff.mp h
    obtain ⟨hnew, hnodup⟩ := ih hrest
    have hps : p.Extends (fun _ => True) s := Movement.extends_writeFlow hfirst
    unfold Movement.writeFlow at hfirst
    simp only [succeeds_bind_iff, succeeds_ofExcept_iff, succeeds_pure_iff] at hfirst
    obtain ⟨flow, a, hflow, _, _, ⟨-, rfl⟩, _, b, hrow, -, rfl⟩ := hfirst
    have has : a.Extends (fun _ => True) b := extends_addRow hrow
    have hfound := ((declares_of_addVariable hflow).1.hasVariable.of_extends has).1
    constructor
    · intro c' hc'
      rcases List.mem_cons.mp hc' with rfl | hc'
      · exact (succeeds_addVariable hflow).1
      · cases hp : p.variableId? (.flow c'.id) with
        | none => rfl
        | some v => exact absurd (hps.variableId? hp) (by simp [hnew c' hc'])
    · rw [List.map_cons, List.nodup_cons]
      refine ⟨fun hmem => ?_, hnodup⟩
      obtain ⟨c', hc', hid⟩ := List.mem_map.mp hmem
      have hnone := hnew c' hc'
      rw [hid, hfound] at hnone
      cases hnone

/-- Once set-points and flows are written, they are met at rest. -/
theorem meets_movement_fill (hrange : f.StartsWithinRanges) {solver : SolverKind}
    (h : Succeeds (f.movement.part.fill point) (.empty solver) u q) :
    q.Meets (f.atRest point room) fun _ => False := by
  have hnodup := (Movement.measures_of_fill h).2
  unfold Movement.part at h
  simp only [succeeds_bind_iff] at h
  obtain ⟨_, s, hsetpoints, _, t, hflows, hadapts⟩ := h
  have hs : s.Meets (f.atRest point room) (· ∈ f.perimeter.cnecs.map Cnec.id) := by
    refine hsetpoints.forM_induction (P := (Meets · _ _)) ?_ (meets_empty solver)
    intro r hr a b ha hab
    exact meets_writeSetpoint hrange hr ha hab
  have ht : t.Meets (f.atRest point room) (· ∈ f.perimeter.cnecs.map Cnec.id) := by
    refine hflows.forM_induction (P := (Meets · _ _)) ?_ hs
    intro c hc a b ha hab
    exact meets_writeFlow (List.mem_map_of_mem hc) ha hab
  exact meets_adaptFlows (nodup_of_writeFlows hflows).2 hnodup ht hadapts

end Formulation

end GridRelief
