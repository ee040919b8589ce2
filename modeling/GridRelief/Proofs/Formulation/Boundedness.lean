import GridRelief.Proofs.Exact
import GridRelief.Proofs.Formulation.Written
import GridRelief.Proofs.Problem.Boundedness

/-!
# Which problems are bounded

Set-points are confined by their ranges and flows by their rows, and costs are paid for variables
that are not negative. What is left is the smallest margin, which the objective makes as large as
possible. It is limited by a bound of its own if margins are relative, and otherwise by the row of
any threshold of an optimised element. Without such a threshold no row has a term of it, and the
problem is unbounded if it is feasible at all.

* `Formulation.BoundsMargin`: something limits the smallest margin.
* `Formulation.Complete.hasLowerBound_objective`: then the objective has a lower bound.
* `Formulation.Complete.not_isBounded`: otherwise it has none, if there is a feasible point.
-/

namespace GridRelief

open LinearProblem

variable {K : Type} [ExactScalar K]

/-- A bound that is an exact number, moved or not, is finite. -/
theorem Bound.IsNumeric.eq_finite {b : Bound K} (h : b.IsNumeric) : ∃ a, b = .finite a := by
  induction h with
  | ofScalar a => exact ⟨a, Bound.ofScalar_eq a⟩
  | shift _ distance ih =>
    obtain ⟨a, rfl⟩ := ih
    exact ⟨a + distance, Bound.ofScalar_eq _⟩

/-- The factor of a unit is positive. -/
theorem Cnec.conversion_pos {c : Cnec K} (hroot : (0 : K) < Scalar.sqrtThree)
    (hvoltage : 0 < c.voltage) (unit : FlowUnit) : 0 < c.conversion unit := by
  cases unit with
  | megawatt => exact zero_lt_one
  | ampere =>
    unfold conversion
    rw [ExactScalar.ofInt_eq]
    exact div_pos (by norm_num) (mul_pos hroot hvoltage)

namespace Formulation

/-- Something limits the smallest margin: a bound of its own, as margins are relative, or a
threshold of an optimised element. -/
def BoundsMargin (f : Formulation K) : Prop :=
  f.parameters.objective.kind.isRelative = true ∨
    ∃ c ∈ f.perimeter.optimizedCnecs, ∃ side, (c.threshold? side).isSome = true

/-- Neither penalties nor the costs of violations are negative. -/
structure HasNonnegativeCosts (f : Formulation K) : Prop where
  pst : 0 ≤ f.parameters.optimizer.pstPenalty
  hvdc : 0 ≤ f.parameters.optimizer.hvdcPenalty
  injection : 0 ≤ f.parameters.optimizer.injectionPenalty
  mnec : ∀ p, f.parameters.mnec = some p → 0 ≤ p.violationCost
  loopFlow : ∀ p, f.parameters.loopFlow = some p → 0 ≤ p.violationCost

theorem HasNonnegativeCosts.penalty {f : Formulation K} (h : f.HasNonnegativeCosts)
    (r : RangeAction K) : 0 ≤ f.parameters.optimizer.penalty r := by
  unfold OptimizerParameters.penalty
  split
  · exact h.pst
  · exact h.hvdc
  · exact h.injection

variable {f : Formulation K} {p : LinearProblem K} {v : VariableId} {id : String}
  {data : Variable K} {key : VariableKey}

/-! ### Variables -/

namespace Column

theorem setpoint_bounds (h : f.Column data) (hkey : data.key = .setpoint id) :
    ∃ a b, data.lower = .finite a ∧ data.upper = .finite b := by
  cases h with
  | @setpoint r _ => exact ⟨r.min, r.max, Bound.ofScalar_eq _, Bound.ofScalar_eq _⟩
  | _ => cases hkey

theorem counts_bounds (h : f.Column data) (hkey : data.key = .optimizeCnec id) :
    data.lower = .finite 0 ∧ data.upper = .finite 1 := by
  cases h with
  | counts => exact ⟨rfl, rfl⟩
  | _ => cases hkey

/-- Costs are paid for variables that are not negative. -/
theorem lower_of_cost (h : f.Column data) (hkey : data.key = .absoluteVariation id ∨
    data.key = .mnecViolation id ∨ data.key = .loopFlowViolation id) :
    data.lower = .finite 0 := by
  cases h with
  | distance | excess | loopFlowExcess => rfl
  | _ => rcases hkey with hkey | hkey | hkey <;> cases hkey

theorem relativeMargin_upper (h : f.Column data) (hkey : data.key = .minimumRelativeMargin) :
    ∃ b, data.upper = .finite b := by
  cases h with
  | relativeMargin largest => exact ⟨largest, Bound.ofScalar_eq _⟩
  | _ => cases hkey

theorem margin_upper (h : f.Column data) (hkey : data.key = .minimumMargin)
    (hkind : f.parameters.objective.kind.isRelative = true) : data.upper = .finite 0 := by
  cases h with
  | margin habsolute => rw [hkind] at habsolute; cases habsolute
  | overload => rfl
  | _ => cases hkey

theorem margin_free (h : f.Column data) (hkey : data.key = .minimumMargin)
    (hkind : f.parameters.objective.kind.isRelative = false) :
    data.lower = .negInf ∧ data.upper = .posInf ∧ data.kind = .continuous := by
  cases h with
  | margin => exact ⟨rfl, rfl, rfl⟩
  | overload hrelative => rw [hkind] at hrelative; cases hrelative
  | _ => cases hkey

end Column

namespace Complete

variable (h : f.Complete p)
include h

theorem column (hv : p.NamesVariable v key) :
    ∃ data, p.columns[v]? = some data ∧ data.key = key ∧ f.Column data := by
  obtain ⟨data, hdata, hkey⟩ := hv
  exact ⟨data, hdata, hkey, h.obeys.columns data (List.mem_of_getElem? hdata)⟩

/-! ### Set-points and flows -/

theorem confines_setpoint (hv : p.NamesVariable v (.setpoint id)) : p.Confines v := by
  obtain ⟨data, hdata, hkey, hcolumn⟩ := h.column hv
  obtain ⟨a, b, ha, hb⟩ := hcolumn.setpoint_bounds hkey
  exact confines_of_bounds hdata ha hb

theorem confines_counts (hv : p.NamesVariable v (.optimizeCnec id)) : p.Confines v := by
  obtain ⟨data, hdata, hkey, hcolumn⟩ := h.column hv
  obtain ⟨ha, hb⟩ := hcolumn.counts_bounds hkey
  exact confines_of_bounds hdata ha hb

/-- The row of a flow confines it, since its other terms are of set-points. -/
theorem confines_flow {c : Cnec K} (hc : c ∈ f.perimeter.cnecs)
    (hv : p.NamesVariable v (.flow c.id)) : p.Confines v := by
  obtain ⟨i, row, hrow, hkey⟩ := h.flows c hc
  have hmem := List.mem_of_getElem? hrow
  have hadmits := h.obeys.rows row hmem
  obtain ⟨w, d, hw, hterm, hlead⟩ := hadmits.lead (.flow c.id) (by rw [hkey]; rfl)
  obtain rfl := h.obeys.eq_of_namesVariable hv hw
  obtain ⟨a, ha⟩ := (hadmits.lower c.id hkey).eq_finite
  obtain ⟨b, hb⟩ := (hadmits.upper (by rw [hkey]; exact id)).eq_finite
  rw [hkey] at hterm
  cases hterm with
  | plain hplain => exact hplain.elim
  | flow =>
    rw [LinearForm.stored_eq, if_neg one_ne_zero] at hlead
    refine confines_of_row hmem hlead (fun w e hwv he => ?_) ha hb one_ne_zero
    obtain ⟨key, hnamed, hother⟩ := hadmits.terms w e he
    rw [hkey] at hother
    cases hother with
    | plain hplain => exact hplain.elim
    | flow => exact absurd (h.obeys.eq_of_namesVariable hnamed hv) hwv
    | response => exact h.confines_setpoint hnamed

/-! ### The smallest margin -/

/-- The row of a threshold keeps the smallest margin from rising, since its other terms are of a
flow and of a variable that is zero or one. -/
theorem hasLowerBound_of_threshold {c : Cnec K} {side : ThresholdSide}
    (hroot : (0 : K) < Scalar.sqrtThree) (hvoltage : ∀ c ∈ f.perimeter.cnecs, 0 < c.voltage)
    (hkind : f.parameters.objective.kind.isRelative = false)
    (hc : c ∈ f.perimeter.optimizedCnecs) (hside : (c.threshold? side).isSome = true)
    (hv : p.NamesVariable v .minimumMargin) : p.HasLowerBound fun x => -1 * x v := by
  obtain ⟨i, row, hrow, hkey⟩ := h.margins hkind c hc side hside
  have hmem := List.mem_of_getElem? hrow
  have hadmits := h.obeys.rows row hmem
  obtain ⟨w, d, hw, hterm, hlead⟩ := hadmits.lead .minimumMargin (by rw [hkey]; rfl)
  obtain rfl := h.obeys.eq_of_namesVariable hv hw
  obtain ⟨b, hb⟩ := (hadmits.upper (by rw [hkey]; exact id)).eq_finite
  have hd : 0 < d := by
    rw [hkey] at hterm
    generalize hid : c.id = id at hterm
    cases hterm with
    | plain hplain => exact hplain.elim
    | @margin c' _ hc' _ =>
      exact one_div_pos.mpr (Cnec.conversion_pos hroot (hvoltage c' (List.mem_of_mem_filter hc')) _)
  rw [LinearForm.stored_eq, if_neg hd.ne'] at hlead
  refine hasLowerBound_neg_of_row hmem hlead (fun w e hwv he => ?_) hb hd
  obtain ⟨key, hnamed, hother⟩ := hadmits.terms w e he
  rw [hkey] at hother
  generalize hid : c.id = id at hother
  cases hother with
  | plain hplain => exact hplain.elim
  | flowOfMargin => subst hid; exact h.confines_flow (List.mem_of_mem_filter hc) hnamed
  | margin => exact absurd (h.obeys.eq_of_namesVariable hnamed hv) hwv
  | slack => exact h.confines_counts hnamed

/-- Whatever limits the smallest margin, it does not rise above some number. -/
theorem hasLowerBound_margin (hroot : (0 : K) < Scalar.sqrtThree)
    (hvoltage : ∀ c ∈ f.perimeter.cnecs, 0 < c.voltage) (hbounds : f.BoundsMargin)
    (hv : p.NamesVariable v .minimumMargin) : p.HasLowerBound fun x => -1 * x v := by
  cases hkind : f.parameters.objective.kind.isRelative with
  | true =>
    obtain ⟨data, hdata, hkey, hcolumn⟩ := h.column hv
    refine ⟨0, fun x hx => ?_⟩
    have hupper := hx.upper v data 0 hdata (hcolumn.margin_upper hkey hkind)
    linarith only [hupper]
  | false =>
    rcases hbounds with hrelative | ⟨c, hc, side, hside⟩
    · rw [hkind] at hrelative
      cases hrelative
    · exact h.hasLowerBound_of_threshold hroot hvoltage hkind hc hside hv

/-- Without a threshold of an optimised element nothing limits the smallest margin. -/
theorem isFree_margin (hbounds : ¬f.BoundsMargin) (hv : p.NamesVariable v .minimumMargin) :
    p.IsFree v := by
  obtain ⟨hkind, hthreshold⟩ := not_or.mp hbounds
  rw [Bool.not_eq_true] at hkind
  constructor
  · intro data hdata
    obtain ⟨data', hdata', hkey, hcolumn⟩ := h.column hv
    obtain rfl := Option.some.inj (hdata'.symm.trans hdata)
    exact hcolumn.margin_free hkey hkind
  · intro row hrow
    cases hterm : row.form[v]? with
    | none => rfl
    | some c =>
      obtain ⟨key, hnamed, hallowed⟩ := (h.obeys.rows row hrow).terms v c hterm
      obtain rfl := hv.eq hnamed
      generalize row.key = rowKey at hallowed
      cases hallowed with
      | plain _ hkey => exact absurd rfl hkey
      | margin hc hside => exact absurd ⟨_, hc, _, hside⟩ hthreshold

/-! ### The objective -/

/-- A cost is paid for a variable that is not negative. -/
theorem hasLowerBound_cost {c : K} (hc : 0 ≤ c) (hv : p.NamesVariable v key)
    (hkey : key = .absoluteVariation id ∨ key = .mnecViolation id ∨ key = .loopFlowViolation id) :
    p.HasLowerBound fun x => c * x v := by
  obtain ⟨data, hdata, rfl, hcolumn⟩ := h.column hv
  exact ⟨0, fun x hx => mul_nonneg hc (hx.lower v data 0 hdata (hcolumn.lower_of_cost hkey))⟩

/-- If something limits the smallest margin, the objective has a lower bound: all its terms have
one. -/
theorem hasLowerBound_objective (hroot : (0 : K) < Scalar.sqrtThree)
    (hvoltage : ∀ c ∈ f.perimeter.cnecs, 0 < c.voltage) (hcosts : f.HasNonnegativeCosts)
    (hbounds : f.BoundsMargin) : p.HasLowerBound p.objective.eval := by
  refine .eval fun v c hc => ?_
  obtain ⟨key, hv, hprice⟩ := h.obeys.objective v c hc
  cases hprice with
  | distance r => exact h.hasLowerBound_cost (hcosts.penalty r) hv (.inl rfl)
  | excess hp hcnec =>
    have hconversion := Cnec.conversion_pos hroot (hvoltage _ hcnec) f.unit
    exact h.hasLowerBound_cost (mul_nonneg (hcosts.mnec _ hp) hconversion.le) hv (.inr (.inl rfl))
  | loopFlowExcess hp => exact h.hasLowerBound_cost (hcosts.loopFlow _ hp) hv (.inr (.inr rfl))
  | margin => exact h.hasLowerBound_margin hroot hvoltage hbounds hv
  | relativeMargin =>
    obtain ⟨data, hdata, hkey, hcolumn⟩ := h.column hv
    obtain ⟨b, hb⟩ := hcolumn.relativeMargin_upper hkey
    refine ⟨-b, fun x hx => ?_⟩
    have hupper := hx.upper v data b hdata hb
    linarith only [hupper]

/-- If nothing limits the smallest margin and there is a feasible point, the objective falls below
every number. -/
theorem not_isBounded (hbounds : ¬f.BoundsMargin) (hfeasible : p.IsFeasible) : ¬p.IsBounded := by
  obtain ⟨hkind, -⟩ := not_or.mp hbounds
  obtain ⟨v, c, hv, hprice, hstored⟩ := h.price (by simpa using hkind)
  have hc : c = -1 := by cases hprice; rfl
  rw [hc, LinearForm.stored_eq, if_neg (by simp)] at hstored
  exact not_isBounded_of_free hfeasible (h.isFree_margin hbounds hv) hstored (by simp)

end Complete

end Formulation

end GridRelief
