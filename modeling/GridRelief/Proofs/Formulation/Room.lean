import Mathlib.Order.Filter.AtTopBot.Basic
import Mathlib.Order.Filter.Finite
import GridRelief.Proofs.Exact
import GridRelief.Proofs.Formulation.Boundedness
import GridRelief.Proofs.Formulation.Rest

/-!
# Room for margins and violations

Smallest margins may be as far below zero as need be, and violations as large. So the rows of
margins and penalties hold at rest once there is enough room, and each of them needs only so much.
The limits on use hold in any case, since nothing moves at rest.

* `Formulation.StaysMet`: work that keeps a problem met at rest once there is enough room.
* `Formulation.staysMet_absoluteMargin`, `Formulation.meets_write_usage` and their likes: the parts
  after set-points and flows, one by one.
* `Formulation.HasRoom.exists_meets`: with enough room, all parts together are met at rest.
-/

namespace GridRelief

open Filter LinearProblem Writing

variable {K : Type} [ExactScalar K]

namespace Formulation

variable {α : Type} {f : Formulation K} {point : Linearization K}

/-! ### Room -/

/-- What falls with the room is at most any number once there is enough room. -/
theorem eventually_sub_mul_le {factor : K} (hfactor : 0 < factor) (a b : K) :
    ∀ᶠ room : K in atTop, a - factor * room ≤ b := by
  filter_upwards [eventually_ge_atTop ((a - b) / factor)] with room hroom
  rw [div_le_iff₀ hfactor] at hroom
  linarith only [hroom]

/-- What there is enough room for at each value of an option, there is enough room for. -/
theorem eventually_forall_option {option : Option α} {P : α → K → Prop}
    (h : ∀ a, option = some a → ∀ᶠ room : K in atTop, P a room) :
    ∀ᶠ room : K in atTop, ∀ a, option = some a → P a room := by
  cases option with
  | none => exact .of_forall (by simp)
  | some a =>
    filter_upwards [h a rfl] with room hroom
    rintro _ ⟨⟩
    exact hroom

/-- What there is enough room for at each element of a list, there is enough room for. -/
theorem eventually_forall_list {xs : List α} {P : α → K → Prop}
    (h : ∀ x ∈ xs, ∀ᶠ room : K in atTop, P x room) :
    ∀ᶠ room : K in atTop, ∀ x ∈ xs, P x room :=
  (eventually_all_finite xs.finite_toSet).mpr h

/-- Once there is enough room, work keeps a problem met at rest. -/
def StaysMet (f : Formulation K) (point : Linearization K) (work : Writing K PUnit) : Prop :=
  ∀ᶠ room : K in atTop, ∀ p u q, p.Meets (f.atRest point room) (fun _ => False) →
    Succeeds work p u q → q.Meets (f.atRest point room) fun _ => False

namespace StaysMet

variable {first second : Writing K PUnit} {xs : List α} {work : α → Writing K PUnit}

theorem seq (hfirst : f.StaysMet point first) (hsecond : f.StaysMet point second) :
    f.StaysMet point (do first; second) := by
  filter_upwards [hfirst, hsecond] with room hfirst hsecond p u q hp h
  obtain ⟨_, s, h, hrest⟩ := succeeds_bind_iff.mp h
  exact hsecond s u q (hfirst p _ s hp h) hrest

theorem forM (h : ∀ x ∈ xs, f.StaysMet point (work x)) : f.StaysMet point (xs.forM work) := by
  filter_upwards [eventually_forall_list h] with room hroom p u q hp hwork
  exact hwork.forM_induction (P := (Meets · _ _)) (fun x hx s t => hroom x hx s _ t) hp

end StaysMet

/-! ### Smallest margins -/

section Margin

variable {cnecs : List (Cnec K)} {factor : Cnec K → K}

/-- The rows that keep a smallest margin below the margins of some elements. -/
theorem eventually_writeRows (f : Formulation K) (point : Linearization K) (key : VariableKey)
    (name : String → ThresholdSide → RowKey)
    (hname : ∀ id side, (name id side).IsWrittenAtOnce) (hfactor : ∀ c ∈ cnecs, 0 < factor c)
    (hflow : ∀ id, .flow id ≠ key)
    (hvalue : ∀ room, f.atRest point room key = -room) :
    ∀ᶠ room : K in atTop, ∀ margin p u q, p.NamesVariable margin key →
      p.Meets (f.atRest point room) (fun _ => False) →
        Succeeds (Margin.writeRows cnecs margin name factor) p u q →
          q.Meets (f.atRest point room) (fun _ => False) ∧ p.Extends (fun _ => True) q := by
  have hroom : ∀ᶠ room : K in atTop, ∀ c ∈ cnecs,
      (∀ lower, c.lower = some lower →
        -f.movement.restingFlow point c.id - factor c * room ≤ -lower) ∧
      ∀ upper, c.upper = some upper →
        f.movement.restingFlow point c.id - factor c * room ≤ upper :=
    eventually_forall_list fun c hc =>
      (eventually_forall_option fun _ _ => eventually_sub_mul_le (hfactor c hc) _ _).and
        (eventually_forall_option fun _ _ => eventually_sub_mul_le (hfactor c hc) _ _)
  filter_upwards [hroom] with room hroom margin p u q hmargin hp h
  refine h.forM_induction (P := fun s => s.Meets (f.atRest point room) (fun _ => False) ∧
    p.Extends (fun _ => True) s) ?_ ⟨hp, .refl p⟩
  rintro c hc s t ⟨hs, hps⟩ ht
  obtain ⟨hlower, hupper⟩ := hroom c hc
  have hrest : f.atRest point room (.flow c.id) = f.movement.restingFlow point c.id := rfl
  simp only [succeeds_bind_iff, succeeds_requireVariable_iff, Bound.ofScalar_eq] at ht
  obtain ⟨flow, _, ⟨hfound, rfl⟩, _, b, hbelow, habove⟩ := ht
  have hnamed := namesVariable_of_variableId? hfound
  have hmargin := hmargin.of_extends hps
  obtain ⟨hb, hsb⟩ := hs.addRow_option hbelow (hname _ _) hnamed hmargin (hflow _)
    fun lower hlimit => ⟨trivial, by
      have hbound := hlower lower hlimit
      rw [hvalue, hrest]
      linarith only [hbound]⟩
  obtain ⟨ht, hbt⟩ := hb.addRow_option habove (hname _ _) (hnamed.of_extends hsb)
    (hmargin.of_extends hsb) (hflow _) fun upper hlimit => ⟨trivial, by
      have hbound := hupper upper hlimit
      rw [hvalue, hrest]
      linarith only [hbound]⟩
  exact ⟨ht, hps.trans (hsb.trans hbt)⟩

/-- The smallest margin is below those of all elements once there is enough room. -/
theorem staysMet_absoluteMargin (hconversion : ∀ c ∈ f.perimeter.cnecs, 0 < c.conversion f.unit) :
    f.StaysMet point (f.absoluteMargin.fill point) := by
  have hfactor : ∀ c ∈ f.perimeter.optimizedCnecs, 0 < 1 / c.conversion f.unit := fun c hc =>
    one_div_pos.mpr (hconversion c (List.mem_of_mem_filter hc))
  have hrows := eventually_writeRows f point .minimumMargin .minimumMargin (fun _ _ => trivial)
    hfactor (by simp) fun _ => rfl
  filter_upwards [hrows] with room hrows p u q hp h
  unfold absoluteMargin Margin.absolutePart Margin.writeAbsoluteRows at h
  simp only [succeeds_bind_iff] at h
  obtain ⟨margin, a, hmargin, _, b, hwrite, hobjective⟩ := h
  have ha := hp.addVariable hmargin not_false ⟨trivial, trivial⟩ trivial
  have hnamed := namesVariable_of_addVariable hmargin
  exact (hrows margin a _ b hnamed ha hwrite).1.setObjective hobjective

/-- So is the smallest relative margin, since zonal sums are kept above a floor. -/
theorem staysMet_relativeMargin (hconversion : ∀ c ∈ f.perimeter.cnecs, 0 < c.conversion f.unit)
    (hfloor : 0 < f.parameters.optimizer.zonalSumFloor) :
    f.StaysMet point (f.relativeMargin.fill point) := by
  have hfactor : ∀ c ∈ f.perimeter.optimizedCnecs, 0 < 1 / c.conversion f.unit := fun c hc =>
    one_div_pos.mpr (hconversion c (List.mem_of_mem_filter hc))
  have hrelativeFactor : ∀ c ∈ f.perimeter.optimizedCnecs, 0 <
      Margin.zonalSum f.baseline.flows f.parameters.optimizer.zonalSumFloor c /
        c.conversion f.unit := by
    intro c hc
    refine div_pos ?_ (hconversion c (List.mem_of_mem_filter hc))
    unfold Margin.zonalSum
    rw [ExactScalar.max_eq]
    exact lt_max_of_lt_right hfloor
  have hrows := eventually_writeRows f point .minimumMargin .minimumMargin (fun _ _ => trivial)
    hfactor (by simp) fun _ => rfl
  have hrelativeRows := eventually_writeRows f point .minimumRelativeMargin .minimumRelativeMargin
    (fun _ _ => trivial) hrelativeFactor (by simp) fun _ => rfl
  have hlargest : ∀ᶠ room : K in atTop, -room ≤ Margin.largestRelativeMargin
      f.perimeter.optimizedCnecs f.unit f.parameters.optimizer.zonalSumFloor := by
    filter_upwards [eventually_sub_mul_le one_pos 0 _] with room hroom
    rwa [zero_sub, one_mul] at hroom
  filter_upwards [hrows, hrelativeRows, hlargest, eventually_ge_atTop 0]
    with room hrows hrelativeRows hlargest hroom p u q hp h
  unfold relativeMargin Margin.relativePart Margin.writeAbsoluteRows at h
  simp only [succeeds_bind_iff, Bound.ofScalar_eq] at h
  obtain ⟨margin, a, hmargin, relative, b, hrelative, _, d, hwrite, _, e, hwriteRelative, _, e',
    hobjective, hrelativeObjective⟩ := h
  have hab : a.Extends (fun _ => True) b := extends_addVariable hrelative
  have ha := hp.addVariable hmargin not_false ⟨trivial, neg_nonpos.mpr hroom⟩ trivial
  have hb := ha.addVariable hrelative not_false ⟨trivial, hlargest⟩ trivial
  obtain ⟨hd, hbd⟩ := hrows margin b _ d ((namesVariable_of_addVariable hmargin).of_extends hab) hb
    hwrite
  have hnamed := (namesVariable_of_addVariable hrelative).of_extends hbd
  have he := (hrelativeRows relative d _ e hnamed hd hwriteRelative).1
  exact (he.setObjective hobjective).setObjective hrelativeObjective

end Margin

/-! ### Penalties -/

section Penalties

variable {c : Cnec K} {cnecs : List (Cnec K)}

theorem staysMet_writeMonitored {parameters : MnecParameters K} {initial : Flows K}
    {unit : FlowUnit} :
    f.StaysMet point (Penalty.writeMonitored parameters initial unit c) := by
  have hroom : ∀ initialFlow, ∀ᶠ room : K in atTop,
      (∀ upper, c.upper = some upper → f.movement.restingFlow point c.id - 1 * room ≤
        Penalty.highestFlow parameters initialFlow upper) ∧
      ∀ lower, c.lower = some lower → -f.movement.restingFlow point c.id - 1 * room ≤
        -Penalty.lowestFlow parameters initialFlow lower := fun _ =>
    (eventually_forall_option fun _ _ => eventually_sub_mul_le one_pos _ _).and
      (eventually_forall_option fun _ _ => eventually_sub_mul_le one_pos _ _)
  filter_upwards [hroom ((initial.megawatts c.id).toOption.getD 0), eventually_ge_atTop 0]
    with room hroom hnonneg p u q hp h
  unfold Penalty.writeMonitored at h
  simp only [succeeds_bind_iff, succeeds_ofExcept_iff, succeeds_requireVariable_iff,
    Bound.ofScalar_eq] at h
  obtain ⟨initialFlow, _, ⟨hinitial, rfl⟩, flow, _, ⟨hfound, rfl⟩, excess, a, hexcess, _, b, habove,
    _, d, hbelow, hobjective⟩ := h
  simp only [hinitial, Except.toOption, Option.getD_some] at hroom
  obtain ⟨hupper, hlower⟩ := hroom
  have hpa : p.Extends (fun _ => True) a := extends_addVariable hexcess
  have hflow := (namesVariable_of_variableId? hfound).of_extends hpa
  have hnamed := namesVariable_of_addVariable hexcess
  have hvalue : f.atRest point room (.flow c.id) = f.movement.restingFlow point c.id := rfl
  have hroom : f.atRest point room (.mnecViolation c.id) = room := rfl
  have ha := hp.addVariable hexcess not_false ⟨hnonneg, trivial⟩ trivial
  obtain ⟨hb, hab⟩ := ha.addRow_option habove trivial hflow hnamed (by simp) fun upper hlimit =>
    ⟨trivial, by
      have hbound := hupper upper hlimit
      rw [hvalue, hroom]
      linarith only [hbound]⟩
  obtain ⟨hd, -⟩ := hb.addRow_option hbelow trivial (hflow.of_extends hab) (hnamed.of_extends hab)
    (by simp) fun lower hlimit => ⟨by
      have hbound := hlower lower hlimit
      rw [hvalue, hroom]
      linarith only [hbound], trivial⟩
  exact hd.setObjective hobjective

variable {rule : LoopFlowRule K} {flows : Flows K}

/-- The rows of a loop flow are written without bounds, so they hold. -/
theorem staysMet_write_loopFlow : f.StaysMet point (rule.write c) := by
  filter_upwards [eventually_ge_atTop 0] with room hnonneg p u q hp h
  unfold LoopFlowRule.write at h
  simp only [succeeds_bind_iff, succeeds_requireVariable_iff] at h
  obtain ⟨flow, _, ⟨hfound, rfl⟩, excess, a, hexcess, _, b, hpositive, _, d, hnegative,
    hobjective⟩ := h
  have hpa : p.Extends (fun _ => True) a := extends_addVariable hexcess
  have hab : a.Extends (fun _ => True) b := extends_addRow hpositive
  have hflow := (namesVariable_of_variableId? hfound).of_extends hpa
  have hnamed := namesVariable_of_addVariable hexcess
  have ha := hp.addVariable hexcess not_false ⟨hnonneg, trivial⟩ trivial
  have hb := ha.addRow hpositive ⟨fun _ _ _ => ⟨trivial, trivial⟩, by simp, by
    rintro _ _ ⟨⟩ x hx
    rw [hx.eval_pair hflow hnamed (by simp), one_mul]
    rfl⟩
  have hd := hb.addRow hnegative ⟨fun _ _ _ => ⟨trivial, trivial⟩, by simp, by
    rintro _ _ ⟨⟩ x hx
    rw [hx.eval_pair (hflow.of_extends hab) (hnamed.of_extends hab) (by simp), one_mul]
    rfl⟩
  exact hd.setObjective hobjective

/-- With enough room the bounds that they get hold too. -/
theorem staysMet_adapt_loopFlow : f.StaysMet point (rule.adapt flows c) := by
  have hroom : ∀ upper lower : K, ∀ᶠ room : K in atTop,
      f.movement.restingFlow point c.id - 1 * room ≤ upper ∧
        -f.movement.restingFlow point c.id - 1 * room ≤ -lower := fun _ _ =>
    (eventually_sub_mul_le one_pos _ _).and (eventually_sub_mul_le one_pos _ _)
  have hlimit : ∀ᶠ room : K in atTop, ∀ limit, (rule.limit c).toOption = some limit →
      f.movement.restingFlow point c.id - 1 * room ≤
        limit + flows.commercialFlow c.id + LoopFlowRule.tolerance ∧
      -f.movement.restingFlow point c.id - 1 * room ≤
        -(-limit + flows.commercialFlow c.id - LoopFlowRule.tolerance) :=
    eventually_forall_option fun _ _ => hroom _ _
  filter_upwards [hlimit] with room hlimit p u q hp h
  unfold LoopFlowRule.adapt at h
  simp only [succeeds_bind_iff, succeeds_ofExcept_iff, succeeds_requireRow_iff,
    Bound.ofScalar_eq] at h
  obtain ⟨limit, _, ⟨hok, rfl⟩, positive, _, ⟨hpositive, rfl⟩, negative, _, ⟨hnegative, rfl⟩, _, a,
    hfirst, hsecond⟩ := h
  obtain ⟨hupper, hlower⟩ := hlimit limit (by rw [hok]; rfl)
  have hfirstRow := namesRow_of_rowId? hpositive
  have hpa : p.Extends (fun _ => True) a := extends_setRowBounds hfirstRow trivial hfirst
  have hflow : f.atRest point room (.flow c.id) = f.movement.restingFlow point c.id := rfl
  have hexcess : f.atRest point room (.loopFlowViolation c.id) = room := rfl
  have ha := hp.boundLoopFlow hfirstRow hfirst ⟨trivial, by
    rw [hflow, hexcess, AbsoluteSide.factor]
    linarith only [hupper]⟩
  exact ha.boundLoopFlow ((namesRow_of_rowId? hnegative).of_extends hpa) hsecond ⟨by
    rw [hflow, hexcess, AbsoluteSide.factor]
    linarith only [hlower], trivial⟩

end Penalties

/-! ### Limits on use -/

section Usage

variable {budget : UsageBudget} {r : RangeAction K} {room : K} {pending : String → Prop}
  {p q : LinearProblem K} {u : PUnit} {row : RowId} {rowKey : RowKey} {limit : Nat}
  {operator : String} {activation : Activation K}

theorem meets_writeMoves (hmodel : f.byTaps = false) (hp : p.Meets (f.atRest point room) pending)
    (h : Succeeds ((f.usage budget).writeMoves r) p u q) :
    q.Meets (f.atRest point room) pending := by
  have hslack : 0 ≤ (f.usage budget).slack r := by
    have htolerance : (f.usage budget).slack r = Usage.tolerance := by
      unfold Usage.slack usage
      simp only [hmodel, Bool.false_eq_true, if_false]
    rw [htolerance, Usage.tolerance, ExactScalar.ofDecimal_eq]
    positivity
  unfold Usage.writeMoves addBinary at h
  simp only [succeeds_bind_iff, succeeds_requireVariable_iff, succeeds_ofExcept_iff,
    succeeds_pure_iff, Bound.ofScalar_eq] at h
  obtain ⟨moves, a, hmoves, distance, _, ⟨hfound, rfl⟩, _, _, ⟨-, rfl⟩, _, _, hrow, -, rfl⟩ := h
  have hmoves' : f.atRest point room (.variation r.id) = 0 := rfl
  have hdistance : f.atRest point room (.absoluteVariation r.id) = 0 := rfl
  have ha := hp.addVariable hmoves not_false ⟨le_rfl, zero_le_one⟩ (.inl rfl)
  refine ha.addRow_pair hrow trivial (namesVariable_of_variableId? hfound)
    (namesVariable_of_addVariable hmoves) (by simp) ⟨trivial, ?_⟩
  rw [hdistance, hmoves', mul_zero, mul_zero, add_zero]
  exact hslack

/-- A limit on a number allows none. -/
theorem within_count (limit : Nat) :
    within (.finite (0 : K)) (.finite (Scalar.ofInt limit)) 0 := by
  have hnonneg : (0 : K) ≤ ((limit : ℤ) : K) := by exact_mod_cast limit.zero_le
  rw [ExactScalar.ofInt_eq]
  exact ⟨le_rfl, hnonneg⟩

theorem meets_writeCount {rangeActions : List (RangeAction K)} (hkey : rowKey.IsWrittenAtOnce)
    (hp : p.Meets (f.atRest point room) pending)
    (h : Succeeds (Usage.writeCount rowKey limit rangeActions) p u q) :
    q.Meets (f.atRest point room) pending := by
  unfold Usage.writeCount at h
  rw [succeeds_bind_iff] at h
  obtain ⟨row, a, hrow, hterms⟩ := h
  have ha := hp.addRow_empty hrow hkey (within_count limit)
  refine (hterms.forM_induction (P := fun s => s.Meets (f.atRest point room) pending ∧
    s.NamesRow row rowKey) ?_ ⟨ha, namesRow_of_addRow hrow⟩).1
  rintro r - s t ⟨hs, hnamed⟩ ht
  simp only [succeeds_bind_iff, succeeds_requireVariable_iff] at ht
  obtain ⟨v, _, ⟨hv, rfl⟩, hset⟩ := ht
  have hst : s.Extends (fun _ => True) t := extends_setCoefficient hnamed trivial hset
  exact ⟨hs.setCoefficient_of_zero hnamed hkey (namesVariable_of_variableId? hv) rfl hset,
    hnamed.of_extends hst⟩

theorem meets_writeMaxRa (hp : p.Meets (f.atRest point room) pending)
    (h : Succeeds ((f.usage budget).writeMaxRa limit) p u q) :
    q.Meets (f.atRest point room) pending := by
  unfold Usage.writeMaxRa at h
  split at h
  · exact meets_writeCount (by trivial) hp h
  · obtain ⟨-, rfl⟩ := succeeds_pure_iff.mp h
    exact hp

/-- An operator that is not involved adds nothing to the number of operators. -/
theorem meets_writeOperator (hrow : p.NamesRow row .maxTso)
    (hp : p.Meets (f.atRest point room) pending)
    (h : Succeeds ((f.usage budget).writeOperator row operator) p u q) :
    q.Meets (f.atRest point room) pending ∧ q.NamesRow row .maxTso := by
  unfold Usage.writeOperator at h
  simp only [succeeds_bind_iff] at h
  obtain ⟨used, a, hused, _, b, hset, hrows⟩ := h
  have hpa : p.Extends (fun _ => True) a := extends_addVariable hused
  have hrow := hrow.of_extends hpa
  have hab : a.Extends (fun _ => True) b := extends_setCoefficient hrow trivial hset
  have hnamed := namesVariable_of_addVariable hused
  have ha := hp.addVariable hused not_false ⟨le_rfl, zero_le_one⟩ trivial
  have hb := ha.setCoefficient_of_zero hrow trivial hnamed rfl hset
  suffices hrest : q.Meets (f.atRest point room) pending ∧ b.Extends (fun _ => True) q from
    ⟨hrest.1, (hrow.of_extends hab).of_extends hrest.2⟩
  refine hrows.forM_induction (P := fun s => s.Meets (f.atRest point room) pending ∧
    b.Extends (fun _ => True) s) ?_ ⟨hb, .refl b⟩
  rintro r - s t ⟨hs, hbs⟩ ht
  simp only [succeeds_bind_iff, succeeds_requireVariable_iff, succeeds_pure_iff] at ht
  obtain ⟨moves, _, ⟨hmoves, rfl⟩, _, _, hadd, -, rfl⟩ := ht
  have hmoved := namesVariable_of_variableId? hmoves
  refine ⟨hs.addRow_pair hadd trivial ((hnamed.of_extends hab).of_extends hbs) hmoved (by simp)
    ⟨?_, trivial⟩, hbs.trans (extends_addRow hadd)⟩
  change (0 : K) ≤ 1 * 0 + -1 * 0
  simp

theorem meets_writeMaxTso (hp : p.Meets (f.atRest point room) pending)
    (h : Succeeds ((f.usage budget).writeMaxTso limit) p u q) :
    q.Meets (f.atRest point room) pending := by
  unfold Usage.writeMaxTso at h
  split at h
  · rw [succeeds_bind_iff] at h
    obtain ⟨row, a, hrow, hoperators⟩ := h
    have ha := hp.addRow_empty hrow trivial (within_count limit)
    refine (hoperators.forM_induction (P := fun s => s.Meets (f.atRest point room) pending ∧
      s.NamesRow row .maxTso) ?_ ⟨ha, namesRow_of_addRow hrow⟩).1
    rintro operator - s t ⟨hs, hnamed⟩ ht
    exact meets_writeOperator hnamed hs ht
  · obtain ⟨-, rfl⟩ := succeeds_pure_iff.mp h
    exact hp

/-- Without variables for moves of taps there is nothing to count. -/
theorem eq_of_writeTapDistance (hp : p.Meets (f.atRest point room) pending)
    (h : Succeeds ((f.usage budget).writeTapDistance activation row r) p u q) : q = p := by
  unfold Usage.writeTapDistance at h
  simp only [succeeds_bind_iff, succeeds_variableId?_iff] at h
  obtain ⟨_, _, ⟨hup, rfl⟩, h⟩ := h
  rw [hp.variableId?_tapVariation] at hup
  subst hup
  exact (succeeds_pure_iff.mp h).2.symm

theorem meets_writeMaxElementary (hp : p.Meets (f.atRest point room) pending)
    (h : Succeeds ((f.usage budget).writeMaxElementary activation operator limit) p u q) :
    q.Meets (f.atRest point room) pending := by
  unfold Usage.writeMaxElementary at h
  rw [succeeds_bind_iff] at h
  obtain ⟨row, a, hrow, hshifters⟩ := h
  have ha := hp.addRow_empty hrow trivial (within_count limit)
  refine hshifters.forM_induction (P := (Meets · _ _)) ?_ ha
  intro r _ s t hs ht
  rwa [eq_of_writeTapDistance hs ht]

/-- By cases on the limits: all of them hold at rest. -/
theorem meets_write_usage (hmodel : f.byTaps = false)
    (hp : p.Meets (f.atRest point room) pending)
    (h : Succeeds ((f.usage budget).write activation) p u q) :
    q.Meets (f.atRest point room) pending := by
  unfold Usage.write at h
  simp only [succeeds_bind_iff] at h
  obtain ⟨_, a, hmoves, _, b, hmaxRa, _, d, hmaxTso, _, e, hperTso, _, e', hpst, helementary⟩ := h
  have ha : a.Meets (f.atRest point room) pending :=
    hmoves.forM_induction (P := (Meets · _ _)) (fun _ _ _ _ => meets_writeMoves hmodel) hp
  have hb : b.Meets (f.atRest point room) pending :=
    hmaxRa.forM_option (P := (Meets · _ _)) (fun _ _ => meets_writeMaxRa ha) ha
  have hd : d.Meets (f.atRest point room) pending :=
    hmaxTso.forM_option (P := (Meets · _ _)) (fun _ _ => meets_writeMaxTso hb) hb
  have he : e.Meets (f.atRest point room) pending :=
    hperTso.forM_induction (P := (Meets · _ _)) (fun _ _ _ _ => meets_writeCount trivial) hd
  have he' : e'.Meets (f.atRest point room) pending :=
    hpst.forM_induction (P := (Meets · _ _)) (fun _ _ _ _ => meets_writeCount trivial) he
  exact helementary.forM_induction (P := (Meets · _ _))
    (fun _ _ _ _ => meets_writeMaxElementary) he'

end Usage

/-! ### All parts -/

/-- What is needed for there to be enough room: units with positive factors, a positive floor of
zonal sums, no moves of taps, and no element that counts under a condition. -/
structure HasRoom (f : Formulation K) : Prop where
  conversion : ∀ c ∈ f.perimeter.cnecs, 0 < c.conversion f.unit
  floor : 0 < f.parameters.optimizer.zonalSumFloor
  model : f.byTaps = false
  unconditional : f.parameters.unoptimized.isActive = false

/-- All parts after set-points and flows keep a problem met at rest. -/
theorem HasRoom.exists_parts (h : f.HasRoom) (point : Linearization K) : ∃ later,
    f.parts = f.movement.part :: later ∧
      ∀ part ∈ later, f.StaysMet point (part.fill point) := by
  unfold parts
  simp only [List.append_assoc, List.cons_append, List.nil_append]
  refine ⟨_, rfl, fun part hpart => ?_⟩
  simp only [List.mem_cons, List.mem_append] at hpart
  rcases hpart with htaps | rfl | hconditional | hmonitored | hloopFlow | husage
  · rw [h.model] at htaps
    cases htaps
  · split
    · exact staysMet_relativeMargin h.conversion h.floor
    · exact staysMet_absoluteMargin h.conversion
  · rw [h.unconditional] at hconditional
    cases hconditional
  · split at hmonitored
    · next p hp =>
      obtain ⟨-, rfl⟩ := mem_partIf hmonitored
      exact .forM fun c _ => staysMet_writeMonitored
    · cases hmonitored
  · split at hloopFlow
    · next p hp =>
      obtain ⟨-, rfl⟩ := mem_partIf hloopFlow
      exact .seq (.forM fun c _ => staysMet_write_loopFlow)
        (.forM fun c _ => staysMet_adapt_loopFlow)
    · cases hloopFlow
  · split at husage
    · next budget hbudget =>
      obtain ⟨hlimited, rfl⟩ := mem_partIf husage
      refine .of_forall fun room p u q hp hwrite => ?_
      change Succeeds (if budget.isLimited then _ else pure ()) p u q at hwrite
      rw [if_pos hlimited] at hwrite
      exact meets_write_usage h.model hp hwrite
    · cases husage

/-- With enough room, the problem that all parts have written is met at rest. -/
theorem HasRoom.exists_meets (h : f.HasRoom) (hrange : f.StartsWithinRanges)
    {solver : SolverKind} {u : PUnit} {p : LinearProblem K}
    (hfill : Succeeds (f.parts.forM (·.fill point)) (.empty solver) u p) :
    ∃ room, p.Meets (f.atRest point room) fun _ => False := by
  obtain ⟨later, hparts, hlater⟩ := h.exists_parts point
  rw [hparts, succeeds_forM_cons_iff] at hfill
  obtain ⟨a, hmovement, hrest⟩ := hfill
  obtain ⟨room, hroom⟩ := (StaysMet.forM hlater).exists
  exact ⟨room, hroom a u p (meets_movement_fill hrange hmovement) hrest⟩

end Formulation

end GridRelief
