import Mathlib.Data.Set.Finite.Lemmas
import GridRelief.Proofs.Formulation.MarginRows

/-!
# Elements that count when their margins fall

An element of an operator to be ignored limits the smallest margin only if its own margin is less
than it was before the optimisation. Its variable may be zero exactly where the margin has not
fallen, and then its rows are relaxed by more than flows and thresholds can differ. So the largest
smallest margin for given flows is the least one among the elements that are not ignored and those
whose margins have fallen.

* `UnoptimizedParameters.Ignores`: the elements of the operators to be ignored.
* `Conditional.exists_counts_iff`: what an element requires while its variable may be chosen.
* `Conditional.satisfiesSince_iff_of_falling`: what the rows of all elements require.
* `Conditional.largest_smallest_margin`: the largest smallest margin for given flows.
-/

namespace GridRelief

open LinearProblem Writing

variable {K : Type} [ExactScalar K]

omit [ExactScalar K] in
/-- The operator of an element is one whose elements count only when their margins fall. -/
def UnoptimizedParameters.Ignores (parameters : UnoptimizedParameters K) (c : Cnec K) : Prop :=
  c.operator.any parameters.operators.contains = true

omit [ExactScalar K] in
instance (parameters : UnoptimizedParameters K) (c : Cnec K) : Decidable (parameters.Ignores c) :=
  inferInstanceAs (Decidable (_ = true))

namespace Conditional

variable {d : Conditional K} {c : Cnec K} {cnecs : List (Cnec K)} {initial : Flows K}
  {rangeActions : List (RangeAction K)} {parameters : UnoptimizedParameters K}
  {p q : LinearProblem K} {u : PUnit} {point : Linearization K} {before : Cnec K → K}

/-! ### One element -/

/-- The rows of a margin that must not fall hold where the flow keeps the margin as its distance, up
to the slack while the element counts. -/
theorem fallsStatements_hold_iff {margin : K} {y : VariableKey → K} :
    (∀ side, ∀ stated ∈ d.fallsStatement c margin side, stated.HoldsAt y) ↔
      c.KeepsDistance (y (.flow c.id)) (margin - d.conditionSlack * y (.optimizeCnec c.id)) := by
  rw [ThresholdSide.forall_iff]
  simp only [fallsStatement, Option.mem_map, forall_exists_index, and_imp,
    forall_apply_eq_imp_iff₂, Statement.holdsAt_lower_iff, List.map_cons, List.map_nil,
    List.sum_cons, List.sum_nil]
  unfold Cnec.KeepsDistance
  refine and_congr (forall₂_congr fun lower _ => ?_) (forall₂_congr fun upper _ => ?_)
  · constructor <;> intro h <;> linarith only [h]
  · constructor <;> intro h <;> linarith only [h]

/-- The rows of an element's condition say that its margin has not fallen, up to the slack while the
element counts. -/
theorem Poses.rowsHold_iff {s : Sensitivities K} {margin : K} {x : VariableId → K}
    (h : d.Poses s q (c, .marginFalls)) (hspans : c.SpansZero)
    (hmargin : d.initial.margin c .megawatt = .ok margin) :
    (∀ side, q.RowHolds x (.dontOptimizeCnec c.id side)) ↔
      margin - d.conditionSlack * q.valueOf x (.optimizeCnec c.id) ≤
        c.margin (q.valueOf x (.flow c.id)) .megawatt := by
  obtain ⟨margin', hmargin', hshows⟩ := h
  obtain rfl := Except.ok.inj (hmargin.symm.trans hmargin')
  rw [← hspans.keepsDistance_iff, ← fallsStatements_hold_iff]
  exact forall_congr' fun side => (hshows side).rowHolds_iff

/-- With enough slack in both kinds of rows, an element whose variable may be chosen limits the
smallest margin only if its margin has fallen. -/
theorem exists_counts_iff {before now smallest reach conditionSlack marginSlack : K}
    (hbefore : before ≤ reach) (hnow : -reach ≤ now) (hsmallest : smallest ≤ reach)
    (hcondition : 2 * reach ≤ conditionSlack) (hmargin : 2 * reach ≤ marginSlack) :
    (∃ counts : K, (counts = 0 ∨ counts = 1) ∧ before - conditionSlack * counts ≤ now ∧
      smallest - marginSlack * (1 - counts) ≤ now) ↔ (now < before → smallest ≤ now) := by
  constructor
  · rintro ⟨counts, rfl | rfl, hkept, hlimit⟩ hfallen
    · linarith only [hkept, hfallen]
    · linarith only [hlimit]
  · intro h
    by_cases hfallen : now < before
    · refine ⟨1, .inr rfl, ?_, ?_⟩
      · linarith only [hbefore, hnow, hcondition]
      · linarith only [h hfallen]
    · refine ⟨0, .inl rfl, ?_, ?_⟩
      · linarith only [hfallen]
      · linarith only [hnow, hsmallest, hmargin]

omit [ExactScalar K] in
/-- Where no phase shifter is in series, the elements of operators to be ignored count when their
margins fall. -/
theorem condition?_eq_of_falling [Scalar K]
    (hseries : ∀ id ∈ parameters.inSeries[c.id]?, rangeActions.find? (·.id == id) = none) :
    condition? rangeActions parameters c =
      if parameters.Ignores c then some .marginFalls else none := by
  have hnone : (parameters.inSeries[c.id]?.bind fun id => rangeActions.find? (·.id == id)) = none :=
    Option.bind_eq_none_iff.mpr hseries
  unfold condition?
  rw [hnone]
  rfl

/-! ### All elements -/

omit [ExactScalar K] in
/-- Where no phase shifter is in series, the elements that count under a condition are those that
are ignored. -/
theorem mem_ofParameters_of_falling [Scalar K]
    (hseries : ∀ c ∈ cnecs, ∀ id ∈ parameters.inSeries[c.id]?,
      rangeActions.find? (·.id == id) = none) {entry : Cnec K × Condition K} :
    entry ∈ (ofParameters cnecs rangeActions initial parameters).cnecs ↔
      entry.1 ∈ cnecs ∧ parameters.Ignores entry.1 ∧ entry.2 = .marginFalls := by
  rw [mem_ofParameters_iff]
  refine and_congr_right fun hc => ?_
  rw [condition?_eq_of_falling (hseries _ hc)]
  split
  · next h => simp [h, eq_comm]
  · next h => simp [h]

/-- The elements that count when their margins fall can be written into a problem with their flows
that has nothing of them. -/
theorem awaits_of_falling
    (hseries : ∀ c ∈ cnecs, ∀ id ∈ parameters.inSeries[c.id]?,
      rangeActions.find? (·.id == id) = none)
    (hinitial : ∀ c ∈ cnecs, initial.megawatts c.id = .ok (before c))
    (hvariables : ∀ c ∈ cnecs, p.variableId? (.optimizeCnec c.id) = none)
    (hp : Margin.Awaits p cnecs .dontOptimizeCnec) :
    (ofParameters cnecs rangeActions initial parameters).Awaits
      (ofParameters cnecs rangeActions initial parameters).cnecs p := by
  have hmem : ∀ entry ∈ (ofParameters cnecs rangeActions initial parameters).cnecs,
      entry.1 ∈ cnecs := fun entry hentry => (mem_ofParameters_iff.mp hentry).1
  constructor
  · exact fun entry hentry => hp.flows _ (hmem entry hentry)
  · rintro entry hentry shifter hshifter
    cases hshifter.symm.trans ((mem_ofParameters_of_falling hseries).mp hentry).2.2
  · exact fun entry hentry _ => ⟨_, Flows.margin_eq (hinitial _ (hmem entry hentry)) _⟩
  · exact fun entry hentry => hvariables _ (hmem entry hentry)
  · exact fun entry hentry => hp.rows _ (hmem entry hentry)

/-- What the smallest margin and the elements that count when their margins fall leave: their
variables, rows that say of every element what it requires, and no others. -/
theorem rows_of_falling (hids : (cnecs.map Cnec.id).Nodup) (hspans : ∀ c ∈ cnecs, c.SpansZero)
    (hseries : ∀ c ∈ cnecs, ∀ id ∈ parameters.inSeries[c.id]?,
      rangeActions.find? (·.id == id) = none)
    (hinitial : ∀ c ∈ cnecs, initial.megawatts c.id = .ok (before c))
    (hp : Margin.Awaits p cnecs .minimumMargin)
    (hconditions : ∀ c ∈ cnecs, ∀ side, p.rowId? (.dontOptimizeCnec c.id side) = none)
    (h : Succeeds ([Margin.absolutePart cnecs .megawatt,
      (ofParameters cnecs rangeActions initial parameters).part].forM (·.fill point)) p u q) :
    let d := ofParameters cnecs rangeActions initial parameters
    p.Continues (fun row => (∃ c ∈ cnecs, ∃ side, row = .minimumMargin c.id side) ∨
      ∃ entry ∈ d.cnecs, row.IsOf entry.1.id) q ∧
    q.columns = p.columns ++
      (⟨.minimumMargin, .negInf, .posInf, .continuous⟩ :: d.cnecs.map countsVariable) ∧
    ∀ x, ∀ c ∈ cnecs,
      let now := c.margin (q.valueOf x (.flow c.id)) .megawatt
      let counts := q.valueOf x (.optimizeCnec c.id)
      (¬parameters.Ignores c → ((∀ side, q.RowHolds x (.minimumMargin c.id side)) ↔
        q.valueOf x .minimumMargin ≤ now)) ∧
      (parameters.Ignores c →
        ((∀ side, q.RowHolds x (.minimumMargin c.id side)) ↔
          q.valueOf x .minimumMargin - d.marginSlack * (1 - counts) ≤ now) ∧
        ((∀ side, q.RowHolds x (.dontOptimizeCnec c.id side)) ↔
          c.margin (before c) .megawatt - d.conditionSlack * counts ≤ now) ∧
        ∀ side, p.rowId? (.minimumRelativeMargin c.id side) = none →
          q.RowHolds x (.minimumRelativeMargin c.id side)) := by
  intro d
  obtain ⟨r, hmargin, hfill⟩ := succeeds_forM_pair_iff.mp h
  obtain ⟨hpr, hr, hshows⟩ := Margin.shows_absolutePart hids hp.rows hmargin
  have hnew : ∀ entry ∈ d.cnecs, ∀ side, r.rowId? (.dontOptimizeCnec entry.1.id side) = none :=
    fun entry hentry side =>
      hpr.rowId?_eq_none (by simp) (hconditions _ (mem_ofParameters_iff.mp hentry).1 side)
  obtain ⟨hrq, hq, hposes, hrelaxed⟩ := succeeds_fill (nodup_ofParameters hids) hnew hfill
  refine ⟨(hpr.mono fun _ => .inl).trans (hrq.mono fun _ => .inr),
    by rw [hq, hr, List.append_assoc, List.singleton_append], fun x c hc => ?_⟩
  intro now counts
  have hname : ∀ id side, RowKey.minimumMargin id side ∈ marginKeys id := by
    rintro id (_ | _) <;> simp [marginKeys]
  have hfactor : ∀ m : K, 1 / c.conversion .megawatt * m = m := by
    intro m
    rw [show c.conversion .megawatt = 1 from rfl, div_one, one_mul]
  obtain ⟨hplain, hsoft⟩ := marginRows_hold_iff hids hname (by simp) hshows hnew hfill hc x
  simp only [condition?_eq_of_falling (hseries c hc), hfactor, (hspans c hc).keepsDistance_iff]
    at hplain hsoft
  refine ⟨fun h => hplain (if_neg h), fun h => ?_⟩
  have hentry : (c, .marginFalls) ∈ d.cnecs :=
    (mem_ofParameters_of_falling hseries).mpr ⟨hc, h, rfl⟩
  refine ⟨hsoft .marginFalls (if_pos h), ?_, fun side hfresh => ?_⟩
  · exact (hposes _ hentry).rowsHold_iff (hspans c hc) (Flows.margin_eq (hinitial c hc) _)
  · have hnone : r.Shows (.minimumRelativeMargin c.id side) none :=
      ⟨row?_eq_none_iff.mpr (hpr.rowId?_eq_none (by simp) hfresh), by simp⟩
    have hshown := hrelaxed _ hentry _ (by cases side <;> simp [marginKeys]) none hnone (by simp)
    exact hshown.rowHolds_iff.mpr (by simp)

/-- Named values meet what is written of an element that counts when its margin falls: its variable
is zero or one, the margin has not fallen up to one slack while the variable is zero, and the margin
limits the smallest one up to another slack while the variable is one. -/
structure Meets (d : Conditional K) (before : K) (c : Cnec K) (y : VariableKey → K) : Prop where
  binary : y (.optimizeCnec c.id) = 0 ∨ y (.optimizeCnec c.id) = 1
  kept : before - d.conditionSlack * y (.optimizeCnec c.id) ≤ c.margin (y (.flow c.id)) .megawatt
  limit : y .minimumMargin - d.marginSlack * (1 - y (.optimizeCnec c.id)) ≤
    c.margin (y (.flow c.id)) .megawatt

/-- What the smallest margin and the elements that count when their margins fall add to a problem:
every other element limits the smallest margin by its margin. -/
theorem satisfiesSince_iff_of_falling (hids : (cnecs.map Cnec.id).Nodup)
    (hspans : ∀ c ∈ cnecs, c.SpansZero)
    (hseries : ∀ c ∈ cnecs, ∀ id ∈ parameters.inSeries[c.id]?,
      rangeActions.find? (·.id == id) = none)
    (hinitial : ∀ c ∈ cnecs, initial.megawatts c.id = .ok (before c))
    (hp : Margin.Awaits p cnecs .minimumMargin)
    (hconditions : ∀ c ∈ cnecs, ∀ side, p.rowId? (.dontOptimizeCnec c.id side) = none)
    (h : Succeeds ([Margin.absolutePart cnecs .megawatt,
      (ofParameters cnecs rangeActions initial parameters).part].forM (·.fill point)) p u q) :
    p.Extends (fun _ => True) q ∧ q.HasVariable .minimumMargin ∧
      (∀ c ∈ cnecs, parameters.Ignores c → q.HasVariable (.optimizeCnec c.id)) ∧
      ∀ x, q.SatisfiesSince p x ↔
        (∀ c ∈ cnecs, ¬parameters.Ignores c →
          q.valueOf x .minimumMargin ≤ c.margin (q.valueOf x (.flow c.id)) .megawatt) ∧
        ∀ c ∈ cnecs, parameters.Ignores c →
          (ofParameters cnecs rangeActions initial parameters).Meets
            (c.margin (before c) .megawatt) c (q.valueOf x) := by
  obtain ⟨hq, hcolumns, hrows⟩ :=
    rows_of_falling hids hspans hseries hinitial hp hconditions h
  have hentry : ∀ c ∈ cnecs, parameters.Ignores c → (c, .marginFalls) ∈
      (ofParameters cnecs rangeActions initial parameters).cnecs := fun c hc h =>
    (mem_ofParameters_of_falling hseries).mpr ⟨hc, h, rfl⟩
  have hcounts := fun c hc h => List.mem_cons_of_mem
    (⟨.minimumMargin, .negInf, .posInf, .continuous⟩ : Variable K)
    (List.mem_map_of_mem (hentry c hc h) : countsVariable (c, .marginFalls) ∈ _)
  refine ⟨hq.grows, hq.hasVariable hcolumns List.mem_cons_self,
    fun c hc h => hq.hasVariable hcolumns (hcounts c hc h), fun x => ?_⟩
  rw [hq.satisfiesSince_iff hcolumns]
  constructor
  · rintro ⟨hvariables, hall⟩
    have hlimits : ∀ c ∈ cnecs, ∀ side, q.RowHolds x (.minimumMargin c.id side) := fun c hc side =>
      hall _ (.inl ⟨c, hc, side, rfl⟩) (hp.rows c hc side)
    refine ⟨fun c hc h => ((hrows x c hc).1 h).mp (hlimits c hc), fun c hc h => ?_⟩
    obtain ⟨hsoft, hfalls, -⟩ := (hrows x c hc).2 h
    refine ⟨countsVariable_allows_iff.mp (hvariables _ (hcounts c hc h)),
      hfalls.mp fun side => ?_, hsoft.mp (hlimits c hc)⟩
    exact hall _ (.inr ⟨_, hentry c hc h, isOf_dontOptimizeCnec c.id side⟩) (hconditions c hc side)
  · rintro ⟨hothers, hmeets⟩
    have hlimits : ∀ c ∈ cnecs, ∀ side, q.RowHolds x (.minimumMargin c.id side) := by
      intro c hc
      by_cases h : parameters.Ignores c
      · exact ((hrows x c hc).2 h).1.mpr (hmeets c hc h).limit
      · exact ((hrows x c hc).1 h).mpr (hothers c hc h)
    constructor
    · intro data hdata
      rcases List.mem_cons.mp hdata with rfl | hdata
      · exact ⟨⟨trivial, trivial⟩, trivial⟩
      · obtain ⟨entry, hentry, rfl⟩ := List.mem_map.mp hdata
        obtain ⟨hc, h, -⟩ := (mem_ofParameters_of_falling hseries).mp hentry
        exact countsVariable_allows_iff.mpr (hmeets _ hc h).binary
    · rintro row (⟨c, hc, side, rfl⟩ | ⟨entry, hentry, hrow⟩) hfresh
      · exact hlimits c hc side
      · obtain ⟨hc, h, -⟩ := (mem_ofParameters_of_falling hseries).mp hentry
        obtain ⟨-, hfalls, hrelative⟩ := (hrows x _ hc).2 h
        cases row with
        | dontOptimizeCnec id side =>
          obtain rfl : id = entry.1.id := hrow
          exact hfalls.mpr (hmeets _ hc h).kept side
        | minimumMargin id side =>
          obtain rfl : id = entry.1.id := hrow
          exact hlimits _ hc side
        | minimumRelativeMargin id side =>
          obtain rfl : id = entry.1.id := hrow
          exact hrelative side hfresh
        | _ => exact hrow.elim

/-- The smallest margin and the elements that count when their margins fall can be added to a
problem that has none. -/
theorem exists_succeeds_of_falling (point : Linearization K) (hids : (cnecs.map Cnec.id).Nodup)
    (hseries : ∀ c ∈ cnecs, ∀ id ∈ parameters.inSeries[c.id]?,
      rangeActions.find? (·.id == id) = none)
    (hinitial : ∀ c ∈ cnecs, initial.megawatts c.id = .ok (before c))
    (hfresh : p.variableId? .minimumMargin = none)
    (hbinaries : ∀ c ∈ cnecs, p.variableId? (.optimizeCnec c.id) = none)
    (hp : Margin.Awaits p cnecs .minimumMargin)
    (hconditions : Margin.Awaits p cnecs .dontOptimizeCnec) :
    ∃ q, Succeeds ([Margin.absolutePart cnecs .megawatt,
      (ofParameters cnecs rangeActions initial parameters).part].forM (·.fill point)) p ⟨⟩ q := by
  obtain ⟨r, hr⟩ : ∃ r, Succeeds ((Margin.absolutePart cnecs .megawatt).fill point) p ⟨⟩ r :=
    Margin.exists_succeeds_absolutePart hids hfresh hp
  obtain ⟨hpr, hcolumns, -⟩ := Margin.shows_absolutePart hids hp.rows hr
  have hawaits := awaits_of_falling hseries hinitial hbinaries hconditions
  obtain ⟨q, hq⟩ := exists_succeeds_fill point (nodup_ofParameters hids)
    (hawaits.of_continues hpr hcolumns (by simp) (by simp))
  exact ⟨q, succeeds_forM_pair_iff.mpr ⟨r, hr, hq⟩⟩

/-- The smallest margin and the variables of the elements can be chosen for given flows. -/
theorem exists_chosen (hids : (cnecs.map Cnec.id).Nodup) (hgrows : p.Extends (fun _ => True) q)
    (hflows : ∀ c ∈ cnecs, p.HasVariable (.flow c.id)) (hvariable : q.HasVariable .minimumMargin)
    (counts : Cnec K → K) (smallest : K) (x : VariableId → K) :
    ∃ y, (∀ c ∈ cnecs, p.valueOf y (.flow c.id) = p.valueOf x (.flow c.id)) ∧
      q.valueOf y .minimumMargin = smallest ∧
      ∀ c ∈ cnecs, q.HasVariable (.optimizeCnec c.id) →
        q.valueOf y (.optimizeCnec c.id) = counts c := by
  obtain ⟨y, hvalues, hothers⟩ := q.exists_valueOf_of_elements hids
    (fun _ _ heq => VariableKey.optimizeCnec.inj heq) counts
    (Function.update (p.valueOf x) .minimumMargin smallest)
  refine ⟨y, fun c hc => ?_, ?_, hvalues⟩
  · rw [← valueOf_of_extends (hflows c hc) hgrows y,
      hothers _ (by simp) ((hflows c hc).of_extends hgrows).1, Function.update_of_ne (by simp)]
  · rw [hothers _ (by simp) hvariable, Function.update_self]

/-- For flows up to the largest threshold, the smallest margins that are allowed are those up to the
margins of the elements that are not ignored and of the ignored ones whose margins have fallen. -/
theorem valuesSince_eq_of_falling (hids : (cnecs.map Cnec.id).Nodup)
    (hspans : ∀ c ∈ cnecs, c.SpansZero) (hrelaxation : parameters.relaxation = .default)
    (hseries : ∀ c ∈ cnecs, ∀ id ∈ parameters.inSeries[c.id]?,
      rangeActions.find? (·.id == id) = none)
    (hother : ∃ c ∈ cnecs, ¬parameters.Ignores c)
    (hinitial : ∀ c ∈ cnecs, initial.megawatts c.id = .ok (before c))
    (hp : Margin.Awaits p cnecs .minimumMargin)
    (hconditions : ∀ c ∈ cnecs, ∀ side, p.rowId? (.dontOptimizeCnec c.id side) = none)
    (h : Succeeds ([Margin.absolutePart cnecs .megawatt,
      (ofParameters cnecs rangeActions initial parameters).part].forM (·.fill point)) p u q)
    {x : VariableId → K}
    (hflows : ∀ c ∈ cnecs, |p.valueOf x (.flow c.id)| ≤ largestThreshold cnecs) :
    let now := fun c : Cnec K => c.margin (p.valueOf x (.flow c.id)) .megawatt
    q.valuesSince p cnecs x (q.valueOf · .minimumMargin) = {smallest | ∀ c ∈ cnecs,
      (parameters.Ignores c → now c < c.margin (before c) .megawatt) → smallest ≤ now c} := by
  intro now
  ext smallest
  obtain ⟨hgrows, hvariable, hcounts, hholds⟩ :=
    satisfiesSince_iff_of_falling hids hspans hseries hinitial hp hconditions h
  have hnonneg := Cnec.largestThreshold_nonneg cnecs
  obtain ⟨hconditionSlack, hmarginSlack⟩ := slacks_of_default cnecs rangeActions initial hrelaxation
  have hflow : ∀ y, (∀ c ∈ cnecs, p.valueOf y (.flow c.id) = p.valueOf x (.flow c.id)) →
      ∀ c ∈ cnecs, c.margin (q.valueOf y (.flow c.id)) .megawatt = now c := fun y hy c hc => by
    rw [valueOf_of_extends (hp.flows c hc) hgrows, hy c hc]
  have hreach : ∀ c ∈ cnecs, ∀ flow, c.margin flow .megawatt ≤ largestThreshold cnecs :=
    fun c hc flow => (hspans c hc).margin_le.trans (Cnec.largestThreshold_le_of_mem hc)
  have hchosen : ∀ c ∈ cnecs, smallest ≤ largestThreshold cnecs → _ := fun c hc hle =>
    exists_counts_iff (hreach c hc (before c)) ((hspans c hc).neg_le_margin (hflows c hc)) hle
      (hconditionSlack.ge.trans' (by linarith only [hnonneg])) hmarginSlack.ge
  obtain ⟨other, hotherMem, hotherCounts⟩ := hother
  constructor
  · rintro ⟨y, hy, hkeeps, rfl⟩ c hc hfallen
    obtain ⟨hothers, hmeets⟩ := (hholds y).mp hkeeps
    by_cases hignored : parameters.Ignores c
    · obtain ⟨hbinary, hkept, hlimit⟩ := hmeets c hc hignored
      rw [hflow y hy c hc] at hkept hlimit
      have hbelow := (hothers other hotherMem hotherCounts).trans (hreach other hotherMem _)
      exact (hchosen c hc hbelow).mp ⟨_, hbinary, hkept, hlimit⟩ (hfallen hignored)
    · have hlimit := hothers c hc hignored
      rwa [hflow y hy c hc] at hlimit
  · intro hlimits
    have hbelow : smallest ≤ largestThreshold cnecs :=
      (hlimits other hotherMem fun h => absurd h hotherCounts).trans (hreach other hotherMem _)
    have hchoice : ∀ c ∈ cnecs, ∃ counts : K, _ := fun c hc =>
      (hchosen c hc hbelow).mpr fun hfallen => hlimits c hc fun _ => hfallen
    choose! counts hbinary hkept hlimit using hchoice
    obtain ⟨y, hsame, hsmallest, hvalues⟩ :=
      exists_chosen hids hgrows hp.flows hvariable counts smallest x
    refine ⟨y, hsame, (hholds y).mpr ⟨fun c hc h => ?_, fun c hc h => ?_⟩, hsmallest⟩
    · rw [hsmallest, hflow y hsame c hc]
      exact hlimits c hc fun hignored => absurd hignored h
    · have hvalue := hvalues c hc (hcounts c hc h)
      constructor
      · rw [hvalue]
        exact hbinary c hc
      · rw [hvalue, hflow y hsame c hc]
        exact hkept c hc
      · rw [hvalue, hsmallest, hflow y hsame c hc]
        exact hlimit c hc

/-- For flows up to the largest threshold, the largest smallest margin is the least margin among the
elements that are not ignored and the ignored ones whose margins have fallen. -/
theorem largest_smallest_margin (cnecs : List (Cnec K)) (hids : (cnecs.map Cnec.id).Nodup)
    (hspans : ∀ c ∈ cnecs, c.SpansZero) (rangeActions : List (RangeAction K))
    (parameters : UnoptimizedParameters K) (hrelaxation : parameters.relaxation = .default)
    (hseries : ∀ c ∈ cnecs, ∀ id ∈ parameters.inSeries[c.id]?,
      rangeActions.find? (·.id == id) = none)
    (hother : ∃ c ∈ cnecs, ¬parameters.Ignores c) (initial : Flows K) {before : Cnec K → K}
    (hinitial : ∀ c ∈ cnecs, initial.megawatts c.id = .ok (before c))
    (hfresh : p.variableId? .minimumMargin = none)
    (hbinaries : ∀ c ∈ cnecs, p.variableId? (.optimizeCnec c.id) = none)
    (hp : Margin.Awaits p cnecs .minimumMargin)
    (hconditions : Margin.Awaits p cnecs .dontOptimizeCnec) (point : Linearization K) :
    ∃ q, Succeeds ([Margin.absolutePart cnecs .megawatt,
        (ofParameters cnecs rangeActions initial parameters).part].forM (·.fill point)) p ⟨⟩ q ∧
      ∀ x, (∀ c ∈ cnecs, |p.valueOf x (.flow c.id)| ≤ largestThreshold cnecs) →
        let now := fun c : Cnec K => c.margin (p.valueOf x (.flow c.id)) .megawatt
        ∃ largest, IsGreatest (q.valuesSince p cnecs x (q.valueOf · .minimumMargin)) largest ∧
          IsLeast {margin | ∃ c ∈ cnecs,
            (parameters.Ignores c → now c < c.margin (before c) .megawatt) ∧ now c = margin}
            largest := by
  obtain ⟨q, hq⟩ :=
    exists_succeeds_of_falling point hids hseries hinitial hfresh hbinaries hp hconditions
  refine ⟨q, hq, fun x hflows => ?_⟩
  intro now
  rw [valuesSince_eq_of_falling hids hspans hrelaxation hseries hother hinitial hp hconditions.rows
    hq hflows]
  obtain ⟨other, hotherMem, hotherCounts⟩ := hother
  obtain ⟨worst, ⟨hworst, hcounts⟩, hleast⟩ := Set.exists_min_image
    {c | c ∈ cnecs ∧ (parameters.Ignores c → now c < c.margin (before c) .megawatt)} now
    (cnecs.finite_toSet.subset fun _ h => h.1) ⟨other, hotherMem, fun h => absurd h hotherCounts⟩
  refine ⟨now worst, ⟨?_, ?_⟩, ⟨worst, hworst, hcounts, rfl⟩, ?_⟩
  · exact fun c hc hfallen => hleast c ⟨hc, hfallen⟩
  · exact fun smallest hlimits => hlimits worst hworst hcounts
  · rintro _ ⟨c, hc, hfallen, rfl⟩
    exact hleast c ⟨hc, hfallen⟩

end Conditional

/-! Two of three lines belong to an operator to be ignored. The margin of one of them has fallen
from 80 MW to 40 MW, and it limits the smallest margin; that of the other one has risen from 5 MW to
10 MW, and it does not. -/

namespace IgnoredLines

/-- A line with thresholds at 100 MW. -/
def line (id operator : String) : Cnec ℚ :=
  { id, element := id, operator := some operator, lower := some (-100), upper := some 100,
    voltage := 400 }

/-- The lines. -/
def elements : List (Cnec ℚ) := [line "own" "FR", line "falling" "BE", line "rising" "BE"]

/-- The usual parameters with an operator to be ignored. -/
def parameters : UnoptimizedParameters ℚ :=
  { UnoptimizedParameters.default with operators := NameSet.ofNames ["BE"] }

/-- The flows before the optimisation. -/
def initial : Flows ℚ := { flows := Table.ofPairs [("own", 50), ("falling", 20), ("rising", 95)] }

@[inherit_doc initial]
def before (c : Cnec ℚ) : ℚ := initial.flows[c.id]?.getD 0

/-- A problem with the flows of the lines. -/
def flowsOnly : LinearProblem ℚ where
  columns := elements.map fun c => ⟨.flow c.id, .negInf, .posInf, .continuous⟩
  solver := .microlp

/-- The flows, by number. -/
def values (v : VariableId) : ℚ := [30, 60, 90].getD v 0

theorem falling_line_limits :
    ∃ q, Succeeds ([Margin.absolutePart elements .megawatt,
        (Conditional.ofParameters elements [] initial parameters).part].forM
          (·.fill ⟨initial, {}, ⟨{}, {}⟩⟩)) flowsOnly ⟨⟩ q ∧
      IsGreatest (q.valuesSince flowsOnly elements values (q.valueOf · .minimumMargin)) 40 := by
  have hinitial : ∀ c ∈ elements, initial.flows[c.id]? = some (before c) := by decide +kernel
  obtain ⟨q, hq, hall⟩ := Conditional.largest_smallest_margin (p := flowsOnly) elements (by decide)
    (by decide +kernel) [] parameters rfl (fun _ _ _ _ => rfl) (by decide +kernel) initial
    (fun c hc => Flows.megawatts_eq (hinitial c hc)) (by decide) (by decide)
    ⟨by decide, fun _ _ _ => rfl⟩ ⟨by decide, fun _ _ _ => rfl⟩ ⟨initial, {}, ⟨{}, {}⟩⟩
  obtain ⟨largest, hgreatest, hleast⟩ := hall values (by decide +kernel)
  have hlargest : largest = 40 := by
    refine hleast.unique ⟨⟨line "falling" "BE", by simp [elements], by decide +kernel,
      by decide +kernel⟩, ?_⟩
    rintro margin ⟨c, hc, hcounts, rfl⟩
    revert c
    decide +kernel
  exact ⟨q, hq, hlargest ▸ hgreatest⟩

end IgnoredLines

end GridRelief
