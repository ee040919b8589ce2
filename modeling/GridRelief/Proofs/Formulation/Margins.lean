import GridRelief.Proofs.Formulation.Boundedness
import GridRelief.Proofs.Objective

/-!
# Smallest margins

The rows of a smallest margin say of each threshold that the flow keeps a distance from it. The
margin objective takes the nearer threshold of each element, in a unit, and sorts the margins. For
given flows both come to the same number: the least margin of an element with a threshold.

* `Cnec.keepsDistance_iff`: a distance from each threshold is one from the nearer threshold.
* `Margin.succeeds_writeRows`: what the rows of a smallest margin say.
* `Margin.exists_succeeds_writeRows`: they can be written.
* `Margin.allowed_margins_eq`: the smallest margins that the rows allow are those up to the
  opposite of the functional cost.
-/

namespace GridRelief

open LinearProblem Writing

variable {K : Type} [ExactScalar K]

/-! ### Distances from thresholds -/

namespace Cnec

variable {c : Cnec K} {flow distance : K} {unit : FlowUnit}

/-- The element has a threshold. -/
def IsLimited (c : Cnec K) : Prop := c.lower.isSome ∨ c.upper.isSome

instance (c : Cnec K) : Decidable c.IsLimited := inferInstanceAs (Decidable (_ ∨ _))

/-- The lower threshold is not above the upper one, if the element has both. -/
def IsOrdered (c : Cnec K) : Prop := ∀ lower ∈ c.lower, ∀ upper ∈ c.upper, lower ≤ upper

instance (c : Cnec K) : Decidable c.IsOrdered :=
  inferInstanceAs (Decidable (∀ lower ∈ c.lower, ∀ upper ∈ c.upper, lower ≤ upper))

/-- A flow keeps a distance from the thresholds of an element. -/
def KeepsDistance (c : Cnec K) (flow distance : K) : Prop :=
  (∀ lower, c.lower = some lower → distance ≤ flow - lower) ∧
    ∀ upper, c.upper = some upper → distance ≤ upper - flow

theorem keepsDistance_of_not_isLimited (h : ¬c.IsLimited) : c.KeepsDistance flow distance := by
  obtain ⟨hlower, hupper⟩ := not_or.mp h
  constructor
  · intro lower hlimit
    exact absurd (by simp [hlimit]) hlower
  · intro upper hlimit
    exact absurd (by simp [hlimit]) hupper

theorem margin_of_not_isLimited (h : ¬c.IsLimited) : c.margin flow unit = Scalar.largest := by
  obtain ⟨hlower, hupper⟩ := not_or.mp h
  have hdistance : c.distance flow = Scalar.largest := by
    unfold Cnec.distance
    rw [Option.not_isSome_iff_eq_none.mp hlower, Option.not_isSome_iff_eq_none.mp hupper]
    simp
  unfold margin
  rw [hdistance, if_pos ((ExactScalar.beq_iff _ _).mpr rfl)]

/-- A distance that is not the largest number is that from the nearer threshold. -/
theorem le_distance_iff (hlimited : c.IsLimited) (h : c.distance flow ≠ Scalar.largest) :
    distance ≤ c.distance flow ↔ c.KeepsDistance flow distance := by
  unfold Cnec.distance KeepsDistance at *
  rw [ExactScalar.min_eq] at *
  cases hlower : c.lower with
  | none =>
    cases hupper : c.upper with
    | none => exact absurd hlimited (by simp [IsLimited, hlower, hupper])
    | some upper =>
      rw [hlower, hupper] at h
      have hnear : upper - flow < Scalar.largest := by
        rw [← not_le]
        exact fun hfar => h (min_eq_left hfar)
      simp [min_eq_right hnear.le]
  | some lower =>
    cases hupper : c.upper with
    | none =>
      rw [hlower, hupper] at h
      have hnear : flow - lower < Scalar.largest := by
        rw [← not_le]
        exact fun hfar => h (min_eq_right hfar)
      simp [min_eq_left hnear.le]
    | some upper => simp

/-- A flow keeps a distance from all thresholds if and only if its margin is at least the distance
in the unit. -/
theorem keepsDistance_iff (hlimited : c.IsLimited) (hconversion : 0 < c.conversion unit)
    (hmargin : c.margin flow unit < Scalar.largest) :
    c.KeepsDistance flow distance ↔ distance * c.conversion unit ≤ c.margin flow unit := by
  have hdistance : c.distance flow ≠ Scalar.largest := by
    intro hlargest
    unfold margin at hmargin
    rw [hlargest, if_pos ((ExactScalar.beq_iff _ _).mpr rfl)] at hmargin
    exact lt_irrefl _ hmargin
  have hproduct : c.margin flow unit = c.distance flow * c.conversion unit :=
    if_neg fun hlargest => hdistance ((ExactScalar.beq_iff _ _).mp hlargest)
  rw [hproduct, mul_le_mul_iff_left₀ hconversion, le_distance_iff hlimited hdistance]

/-- A margin in megawatts is a distance. -/
theorem margin_megawatt (c : Cnec K) (flow : K) : c.margin flow .megawatt = c.distance flow := by
  change (if c.distance flow == Scalar.largest then c.distance flow else c.distance flow * 1) = _
  rw [mul_one, ite_self]

/-- The distance from the nearer one of two thresholds. -/
theorem distance_of_both {lower upper : K} (hlower : c.lower = some lower)
    (hupper : c.upper = some upper) (flow : K) :
    c.distance flow = min (flow - lower) (upper - flow) := by
  unfold Cnec.distance
  rw [hlower, hupper, ExactScalar.min_eq]
  rfl

/-- The distance from a lower threshold that is the only one. -/
theorem distance_of_lower {lower : K} (hlower : c.lower = some lower) (hupper : c.upper = none)
    (h : c.distance flow < Scalar.largest) : c.distance flow = flow - lower := by
  unfold Cnec.distance at h ⊢
  rw [hlower, hupper, ExactScalar.min_eq, Option.map_some, Option.getD_some, Option.map_none,
    Option.getD_none] at h ⊢
  exact min_eq_left_iff.mpr (not_lt.mp fun hlarge => (min_eq_right hlarge.le ▸ h).false)

/-- The distance from an upper threshold that is the only one. -/
theorem distance_of_upper {upper : K} (hlower : c.lower = none) (hupper : c.upper = some upper)
    (h : c.distance flow < Scalar.largest) : c.distance flow = upper - flow := by
  unfold Cnec.distance at h ⊢
  rw [hlower, hupper, ExactScalar.min_eq, Option.map_some, Option.getD_some, Option.map_none,
    Option.getD_none] at h ⊢
  exact min_eq_right_iff.mpr (not_lt.mp fun hlarge => (min_eq_left hlarge.le ▸ h).false)

/-- What a row says of a variable whose factor is a weight over the conversion to the unit. -/
theorem keepsDistance_div_iff (hlimited : c.IsLimited) (hconversion : 0 < c.conversion unit)
    (hmargin : c.margin flow unit < Scalar.largest) (weight m : K) :
    c.KeepsDistance flow (weight / c.conversion unit * m) ↔ weight * m ≤ c.margin flow unit := by
  rw [keepsDistance_iff hlimited hconversion hmargin, div_mul_eq_mul_div,
    div_mul_cancel₀ _ hconversion.ne']

end Cnec

/-! ### What is added to a problem -/

namespace LinearProblem

variable {p q : LinearProblem K} {x : VariableId → K}

/-- An assignment keeps the bounds, rows and integrality conditions that a problem has beyond those
of an earlier one. -/
def SatisfiesSince (q p : LinearProblem K) (x : VariableId → K) : Prop :=
  (∀ (v : VariableId) data, p.columns.length ≤ v → q.columns[v]? = some data →
    within data.lower data.upper (x v) ∧ kindAllows data.kind (x v)) ∧
  ∀ row ∈ q.rows.drop p.rows.length, within row.lower row.upper (row.form.eval x)

omit [ExactScalar K] in
theorem valueOf_congr (h : q.columns = p.columns) (x : VariableId → K) (key : VariableKey) :
    q.valueOf x key = p.valueOf x key := by
  unfold valueOf number variableId?
  rw [h]

omit [ExactScalar K] in
theorem hasVariable_congr (h : q.columns = p.columns) {key : VariableKey} :
    q.HasVariable key ↔ p.HasVariable key := by
  unfold HasVariable number LinearProblem.variableId?
  rw [h]

omit [ExactScalar K] in
/-- The value of a variable does not change with that of another one. -/
theorem valueOf_update_of_ne {key other : VariableKey} (hkey : q.HasVariable key)
    (hother : q.HasVariable other) (hne : key ≠ other) (m : K) :
    q.valueOf (Function.update x (q.number key) m) other = q.valueOf x other :=
  Function.update_of_ne (fun heq => hne (hkey.eq_of_number_eq hother heq.symm)) _ _

omit [ExactScalar K] in
theorem valueOf_of_extends {touched : RowKey → Prop} {key : VariableKey} (h : p.HasVariable key)
    (hgrows : p.Extends touched q) (x : VariableId → K) : q.valueOf x key = p.valueOf x key := by
  unfold valueOf
  rw [(h.of_extends hgrows).2]

/-- What a problem has beyond an earlier one are the variables and rows that have been added. -/
theorem satisfiesSince_iff {columns : List (Variable K)} {rows : List (Row K)}
    (hcolumns : q.columns = p.columns ++ columns) (hrows : q.rows = p.rows ++ rows) :
    q.SatisfiesSince p x ↔
      (∀ entry ∈ columns.zipIdx p.columns.length,
        within entry.1.lower entry.1.upper (x entry.2) ∧ kindAllows entry.1.kind (x entry.2)) ∧
      ∀ row ∈ rows, within row.lower row.upper (row.form.eval x) := by
  unfold SatisfiesSince
  rw [hrows, List.drop_left, hcolumns]
  refine and_congr_left' ⟨?_, ?_⟩
  · rintro h ⟨data, v⟩ hentry
    obtain ⟨hv, hdata⟩ := List.mem_zipIdx_iff_le_and_getElem?_sub.mp hentry
    exact h v data hv (by rwa [List.getElem?_append_right hv])
  · intro h v data hv hdata
    rw [List.getElem?_append_right hv] at hdata
    exact h (data, v) (List.mem_zipIdx_iff_le_and_getElem?_sub.mpr ⟨hv, hdata⟩)

end LinearProblem

namespace Margin

variable {cnecs : List (Cnec K)} {p q : LinearProblem K} {u : PUnit} {margin : VariableId}
  {key : VariableKey} {name : String → ThresholdSide → RowKey} {factor : Cnec K → K}
  {x : VariableId → K}

/-! ### Rows -/

/-- A row of two variables holds where its form is at most its bound. -/
theorem within_pair {v w : VariableId} (hvw : v ≠ w) (a b bound : K) :
    within .negInf (.ofScalar bound) ((LinearForm.ofTerms [(v, a), (w, b)]).eval x) ↔
      a * x v + b * x w ≤ bound := by
  rw [LinearForm.eval_ofTerms (by simp [hvw]), Bound.ofScalar_eq]
  simp [within]

/-- The rows that keep a variable, times a factor, at most the distances of a flow from the
thresholds of an element. -/
def rowsOf (c : Cnec K) (flow margin : VariableId) (name : String → ThresholdSide → RowKey)
    (factor : K) : List (Row K) :=
  (c.lower.toList.map fun lower =>
    ⟨name c.id .below, .negInf, .ofScalar (-lower), .ofTerms [(flow, -1), (margin, factor)]⟩) ++
  c.upper.toList.map fun upper =>
    ⟨name c.id .above, .negInf, .ofScalar upper, .ofTerms [(flow, 1), (margin, factor)]⟩

theorem rowsOf_hold_iff {c : Cnec K} {flow : VariableId} (hne : flow ≠ margin) (factor : K) :
    (∀ row ∈ rowsOf c flow margin name factor, within row.lower row.upper (row.form.eval x)) ↔
      c.KeepsDistance (x flow) (factor * x margin) := by
  unfold rowsOf Cnec.KeepsDistance
  simp only [List.forall_mem_append, List.forall_mem_map, Option.mem_toList,
    within_pair hne]
  refine and_congr (forall₂_congr fun lower _ => ?_) (forall₂_congr fun upper _ => ?_)
  · constructor <;> intro h <;> linarith only [h]
  · constructor <;> intro h <;> linarith only [h]

/-- The rows of a smallest margin hold where the flow of every element keeps a multiple of it as
its distance. -/
theorem succeeds_writeRows (hmargin : p.NamesVariable margin key) (hkey : ∀ id, key ≠ .flow id)
    (h : Succeeds (writeRows cnecs margin name factor) p u q) :
    ∃ rows, q = { p with rows := p.rows ++ rows } ∧ ∀ x : VariableId → K,
      (∀ row ∈ rows, within row.lower row.upper (row.form.eval x)) ↔
        ∀ c ∈ cnecs, c.KeepsDistance (p.valueOf x (.flow c.id)) (factor c * x margin) := by
  induction cnecs generalizing p with
  | nil =>
    obtain ⟨-, rfl⟩ := succeeds_pure_iff.mp h
    exact ⟨[], by simp, by simp⟩
  | cons c cnecs ih =>
    obtain ⟨s, hfirst, hrest⟩ := succeeds_forM_cons_iff.mp h
    simp only [succeeds_bind_iff, succeeds_requireVariable_iff] at hfirst
    obtain ⟨flow, _, ⟨hflow, rfl⟩, _, r, hlower, hupper⟩ := hfirst
    obtain rfl := succeeds_addRow_option hlower
    have hs := succeeds_addRow_option hupper
    rw [List.append_assoc] at hs
    subst hs
    obtain ⟨rows, hq, hholds⟩ := ih (p := { p with rows := p.rows ++ (_ ++ _) }) hmargin hrest
    refine ⟨rowsOf c flow margin name (factor c) ++ rows, by rw [hq, List.append_assoc]; rfl,
      fun x => ?_⟩
    have hne : flow ≠ margin := by
      rintro rfl
      exact hkey _ (hmargin.eq (namesVariable_of_variableId? hflow))
    have hvalue : p.valueOf x (.flow c.id) = x flow := by
      unfold valueOf
      rw [(hasVariable_of_variableId? hflow).2]
    rw [List.forall_mem_append, rowsOf_hold_iff hne, hholds, List.forall_mem_cons, hvalue]
    rfl

/-- Rows of other names are not written with those of a smallest margin. -/
theorem rowId?_eq_none_of_writeRows {other : RowKey}
    (h : Succeeds (writeRows cnecs margin name factor) p u q) (hother : p.rowId? other = none)
    (hne : ∀ id side, name id side ≠ other) : q.rowId? other = none := by
  refine h.forM_induction (P := fun s => s.rowId? other = none) (fun c _ s t hs ht => ?_) hother
  simp only [succeeds_bind_iff, succeeds_requireVariable_iff] at ht
  obtain ⟨_, _, ⟨-, rfl⟩, _, r, hlower, hupper⟩ := ht
  have hr := rowId?_eq_none_of_addRow_option hlower hs (hne c.id .below)
  exact rowId?_eq_none_of_addRow_option hupper hr (hne c.id .above)

/-- A problem has the flows of some elements, and none of the rows that are to be written of
them. -/
structure Awaits (p : LinearProblem K) (cnecs : List (Cnec K))
    (name : String → ThresholdSide → RowKey) : Prop where
  flows : ∀ c ∈ cnecs, p.HasVariable (.flow c.id)
  rows : ∀ c ∈ cnecs, ∀ side, p.rowId? (name c.id side) = none

omit [ExactScalar K] in
theorem Awaits.of_extends {touched : RowKey → Prop} (h : Awaits p cnecs name)
    (hgrows : p.Extends touched q)
    (hrows : ∀ id side, p.rowId? (name id side) = none → q.rowId? (name id side) = none) :
    Awaits q cnecs name :=
  ⟨fun c hc => ((h.flows c hc).of_extends hgrows).1,
    fun c hc side => hrows c.id side (h.rows c hc side)⟩

/-- A problem still awaits rows after a variable has been added. -/
theorem Awaits.addVariable {other : VariableKey} {lower upper : Bound K} {kind : VariableKind}
    {v : VariableId} (h : Awaits p cnecs name)
    (hadd : Succeeds (Writing.addVariable other lower upper kind) p v q) : Awaits q cnecs name := by
  have hgrows : p.Extends (fun _ => False) q := extends_addVariable hadd
  refine h.of_extends hgrows fun c side hrow => ?_
  obtain ⟨-, -, rfl⟩ := succeeds_addVariable hadd
  exact hrow

/-- By induction on the elements: the rows of a smallest margin can be written, since elements of
different names have rows of different names. -/
theorem exists_succeeds_writeRows (hids : (cnecs.map Cnec.id).Nodup)
    (hname : Function.Injective2 name) (hp : Awaits p cnecs name) :
    ∃ q, Succeeds (writeRows cnecs margin name factor) p ⟨⟩ q := by
  refine exists_succeeds_forM
    (P := fun rest s => (rest.map Cnec.id).Nodup ∧ Awaits s rest name) ?_ ⟨hids, hp⟩
  rintro c rest s ⟨hnodup, hs⟩
  obtain ⟨hfresh, hrest⟩ := List.nodup_cons.mp hnodup
  have hflow := hs.flows c List.mem_cons_self
  have hbounds : ∀ bound : K, Bound.isInterval .negInf (.ofScalar bound) = true := by simp
  obtain ⟨r, hlower⟩ := exists_succeeds_addRow_option c.lower
    [(s.number (.flow c.id), -1), (margin, factor c)] (hs.rows c List.mem_cons_self .below)
    fun lower => hbounds (-lower)
  have hsides : name c.id .below ≠ name c.id .above := by
    intro heq
    cases (hname heq).2
  obtain ⟨t, hupper⟩ := exists_succeeds_addRow_option c.upper
    [(s.number (.flow c.id), 1), (margin, factor c)]
    (rowId?_eq_none_of_addRow_option hlower (hs.rows c List.mem_cons_self .above) hsides) hbounds
  have hgrows : s.Extends (fun _ => False) t :=
    (extends_forM_option hlower fun _ _ hrow => extends_addRow_pure hrow).trans
      (extends_forM_option hupper fun _ _ hrow => extends_addRow_pure hrow)
  refine ⟨t, ?_, hrest, fun c' hc' => ?_, fun c' hc' side => ?_⟩
  · simp only [succeeds_bind_iff, succeeds_requireVariable_iff]
    exact ⟨_, s, ⟨hflow, rfl⟩, ⟨⟩, r, hlower, hupper⟩
  · exact ((hs.flows c' (List.mem_cons_of_mem _ hc')).of_extends hgrows).1
  · have hne : ∀ side', name c.id side' ≠ name c'.id side := by
      intro side' heq
      exact hfresh (List.mem_map.mpr ⟨c', hc', (hname heq).1.symm⟩)
    have hr := rowId?_eq_none_of_addRow_option hlower
      (hs.rows c' (List.mem_cons_of_mem _ hc') side) (hne .below)
    exact rowId?_eq_none_of_addRow_option hupper hr (hne .above)

/-! ### The smallest margin -/

variable {unit : FlowUnit} {point : Linearization K}

/-- What the smallest margin adds to a problem holds where the flow of every element keeps it as its
distance. -/
theorem succeeds_absolutePart (h : Succeeds ((absolutePart cnecs unit).fill point) p u q) :
    p.Extends (fun _ => False) q ∧ q.HasVariable .minimumMargin ∧
      ∀ x, q.SatisfiesSince p x ↔ ∀ c ∈ cnecs,
        c.KeepsDistance (q.valueOf x (.flow c.id))
          (1 / c.conversion unit * q.valueOf x .minimumMargin) := by
  have hfill := h
  unfold absolutePart writeAbsoluteRows at hfill
  simp only [succeeds_bind_iff] at hfill
  obtain ⟨margin, s, hmargin, _, r, hrows, hobjective⟩ := hfill
  obtain ⟨hdeclares, hnumber⟩ := declares_of_addVariable hmargin
  obtain ⟨rows, hr, hholds⟩ :=
    succeeds_writeRows (namesVariable_of_addVariable hmargin) (by simp) hrows
  obtain ⟨-, hlast, hadded⟩ := succeeds_addVariable hmargin
  rw [Writing.setObjective, succeeds_modify_iff] at hobjective
  have hqs : q.columns = s.columns := by
    rw [← hobjective, hr]
    rfl
  have hqp : q.rows = p.rows ++ rows := by
    rw [← hobjective, hr, hadded]
    rfl
  have hvalue : ∀ x, q.valueOf x .minimumMargin = x margin := by
    intro x
    rw [valueOf_congr hqs, valueOf, hnumber]
  refine ⟨absolutePart_extends.fill h, (hasVariable_congr hqs).mpr hdeclares.hasVariable,
    fun x => ?_⟩
  rw [satisfiesSince_iff (hqs.trans (by rw [hadded])) hqp, hholds, hvalue]
  simp [within, kindAllows, valueOf_congr hqs]

/-- The smallest margin can be added to a problem that has none. -/
theorem exists_succeeds_absolutePart (hids : (cnecs.map Cnec.id).Nodup)
    (hfresh : p.variableId? .minimumMargin = none) (hp : Awaits p cnecs .minimumMargin) :
    ∃ q, Succeeds ((absolutePart cnecs unit).fill point) p ⟨⟩ q := by
  have hbounds : Bound.isInterval (.negInf : Bound K) .posInf = true := rfl
  obtain ⟨s, hs⟩ := exists_succeeds_addVariable .continuous hfresh hbounds
  obtain ⟨r, hr⟩ := exists_succeeds_writeRows hids
    (fun _ _ _ _ heq => by cases heq; exact ⟨rfl, rfl⟩) (hp.addVariable hs)
  unfold absolutePart writeAbsoluteRows
  simp only [succeeds_bind_iff]
  exact ⟨_, _, s, hs, ⟨⟩, r, hr, succeeds_modify_iff.mpr rfl⟩

/-! ### The functional cost -/

variable {o : MarginObjective K} {flows : Flows K}

theorem margin?_eq_of_absolute (habsolute : o.relative = false) {c : Cnec K} {flow : K}
    (hflow : flows.megawatts c.id = .ok flow) :
    o.margin? flows c =
      if c.margin flow o.unit < Scalar.largest then some (c.margin flow o.unit) else none := by
  unfold MarginObjective.margin? Flows.margin
  rw [habsolute, hflow]
  rfl

/-- The margins that count for an objective of absolute margins are those of the elements with a
threshold. -/
theorem countedMargins_eq (habsolute : o.relative = false) {flow : Cnec K → K}
    (hflows : ∀ c ∈ o.optimized, flows.megawatts c.id = .ok (flow c))
    (hmargin : ∀ c ∈ o.optimized, c.IsLimited → c.margin (flow c) o.unit < Scalar.largest) :
    o.countedMargins flows =
      {m | ∃ c ∈ o.optimized, c.IsLimited ∧ c.margin (flow c) o.unit = m} := by
  ext m
  constructor
  · rintro ⟨c, hc, hm⟩
    rw [margin?_eq_of_absolute habsolute (hflows c hc)] at hm
    split at hm
    · next hbelow =>
      refine ⟨c, hc, ?_, Option.some.inj hm⟩
      by_contra hlimited
      rw [Cnec.margin_of_not_isLimited hlimited] at hbelow
      exact lt_irrefl _ hbelow
    · cases hm
  · rintro ⟨c, hc, hlimited, rfl⟩
    exact ⟨c, hc, by
      rw [margin?_eq_of_absolute habsolute (hflows c hc), if_pos (hmargin c hc hlimited)]⟩

/-- The smallest margins that the rows of the part allow are those up to the opposite of the
functional cost. -/
theorem allowed_margins_eq (o : MarginObjective K) (habsolute : o.relative = false)
    (hids : (o.optimized.map Cnec.id).Nodup) (hroot : 0 < (Scalar.sqrtThree : K))
    (hvoltage : ∀ c ∈ o.optimized, 0 < c.voltage) (hlimited : ∃ c ∈ o.optimized, c.IsLimited)
    (hfresh : p.variableId? .minimumMargin = none) (hp : Awaits p o.optimized .minimumMargin)
    (point : Linearization K) :
    ∃ q, Succeeds ((absolutePart o.optimized o.unit).fill point) p ⟨⟩ q ∧
      ∀ (x : VariableId → K) (flows : Flows K),
        (∀ c ∈ o.optimized, flows.megawatts c.id = .ok (p.valueOf x (.flow c.id))) →
        (∀ c ∈ o.optimized, c.IsLimited →
          c.margin (p.valueOf x (.flow c.id)) o.unit < Scalar.largest) →
        ∀ activation sensitivities status,
          {m | q.SatisfiesSince p (Function.update x (q.number .minimumMargin) m)} =
            Set.Iic (-(o.evaluate flows activation sensitivities status).functional) := by
  obtain ⟨q, hq⟩ := exists_succeeds_absolutePart hids hfresh hp
  obtain ⟨hgrows, hvariable, hholds⟩ := succeeds_absolutePart hq
  refine ⟨q, hq, fun x flows hflows hmargin activation sensitivities status => ?_⟩
  have hcounted := countedMargins_eq habsolute hflows hmargin
  have hnonempty : (o.countedMargins flows).Nonempty := by
    obtain ⟨c, hc, hthreshold⟩ := hlimited
    rw [hcounted]
    exact ⟨_, c, hc, hthreshold, rfl⟩
  have hleast := MarginObjective.isLeast_functional hnonempty activation sensitivities status
  ext m
  have hvalue : q.valueOf (Function.update x (q.number .minimumMargin) m) .minimumMargin = m :=
    Function.update_self _ _ _
  have hflow : ∀ c ∈ o.optimized, q.valueOf (Function.update x (q.number .minimumMargin) m)
      (.flow c.id) = p.valueOf x (.flow c.id) := by
    intro c hc
    have hpc := hp.flows c hc
    rw [valueOf_update_of_ne hvariable (hpc.of_extends hgrows).1 (by simp),
      valueOf_of_extends hpc hgrows]
  -- an element without a threshold has no rows, and its margin does not count
  have helement : ∀ c ∈ o.optimized,
      c.KeepsDistance (p.valueOf x (.flow c.id)) (1 / c.conversion o.unit * m) ↔
        (c.IsLimited → m ≤ c.margin (p.valueOf x (.flow c.id)) o.unit) := by
    intro c hc
    by_cases hthreshold : c.IsLimited
    · have hconversion := Cnec.conversion_pos hroot (hvoltage c hc) o.unit
      rw [Cnec.keepsDistance_div_iff hthreshold hconversion (hmargin c hc hthreshold), one_mul]
      simp [hthreshold]
    · simp [hthreshold, Cnec.keepsDistance_of_not_isLimited]
  calc q.SatisfiesSince p (Function.update x (q.number .minimumMargin) m)
      ↔ ∀ c ∈ o.optimized, c.IsLimited → m ≤ c.margin (p.valueOf x (.flow c.id)) o.unit := by
        rw [hholds, hvalue]
        exact forall₂_congr fun c hc => by rw [hflow c hc, helement c hc]
    _ ↔ m ∈ lowerBounds (o.countedMargins flows) := by
        rw [hcounted]
        constructor
        · rintro h _ ⟨c, hc, hthreshold, rfl⟩
          exact h c hc hthreshold
        · intro h c hc hthreshold
          exact h ⟨c, hc, hthreshold, rfl⟩
    _ ↔ m ≤ -(o.evaluate flows activation sensitivities status).functional :=
        (le_isGLB_iff hleast.isGLB).symm

end Margin

/-! An element with two thresholds and 300 MW to the nearer one is at a higher voltage than one
with a single threshold and 250 MW to it; in amperes the first one is the nearer to its threshold.
A third element has no threshold. -/

namespace MixedVoltages

/-- The margins of three elements in amperes. -/
def objective : MarginObjective ℚ where
  optimized :=
    [{ id := "both", element := "line", lower := some (-800), upper := some 800, voltage := 400 },
      { id := "above", element := "cable", upper := some 700, voltage := 225 },
      { id := "free", element := "tie", voltage := 400 }]
  monitored := []
  unit := .ampere
  failureCost := 10000

/-- A problem with the flows of the elements. -/
def flowsOnly : LinearProblem ℚ where
  columns := objective.optimized.map fun c => ⟨.flow c.id, .negInf, .posInf, .continuous⟩
  solver := .microlp

/-- The flows, and their values by number. -/
def flows : Flows ℚ := { flows := Table.ofPairs [("both", 500), ("above", 450), ("free", 100)] }

@[inherit_doc flows]
def values (v : VariableId) : ℚ := [500, 450, 100].getD v 0

/-- The smallest margin may be up to that of the element at the higher voltage. -/
theorem allowed_margins :
    ∃ q, Succeeds ((Margin.absolutePart objective.optimized objective.unit).fill
        ⟨flows, {}, ⟨{}, {}⟩⟩) flowsOnly ⟨⟩ q ∧
      {m | q.SatisfiesSince flowsOnly (Function.update values (q.number .minimumMargin) m)} =
        Set.Iic (187500 / 433) := by
  have hflows : ∀ c ∈ objective.optimized,
      flows.flows[c.id]? = some (flowsOnly.valueOf values (.flow c.id)) := by decide +kernel
  have hleast : IsLeast (objective.countedMargins flows) (187500 / 433) := by
    have hbelow : ∀ c ∈ objective.optimized, ∀ m ∈ objective.margin? flows c,
        187500 / 433 ≤ m := by decide +kernel
    exact ⟨⟨_, List.mem_cons_self, by decide +kernel⟩, fun m ⟨c, hc, hm⟩ => hbelow c hc m hm⟩
  obtain ⟨q, hq, hallowed⟩ := Margin.allowed_margins_eq (p := flowsOnly) objective rfl
    (by decide) (by decide +kernel) (by decide +kernel) (by decide) (by decide)
    ⟨by decide, fun _ _ _ => rfl⟩ ⟨flows, {}, ⟨{}, {}⟩⟩
  refine ⟨q, hq, (hallowed values flows (fun c hc => Flows.megawatts_eq (hflows c hc))
    (by decide +kernel) ⟨{}, {}⟩ {} .success).trans ?_⟩
  rw [(MarginObjective.isLeast_functional hleast.nonempty ⟨{}, {}⟩ {} .success).unique hleast]

end MixedVoltages

end GridRelief
