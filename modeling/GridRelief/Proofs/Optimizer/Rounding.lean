import GridRelief.Proofs.Formulation.Limits
import GridRelief.Proofs.Optimizer.Rounds

/-!
# What rounding moves

Limits on use bound the range actions whose set-points are farther from the ones before the
optimisation than a slack. Set-points are rounded afterwards, and a range action has moved if its
rounded set-point is away from the one before. These are the same range actions if set-points
within the slack are rounded to the one before the optimisation; then all points that the rounds
reach keep the budget.

* `RangeAction.IsSteady`: set-points within a slack are rounded to the one before.
* `RangeAction.isSteady_of_taps`, `RangeAction.isSteady_of_int`: when they are.
* `Perimeter.moved`: the range actions that have moved.
* `LinearProblem.movesAmong_of_roundedActivation`: they are among those farther away than the slack.
* `Optimizer.chooses_covers`: so they keep the budget, in every round.
-/

namespace GridRelief

open LinearProblem Writing

variable {K N σ : Type}

theorem Activation.tolerance_nonneg [ExactScalar K] : (0 : K) ≤ Activation.tolerance := by
  unfold Activation.tolerance
  rw [ExactScalar.ofDecimal_eq]
  positivity

/-! ### Steady range actions -/

/-- The slack of a range action that is no phase shifter. -/
theorem Usage.slack_of_not_isPst [Scalar K] {w : Usage K} {r : RangeAction K}
    (h : r.isPst = false) : w.slack r = tolerance := by
  unfold RangeAction.isPst at h
  unfold slack
  rw [Option.isSome_eq_false_iff, Option.isNone_iff_eq_none] at h
  rw [h, Option.bind_none, ite_self]

namespace RangeAction

/-- Set-points within a slack of a reference are rounded to it, up to what does not count as a
move. -/
def IsSteady [ExactScalar K] (r : RangeAction K) (slack reference : K) : Prop :=
  ∀ setpoint rounded, |setpoint - reference| ≤ slack → r.roundSetpoint setpoint = .ok rounded →
    |rounded - reference| ≤ Activation.tolerance

section Taps

variable [ExactScalar K] {angle : K}

/-- Keeping the nearer one of two entries, the earlier one of two that are as near, ends with one
that those before it are farther away than, and that none after it is nearer than. -/
theorem exists_append_of_foldl {α : Type} (distance : α → K) (rest : List α) (first : α) :
    ∃ before best later, first :: rest = before ++ best :: later ∧
      rest.foldl (fun best entry => if distance entry < distance best then entry else best) first =
        best ∧
      (∀ entry ∈ before, distance best < distance entry) ∧
        ∀ entry ∈ later, distance best ≤ distance entry := by
  induction rest generalizing first with
  | nil => exact ⟨[], first, [], rfl, rfl, by simp, by simp⟩
  | cons second rest ih =>
    rw [List.foldl_cons]
    split
    · next hcloser =>
      obtain ⟨before, best, later, hsplit, hbest, hbefore, hlater⟩ := ih second
      refine ⟨first :: before, best, later, congrArg (first :: ·) hsplit, hbest, ?_, hlater⟩
      refine List.forall_mem_cons.mpr ⟨lt_of_le_of_lt ?_ hcloser, hbefore⟩
      cases before with
      | nil => rw [(List.cons.inj hsplit).1]
      | cons head before =>
        rw [(List.cons.inj hsplit).1]
        exact (hbefore head List.mem_cons_self).le
    · next hfarther =>
      obtain ⟨before, best, later, hsplit, hbest, hbefore, hlater⟩ := ih first
      cases before with
      | nil =>
        obtain ⟨rfl, rfl⟩ := List.cons.inj hsplit
        exact ⟨[], first, second :: rest, rfl, hbest, hbefore,
          List.forall_mem_cons.mpr ⟨not_lt.mp hfarther, hlater⟩⟩
      | cons head before =>
        obtain ⟨rfl, rfl⟩ := List.cons.inj hsplit
        obtain ⟨hfirst, hbefore⟩ := List.forall_mem_cons.mp hbefore
        refine ⟨first :: second :: before, best, later, rfl, hbest, ?_, hlater⟩
        exact List.forall_mem_cons.mpr ⟨hfirst,
          List.forall_mem_cons.mpr ⟨hfirst.trans_le (not_lt.mp hfarther), hbefore⟩⟩

/-- The nearest tap is that of an entry; those before it are farther away, and none after it is
nearer. -/
theorem exists_append_of_nearestTap {entries : List (Int × K)} {tap : Int}
    (h : nearestTap angle entries = some tap) :
    ∃ before nearest later, entries = before ++ (tap, nearest) :: later ∧
      (∀ entry ∈ before, |nearest - angle| < |entry.2 - angle|) ∧
        ∀ entry ∈ later, |nearest - angle| ≤ |entry.2 - angle| := by
  cases entries with
  | nil => cases h
  | cons first rest =>
    obtain ⟨before, best, later, hsplit, hbest, hdistances⟩ :=
      exists_append_of_foldl (fun entry : Int × K => Scalar.abs (entry.2 - angle)) rest first
    simp only [ExactScalar.abs_eq] at hdistances
    obtain rfl := Option.some.inj h
    rw [hsplit]
    exact ⟨before, best.2, later, by rw [hbest], hdistances⟩

/-- The nearest tap is that of an entry, and no entry is nearer. -/
theorem exists_of_nearestTap {entries : List (Int × K)} {tap : Int}
    (h : nearestTap angle entries = some tap) :
    ∃ nearest, (tap, nearest) ∈ entries ∧
      ∀ entry ∈ entries, |nearest - angle| ≤ |entry.2 - angle| := by
  obtain ⟨before, nearest, later, rfl, hbefore, hlater⟩ := exists_append_of_nearestTap h
  refine ⟨nearest, by simp, fun entry hentry => ?_⟩
  rcases List.mem_append.mp hentry with hentry | hentry
  · exact (hbefore entry hentry).le
  · rcases List.mem_cons.mp hentry with rfl | hentry
    · exact le_rfl
    · exact hlater entry hentry

/-- The tap of an angle is the nearest one. -/
theorem nearestTap_of_tapOf {r : RangeAction K} {taps : TapTable K} {tap : Int}
    (htaps : r.taps? = some taps) (h : r.tapOf angle = .ok tap) :
    nearestTap angle taps.toList = some tap := by
  unfold tapOf at h
  rw [htaps] at h
  dsimp only at h
  split at h
  · cases h
  · cases htap : nearestTap angle taps.toList with
    | none =>
      rw [htap] at h
      cases h
    | some nearest =>
      rw [htap] at h
      rw [Except.ok.inj h]

/-- The set-point of a phase shifter is rounded to the angle of the nearest tap. -/
theorem exists_of_roundSetpoint {r : RangeAction K} {taps : TapTable K} {setpoint rounded : K}
    (htaps : r.taps? = some taps) (h : r.roundSetpoint setpoint = .ok rounded) :
    ∃ tap, nearestTap setpoint taps.toList = some tap ∧ taps[tap]? = some rounded := by
  unfold roundSetpoint isPst at h
  rw [htaps, Option.isSome_some, if_pos rfl] at h
  cases htap : r.tapOf setpoint with
  | error fault =>
    rw [htap] at h
    cases h
  | ok tap =>
    refine ⟨tap, nearestTap_of_tapOf htaps htap, ?_⟩
    unfold angleOf at h
    simp only [htap, htaps, Option.bind_some, bind, Except.bind] at h
    split at h
    · next angle hangle => rw [hangle, Except.ok.inj h]
    · cases h

/-- A phase shifter is steady at the angle of a tap if no other angle is within twice the slack. -/
theorem isSteady_of_taps {r : RangeAction K} {taps : TapTable K} {slack reference : K}
    (htaps : r.taps? = some taps) {start : Int} (hstart : taps[start]? = some reference)
    (hapart : ∀ entry ∈ taps.toList, entry.2 ≠ reference → 2 * slack < |entry.2 - reference|) :
    r.IsSteady slack reference := by
  intro setpoint rounded hclose hround
  obtain ⟨tap, htap, hrounded⟩ := exists_of_roundSetpoint htaps hround
  obtain ⟨nearest, hnearest, hbest⟩ := exists_of_nearestTap htap
  rw [Std.ExtTreeMap.mem_toList_iff_getElem?_eq_some, hrounded, Option.some.injEq] at hnearest
  subst hnearest
  have hstart := hbest _ (Std.ExtTreeMap.mem_toList_iff_getElem?_eq_some.mpr hstart)
  have hsame : rounded = reference := by
    by_contra hne
    have hfar := hapart _ (Std.ExtTreeMap.mem_toList_iff_getElem?_eq_some.mpr hrounded) hne
    have htriangle := abs_sub_le rounded setpoint reference
    rw [abs_sub_comm reference setpoint] at hstart
    dsimp only at hstart hfar
    linarith only [hclose, hstart, hfar, htriangle]
  rw [hsame, sub_self, abs_zero]
  exact Activation.tolerance_nonneg

end Taps

/-- A set-point that is an integer is steady under a slack below one half. -/
theorem isSteady_of_int {r : RangeAction ℚ} {slack : ℚ} (hkind : r.isPst = false)
    (hslack : slack < 1 / 2) (n : ℤ) : r.IsSteady slack n := by
  intro setpoint rounded hclose hround
  unfold roundSetpoint at hround
  rw [hkind] at hround
  obtain rfl := Except.ok.inj hround
  have hsame : Scalar.round setpoint = (n : ℚ) := by
    obtain ⟨hbelow, habove⟩ := abs_le.mp hclose
    change (if 0 ≤ setpoint then ((setpoint + 1 / 2).floor : ℚ) else (setpoint - 1 / 2).ceil) = n
    split
    · have hfloor : (setpoint + 1 / 2).floor = n := by
        refine le_antisymm (Int.le_of_lt_add_one (Rat.floor_lt_iff.mpr ?_))
          (Rat.le_floor_iff.mpr ?_)
        · push_cast
          linarith only [habove, hslack]
        · linarith only [hbelow, hslack]
      rw [hfloor]
    · have hceil : (setpoint - 1 / 2).ceil = n := by
        refine le_antisymm (Rat.ceil_le_iff.mpr ?_) (Int.le_of_sub_one_lt (Rat.lt_ceil_iff.mpr ?_))
        · linarith only [habove, hslack]
        · push_cast
          linarith only [hbelow, hslack]
      rw [hceil]
  rw [hsame, sub_self, abs_zero]
  exact Activation.tolerance_nonneg

end RangeAction

/-! ### Range actions that have moved -/

/-- The range actions of a perimeter that an activation has moved. -/
def Perimeter.moved [Scalar K] (p : Perimeter K) (a : Activation K) : List (RangeAction K) :=
  a.activated.filterMap p.rangeAction?

variable [ExactScalar K]

omit [ExactScalar K] in
theorem Setpoints.get_eq_ok_iff {s : Setpoints K} {name : String} {setpoint : K} :
    s.get name = .ok setpoint ↔ s.values[name]? = some setpoint := by
  unfold get
  cases s.values[name]? <;> simp

namespace Activation

omit [ExactScalar K] in
/-- The activation that leaves range actions at their reference has these set-points. -/
@[simp] theorem get_ofReference (reference : Setpoints K) :
    (ofReference reference).get = reference.get := by
  funext name
  unfold get ofReference Setpoints.get
  cases reference.values[name]? <;> rfl

omit [ExactScalar K] in
/-- The set-point that has been chosen. -/
@[simp] theorem get_set_self (a : Activation K) (name : String) (x : K) :
    (a.set name x).get name = .ok x := by
  simp [get, set]

omit [ExactScalar K] in
/-- Choosing a set-point does not change the others. -/
theorem get_set_of_ne (a : Activation K) {name other : String} (h : other ≠ name) (x : K) :
    (a.set name x).get other = a.get other := by
  unfold get set
  rw [Table.getElem?_insert_of_ne h.symm]

theorem mem_activated {a : Activation K} {name : String} : name ∈ a.activated ↔
    ∃ setpoint, a.optimized[name]? = some setpoint ∧ a.isMoved name setpoint = true := by
  unfold activated
  rw [List.mem_map]
  constructor
  · rintro ⟨⟨_, setpoint⟩, hentry, rfl⟩
    obtain ⟨hentry, hmoved⟩ := List.mem_filter.mp hentry
    exact ⟨setpoint, Std.ExtTreeMap.mem_toList_iff_getElem?_eq_some.mp hentry, hmoved⟩
  · rintro ⟨setpoint, hentry, hmoved⟩
    refine ⟨(name, setpoint), List.mem_filter.mpr ⟨?_, hmoved⟩, rfl⟩
    exact Std.ExtTreeMap.mem_toList_iff_getElem?_eq_some.mpr hentry

/-- An activation moves no range action twice. -/
theorem nodup_activated (a : Activation K) : a.activated.Nodup := by
  refine (List.filter_sublist.map Prod.fst).nodup ?_
  rw [Std.ExtTreeMap.map_fst_toList_eq_keys]
  exact Std.ExtTreeMap.nodup_keys

/-- The activation that leaves range actions at their reference moves none. -/
theorem activated_ofReference (reference : Setpoints K) :
    (ofReference reference).activated = [] := by
  refine List.eq_nil_iff_forall_not_mem.mpr fun name hname => ?_
  obtain ⟨setpoint, hsetpoint, hmoved⟩ := mem_activated.mp hname
  unfold isMoved ofReference at hmoved
  unfold ofReference at hsetpoint
  dsimp only at hsetpoint hmoved
  rw [hsetpoint] at hmoved
  dsimp only at hmoved
  rw [decide_eq_true_eq, ExactScalar.abs_eq, sub_self, abs_zero] at hmoved
  exact absurd hmoved (not_lt.mpr tolerance_nonneg)

/-- An activation of some reference set-points that moves none but some range actions. -/
structure MovesAmong (a : Activation K) (reference : Setpoints K) (rs : List (RangeAction K)) :
    Prop where
  reference_eq : a.reference = reference
  moved : ∀ name ∈ a.activated, ∃ r ∈ rs, r.id = name

theorem movesAmong_ofReference (reference : Setpoints K) (rs : List (RangeAction K)) :
    (ofReference reference).MovesAmong reference rs :=
  ⟨rfl, by simp [activated_ofReference]⟩

end Activation

namespace LinearProblem

variable {p : LinearProblem K} {w : Usage K} {values : List K}

/-- A range action keeps its set-point or gets the rounded one of the solution. -/
theorem chooseSetpoint_cases (hsolution : p.solution = some values) {initial : Setpoints K}
    {a b : Activation K} {r : RangeAction K} (h : p.chooseSetpoint initial a r = .ok b) :
    ∃ reference, initial.get r.id = .ok reference ∧ (b = a ∨ ∃ rounded,
      r.roundSetpoint (p.valueOf (fun v => values.getD v 0) (.setpoint r.id)) = .ok rounded ∧
        b = a.set r.id rounded) := by
  unfold chooseSetpoint requireVariable solutionValue at h
  cases hv : p.variableId? (.setpoint r.id) with
  | none =>
    rw [hv] at h
    cases h
  | some v =>
    simp only [hv, hsolution, Except.mapError, bind, Except.bind] at h
    cases hvalue : values[v]? with
    | none =>
      rw [hvalue] at h
      cases h
    | some setpoint =>
      cases hreference : initial.get r.id with
      | error fault =>
        rw [hvalue, hreference] at h
        cases h
      | ok reference =>
        have hsetpoint : p.valueOf (fun v => values.getD v 0) (.setpoint r.id) = setpoint := by
          unfold valueOf
          rw [(hasVariable_of_variableId? hv).2]
          simp [List.getD_eq_getElem?_getD, hvalue]
        rw [hsetpoint]
        simp only [hvalue, hreference] at h
        refine ⟨reference, rfl, ?_⟩
        split at h
        · exact .inl (Except.ok.inj h).symm
        · cases hrounded : r.roundSetpoint setpoint with
          | error fault =>
            rw [hrounded] at h
            cases h
          | ok rounded =>
            rw [hrounded] at h
            exact .inr ⟨rounded, rfl, (Except.ok.inj h).symm⟩

/-- A set-point can be chosen only of a problem that has been solved. -/
theorem solution_of_chooseSetpoint {initial : Setpoints K} {a b : Activation K}
    {r : RangeAction K} (h : p.chooseSetpoint initial a r = .ok b) :
    ∃ values, p.solution = some values := by
  cases hsolution : p.solution with
  | some values => exact ⟨values, rfl⟩
  | none =>
    have hvalue : ∀ v, ∃ fault, p.solutionValue v = .error fault := by
      intro v
      unfold solutionValue
      rw [hsolution]
      cases p.columns[v]? <;> exact ⟨_, rfl⟩
    unfold chooseSetpoint requireVariable at h
    cases hv : p.variableId? (.setpoint r.id) with
    | none => simp [hv, Except.mapError, bind, Except.bind] at h
    | some v =>
      obtain ⟨fault, hfault⟩ := hvalue v
      simp [hv, hfault, Except.mapError, bind, Except.bind] at h

/-- In a rounded solution a range action has the set-point from before the optimisation, or the
rounded one of the solution. -/
theorem get_of_roundedActivation {initial : Setpoints K} {rs : List (RangeAction K)}
    (hnodup : (rs.map RangeAction.id).Nodup) {a : Activation K}
    (h : p.roundedActivation initial rs = .ok a) : ∀ r ∈ rs, a.get r.id = initial.get r.id ∨
      ∃ values x, p.solution = some values ∧ a.get r.id = .ok x ∧
        r.roundSetpoint (p.valueOf (fun v => values.getD v 0) (.setpoint r.id)) = .ok x := by
  refine foldlM_induction (P := fun a => ∀ r ∈ rs, a.get r.id = initial.get r.id ∨
    ∃ values x, p.solution = some values ∧ a.get r.id = .ok x ∧
      r.roundSetpoint (p.valueOf (fun v => values.getD v 0) (.setpoint r.id)) = .ok x) h ?_ ?_
  · intro r hr b c hb hc other hother
    obtain ⟨values, hsolution⟩ := solution_of_chooseSetpoint hc
    obtain ⟨_, -, rfl | ⟨x, hx, rfl⟩⟩ := chooseSetpoint_cases hsolution hc
    · exact hb other hother
    by_cases hid : other.id = r.id
    · obtain rfl := List.inj_on_of_nodup_map hnodup hother hr hid
      exact .inr ⟨values, x, hsolution, b.get_set_self other.id x, hx⟩
    · rw [b.get_set_of_ne hid]
      exact hb other hother
  · intro r _
    exact .inl (by rw [Activation.get_ofReference])

/-- Choosing the set-point of a steady range action moves it only if the solution is farther away
than the slack. -/
theorem movesAmong_of_chooseSetpoint (hsolution : p.solution = some values) {r : RangeAction K}
    (hr : r ∈ w.rangeActions)
    (hsteady : ∀ reference, w.initial.get r.id = .ok reference → r.IsSteady (w.slack r) reference)
    {a b : Activation K}
    (ha : a.MovesAmong w.initial (w.shifted (p.valueOf fun v => values.getD v 0)))
    (h : p.chooseSetpoint w.initial a r = .ok b) :
    b.MovesAmong w.initial (w.shifted (p.valueOf fun v => values.getD v 0)) := by
  obtain ⟨reference, hreference, rfl | ⟨rounded, hrounded, rfl⟩⟩ :=
    chooseSetpoint_cases hsolution h
  · exact ha
  · refine ⟨ha.reference_eq, fun name hname => ?_⟩
    obtain ⟨setpoint, hsetpoint, hmoved⟩ := Activation.mem_activated.mp hname
    change (a.optimized.insert r.id rounded)[name]? = some setpoint at hsetpoint
    change a.isMoved name setpoint = true at hmoved
    rw [Std.ExtTreeMap.getElem?_insert] at hsetpoint
    split at hsetpoint
    · next heq =>
      obtain rfl := Std.LawfulEqOrd.compare_eq_iff_eq.mp heq
      obtain rfl := Option.some.inj hsetpoint
      refine ⟨r, List.mem_filter.mpr ⟨hr, ?_⟩, rfl⟩
      have hvalue := Setpoints.get_eq_ok_iff.mp hreference
      unfold Activation.isMoved at hmoved
      rw [ha.reference_eq, hvalue] at hmoved
      unfold Usage.isShifted
      rw [hreference]
      rw [decide_eq_true_eq, ExactScalar.abs_eq] at hmoved
      rw [decide_eq_true_eq]
      by_contra hnear
      exact absurd hmoved (not_lt.mpr (hsteady _ hreference _ _ (not_lt.mp hnear) hrounded))
    · exact ha.moved name (Activation.mem_activated.mpr ⟨setpoint, hsetpoint, hmoved⟩)

/-- What choosing one set-point keeps, choosing several keeps. -/
theorem movesAmong_of_foldlM (hsolution : p.solution = some values) {rs : List (RangeAction K)}
    (hrs : ∀ r ∈ rs, r ∈ w.rangeActions)
    (hsteady : ∀ r ∈ w.rangeActions, ∀ reference, w.initial.get r.id = .ok reference →
      r.IsSteady (w.slack r) reference) {a b : Activation K}
    (ha : a.MovesAmong w.initial (w.shifted (p.valueOf fun v => values.getD v 0)))
    (h : rs.foldlM (p.chooseSetpoint w.initial) a = .ok b) :
    b.MovesAmong w.initial (w.shifted (p.valueOf fun v => values.getD v 0)) := by
  refine foldlM_induction (P := fun a =>
    a.MovesAmong w.initial (w.shifted (p.valueOf fun v => values.getD v 0))) h ?_ ha
  intro r hr c d hc hd
  have hr := hrs r hr
  exact movesAmong_of_chooseSetpoint hsolution hr (hsteady r hr) hc hd

/-- Rounding a solution moves those steady range actions only whose set-points in the solution are
farther away than their slacks. -/
theorem movesAmong_of_roundedActivation (hsolution : p.solution = some values)
    (hsteady : ∀ r ∈ w.rangeActions, ∀ reference, w.initial.get r.id = .ok reference →
      r.IsSteady (w.slack r) reference) {a : Activation K}
    (h : p.roundedActivation w.initial w.rangeActions = .ok a) :
    a.MovesAmong w.initial (w.shifted (p.valueOf fun v => values.getD v 0)) :=
  movesAmong_of_foldlM hsolution (fun _ => id) hsteady (Activation.movesAmong_ofReference _ _) h

end LinearProblem

namespace Perimeter

variable {perimeter : Perimeter K} {a : Activation K} {r : RangeAction K}
  (hnodup : (perimeter.rangeActions.map RangeAction.id).Nodup)
include hnodup

omit [ExactScalar K] in
/-- A range action is found under its name, if no other one has it. -/
theorem rangeAction?_id (hr : r ∈ perimeter.rangeActions) :
    perimeter.rangeAction? r.id = some r := by
  unfold rangeAction?
  cases hfind : perimeter.rangeActions.find? (·.id == r.id) with
  | none =>
    have hnone := List.find?_eq_none.mp hfind r hr
    simp at hnone
  | some found =>
    have hid := List.find?_some hfind
    rw [beq_iff_eq] at hid
    rw [List.inj_on_of_nodup_map hnodup (List.mem_of_find?_eq_some hfind) hr hid]

variable {initial : Setpoints K} {rs : List (RangeAction K)}
  (hrs : ∀ r ∈ rs, r ∈ perimeter.rangeActions) (hmoves : a.MovesAmong initial rs)
include hrs hmoves

/-- All that has moved are range actions of the perimeter. -/
theorem map_id_moved : (perimeter.moved a).map RangeAction.id = a.activated := by
  have hname : ∀ name ∈ a.activated,
      (perimeter.rangeAction? name).map RangeAction.id = some name := by
    intro name hname
    obtain ⟨r, hr, rfl⟩ := hmoves.moved name hname
    rw [rangeAction?_id hnodup (hrs r hr)]
    rfl
  unfold moved
  rw [List.map_filterMap, List.filterMap_congr hname, List.filterMap_some]

/-- The range actions that have moved are some of those that may have. -/
theorem subperm_moved : (perimeter.moved a).Subperm rs := by
  have hids := map_id_moved hnodup hrs hmoves
  refine List.Nodup.subperm (List.Nodup.of_map RangeAction.id ?_) fun r hr => ?_
  · rw [hids]
    exact a.nodup_activated
  · obtain ⟨name, hname, hfound⟩ := List.mem_filterMap.mp hr
    obtain ⟨r', hr', rfl⟩ := hmoves.moved name hname
    rw [rangeAction?_id hnodup (hrs r' hr')] at hfound
    rwa [← Option.some.inj hfound]

end Perimeter

/-! ### The budget of the rounds -/

namespace Optimizer

variable {o : Optimizer K} {services : Services N K σ} {budget : UsageBudget}

/-- Writing the first problem forces the budget, and no later problem loosens that. So the
set-points that are read off a solution keep it, if all range actions are steady. -/
theorem chooses_covers (hservices : services.SolvesModels)
    (hbudget : o.formulation.budget = some budget)
    (hsteady : ∀ r ∈ o.rangeActions, ∀ reference,
      o.formulation.baseline.setpoints.get r.id = .ok reference →
        r.IsSteady ((o.formulation.usage budget).slack r) reference) :
    o.Chooses services
      (fun p => (o.rangeActions.map RangeAction.id).Nodup ∧
        p.Forces RowKey.IsAdapted fun y => budget.Covers ((o.formulation.usage budget).shifted y))
      fun a => budget.Covers (o.formulation.perimeter.moved a) ∧
        (o.formulation.perimeter.moved a).map RangeAction.id = a.activated := by
  constructor
  · intro p hp
    exact Formulation.forces_covers hbudget (succeeds_of_write hp)
  · intro activation p q hp hq
    refine ⟨hp.1, hp.2.of_extends ?_⟩
    exact extends_forM (succeeds_of_write hq) fun part hpart s t _ ht =>
      (Formulation.extends_of_mem_parts hpart).adjust ht
  · intro reached p q hp hq
    refine ⟨hp.1, hp.2.of_extends ?_⟩
    exact extends_forM (succeeds_of_write hq) fun part hpart s t _ ht =>
      (Formulation.extends_of_mem_parts hpart).refresh ht
  · intro p state hp
    obtain ⟨hcolumns, hrows⟩ := p.columns_rows_solve services state
    exact ⟨hp.1, hp.2.of_extends (.of_eq hcolumns hrows)⟩
  · intro p state a hp hstatus hrounded
    obtain ⟨hcolumns, hrows⟩ := p.columns_rows_solve services state
    obtain ⟨values, hsolution, hkeeps⟩ := keeps_of_optimal hservices hstatus
    have hcovers := hp.2 _ (.of_eq hcolumns hrows) _ (hkeeps.of_eq hcolumns hrows)
    have hmoves := movesAmong_of_roundedActivation (w := o.formulation.usage budget) hsolution
      hsteady hrounded
    have hshifted : ∀ r ∈ (o.formulation.usage budget).shifted
        ((p.solve services.solve state).1.valueOf fun v => values.getD v 0),
        r ∈ o.formulation.perimeter.rangeActions := fun r hr => List.mem_of_mem_filter hr
    exact ⟨hcovers.of_subperm (Perimeter.subperm_moved hp.1 hshifted hmoves),
      Perimeter.map_id_moved hp.1 hshifted hmoves⟩

end Optimizer

end GridRelief
