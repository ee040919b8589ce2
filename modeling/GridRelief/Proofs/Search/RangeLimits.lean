import GridRelief.Proofs.Optimizer.Rounding
import GridRelief.Proofs.Search.ActionLimits

/-!
# Limits on all remedial actions in use

A leaf's range actions may use what its network actions leave of the limits. So a leaf keeps the
limits on the numbers of remedial actions and of operators, those of both kinds counted together,
if it starts with set-points that keep them and the rounds keep what is left. A leaf starts from
the set-points of the leaf below it only if the filters have counted both kinds, and moves no range
action otherwise.

* `UsageLimits.Permits`: network actions and range actions are within the limits together.
* `UsageLimits.Allows`: so are those in use.
* `Search.IsSteady`: set-points within the slack of their limits are rounded to the one before.
* `Search.allows_of_builds`: then every leaf that a search may build keeps the limits.
-/

namespace GridRelief

variable {K N σ : Type}

/-! ### Budgets -/

variable [Scalar K]

/-- The network actions and the range actions in use are within the limits on their number and on
their operators together. -/
structure UsageLimits.Allows (limits : UsageLimits) (perimeter : Perimeter K)
    (applied : ActionSet K) (a : Activation K) : Prop where
  total : ∀ most, limits.maxRa = some most → applied.size + a.activated.length ≤ most
  perOperator : ∀ operator most, limits.maxRaPerTso[operator]? = some most →
    applied.countOf operator +
      ((perimeter.moved a).filter (·.operator == some operator)).length ≤ most
  shifters : ∀ operator most, limits.maxPstPerTso[operator]? = some most →
    (((perimeter.moved a).filter (·.operator == some operator)).filter
      RangeAction.isPst).length ≤ most
  operators : ∀ most, limits.maxTso = some most →
    (NameSet.ofNames (applied.operators.toList ++
      (perimeter.moved a).filterMap RangeAction.operator)).size ≤ most

omit [Scalar K] in
/-- The same of network actions and some range actions. -/
structure UsageLimits.Permits (limits : UsageLimits) (applied : ActionSet K)
    (moved : List (RangeAction K)) : Prop where
  total : ∀ most, limits.maxRa = some most → applied.size + moved.length ≤ most
  perOperator : ∀ operator most, limits.maxRaPerTso[operator]? = some most →
    applied.countOf operator + (moved.filter (·.operator == some operator)).length ≤ most
  shifters : ∀ operator most, limits.maxPstPerTso[operator]? = some most →
    ((moved.filter (·.operator == some operator)).filter RangeAction.isPst).length ≤ most
  operators : ∀ most, limits.maxTso = some most →
    (NameSet.ofNames (applied.operators.toList ++ moved.filterMap RangeAction.operator)).size ≤ most

namespace UsageLimits

variable {limits : UsageLimits} {perimeter : Perimeter K} {applied : ActionSet K}
  {a : Activation K} {moved : List (RangeAction K)}

omit [Scalar K] in
theorem eq_none_of_isEmpty (h : limits.isEmpty = true) :
    limits.maxRa = none ∧ limits.maxTso = none ∧ limits.maxRaPerTso = ∅ ∧
      limits.maxPstPerTso = ∅ ∧ limits.maxElementaryPerTso = ∅ := by
  unfold isEmpty at h
  simp only [Bool.and_eq_true, Option.isNone_iff_eq_none, Std.ExtTreeMap.isEmpty_iff] at h
  obtain ⟨⟨⟨⟨⟨hmaxRa, hmaxTso⟩, hperTso⟩, -⟩, hpst⟩, helementary⟩ := h
  exact ⟨hmaxRa, hmaxTso, hperTso, hpst, helementary⟩

omit [Scalar K] in
theorem isEmpty_of_budget?_eq_none (h : limits.budget? applied = none) : limits.isEmpty = true := by
  unfold budget? at h
  split at h
  · assumption
  · cases h

omit [Scalar K] in
/-- Without a budget nothing is limited. -/
theorem permits_of_budget?_eq_none (h : limits.budget? applied = none) :
    limits.Permits applied moved := by
  obtain ⟨hmaxRa, hmaxTso, hperTso, hpst, -⟩ := eq_none_of_isEmpty (isEmpty_of_budget?_eq_none h)
  constructor
  · simp [hmaxRa]
  · simp [hperTso]
  · simp [hpst]
  · simp [hmaxTso]

omit [Scalar K] in
/-- Network actions within the limits keep them as long as no range action moves. -/
theorem ActionsWithin.permits_nil (h : limits.ActionsWithin applied) :
    limits.Permits applied [] := by
  refine ⟨h.total, h.perOperator, fun _ most _ => Nat.zero_le most, fun most hmost => ?_⟩
  refine (NameSet.size_le_of_subset fun operator ho => ?_).trans (h.operators most hmost)
  rw [NameSet.mem_ofNames, List.filterMap_nil, List.append_nil] at ho
  exact Std.ExtTreeSet.mem_toList.mp ho

omit [Scalar K] in
/-- Range actions that keep the budget which network actions leave them keep the limits together
with these. -/
theorem permits_of_covers {budget : UsageBudget} (h : limits.Permits applied [])
    (hbudget : limits.budget? applied = some budget) (hcovers : budget.Covers moved) :
    limits.Permits applied moved := by
  unfold budget? at hbudget
  split at hbudget
  · cases hbudget
  obtain rfl := Option.some.inj hbudget
  constructor
  · intro most hmost
    have hused : applied.size ≤ most := h.total most hmost
    have hleft := hcovers.total (most - applied.size) (by simp [hmost])
    omega
  · intro operator most hmost
    have hused : applied.countOf operator ≤ most := h.perOperator operator most hmost
    have hleft := hcovers.perOperator operator (most - applied.countOf operator)
      (Table.getElem?_mapValues hmost)
    omega
  · exact hcovers.shifters
  · intro most hmost
    have hused : applied.operators.size ≤ most := by
      refine (NameSet.size_le_of_subset fun operator ho => ?_).trans (h.operators most hmost)
      exact NameSet.mem_ofNames.mpr (List.mem_append_left _ (Std.ExtTreeSet.mem_toList.mpr ho))
    have hleft := hcovers.operators (most - applied.operators.size) (by simp [hmost])
    have hsize : (NameSet.ofNames (applied.operators.toList ++
        moved.filterMap RangeAction.operator)).size ≤ (applied.operators.toList ++
          (NameSet.ofNames ((moved.filterMap RangeAction.operator).filter
            fun operator => !applied.operators.contains operator)).toList).length := by
      refine NameSet.size_le_length fun operator ho => ?_
      rw [NameSet.mem_ofNames, List.mem_append] at ho
      rw [List.mem_append, Std.ExtTreeSet.mem_toList, Std.ExtTreeSet.mem_toList,
        NameSet.mem_ofNames, List.mem_filter]
      by_cases happlied : operator ∈ applied.operators
      · exact .inl happlied
      · rcases ho with ho | ho
        · exact absurd (Std.ExtTreeSet.mem_toList.mp ho) happlied
        · refine .inr ⟨ho, ?_⟩
          rw [Bool.not_eq_true', Bool.eq_false_iff]
          intro hcontains
          exact happlied (Std.ExtTreeSet.mem_iff_contains.mpr hcontains)
    rw [List.length_append, Std.ExtTreeSet.length_toList, Std.ExtTreeSet.length_toList] at hsize
    dsimp only at hleft
    omega

/-- Limits that permit the range actions that have moved allow the set-points. -/
theorem Permits.allows (h : limits.Permits applied (perimeter.moved a))
    (hmoved : limits.maxRa ≠ none → (perimeter.moved a).map RangeAction.id = a.activated) :
    limits.Allows perimeter applied a := by
  refine ⟨fun most hmost => ?_, h.perOperator, h.shifters, h.operators⟩
  rw [← hmoved (hmost ▸ Option.some_ne_none most), List.length_map]
  exact h.total most hmost

/-- So do they with set-points none of which has moved. -/
theorem allows_of_activated_eq_nil (h : limits.ActionsWithin applied) (ha : a.activated = []) :
    limits.Allows perimeter applied a := by
  have hmoved : perimeter.moved a = [] := by
    unfold Perimeter.moved
    rw [ha]
    rfl
  refine (hmoved ▸ h.permits_nil).allows fun _ => ?_
  rw [hmoved, ha]
  rfl

end UsageLimits

/-! ### Candidates -/

omit [Scalar K] in
/-- As many range actions have an operator as it is listed among theirs. -/
theorem RangeAction.length_filter_operator (rs : List (RangeAction K)) (operator : String) :
    ((rs.filterMap RangeAction.operator).filter (· == operator)).length =
      (rs.filter (·.operator == some operator)).length := by
  induction rs with
  | nil => rfl
  | cons r rs ih =>
    cases hoperator : r.operator with
    | none =>
      rw [List.filterMap_cons_none hoperator, ih, List.filter_cons_of_neg (by simp [hoperator])]
    | some other =>
      rw [List.filterMap_cons_some hoperator]
      by_cases hsame : other = operator
      · rw [List.filter_cons_of_pos (by simp [hsame]), List.filter_cons_of_pos
          (by simp [hoperator, hsame]), List.length_cons, List.length_cons, ih]
      · rw [List.filter_cons_of_neg (by simp [hsame]), List.filter_cons_of_neg
          (by simp [hoperator, hsame]), ih]

namespace Search

variable [Network N K] {s : Search N K} {services : Services N K σ} {below : LeafResult K}
  {task : Task K} {depth : Nat}

/-- A candidate that leaves range actions where they are keeps the limits with them. -/
theorem Tries.allows_union (h : s.Tries below task)
    (hstay : task.candidate.dropsRangeActions = false)
    (hbelow : s.parameters.limits.Allows s.situation.perimeter below.applied
      below.point.activation) :
    s.parameters.limits.Allows s.situation.perimeter
      (below.applied.union task.candidate.combination.actions) below.point.activation := by
  constructor
  · intro most hmost
    have hkeep := h.keeps hstay _ s.maxRa_mem_filters
    simp only [UsageFilter.maxRa, Verdict.of_eq_keep_iff, Bool.not_eq_false',
      UsageFilter.within_iff] at hkeep
    have hsize := hkeep.2 most hmost
    change task.candidate.combination.actions.size + _ + below.point.activation.activated.length ≤ _
      at hsize
    rw [ActionSet.size_union h.apart]
    omega
  · intro operator most hmost
    rw [ActionSet.countOf_union h.apart]
    by_cases hoperator : operator ∈ task.candidate.combination.actions.operators
    · have hkeep := h.keeps hstay _ s.maxRaPerTso_mem_filters
      simp only [UsageFilter.maxRaPerTso, Verdict.of_eq_keep_iff, Bool.not_eq_false',
        List.all_eq_true, UsageFilter.allWithin, UsageFilter.within_iff] at hkeep
      have hcount := hkeep.2 operator (Std.ExtTreeSet.mem_toList.mpr hoperator) most hmost
      unfold LeafResult.movedOperators at hcount
      rw [RangeAction.length_filter_operator] at hcount
      change _ + ((s.situation.perimeter.moved below.point.activation).filter _).length + _ ≤ _
        at hcount
      omega
    · rw [ActionSet.countOf_eq_zero hoperator]
      exact hbelow.perOperator operator most hmost
  · exact hbelow.shifters
  · intro most hmost
    have hkeep := h.keeps hstay _ s.maxTso_mem_filters
    simp only [UsageFilter.maxTso, UsageFilter.operatorsWithin, Verdict.of_eq_keep_iff,
      Bool.not_eq_false', UsageFilter.within_iff] at hkeep
    refine (NameSet.size_le_of_subset fun operator ho => ?_).trans (hkeep.2 most hmost)
    rw [NameSet.mem_ofNames, List.mem_append] at ho
    rw [NameSet.mem_ofNames, List.mem_append, List.mem_append]
    rcases ho with happlied | hmoved
    · rcases ActionSet.mem_operators_union (Std.ExtTreeSet.mem_toList.mp happlied) with
        hbelow | hcandidate
      · exact .inr (.inl (Std.ExtTreeSet.mem_toList.mpr hbelow))
      · exact .inl (Std.ExtTreeSet.mem_toList.mpr hcandidate)
    · exact .inr (.inr hmoved)

end Search

/-! ### Leaves -/

/-- A leaf whose set-points, those it starts from and those that have been found, are within the
limits together with its network actions. -/
structure Leaf.KeepsLimits (limits : UsageLimits) (perimeter : Perimeter K) (leaf : Leaf N K) :
    Prop where
  actions : limits.ActionsWithin leaf.applied
  start : limits.Allows perimeter leaf.applied leaf.start
  optimized : ∀ outcome result, leaf.phase = .optimized outcome result →
    limits.Allows perimeter leaf.applied result.point.activation

namespace Leaf.KeepsLimits

variable {limits : UsageLimits} {perimeter : Perimeter K} {leaf : Leaf N K}

theorem setpoints (h : leaf.KeepsLimits limits perimeter) :
    leaf.HasSetpoints (limits.Allows perimeter leaf.applied) :=
  ⟨h.start, h.optimized⟩

/-- The results of such a leaf are within the limits. -/
theorem result (h : leaf.KeepsLimits limits perimeter) {result : LeafResult K}
    (hresult : leaf.result = .ok result) :
    limits.Allows perimeter result.applied result.point.activation := by
  rw [Leaf.applied_of_result hresult]
  exact h.setpoints.result hresult

/-- What does not change the network actions of a leaf keeps the limits if it keeps them of its
set-points. -/
theorem of_setpoints {later : Leaf N K} (h : leaf.KeepsLimits limits perimeter)
    (happlied : later.applied = leaf.applied)
    (hsetpoints : later.HasSetpoints (limits.Allows perimeter leaf.applied)) :
    later.KeepsLimits limits perimeter := by
  rw [← happlied] at hsetpoints
  exact ⟨happlied ▸ h.actions, hsetpoints.start, hsetpoints.optimized⟩

/-- Evaluating a leaf does not change its set-points. -/
theorem evaluate {objective : Objective K} (h : leaf.KeepsLimits limits perimeter) (state : σ) :
    (leaf.evaluate services objective state).1.KeepsLimits limits perimeter :=
  h.of_setpoints (Leaf.applied_evaluate ..) (h.setpoints.evaluate services objective state)

end Leaf.KeepsLimits

namespace Search

/-- How far the set-point of a range action may be from the one before the optimisation without
counting as moved by the limits on use. -/
def slack (s : Search N K) (r : RangeAction K) : K :=
  Usage.slack ⟨s.situation.perimeter.rangeActions, s.situation.setpoints, {},
    s.parameters.optimizer.pstModel == .approximatedIntegers⟩ r

end Search

section Exact

variable {K : Type} [ExactScalar K] [Network N K] {s : Search N K} {services : Services N K σ}
  {depth : Nat}

/-- Set-points within the slack are rounded to the one before the optimisation, for all range
actions of a search. -/
def Search.IsSteady (s : Search N K) : Prop :=
  ∀ r ∈ s.situation.perimeter.rangeActions, ∀ reference,
    s.situation.setpoints.get r.id = .ok reference → r.IsSteady (s.slack r) reference

section Optimised

variable (hservices : services.SolvesModels) (hsteady : s.IsSteady)
include hservices hsteady

/-- The set-points that a leaf's optimisation finds are within the limits, if those it starts from
are. -/
theorem Leaf.allows_of_optimize {leaf : Leaf N K} {outcome : Outcome K} {result : Optimized K}
    {before after : Session N σ}
    (hactions : s.parameters.limits.ActionsWithin leaf.applied)
    (hstart : s.parameters.limits.Allows s.situation.perimeter leaf.applied leaf.start)
    (h : Succeeds ((leaf.optimizer s.situation s.parameters outcome).optimize services) before
      result after) :
    s.parameters.limits.Allows s.situation.perimeter leaf.applied result.point.activation := by
  cases hbudget : s.parameters.limits.budget? leaf.applied with
  | none =>
    refine (UsageLimits.permits_of_budget?_eq_none hbudget).allows fun hmaxRa => ?_
    exact absurd (UsageLimits.eq_none_of_isEmpty
      (UsageLimits.isEmpty_of_budget?_eq_none hbudget)).1 hmaxRa
  | some budget =>
    have hchooses := Optimizer.chooses_covers
      (o := leaf.optimizer s.situation s.parameters outcome) hservices hbudget hsteady
    refine hchooses.optimize_induction (Q := fun point _ =>
      s.parameters.limits.Allows s.situation.perimeter leaf.applied point.activation) ?_ hstart h
    intro _ reached _ hreached _
    exact (UsageLimits.permits_of_covers hactions.permits_nil hbudget hreached.1).allows fun _ =>
      hreached.2

theorem Leaf.KeepsLimits.optimize {leaf : Leaf N K}
    (h : leaf.KeepsLimits s.parameters.limits s.situation.perimeter) (state : σ) :
    (leaf.optimize services s.situation s.parameters state).1.1.KeepsLimits
      s.parameters.limits s.situation.perimeter := by
  refine h.of_setpoints (Leaf.applied_optimize ..) (h.setpoints.optimize ?_ state)
  intro outcome before result after hresult
  exact Leaf.allows_of_optimize hservices hsteady h.actions h.start hresult

end Optimised

/-- Building a leaf on top of one within the limits gives such a leaf. -/
theorem Search.keepsLimits_build {parent leaf : Leaf N K} {task : Task K}
    (h : parent.KeepsLimits s.parameters.limits s.situation.perimeter)
    (htask : task ∈ s.tasks depth parent.finalize) (hbuild : s.build task = .ok leaf) :
    leaf.KeepsLimits s.parameters.limits s.situation.perimeter := by
  obtain ⟨below, htries, hbelow, happlied⟩ := exists_tries_of_build htask hbuild
  have hresult := htries.result_eq
  rw [(tries_of_mem_tasks htask).2.1, Leaf.result?_finalize] at hresult
  have hactions := htries.actionsWithin_union (hbelow ▸ h.actions)
  obtain ⟨start, hstart, rfl, -⟩ := exists_start_of_build hbuild
  rw [hbelow, ← happlied] at hactions
  refine ⟨hactions, ?_, fun _ _ hphase => ?_⟩
  · unfold startOf at hstart
    split at hstart
    · obtain hunmoved := Except.ok.inj hstart
      refine UsageLimits.allows_of_activated_eq_nil hactions ?_
      rw [← hunmoved]
      exact Activation.activated_ofReference _
    · next hstay =>
      have hkept := htries.allows_union (Bool.not_eq_true _ ▸ hstay) (h.result hresult)
      rw [hbelow, ← happlied] at hkept
      unfold FinalizedLeaf.result at hstart
      rw [htries.result_eq] at hstart
      rwa [← Except.ok.inj hstart]
  · rw [phase_build hbuild] at hphase
    cases hphase

/-- If a solver's answers meet the models, and set-points within the slack of their limits are
rounded to the ones before the optimisation, then all results that a search may have are within the
limits on the numbers of remedial actions and of operators, network actions and range actions
counted together. -/
theorem Search.allows_of_builds (hservices : services.SolvesModels) (hsteady : s.IsSteady)
    {leaf : FinalizedLeaf K} (h : s.Builds services depth leaf) {result : LeafResult K}
    (hresult : leaf.result? = some result) :
    s.parameters.limits.Allows s.situation.perimeter result.applied result.point.activation := by
  have hinherits : s.Inherits services fun _ leaf =>
      leaf.KeepsLimits s.parameters.limits s.situation.perimeter := by
    constructor
    · have hactions := s.parameters.limits.actionsWithin_empty (K := K)
      refine ⟨hactions, ?_, fun _ _ hphase => ?_⟩
      · exact UsageLimits.allows_of_activated_eq_nil hactions (Activation.activated_ofReference _)
      · change (if _ then LeafPhase.failed else LeafPhase.evaluated _ _) = _ at hphase
        split at hphase <;> cases hphase
    · intro depth parent leaf task hparent htask hbuild
      exact keepsLimits_build hparent htask hbuild
    · intro depth leaf state hleaf
      exact hleaf.evaluate state
    · intro depth leaf state hleaf
      exact hleaf.optimize hservices hsteady state
  obtain ⟨leaf, hleaf, rfl⟩ := hinherits.builds_induction h
  exact hleaf.result (Leaf.result?_finalize.mp hresult)

end Exact

/-! ### A grid with one shift -/

namespace OneShift

/-- The grid: a line carries 500 MW, and each megawatt that an injection is above its set-point
before any action adds a fifth of it. -/
def network (reference : ℚ) : LinearNetwork ℚ :=
  ({ id := "grid" } : LinearNetwork ℚ)
    |>.withBaseFlow "line" 500
    |>.withInjection "unit" reference
    |>.withSensitivity "unit" "line" (1 / 5)

/-- The range action on the injection. -/
def shift : RangeAction ℚ :=
  { RangeAction.injection "shift" "unit" (-15) 12 with operator := some "owner" }

/-- The line and the range action. -/
def perimeter : Perimeter ℚ := .ofLists .preventive [TwoSwitches.line] [] [shift]

/-- What computes the flow of the line. -/
def computer : LinearComputer ℚ := ⟨perimeter.cnecs, perimeter.rangeActions, []⟩

/-- Services that compute flows, and propose some values for every model that these meet. -/
def proposing (values : List ℚ) : Services (LinearNetwork ℚ) ℚ Unit where
  compute network := return computer.compute network
  solve model := return if model.IsMetBy values then .solved values else .failed
  clock _ := 0

theorem solvesModels (values : List ℚ) : (proposing values).SolvesModels := by
  intro model state answer h
  change (if model.IsMetBy values then Answer.solved values else .failed) = _ at h
  split at h
  · next hmet =>
    obtain rfl := Answer.solved.inj h
    exact hmet
  · cases h

/-- The search from a set-point with limits on use. -/
def search (reference : ℚ) (limits : UsageLimits) : Search (LinearNetwork ℚ) ℚ where
  situation :=
    { network := network reference
      perimeter
      outcome := computer.compute (network reference)
      setpoints := ⟨Table.ofPairs [("shift", reference)]⟩
      objective := (MarginObjective.ofPerimeter perimeter .megawatt).evaluate
      borders := .empty
      detected := [] }
  parameters :=
    { Parameters.default with objective := ⟨.minMargin, .megawatt, .minObjective, 0⟩, limits }
  predefined := []

/-- A set-point that is an integer is steady. -/
theorem isSteady_search (n : ℤ) (limits : UsageLimits) : (search n limits).IsSteady := by
  intro r hr reference hreference
  obtain rfl : r = shift := List.mem_singleton.mp hr
  have hvalue : (Table.ofPairs [("shift", (n : ℚ))])["shift"]? = some (n : ℚ) :=
    Table.getElem?_ofPairs (by simp) List.mem_cons_self
  rw [Setpoints.get_eq_ok_iff] at hreference
  obtain rfl := Option.some.inj (hvalue.symm.trans hreference)
  refine RangeAction.isSteady_of_int rfl ?_ n
  unfold Search.slack
  rw [Usage.slack_of_not_isPst rfl, Usage.tolerance, ExactScalar.ofDecimal_eq]
  norm_num

/-- With limits that allow one range action, a root with one is built, and keeps them. -/
theorem allows_of_one_shift :
    let s := search 0
      { maxRa := some 1, maxTso := some 1, maxRaPerTso := Table.ofPairs [("owner", 1)]
        maxPstPerTso := Table.ofPairs [("owner", 0)] }
    ∃ leaf result, s.Builds (proposing [-2, 2, 2498 / 5, 1502 / 5, 1]) 0 leaf ∧
      leaf.result? = some result ∧ result.movedRangeActions = ["shift"] ∧
      s.parameters.limits.Allows s.situation.perimeter result.applied result.point.activation := by
  intro s
  have hroot : ((s.root (proposing [-2, 2, 2498 / 5, 1502 / 5, 1]) ()).1.finalize.result?.any
      fun result => result.movedRangeActions == ["shift"]) = true := by decide +kernel
  rw [Option.any_eq_true] at hroot
  obtain ⟨result, hresult, hmoved⟩ := hroot
  exact ⟨_, result, .root (), hresult, beq_iff_eq.mp hmoved,
    s.allows_of_builds (solvesModels _) (isSteady_search 0 _) (.root ()) hresult⟩

/-- A set-point within the slack is rounded away from the one before the optimisation, so that the
range action moves though the limits allow none. -/
theorem limit_exceeded_by_rounding :
    ¬ ∀ (s : Search (LinearNetwork ℚ) ℚ) (services : Services (LinearNetwork ℚ) ℚ Unit),
      services.SolvesModels → ∀ depth leaf result, s.Builds services depth leaf →
        leaf.result? = some result → s.parameters.limits.Allows s.situation.perimeter
          result.applied result.point.activation := by
  intro h
  have hroot : (((search (3 / 10) { maxRa := some 0 }).root (proposing
      [2999 / 10000, 1 / 10000, 49999998 / 100000, 30000002 / 100000, 0]) ()).1.finalize.result?.any
        fun result => result.movedRangeActions == ["shift"]) = true := by decide +kernel
  rw [Option.any_eq_true] at hroot
  obtain ⟨result, hresult, hmoved⟩ := hroot
  have hallows := h _ _ (solvesModels _) 0 _ result (.root ()) hresult
  have htotal := hallows.total 0 rfl
  unfold LeafResult.movedRangeActions at hmoved
  rw [beq_iff_eq.mp hmoved] at htotal
  exact absurd htotal (by simp)

end OneShift

end GridRelief
