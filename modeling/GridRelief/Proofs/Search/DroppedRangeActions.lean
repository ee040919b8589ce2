import GridRelief.Proofs.Search.FilterOrder
import GridRelief.Proofs.Search.RangeLimits

/-!
# When range actions go back

A candidate is tried with the range actions where the leaf has put them, or with all of them back
where they were before any action. Three filters may ask for the latter. Each counts in its own way:
all remedial actions, those of each operator of the combination, and the different operators. Taken
together they ask for it just when the combination would exceed a limit with the range actions in
use: what an operator without an action in the combination uses stays as it is.

* `UsageLimits.ExceededBy`: network actions and range actions that exceed a limit together.
* `Bloom.drops_iff`: range actions go back if some filter asks for it.
* `Bloom.drops_iff_exceededBy`: the filters of a search ask for it just when a limit would be
  exceeded, and no limit is once the range actions are back.
-/

namespace GridRelief

variable {K N : Type} [Scalar K]

/-! ### Which filters ask for it -/

namespace Verdict

variable {kept dropped : Bool}

@[simp] theorem of_eq_keepWithoutRangeActions_iff :
    of kept dropped = .keepWithoutRangeActions ↔ kept = true ∧ dropped = true := by
  cases kept <;> cases dropped <;> simp [of]

/-- What is not rejected is kept without range actions under the second condition alone. -/
theorem asks_iff (h : of kept dropped ≠ .reject) :
    of kept dropped = .keepWithoutRangeActions ↔ dropped = true := by
  rw [ne_eq, of_eq_reject_iff, Bool.not_eq_false] at h
  rw [of_eq_keepWithoutRangeActions_iff, h, and_iff_right rfl]

end Verdict

omit [Scalar K] in
/-- A filter that keeps combinations under a condition never asks for range actions to go back. -/
theorem Filter.judge_keeping_ne {name : String} {keeps : LeafResult K → Combination K → Bool}
    {leaf : LeafResult K} {c : Combination K} :
    (keeping name keeps).judge leaf c ≠ .keepWithoutRangeActions := by
  simp [keeping]

omit [Scalar K] in
/-- The range actions of a candidate go back if some filter asks for it. -/
theorem Bloom.drops_iff {b : Bloom K} {leaf : LeafResult K} {available : List (NetworkAction K)}
    {c : Candidate K} (h : c ∈ b.candidates leaf available) :
    c.dropsRangeActions = true ↔
      ∃ f ∈ b.filters, f.judge leaf c.combination = .keepWithoutRangeActions := by
  rw [candidates, Filter.applyAll_eq] at h
  obtain ⟨d, hd, hthrough⟩ := List.mem_filterMap.mp h
  have hstay : d.dropsRangeActions = false := by
    refine Candidate.forall_mem_ofList (P := fun e => e.dropsRangeActions = false) ?_ ?_ d hd
    · exact fun _ _ _ hsaid => hsaid
    · exact List.forall_mem_map.mpr fun _ _ => rfl
  simp only [Filter.through] at hthrough
  split at hthrough
  · cases hthrough
  · rw [← Option.some.inj hthrough]
    simp [hstay]

/-! ### Limits -/

namespace UsageFilter

theorem within_eq_false_iff {limit : Option Nat} {n : Nat} :
    within limit n = false ↔ ∃ most, limit = some most ∧ most < n := by
  cases limit <;> simp [within]

end UsageFilter

/-- Network actions and range actions that exceed a limit together: on the number of remedial
actions, on those of an operator, or on the operators. -/
inductive UsageLimits.ExceededBy (limits : UsageLimits) (applied : ActionSet K)
    (moved : List (RangeAction K)) : Prop where
  | total (most : Nat) (limit : limits.maxRa = some most)
      (more : most < applied.size + moved.length)
  | perOperator (operator : String) (most : Nat)
      (limit : limits.maxRaPerTso[operator]? = some most)
      (more : most < applied.countOf operator +
        (moved.filter (·.operator == some operator)).length)
  | operators (most : Nat) (limit : limits.maxTso = some most)
      (more : most < (NameSet.ofNames (applied.operators.toList ++
        moved.filterMap RangeAction.operator)).size)

omit [Scalar K] in
/-- The operators of a union, of sets that have no names in common, together with some others. -/
theorem ActionSet.size_operators_union {first second : ActionSet K} (h : first.Apart second)
    (others : List String) :
    (NameSet.ofNames ((first.union second).operators.toList ++ others)).size =
      (NameSet.ofNames (second.operators.toList ++ (first.operators.toList ++ others))).size := by
  have hmem : ∀ operator, operator ∈ (first.union second).operators ↔
      operator ∈ first.operators ∨ operator ∈ second.operators := by
    intro operator
    simp only [mem_operators, (actions_union_perm h).mem_iff, List.mem_append, or_and_right,
      exists_or]
  apply Nat.le_antisymm <;>
  · apply NameSet.size_le_of_subset
    intro operator
    simp only [NameSet.mem_ofNames, List.mem_append, Std.ExtTreeSet.mem_toList, hmem]
    tauto

namespace Bloom

variable [Network N K] {s : Situation N K} {predefined : List (Combination K)}
  {p : Parameters K} {leaf : LeafResult K} {available : List (NetworkAction K)}
  {c : Candidate K}

/-- No action of a candidate has a namesake in use. -/
theorem apart_of_mem_candidates (h : c ∈ (ofParameters s predefined p).candidates leaf available) :
    leaf.applied.Apart c.combination.actions :=
  fun a ha => ((actions_of_mem_candidates h).2 a ha).2

/-! ### What each filter asks -/

omit [Network N K] in
theorem movedOperators_eq (perimeter : Perimeter K) : leaf.movedOperators perimeter =
    (perimeter.moved leaf.point.activation).filterMap RangeAction.operator :=
  rfl

omit [Network N K] in
/-- As many range actions have moved as are told, if the perimeter has all of them. -/
theorem length_moved {perimeter : Perimeter K}
    (hknown : ∀ id ∈ leaf.movedRangeActions, (perimeter.rangeAction? id).isSome) :
    (perimeter.moved leaf.point.activation).length = leaf.movedRangeActions.length := by
  show (leaf.movedRangeActions.filterMap perimeter.rangeAction?).length = _
  rw [List.length_filterMap_eq_countP, List.countP_eq_length]
  exact hknown

section Filters

variable (h : c ∈ (ofParameters s predefined p).candidates leaf available)
include h

/-- The limit on all remedial actions asks for it when these are too many with the range actions. -/
theorem maxRa_drops_iff
    (hknown : ∀ id ∈ leaf.movedRangeActions, (s.perimeter.rangeAction? id).isSome) :
    (UsageFilter.maxRa p.limits.maxRa).judge leaf c.combination = .keepWithoutRangeActions ↔
      ∃ most, p.limits.maxRa = some most ∧
        most < (leaf.applied.union c.combination.actions).size +
          (s.perimeter.moved leaf.point.activation).length := by
  have hkept := (offered_of_mem_candidates h).2 (UsageFilter.maxRa p.limits.maxRa)
    (by simp [ofParameters, filtersOf])
  apply (Verdict.asks_iff hkept).trans
  rw [Bool.not_eq_true', UsageFilter.within_eq_false_iff, length_moved hknown,
    ActionSet.size_union (apart_of_mem_candidates h), Nat.add_comm leaf.applied.size]
  rfl

/-- The limits on the remedial actions of an operator ask for it when those of some operator are
too many with its range actions, if they are not without the combination. An operator that has no
action in the combination uses what it has used before. -/
theorem maxRaPerTso_drops_iff
    (hleaf : ∀ operator most, p.limits.maxRaPerTso[operator]? = some most →
      leaf.applied.countOf operator + ((s.perimeter.moved leaf.point.activation).filter
        (·.operator == some operator)).length ≤ most) :
    (UsageFilter.maxRaPerTso s.perimeter p.limits.maxRaPerTso p.limits.maxTopoPerTso).judge leaf
        c.combination = .keepWithoutRangeActions ↔
      ∃ operator most, p.limits.maxRaPerTso[operator]? = some most ∧
        most < (leaf.applied.union c.combination.actions).countOf operator +
          ((s.perimeter.moved leaf.point.activation).filter
            (·.operator == some operator)).length := by
  have hkept := (offered_of_mem_candidates h).2
    (UsageFilter.maxRaPerTso s.perimeter p.limits.maxRaPerTso p.limits.maxTopoPerTso)
    (by simp [ofParameters, filtersOf])
  apply (Verdict.asks_iff hkept).trans
  simp only [Bool.not_eq_true', List.all_eq_false, Bool.not_eq_true, UsageFilter.allWithin,
    UsageFilter.within_eq_false_iff, movedOperators_eq, RangeAction.length_filter_operator,
    ActionSet.countOf_union (apart_of_mem_candidates h)]
  constructor
  · rintro ⟨operator, -, most, hmost, hmore⟩
    exact ⟨operator, most, hmost, by omega⟩
  · rintro ⟨operator, most, hmost, hmore⟩
    have hused := hleaf operator most hmost
    refine ⟨operator, ?_, most, hmost, by omega⟩
    by_contra hoperator
    rw [ActionSet.countOf_eq_zero fun hmem => hoperator (Std.ExtTreeSet.mem_toList.mpr hmem)]
      at hmore
    omega

/-- The limit on operators asks for it when these are too many with those of the range actions. -/
theorem maxTso_drops_iff :
    (UsageFilter.maxTso s.perimeter p.limits.maxTso).judge leaf c.combination =
        .keepWithoutRangeActions ↔
      ∃ most, p.limits.maxTso = some most ∧
        most < (NameSet.ofNames ((leaf.applied.union c.combination.actions).operators.toList ++
          (s.perimeter.moved leaf.point.activation).filterMap RangeAction.operator)).size := by
  have hkept := (offered_of_mem_candidates h).2 (UsageFilter.maxTso s.perimeter p.limits.maxTso)
    (by simp [ofParameters, filtersOf])
  apply (Verdict.asks_iff hkept).trans
  rw [Bool.not_eq_true', UsageFilter.operatorsWithin, UsageFilter.within_eq_false_iff,
    movedOperators_eq, ActionSet.size_operators_union (apart_of_mem_candidates h)]
  rfl

end Filters

omit [Network N K] in
/-- Without limits on elementary actions no filter asks for range actions to go back on their
account. -/
theorem judge_maxElementary_ne {initial : Setpoints K} {combination : Combination K} :
    (UsageFilter.maxElementary s.perimeter initial ∅).judge leaf combination ≠
      .keepWithoutRangeActions := by
  simp [UsageFilter.maxElementary, UsageFilter.within]

/-! ### The three filters together -/

/-- With all range actions back, a candidate keeps the limits that the leaf keeps. -/
theorem not_exceededBy_union {moved : List (RangeAction K)}
    (h : c ∈ (ofParameters s predefined p).candidates leaf available)
    (hleaf : ¬p.limits.ExceededBy leaf.applied moved) :
    ¬p.limits.ExceededBy (leaf.applied.union c.combination.actions) [] := by
  -- what is known of a task of the candidate does not depend on its depth or on the leaf's phase
  have htries : (⟨s, p, predefined⟩ : Search N K).Tries leaf ⟨0, ⟨∅, .evaluated, some leaf⟩, c⟩ :=
    Search.tries_of_mem_candidates rfl h
  intro hexceeded
  cases hexceeded with
  | total most limit more =>
    have hsize := htries.size_le limit
    rw [ActionSet.size_union (apart_of_mem_candidates h)] at more
    simp only [Combination.size, List.length_nil] at hsize more
    omega
  | perOperator operator most limit more =>
    have hroom := htries.countOf_le limit
    have hused : leaf.applied.countOf operator ≤ most := by
      by_contra hmore
      exact hleaf (.perOperator operator most limit (by omega))
    rw [ActionSet.countOf_union (apart_of_mem_candidates h)] at more
    simp only [List.filter_nil, List.length_nil] at hroom more
    omega
  | operators most limit more =>
    have hsize := htries.operators_size_le limit
    rw [ActionSet.size_operators_union (apart_of_mem_candidates h), List.filterMap_nil,
      List.append_nil] at more
    exact absurd hsize (Nat.not_le.mpr more)

/-- Without limits on elementary actions, on top of a leaf that keeps the limits on remedial actions
and on operators: the range actions of a candidate go back just when they and all network actions
would exceed one of these limits, and without them no limit is exceeded. -/
theorem drops_iff_exceededBy (hnone : p.limits.maxElementaryPerTso = ∅)
    (hknown : ∀ id ∈ leaf.movedRangeActions, (s.perimeter.rangeAction? id).isSome)
    (hleaf : ¬p.limits.ExceededBy leaf.applied (s.perimeter.moved leaf.point.activation))
    (h : c ∈ (ofParameters s predefined p).candidates leaf available) :
    (c.dropsRangeActions = true ↔
      p.limits.ExceededBy (leaf.applied.union c.combination.actions)
        (s.perimeter.moved leaf.point.activation)) ∧
    (c.dropsRangeActions = true →
      ¬p.limits.ExceededBy (leaf.applied.union c.combination.actions) []) := by
  refine ⟨?_, fun _ => not_exceededBy_union h hleaf⟩
  have hperTso := maxRaPerTso_drops_iff h fun operator most limit => by
    by_contra hmore
    exact hleaf (.perOperator operator most limit (by omega))
  rw [drops_iff h]
  constructor
  · rintro ⟨f, hf, hasks⟩
    simp only [ofParameters, filtersOf, List.mem_append, List.mem_cons, List.not_mem_nil,
      or_false] at hf
    obtain ((rfl | rfl | rfl | rfl | rfl) | hnear) | (rfl | rfl | rfl | rfl) := hf
    · exact absurd hasks Filter.judge_keeping_ne
    · exact absurd hasks Filter.judge_keeping_ne
    · obtain ⟨most, limit, more⟩ := (maxRa_drops_iff h hknown).mp hasks
      exact .total most limit more
    · obtain ⟨operator, most, limit, more⟩ := hperTso.mp hasks
      exact .perOperator operator most limit more
    · obtain ⟨most, limit, more⟩ := (maxTso_drops_iff h).mp hasks
      exact .operators most limit more
    · split at hnear
      · rw [List.mem_singleton] at hnear
        exact absurd (hnear ▸ hasks) Filter.judge_keeping_ne
      · cases hnear
    · rw [hnone] at hasks
      exact absurd hasks judge_maxElementary_ne
    · exact absurd hasks Filter.judge_keeping_ne
    · exact absurd hasks Filter.judge_keeping_ne
    · exact absurd hasks Filter.judge_keeping_ne
  · rintro (⟨most, limit, more⟩ | ⟨operator, most, limit, more⟩ | ⟨most, limit, more⟩)
    · exact ⟨_, by simp [ofParameters, filtersOf],
        (maxRa_drops_iff h hknown).mpr ⟨most, limit, more⟩⟩
    · exact ⟨_, by simp [ofParameters, filtersOf], hperTso.mpr ⟨operator, most, limit, more⟩⟩
    · exact ⟨_, by simp [ofParameters, filtersOf], (maxTso_drops_iff h).mpr ⟨most, limit, more⟩⟩

end Bloom

/-! ### One operator at a time -/

namespace OneShift

/-- The search with limits on use, on the grid with two switches. One of them belongs to the
operator of the shift, the other one to another operator. -/
def limitedSearch (limits : UsageLimits) : Search (LinearNetwork ℚ) ℚ :=
  let grid := network 0
    |>.withSwitchable "first"
    |>.withSwitchable "second"
    |>.withOpeningEffect "first" "line" (-100)
    |>.withOpeningEffect "second" "line" (-50)
  let openings := [TwoSwitches.ownedOpening "first",
    { TwoSwitches.opening "second" with operator := some "other" }]
  { search 0 limits with
    situation.network := grid
    situation.outcome := computer.compute grid
    situation.perimeter := .ofLists .preventive [TwoSwitches.line] openings [shift] }

/-- When one operator may be in use and the shift has moved, the shift goes back for the switch of
the other operator, and stays where it is for the one of its own. -/
theorem drops_for_another_operator :
    let s := limitedSearch { maxTso := some 1 }
    ∃ leaf, (s.root (proposing [-15, 15, 497, 303, 1]) ()).1.finalize.result? = some leaf ∧
      leaf.movedRangeActions = ["shift"] ∧
      ¬s.parameters.limits.ExceededBy leaf.applied
        (s.situation.perimeter.moved leaf.point.activation) ∧
      (∃ c ∈ s.bloom.candidates leaf s.situation.perimeter.networkActions,
        c.combination.ids = ["open-first"] ∧
          ¬s.parameters.limits.ExceededBy (leaf.applied.union c.combination.actions)
            (s.situation.perimeter.moved leaf.point.activation)) ∧
      ∃ c ∈ s.bloom.candidates leaf s.situation.perimeter.networkActions,
        c.combination.ids = ["open-second"] ∧
          s.parameters.limits.ExceededBy (leaf.applied.union c.combination.actions)
            (s.situation.perimeter.moved leaf.point.activation) ∧
          ¬s.parameters.limits.ExceededBy (leaf.applied.union c.combination.actions) [] := by
  intro s
  let available := s.situation.perimeter.networkActions
  have htest : ((s.root (proposing [-15, 15, 497, 303, 1]) ()).1.finalize.result?.any fun leaf =>
      leaf.movedRangeActions == ["shift"] &&
        decide ((NameSet.ofNames (leaf.applied.operators.toList ++
          (s.situation.perimeter.moved leaf.point.activation).filterMap
            RangeAction.operator)).size ≤ 1) &&
        (s.bloom.candidates leaf available).any (fun c =>
          c.combination.ids == ["open-first"] && !c.dropsRangeActions) &&
        (s.bloom.candidates leaf available).any fun c =>
          c.combination.ids == ["open-second"] && c.dropsRangeActions) = true := by
    decide +kernel
  obtain ⟨leaf, hleaf, htest⟩ := Option.any_eq_true _ _ |>.mp htest
  simp only [Bool.and_eq_true, List.any_eq_true, beq_iff_eq, decide_eq_true_eq,
    Bool.not_eq_true'] at htest
  obtain ⟨⟨⟨hmoved, hsize⟩, first, hfirst, hfirstIds, hstay⟩, second, hsecond, hsecondIds,
    hdrops⟩ := htest
  have hknown : ∀ id ∈ leaf.movedRangeActions,
      (s.situation.perimeter.rangeAction? id).isSome := by
    rw [hmoved]
    decide
  have hwithin : ¬s.parameters.limits.ExceededBy leaf.applied
      (s.situation.perimeter.moved leaf.point.activation) := by
    rintro (⟨most, limit, -⟩ | ⟨operator, most, limit, -⟩ | ⟨most, limit, more⟩)
    · cases limit
    · rw [show s.parameters.limits.maxRaPerTso = ∅ from rfl,
        Std.ExtTreeMap.getElem?_empty] at limit
      cases limit
    · obtain rfl := Option.some.inj limit
      omega
  refine ⟨leaf, hleaf, hmoved, hwithin, ⟨first, hfirst, hfirstIds, fun hexceeded => ?_⟩,
    second, hsecond, hsecondIds, ?_⟩
  · have hdrops := (Bloom.drops_iff_exceededBy rfl hknown hwithin hfirst).1.mpr hexceeded
    rw [hstay] at hdrops
    exact absurd hdrops (by decide)
  · obtain ⟨hiff, hback⟩ := Bloom.drops_iff_exceededBy rfl hknown hwithin hsecond
    exact ⟨hiff.mp hdrops, hback hdrops⟩

end OneShift

end GridRelief
