import Mathlib.Algebra.Order.BigOperators.Group.List
import GridRelief.Proofs.Search.Course
import GridRelief.Proofs.Search.TwoSwitches

/-!
# Limits on network actions along a path

Each filter sees one leaf and one combination, but the limits are on all network actions in use.
The limits on numbers of actions and of operators count those of the leaf, so every leaf that a
search may build keeps them. The limit on elementary actions is one for each combination by
itself: a leaf that two combinations have led to may have more.

* `Search.actionsWithin_of_builds`: the limits on numbers of actions and of operators are kept.
* `Search.exists_path_of_builds`: the elementary actions of a leaf are those of the combinations
  that have led to it, and each of these keeps the limit.
* `TwoSwitches.elementary_limit_exceeded`: two of them may exceed it together.
-/

namespace GridRelief

variable {K N σ : Type} [Scalar K] [Network N K] {s : Search N K} {services : Services N K σ}
  {below : LeafResult K} {task : Task K} {depth : Nat}

/-! ### Numbers of actions and of operators -/

/-- The network actions in use are within the limits on their number and on their operators. -/
structure UsageLimits.ActionsWithin (limits : UsageLimits) (applied : ActionSet K) : Prop where
  total : ∀ most, limits.maxRa = some most → applied.size ≤ most
  perOperator : ∀ operator most, limits.maxRaPerTso[operator]? = some most →
    applied.countOf operator ≤ most
  topoPerOperator : ∀ operator most, limits.maxTopoPerTso[operator]? = some most →
    applied.countOf operator ≤ most
  operators : ∀ most, limits.maxTso = some most → applied.operators.size ≤ most

omit [Scalar K] in
/-- No network action exceeds no limit. -/
theorem UsageLimits.actionsWithin_empty (limits : UsageLimits) :
    limits.ActionsWithin (∅ : ActionSet K) := by
  constructor
  · intro most _
    exact Nat.zero_le most
  · intro operator most _
    exact Nat.zero_le most
  · intro operator most _
    exact Nat.zero_le most
  · intro most _
    exact Nat.zero_le most

namespace Search

/-- A candidate that passes all filters keeps the limits together with the actions in use. -/
theorem Tries.actionsWithin_union (h : s.Tries below task)
    (hbelow : s.parameters.limits.ActionsWithin below.applied) :
    s.parameters.limits.ActionsWithin
      (below.applied.union task.candidate.combination.actions) := by
  constructor
  · intro most hmost
    have hsize := h.size_le hmost
    rw [ActionSet.size_union h.apart, Nat.add_comm]
    exact hsize
  · intro operator most hmost
    have hroom := h.countOf_le hmost
    have hused := hbelow.perOperator operator most hmost
    rw [ActionSet.countOf_union h.apart]
    omega
  · intro operator most hmost
    have hroom := h.countOf_le_topo hmost
    have hused := hbelow.topoPerOperator operator most hmost
    rw [ActionSet.countOf_union h.apart]
    omega
  · intro most hmost
    refine Nat.le_trans (NameSet.size_le_of_subset ?_) (h.operators_size_le hmost)
    intro operator hoperator
    rw [NameSet.mem_ofNames, List.mem_append]
    rcases ActionSet.mem_operators_union hoperator with hbelow | hcandidate
    · exact .inr (Std.ExtTreeSet.mem_toList.mpr hbelow)
    · exact .inl (Std.ExtTreeSet.mem_toList.mpr hcandidate)

/-- Every leaf that a search may build keeps the limits on the number of network actions and on
that of their operators, whatever the order of all steps. -/
theorem actionsWithin_of_builds {leaf : FinalizedLeaf K}
    (h : s.Builds services depth leaf) : s.parameters.limits.ActionsWithin leaf.applied := by
  have hinherits : s.Inherits services fun _ leaf =>
      s.parameters.limits.ActionsWithin leaf.applied := by
    constructor
    · exact s.parameters.limits.actionsWithin_empty
    · intro depth parent leaf task hparent htask hbuild
      obtain ⟨below, htries, hbelow, happlied⟩ := exists_tries_of_build htask hbuild
      rw [← hbelow] at hparent happlied
      rw [happlied]
      exact htries.actionsWithin_union hparent
    · intro depth leaf state hleaf
      rwa [Leaf.applied_evaluate]
    · intro depth leaf state hleaf
      rwa [Leaf.applied_optimize]
  obtain ⟨leaf, hleaf, rfl⟩ := hinherits.builds_induction h
  exact hleaf

end Search

/-- With limits that allow one action, a leaf with one action is built, and keeps them. -/
theorem TwoSwitches.actionsWithin_of_one_action :
    let s := limitedSearch
      { maxRa := some 1, maxTso := some 1, maxRaPerTso := Table.ofPairs [("owner", 1)]
        maxTopoPerTso := Table.ofPairs [("owner", 1)] }
    ∃ leaf, s.Builds TwoSwitches.services 1 leaf ∧ leaf.applied.ids = ["open-first"] ∧
      s.parameters.limits.ActionsWithin leaf.applied := by
  intro s
  obtain ⟨leaf, hbuilds, hids⟩ := s.exists_builds_of_any TwoSwitches.services 1
    (fun leaf => leaf.applied.ids == ["open-first"]) [List.replicate 7 ⟨0, ()⟩] ()
    (by decide +kernel)
  exact ⟨leaf, hbuilds, beq_iff_eq.mp hids, s.actionsWithin_of_builds hbuilds⟩

namespace Search

/-! ### Elementary actions -/

/-- The actions of some combinations that are tried on top of each other, the last one first. -/
def appliedAlong : List (Combination K) → ActionSet K
  | [] => ∅
  | c :: path => (appliedAlong path).union c.actions

/-- The combinations that have led to a leaf, and what they say of the elementary actions of an
operator. -/
structure IsPath (operator : String) (most depth : Nat) (applied : ActionSet K)
    (path : List (Combination K)) : Prop where
  length_eq : path.length = depth
  applied_eq : applied = appliedAlong path
  sizeOf_eq : applied.sizeOf operator = (path.map (·.actions.sizeOf operator)).sum
  sizeOf_le : ∀ c ∈ path, c.actions.sizeOf operator ≤ most

omit [Scalar K] in
/-- Combinations of at most so many elementary actions each have no more together than that for
each of those that have an action of the operator. -/
theorem sum_sizeOf_le {operator : String} {most : Nat} {path : List (Combination K)}
    (h : ∀ c ∈ path, c.actions.sizeOf operator ≤ most) :
    (path.map (·.actions.sizeOf operator)).sum ≤
      most * path.countP fun c => c.actions.operators.contains operator := by
  induction path with
  | nil => simp
  | cons c path ih =>
    have hrest := ih fun d hd => h d (List.mem_cons_of_mem _ hd)
    rw [List.map_cons, List.sum_cons]
    by_cases hoperator : operator ∈ c.actions.operators
    · have hthis := h c List.mem_cons_self
      rw [List.countP_cons_of_pos (by simpa using hoperator), Nat.mul_succ]
      omega
    · rw [List.countP_cons_of_neg (by simpa using hoperator),
        ActionSet.sizeOf_eq_zero hoperator, Nat.zero_add]
      exact hrest

/-- The elementary actions of a leaf are those of the combinations that have led to it, one at each
depth, and each of these combinations keeps the limit of an operator. -/
theorem exists_isPath_of_builds {leaf : FinalizedLeaf K}
    (h : s.Builds services depth leaf) {operator : String} {most : Nat}
    (hmost : s.parameters.limits.maxElementaryPerTso[operator]? = some most) :
    ∃ path, IsPath operator most depth leaf.applied path := by
  have hinherits : s.Inherits services fun depth leaf =>
      ∃ path, IsPath operator most depth leaf.applied path := by
    constructor
    · exact ⟨[], rfl, rfl, rfl, by simp⟩
    · rintro depth parent leaf task ⟨path, hpath⟩ htask hbuild
      obtain ⟨below, htries, hbelow, happlied⟩ := exists_tries_of_build htask hbuild
      refine ⟨task.candidate.combination :: path, ?_, ?_, ?_, ?_⟩
      · rw [List.length_cons, hpath.length_eq]
      · rw [happlied, hpath.applied_eq]
        rfl
      · rw [happlied, ← hbelow, ActionSet.sizeOf_union htries.apart, hbelow, hpath.sizeOf_eq,
          List.map_cons, List.sum_cons, Nat.add_comm]
      · intro c hc
        rcases List.mem_cons.mp hc with rfl | hc
        · exact htries.sizeOf_le hmost
        · exact hpath.sizeOf_le c hc
    · intro depth leaf state hleaf
      rwa [Leaf.applied_evaluate]
    · intro depth leaf state hleaf
      rwa [Leaf.applied_optimize]
  obtain ⟨leaf, hleaf, rfl⟩ := hinherits.builds_induction h
  exact hleaf

/-- The limit on the elementary actions of an operator is kept by each combination that has led to
a leaf. So the leaf has at most that many for each of them that has an action of the operator, and
keeps the limit if there is no more than one. -/
theorem exists_path_of_builds {leaf : FinalizedLeaf K} (h : s.Builds services depth leaf)
    {operator : String} {most : Nat}
    (hmost : s.parameters.limits.maxElementaryPerTso[operator]? = some most) :
    ∃ path, IsPath operator most depth leaf.applied path ∧ leaf.applied.sizeOf operator ≤
      most * path.countP fun c => c.actions.operators.contains operator := by
  obtain ⟨path, hpath⟩ := exists_isPath_of_builds h hmost
  refine ⟨path, hpath, ?_⟩
  rw [hpath.sizeOf_eq]
  exact sum_sizeOf_le hpath.sizeOf_le

end Search

namespace TwoSwitches

/-- The search in which the operator may use one elementary action. -/
def cappedSearch : Search (LinearNetwork ℚ) ℚ :=
  limitedSearch { maxElementaryPerTso := Table.ofPairs [("owner", 1)] }

/-- A leaf with both actions is built at the second depth. -/
theorem exists_builds_both :
    ∃ leaf, cappedSearch.Builds TwoSwitches.services 2 leaf ∧ leaf.applied.sizeOf "owner" = 2 := by
  obtain ⟨leaf, hbuilds, hsize⟩ := cappedSearch.exists_builds_of_any TwoSwitches.services 2
    (fun leaf => leaf.applied.sizeOf "owner" == 2) schedule () (by decide +kernel)
  exact ⟨leaf, hbuilds, beq_iff_eq.mp hsize⟩

/-- Its two actions have come from two combinations of one elementary action each. -/
theorem exists_path_of_both : ∃ leaf, cappedSearch.Builds TwoSwitches.services 2 leaf ∧
    ∃ path, Search.IsPath "owner" 1 2 leaf.applied path ∧ leaf.applied.sizeOf "owner" ≤
      1 * path.countP fun c => c.actions.operators.contains "owner" := by
  obtain ⟨leaf, hbuilds, -⟩ := exists_builds_both
  exact ⟨leaf, hbuilds, cappedSearch.exists_path_of_builds hbuilds (by decide +kernel)⟩

/-- The leaf has more elementary actions of the operator than the limit. -/
theorem elementary_limit_exceeded :
    ¬ ∀ depth leaf, cappedSearch.Builds TwoSwitches.services depth leaf → ∀ operator most,
      cappedSearch.parameters.limits.maxElementaryPerTso[operator]? = some most →
        leaf.applied.sizeOf operator ≤ most := by
  intro h
  obtain ⟨leaf, hbuilds, hsize⟩ := exists_builds_both
  have hle := h 2 leaf hbuilds "owner" 1 (by decide +kernel)
  omega

end TwoSwitches

end GridRelief
