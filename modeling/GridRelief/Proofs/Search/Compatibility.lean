import GridRelief.Proofs.Compatibility
import GridRelief.Proofs.Search.ActionLimits

/-!
# Actions of a leaf that conflict

The actions of a candidate are compared with those in use, and not with each other. So two actions
of a leaf that conflict have come together, in one combination found before or named by the user.
If these combinations have none that conflict, no leaf has, and then the network of a leaf does
not depend on the order of its actions.

* `Search.exists_leadsTogether_of_builds`: the combinations that have led to a leaf, and which of
  their actions may conflict.
* `Search.conflicts_within_combinations`: where actions that conflict have come from.
* `TwoSwitches.conflicting_actions_applied`: a combination that opens and closes a switch is tried.
-/

namespace GridRelief

variable {K N σ : Type}

namespace Search

section

variable [Scalar K] [Network N K] {s : Search N K} {services : Services N K σ}

/-- The combination of a task has been found before or named by the user, or is a single action of
the perimeter. -/
theorem combination_of_mem_tasks {epoch : Nat} {previous : FinalizedLeaf K} {task : Task K}
    (h : task ∈ s.tasks epoch previous) :
    task.candidate.combination ∈ s.predefined ∨
      ∃ a ∈ s.situation.perimeter.networkActions, .single a = task.candidate.combination := by
  unfold tasks at h
  cases hresult : previous.result? with
  | none => simp [hresult] at h
  | some below =>
    rw [hresult] at h
    obtain ⟨candidate, hcandidate, rfl⟩ := List.mem_map.mp h
    rw [Candidate.mem_byPriority] at hcandidate
    exact (Bloom.mem_offered.mp (Bloom.offered_of_mem_candidates hcandidate).1).imp_left And.left

/-- The actions of a candidate are compatible with those in use. -/
theorem Tries.isCompatible {below : LeafResult K} {task : Task K} (h : s.Tries below task)
    {a b : NetworkAction K} (ha : a ∈ task.candidate.combination.actions.actions)
    (hb : b ∈ below.applied.actions) : a.isCompatible b = true := by
  have hpasses := h.passes RelevanceFilter.compatible
    (by simp [bloom, Bloom.ofParameters, Bloom.filtersOf])
  simp only [RelevanceFilter.compatible, Filter.keeping, Ne, Verdict.of_eq_reject_iff,
    Bool.not_eq_false, List.all_eq_true] at hpasses
  exact hpasses a ha b hb

/-- The combinations that have led to a leaf, the last one first. Each has been found before or
named by the user, or is a single action, and of their actions only those conflict that have come
together. -/
structure LeadsTogether (s : Search N K) (depth : Nat) (applied : ActionSet K)
    (path : List (Combination K)) : Prop where
  length_eq : path.length = depth
  applied_eq : applied = appliedAlong path
  origin : ∀ c ∈ path, c ∈ s.predefined ∨
    ∃ a ∈ s.situation.perimeter.networkActions, .single a = c
  mem_iff : ∀ a, a ∈ applied.actions ↔ ∃ c ∈ path, a ∈ c.actions.actions
  conflict : ∀ a ∈ applied.actions, ∀ b ∈ applied.actions, a.isCompatible b = false →
    ∃ c ∈ path, a ∈ c.actions.actions ∧ b ∈ c.actions.actions

end

variable [ExactScalar K] [Network N K] {s : Search N K} {services : Services N K σ} {depth : Nat}

/-- A combination that is tried on top of a leaf has come after those that have led to it. -/
theorem LeadsTogether.cons {below : LeafResult K} {task : Task K} {path : List (Combination K)}
    (h : s.LeadsTogether depth below.applied path) (htries : s.Tries below task)
    (horigin : task.candidate.combination ∈ s.predefined ∨
      ∃ a ∈ s.situation.perimeter.networkActions, .single a = task.candidate.combination) :
    s.LeadsTogether (depth + 1) (below.applied.union task.candidate.combination.actions)
      (task.candidate.combination :: path) := by
  have hmem : ∀ a, a ∈ (below.applied.union task.candidate.combination.actions).actions ↔
      a ∈ below.applied.actions ∨ a ∈ task.candidate.combination.actions.actions := fun a => by
    rw [(ActionSet.actions_union_perm htries.apart).mem_iff, List.mem_append]
  refine ⟨by rw [List.length_cons, h.length_eq], by rw [h.applied_eq]; rfl, ?_, fun a => ?_, ?_⟩
  · exact List.forall_mem_cons.mpr ⟨horigin, h.origin⟩
  · rw [hmem, h.mem_iff, List.exists_mem_cons_iff, or_comm]
  · intro a ha b hb hconflict
    rcases (hmem a).mp ha with ha | ha <;> rcases (hmem b).mp hb with hb | hb
    · obtain ⟨c, hc, htogether⟩ := h.conflict a ha b hb hconflict
      exact ⟨c, List.mem_cons_of_mem _ hc, htogether⟩
    · rw [NetworkAction.isCompatible_comm, htries.isCompatible hb ha] at hconflict
      cases hconflict
    · rw [htries.isCompatible ha hb] at hconflict
      cases hconflict
    · exact ⟨_, List.mem_cons_self, ha, hb⟩

/-- Some combinations have led to every leaf that a search may build, one at each depth. -/
theorem exists_leadsTogether_of_builds {leaf : FinalizedLeaf K}
    (h : s.Builds services depth leaf) : ∃ path, s.LeadsTogether depth leaf.applied path := by
  have hinherits : s.Inherits services fun depth leaf =>
      ∃ path, s.LeadsTogether depth leaf.applied path := by
    constructor
    · exact ⟨[], rfl, rfl, by simp, by simp [Leaf.root], by simp [Leaf.root]⟩
    · rintro depth parent leaf task ⟨path, hpath⟩ htask hbuild
      obtain ⟨below, htries, hbelow, happlied⟩ := exists_tries_of_build htask hbuild
      rw [← hbelow] at hpath happlied
      rw [happlied]
      exact ⟨_, hpath.cons htries (combination_of_mem_tasks htask)⟩
    · intro depth leaf state hleaf
      rwa [Leaf.applied_evaluate]
    · intro depth leaf state hleaf
      rwa [Leaf.applied_optimize]
  obtain ⟨leaf, hleaf, rfl⟩ := hinherits.builds_induction h
  exact hleaf

/-- When the actions of the perimeter do not conflict with themselves, two actions of a leaf that
conflict belong to one combination found before or named by the user that has led to it. So a leaf
has none that conflict exactly if these combinations have none, and then its network does not
depend on the order of the actions. -/
theorem conflicts_within_combinations
    (hself : ∀ a ∈ s.situation.perimeter.networkActions, a.isCompatible a = true)
    {leaf : FinalizedLeaf K} (h : s.Builds services depth leaf) :
    ∃ path, s.LeadsTogether depth leaf.applied path ∧
      (∀ a ∈ leaf.applied.actions, ∀ b ∈ leaf.applied.actions, a.isCompatible b = false →
        ∃ c ∈ path, c ∈ s.predefined ∧ a ∈ c.actions.actions ∧ b ∈ c.actions.actions) ∧
      (leaf.applied.IsCompatible ↔ ∀ c ∈ path, c ∈ s.predefined → c.actions.IsCompatible) ∧
      (leaf.applied.IsCompatible → Network.IsOrderly N → ∀ (n : N) (order : List (NetworkAction K)),
        order.Perm leaf.applied.actions →
        (Leaf.applyActions leaf.applied.actions n).2 = .ok () →
          Leaf.applyActions order n = Leaf.applyActions leaf.applied.actions n) := by
  obtain ⟨path, hpath⟩ := exists_leadsTogether_of_builds h
  have hconflict : ∀ a ∈ leaf.applied.actions, ∀ b ∈ leaf.applied.actions,
      a.isCompatible b = false →
        ∃ c ∈ path, c ∈ s.predefined ∧ a ∈ c.actions.actions ∧ b ∈ c.actions.actions := by
    intro a ha b hb hconflict
    obtain ⟨c, hc, hac, hbc⟩ := hpath.conflict a ha b hb hconflict
    rcases hpath.origin c hc with hpredefined | ⟨d, hd, rfl⟩
    · exact ⟨c, hc, hpredefined, hac, hbc⟩
    · -- a single action would conflict with itself
      rw [Bloom.actions_single, List.mem_singleton] at hac hbc
      rw [hac, hbc, hself d hd] at hconflict
      cases hconflict
  refine ⟨path, hpath, hconflict,
    ⟨fun hleaf c hc _ a ha b hb => ?_, fun hpredefined a ha b hb => ?_⟩,
    fun hleaf horderly n order hperm haccepted => ?_⟩
  · exact hleaf a ((hpath.mem_iff a).mpr ⟨c, hc, ha⟩) b ((hpath.mem_iff b).mpr ⟨c, hc, hb⟩)
  · by_contra hnot
    obtain ⟨c, hc, hin, hac, hbc⟩ := hconflict a ha b hb (Bool.eq_false_of_not_eq_true hnot)
    exact hnot (hpredefined c hc hin a hac b hbc)
  · exact Leaf.applyActions_perm horderly hleaf hperm haccepted

end Search

namespace TwoSwitches

/-- The action that closes a switch. -/
def closing (switch : String) : NetworkAction ℚ :=
  { id := "close-" ++ switch, parts := [.topology switch true] }

/-- The search in which the user has named a combination of two actions. -/
def pairedSearch (first second : NetworkAction ℚ) : Search (LinearNetwork ℚ) ℚ :=
  let s := search (network 100 0 50) .minObjective 0
  { s with
    situation.perimeter := .ofLists .preventive [line, side] [first, second] []
    predefined := [.ofList [first, second] .predefined] }

/-- Two switches that have been opened together may be opened in either order. -/
theorem opened_in_either_order :
    let s := pairedSearch (opening "first") (opening "second")
    (∀ a ∈ s.situation.perimeter.networkActions, a.isCompatible a = true) ∧
      ∃ leaf, s.Builds TwoSwitches.services 1 leaf ∧
        leaf.applied.ids = ["open-first", "open-second"] ∧ leaf.applied.IsCompatible ∧
        ∀ (n : LinearNetwork ℚ) (order : List (NetworkAction ℚ)),
          order.Perm leaf.applied.actions →
          (Leaf.applyActions leaf.applied.actions n).2 = .ok () →
            Leaf.applyActions order n = Leaf.applyActions leaf.applied.actions n := by
  intro s
  have hself : ∀ a ∈ s.situation.perimeter.networkActions, a.isCompatible a = true := by
    decide +kernel
  obtain ⟨leaf, hbuilds, hids⟩ := s.exists_builds_of_any TwoSwitches.services 1
    (fun leaf => leaf.applied.ids == ["open-first", "open-second"]) [List.replicate 7 ⟨0, ()⟩] ()
    (by decide +kernel)
  obtain ⟨path, -, -, hcompatible, horder⟩ := Search.conflicts_within_combinations hself hbuilds
  have hall : ∀ c ∈ s.predefined, c.actions.IsCompatible := by decide +kernel
  have hleaf := hcompatible.mpr fun c _ hc => hall c hc
  exact ⟨hself, leaf, hbuilds, beq_iff_eq.mp hids, hleaf, horder hleaf LinearNetwork.isOrderly⟩

/-- A combination that opens and closes a switch is applied, although its two actions conflict. -/
theorem conflicting_actions_applied :
    let s := pairedSearch (opening "first") (closing "first")
    (∀ a ∈ s.situation.perimeter.networkActions, a.isCompatible a = true) ∧
      ¬ ∀ depth leaf, s.Builds TwoSwitches.services depth leaf → leaf.applied.IsCompatible := by
  intro s
  refine ⟨by decide +kernel, fun h => ?_⟩
  obtain ⟨leaf, hbuilds, hconflict⟩ := s.exists_builds_of_any TwoSwitches.services 1
    (fun leaf => decide ¬leaf.applied.IsCompatible) [List.replicate 7 ⟨0, ()⟩] ()
    (by decide +kernel)
  exact of_decide_eq_true hconflict (h 1 leaf hbuilds)

end TwoSwitches

end GridRelief
