import GridRelief.Proofs.Search.Finished
import GridRelief.Proofs.Search.Moments
import GridRelief.Proofs.Search.TwoSwitches

/-!
# A search ends on its own

Every depth that brings an improvement adds network actions of the perimeter to those in use, and
takes none away. So there are no more of these depths than network actions with different names, and
at most one further depth is explored, which brings none, however large the greatest depth may be.

* `Search.StaysWithin`: a leaf uses an action for each depth, all of them from the perimeter.
* `Search.HandsIn.applied_eq`: the network actions of a leaf that is handed in.
* `Search.Stands.best_cases`: what a depth does to the best leaf.
* `Search.search_ends`: how many depths are explored.
-/

namespace GridRelief

variable {K N σ : Type} [Scalar K] [Network N K]

namespace Search

/-- The network actions of a perimeter with different names. -/
def actionNames (s : Search N K) : NameSet :=
  NameSet.ofNames (s.situation.perimeter.networkActions.map (·.id))

omit [Scalar K] [Network N K] in
theorem mem_actionNames {s : Search N K} {id : String} :
    id ∈ s.actionNames ↔ ∃ b ∈ s.situation.perimeter.networkActions, b.id = id := by
  rw [actionNames, NameSet.mem_ofNames, List.mem_map]

variable {s : Search N K} {services : Services N K σ} {m : Moment N K}

/-! ### The actions in use -/

/-- A leaf uses at least one network action for each depth, and none but those of the perimeter. -/
structure StaysWithin (s : Search N K) (depth : Nat) (leaf : Leaf N K) : Prop where
  depth_le : depth ≤ leaf.applied.size
  mem_actionNames : ∀ a ∈ leaf.applied.actions, a.id ∈ s.actionNames

/-- What building a leaf adds is one action at least, and of the perimeter. -/
theorem staysWithin_of_build {depth : Nat} {parent leaf : Leaf N K} {task : Task K}
    (hparent : s.StaysWithin depth parent) (htask : task ∈ s.tasks depth parent.finalize)
    (hbuild : s.build task = .ok leaf) : s.StaysWithin (depth + 1) leaf := by
  obtain ⟨below, htries, hbelow, happlied⟩ := exists_tries_of_build htask hbuild
  have hapart := htries.apart
  rw [hbelow] at hapart
  constructor
  · have hpos : 0 < task.candidate.combination.actions.size := by
      rw [ActionSet.size_eq]
      exact List.length_pos_iff.mpr htries.actions_ne_nil
    have hdepth := hparent.depth_le
    rw [happlied, ActionSet.size_union hapart]
    omega
  · intro a ha
    rw [happlied] at ha
    rcases ActionSet.mem_actions_union.mp ha with hnew | ⟨hold, -⟩
    · exact Search.mem_actionNames.mpr (exists_action_of_mem_tasks htask hnew)
    · exact hparent.mem_actionNames a hold

theorem inherits_staysWithin : s.Inherits services s.StaysWithin := by
  constructor
  · refine ⟨Nat.zero_le _, fun a ha => ?_⟩
    rw [show (Leaf.root s.situation).applied = ∅ from rfl, ActionSet.actions_empty] at ha
    cases ha
  · exact staysWithin_of_build
  · intro depth leaf state hleaf
    exact ⟨by rw [Leaf.applied_evaluate]; exact hleaf.depth_le,
      by rw [Leaf.applied_evaluate]; exact hleaf.mem_actionNames⟩
  · intro depth leaf state hleaf
    exact ⟨by rw [Leaf.applied_optimize]; exact hleaf.depth_le,
      by rw [Leaf.applied_optimize]; exact hleaf.mem_actionNames⟩

/-- The best leaf of a moment uses at least one network action for each depth up to its own. -/
theorem Reaches.staysWithin (h : s.Reaches services m) :
    ∃ leaf, s.StaysWithin m.crew.best.depth leaf ∧ leaf.finalize = m.crew.best.leaf :=
  (inherits_staysWithin.tendsAll h.visits).best

/-- The best leaf was found in one of the first depths, as many as there are actions. -/
theorem Reaches.depth_le (h : s.Reaches services m) :
    m.crew.best.depth ≤ s.actionNames.size := by
  obtain ⟨leaf, hleaf, -⟩ := h.staysWithin
  exact hleaf.depth_le.trans (ActionSet.size_le_of_names hleaf.mem_actionNames)

/-! ### What a depth does -/

/-- A task hands in a leaf with the actions of its candidate on top of those of the leaf below. -/
theorem HandsIn.applied_eq {task : Task K} {final : FinalizedLeaf K}
    (h : s.HandsIn services task final) :
    final.applied = task.previous.applied.union task.candidate.combination.actions := by
  obtain ⟨crew, hvisits, hjob⟩ := h
  refine hvisits.jobs_induction (J := fun task phase => phase.Holds
    (fun leaf => leaf.applied =
      task.previous.applied.union task.candidate.combination.actions)
    (fun final => final.applied =
      task.previous.applied.union task.candidate.combination.actions)) ?_ ?_ _ hjob
  · intro task
    trivial
  · intro task best phase state hphase
    refine holds_step ?_ ?_ ?_ ?_ state hphase
    · intro leaf hbuild
      obtain ⟨start, -, -, happlied⟩ := exists_start_of_build hbuild
      exact happlied
    · intro leaf state hleaf
      rwa [Leaf.applied_evaluate]
    · intro leaf hleaf
      exact hleaf
    · intro leaf state hleaf
      exact (Leaf.applied_optimize services s.situation s.parameters leaf state).trans hleaf

/-- A depth that brings an improvement adds network actions to those in use. -/
theorem Stands.members_ssubset (h : s.Stands services m) {task : Task K}
    (himproves : s.Improves services m.depths m.base m.crew.best task) :
    m.base.applied.members ⊂ m.crew.best.leaf.applied.members := by
  obtain ⟨-, hprevious, below, htries⟩ := tries_of_mem_tasks himproves.mem_tasks
  obtain ⟨leaf, hleaf⟩ := h.finalized
  have hbelow : below.applied = m.base.applied := by
    have hresult := htries.result_eq
    rw [hprevious, ← hleaf, Leaf.result?_finalize] at hresult
    rw [Leaf.applied_of_result hresult, ← hleaf]
    rfl
  rw [himproves.handsIn.applied_eq, hprevious, ← hbelow]
  exact htries.members_ssubset_union

/-- The last depth has left the best leaf as it was, or has added network actions to it. -/
theorem Stands.best_cases (h : s.Stands services m) :
    (m.crew.best.leaf = m.base ∧ m.crew.best.depth = m.depths - 1) ∨
      (m.base.applied.members ⊂ m.crew.best.leaf.applied.members ∧
        m.crew.best.depth = m.depths) := by
  rcases h.best with hrests | ⟨task, himproves⟩
  · exact .inl ⟨hrests.leaf_eq, hrests.depth_eq⟩
  · exact .inr ⟨h.members_ssubset himproves, himproves.depth_eq.trans himproves.depths_eq.symm⟩

/-- A depth that no candidates have been found for leaves the best leaf as it was. -/
theorem Stands.leaf_eq_of_candidates (h : s.Stands services m) {result : LeafResult K}
    (hresult : m.base.result? = some result)
    (hnone : s.bloom.candidates result s.situation.perimeter.networkActions = []) :
    m.crew.best.leaf = m.base := by
  rcases h.best with hrests | ⟨task, himproves⟩
  · exact hrests.leaf_eq
  · have htask := himproves.mem_tasks
    rw [tasks_eq_nil hresult hnone] at htask
    cases htask

/-- At most one depth more is explored than there are network actions. -/
theorem Reaches.depths_le (h : s.Reaches services m) : m.depths ≤ s.actionNames.size + 1 := by
  have hdepth := h.depth_le
  rcases h.stands.best_cases with ⟨-, hstays⟩ | ⟨-, hadvances⟩ <;> omega

/-! ### Counting the depths of a run -/

/-- Every crew of a course has closed a further depth. -/
theorem epoch_getLast_depths (left : Nat) (schedule : List (List (Turn σ))) (crew : Crew N K) :
    ((s.depths services left schedule crew).getLast?.getD crew).best.epoch =
      crew.best.epoch + (s.depths services left schedule crew).length := by
  induction left generalizing schedule crew with
  | zero => rfl
  | succ left ih =>
    rw [depths]
    split
    · rfl
    · dsimp only
      rw [List.getLast?_cons, Option.getD_some, List.length_cons]
      split
      · rw [ih, epoch_afterDepth]
        omega
      · exact epoch_afterDepth _ _

/-- The depths that have been closed and those that follow are at most one more than there are
network actions. -/
theorem Reaches.length_depths_le (h : s.Reaches services m) {left : Nat}
    (hclosed : m.isExploring = false) (hadvanced : m.crew.hasAdvanced = true)
    (hleft : m.crew.best.epoch + left ≤ s.parameters.tree.maxDepth)
    (schedule : List (List (Turn σ))) :
    m.crew.best.epoch + (s.depths services left schedule m.crew).length ≤
      s.actionNames.size + 1 := by
  rw [← epoch_getLast_depths]
  cases hlast : (s.depths services left schedule m.crew).getLast? with
  | none => exact (Nat.le_add_right ..).trans h.depths_le
  | some crew =>
    obtain ⟨events, hevents⟩ := exists_events_of_mem_depths hclosed hadvanced hleft crew
      (List.mem_of_getLast? hlast)
    have hlater := (h.after events).depths_le
    rw [Moment.depths, hevents] at hlater
    exact (Nat.le_add_right ..).trans hlater

/-- A course has at most one crew more than there are network actions. -/
theorem length_crews_le (s : Search N K) (services : Services N K σ)
    (schedule : List (List (Turn σ))) (state : σ) :
    (s.course services schedule state).crews.length ≤ s.actionNames.size + 1 := by
  unfold course
  dsimp only
  split
  · exact Nat.zero_le _
  · next hends =>
    have hlength := (Reaches.outset state hends).length_depths_le rfl rfl (Nat.zero_add _).le
      schedule
    exact (Nat.zero_add _).symm.trans_le hlength

/-- A search in time closes at most one depth more than there are network actions. -/
theorem epoch_iterate_le {state : σ}
    (hends : ¬((s.root services state).1.status = .failed ||
      s.stopsAt (s.root services state).1)) (after : σ) :
    (s.iterate services s.parameters.tree.maxDepth
      { crew := { best := { leaf := (s.root services state).1.finalize } } }
      after).1.crew.best.epoch ≤ s.actionNames.size + 1 := by
  obtain ⟨schedule, hschedule⟩ := s.exists_schedule_of_iterate services s.parameters.tree.maxDepth
    { crew := { best := { leaf := (s.root services state).1.finalize } } } after
  rw [hschedule, epoch_getLast_depths]
  exact (Reaches.outset state hends).length_depths_le rfl rfl (Nat.zero_add _).le schedule

/-- However large the greatest depth may be, and whatever combinations have been found before or
named by the user, a search enters at most one depth more than the perimeter has network actions
with different names. Every depth leaves the best leaf as it was, or adds network actions of the
perimeter to it and takes none away; one without candidates leaves it as it was. So it is in every
course, and in the loop of a search in time. -/
theorem search_ends (s : Search N K) (services : Services N K σ) :
    (∀ m : Moment N K, s.Reaches services m →
        m.depths ≤ s.actionNames.size + 1 ∧
        (∀ a ∈ m.crew.best.leaf.applied.actions, a.id ∈ s.actionNames) ∧
        ((m.crew.best.leaf = m.base ∧ m.crew.best.depth = m.depths - 1) ∨
          (m.base.applied.members ⊂ m.crew.best.leaf.applied.members ∧
            m.crew.best.depth = m.depths)) ∧
        ∀ result, m.base.result? = some result →
          s.bloom.candidates result s.situation.perimeter.networkActions = [] →
            m.crew.best.leaf = m.base) ∧
      ∀ state,
        (∀ schedule : List (List (Turn σ)),
          (s.course services schedule state).crews.length ≤ s.actionNames.size + 1) ∧
        ∀ after, ¬((s.root services state).1.status = .failed ||
            s.stopsAt (s.root services state).1) →
          (s.iterate services s.parameters.tree.maxDepth
            { crew := { best := { leaf := (s.root services state).1.finalize } } }
            after).1.crew.best.epoch ≤ s.actionNames.size + 1 := by
  refine ⟨fun m h => ⟨h.depths_le, ?_, h.stands.best_cases, ?_⟩, fun state => ⟨?_, ?_⟩⟩
  · obtain ⟨leaf, hleaf, hfinal⟩ := h.staysWithin
    rw [← hfinal]
    exact hleaf.mem_actionNames
  · intro result hresult hnone
    exact h.stands.leaf_eq_of_candidates hresult hnone
  · intro schedule
    exact s.length_crews_le services schedule state
  · intro after hends
    exact epoch_iterate_le hends after

end Search

namespace TwoSwitches

/-- The search on two switches with a very large greatest depth. The user has named no action and an
unknown one. -/
def deepSearch : Search (LinearNetwork ℚ) ℚ :=
  let s := search (network 100 0 50) .minObjective 0
  { s with
    parameters.tree.maxDepth := 1000000000
    predefined := [.ofList [] .predefined, .ofList [opening "third"] .predefined] }

/-- Three depths are explored for two actions: one for each of them, and a last one. -/
theorem search_ends_two_actions :
    deepSearch.actionNames.size = 2 ∧
      (deepSearch.iterate services deepSearch.parameters.tree.maxDepth
        { crew := { best := { leaf := root deepSearch } } } ()).1.crew.best.epoch = 3 ∧
      (deepSearch.iterate services deepSearch.parameters.tree.maxDepth
        { crew := { best := { leaf := root deepSearch } } } ()).1.crew.best.epoch ≤
          deepSearch.actionNames.size + 1 := by
  refine ⟨by decide +kernel, by decide +kernel, ?_⟩
  exact ((deepSearch.search_ends services).2 ()).2 () (by decide +kernel)

end TwoSwitches

end GridRelief
