import Mathlib.Tactic.Ring
import GridRelief.Proofs.Exact
import GridRelief.Proofs.Optimizer.Rounds
import GridRelief.Proofs.Search.Course
import GridRelief.Proofs.Search.Criteria

/-!
# The progress of a search

Within a depth the best leaf may get worse: one that reaches the stop criterion takes the place of
a cheaper one. But all leaves of a depth are compared with the best leaf of the depth below, so
from depth to depth the cost falls by more than the thresholds, and network actions are only added.

* `Search.Advances`: how far a leaf is ahead of the one that it was tried on top of.
* `Search.Explores`: what is known of a crew while a depth is explored.
* `Search.Settled.climbs`: the optima of several depths.
* `Search.progress`: what a search ends with, whatever the order of all steps.
-/

namespace GridRelief

variable {K N σ : Type}

/-! ### Optimising does not cost -/

namespace Leaf

variable [ExactScalar K] [Network N K]

omit [Network N K] in
theorem cost_of_result {leaf : Leaf N K} {result : LeafResult K} (h : leaf.result = .ok result) :
    leaf.finalize.cost = (result.cost.total : WithTop K) := by
  unfold FinalizedLeaf.cost FinalizedLeaf.cost?
  rw [result?_finalize.mpr h]
  rfl

/-- Optimising the set-points of an evaluated leaf does not raise its cost. -/
theorem cost_optimize_le (services : Services N K σ) (s : Situation N K) (p : Parameters K)
    {leaf : Leaf N K} {outcome : Outcome K}
    (hphase : leaf.phase = leaf.phaseOf s.objective outcome) (hstatus : outcome.status = .success)
    (state : σ) :
    (leaf.optimize services s p state).1.1.finalize.cost ≤ leaf.finalize.cost := by
  have hresult : leaf.result = .ok
      { point := ⟨outcome.flows, outcome.sensitivities, leaf.start⟩
        cost := s.objective outcome.flows leaf.start outcome.sensitivities .success
        applied := leaf.applied } := by
    unfold Leaf.result
    rw [hphase]
    rfl
  have hoptimize : (leaf.optimize services s p state).1.1 =
      (leaf.optimizeFrom services s p outcome state).1.1 := by
    unfold Leaf.optimize
    rw [hphase]
    rfl
  rw [hoptimize]
  rcases leaf.optimizeFrom_cases services s p outcome state with
    ⟨result, session, hsucceeds, heq⟩ | ⟨network, heq⟩
  · rw [heq, cost_of_result hresult]
    -- the rounds keep a cost that is at most that of the point they start from
    have hchooses : (leaf.optimizer s p outcome).Chooses services (fun _ => True)
        (fun _ => True) := by
      constructor <;> intros <;> trivial
    have hle := hchooses.optimize_induction
      (Q := fun _ cost => cost.total ≤
        (s.objective outcome.flows leaf.start outcome.sensitivities .success).total)
      (fun best reached hbest _ hcheaper => (hcheaper.trans_le hbest).le) ?_ hsucceeds
    · have hnew : ({ leaf with
            network := session.network, phase := .optimized outcome result } : Leaf N K).result =
          .ok { point := result.point, cost := result.cost, applied := leaf.applied
                optimization := some result.status } := rfl
      rw [cost_of_result hnew]
      exact WithTop.coe_le_coe.mpr hle
    · unfold Optimized.ofPoint optimizer
      dsimp only
      rw [← hstatus]
      exact le_refl _
  · rw [heq]
    exact le_of_eq (by unfold FinalizedLeaf.cost finalize; rfl)

end Leaf

namespace Search

variable [ExactScalar K] [Network N K] {s : Search N K} {services : Services N K σ}

/-- The root costs no more than when it was first evaluated. -/
theorem cost_root_le (s : Search N K) (services : Services N K σ) (state : σ) :
    (s.root services state).1.finalize.cost ≤
      ((Leaf.root s.situation).evaluate services s.situation.objective state).1.finalize.cost := by
  rcases hevaluate : (Leaf.root s.situation).evaluate services s.situation.objective state
    with ⟨leaf, after⟩
  have hroot : (s.root services state).1 =
      if leaf.status = .failed || s.stopsAt leaf then leaf
      else (leaf.optimize services s.situation s.parameters after).1.1 := by
    unfold root
    simp only [bind, StateT.bind, hevaluate]
    split <;> rfl
  rw [hroot]
  split
  · exact le_refl _
  · next hends =>
    have hstatus : leaf.status ≠ .failed := by
      intro hfailed
      simp [hfailed] at hends
    cases houtcome : s.situation.outcome.status with
    | failure =>
      refine absurd ?_ hstatus
      simp only [Leaf.evaluate, Leaf.root, houtcome, if_true] at hevaluate
      obtain ⟨rfl, -⟩ := Prod.mk.inj hevaluate
      rfl
    | success =>
      simp only [Leaf.evaluate, Leaf.root, houtcome] at hevaluate
      obtain ⟨rfl, -⟩ := Prod.mk.inj hevaluate
      exact Leaf.cost_optimize_le services s.situation s.parameters rfl houtcome after

/-! ### One leaf ahead of another -/

/-- A leaf uses more network actions than another one and saves more than the thresholds, or just
something if it reaches the stop criterion. -/
structure Advances (s : Search N K) (previous next : FinalizedLeaf K) : Prop where
  members_ssubset : previous.applied.members ⊂ next.applied.members
  saves : ∃ old new : K, previous.cost? = some old ∧ next.cost? = some new ∧ new < old ∧
    (s.criteria.reachesStop next = false →
      max s.parameters.tree.absoluteThreshold 0 < old - new ∧
        max s.parameters.tree.relativeThreshold 0 * |old| < old - new)

theorem sign_mul_self (a : K) : Scalar.sign a * a = |a| := by
  unfold Scalar.sign
  rcases lt_trichotomy a 0 with hneg | rfl | hpos
  · rw [if_neg hneg.not_gt, if_pos hneg, abs_of_neg hneg]
    exact neg_one_mul a
  · simp
  · rw [if_pos hpos, abs_of_pos hpos]
    exact one_mul a

omit [Network N K] in
/-- An improvement saves more than the thresholds, or just something if it reaches the stop
criterion. -/
theorem saves_of_isImprovement {previous next : FinalizedLeaf K} {old : K}
    (hold : previous.cost? = some old) (h : s.criteria.isImprovement previous next = true) :
    ∃ new : K, next.cost? = some new ∧ new < old ∧
      (s.criteria.reachesStop next = false →
        max s.parameters.tree.absoluteThreshold 0 < old - new ∧
          max s.parameters.tree.relativeThreshold 0 * |old| < old - new) := by
  have hcheaper := cost_lt_of_isImprovement h
  cases hnew : next.cost? with
  | none =>
    rw [FinalizedLeaf.cost, hnew] at hcheaper
    exact absurd hcheaper not_top_lt
  | some new =>
    rw [FinalizedLeaf.cost, FinalizedLeaf.cost, hnew, hold] at hcheaper
    refine ⟨new, rfl, WithTop.coe_lt_coe.mp hcheaper, fun hstop => ?_⟩
    unfold Criteria.isImprovement at h
    simp only [hstop, Bool.and_false, Bool.false_or, hold, hnew, Criteria.isSaving,
      Bool.and_eq_true, decide_eq_true_eq] at h
    obtain ⟨habsolute, hrelative⟩ := h
    simp only [criteria, Criteria.ofParameters, ExactScalar.max_eq] at habsolute hrelative
    constructor
    · linarith only [habsolute]
    · have hsign : (1 - Scalar.sign old * max s.parameters.tree.relativeThreshold 0) * old =
          old - max s.parameters.tree.relativeThreshold 0 * |old| := by
        rw [← sign_mul_self]
        ring
      linarith only [hrelative, hsign]

/-! ### One depth -/

/-- What is known of a job of a depth that is explored on top of a leaf: jobs of earlier depths may
be left, and each job holds a leaf with more actions than the one that it was tried on top of. -/
structure JobExplores (s : Search N K) (epoch : Nat) (previous : FinalizedLeaf K) (job : Job N K) :
    Prop where
  tends : s.Tends (fun _ _ => True) job
  epoch_le : job.task.epoch ≤ epoch
  previous_eq : job.task.epoch = epoch → job.task.previous = previous
  adds : job.phase.Has fun leaf => job.task.previous.applied.members ⊂ leaf.applied.members

/-- What is known of a crew while a depth is explored on top of a leaf: its best leaf is that leaf,
or one of the depth that advances from it. -/
structure Explores (s : Search N K) (epoch : Nat) (previous : FinalizedLeaf K) (crew : Crew N K) :
    Prop where
  epoch_eq : crew.best.epoch = epoch
  best : (crew.best.leaf = previous ∧ crew.best.depth = epoch) ∨
    (crew.best.depth = epoch + 1 ∧ s.Advances previous crew.best.leaf)
  finalized : ∃ leaf : Leaf N K, leaf.finalize = crew.best.leaf
  jobs : ∀ job ∈ crew.jobs, s.JobExplores epoch previous job

variable {epoch : Nat} {previous : FinalizedLeaf K} {crew : Crew N K}

/-- The leaf that is built for a task has more actions than the one that it is tried on top of. -/
theorem members_ssubset_of_build {task : Task K} {parent leaf : Leaf N K}
    (htask : task ∈ s.tasks epoch parent.finalize) (hbuild : s.build task = .ok leaf) :
    task.previous.applied.members ⊂ leaf.applied.members := by
  obtain ⟨below, htries, hbelow, happlied⟩ := exists_tries_of_build htask hbuild
  have hprevious : task.previous.applied = parent.applied := by
    rw [(tries_of_mem_tasks htask).2.1]
    rfl
  rw [hprevious, happlied, ← hbelow]
  exact htries.members_ssubset_union

theorem JobExplores.step {task : Task K} {best : Best K} {phase : TaskPhase N K} (state : σ)
    (h : s.JobExplores epoch previous ⟨task, phase⟩) :
    s.JobExplores epoch previous ⟨task, (s.step services task best phase state).1.2⟩ := by
  refine ⟨inherits_true.tends_step state h.tends, h.epoch_le, h.previous_eq, ?_⟩
  obtain ⟨parent, -, htask⟩ := h.tends.parent
  refine has_step ?_ ?_ ?_ state h.adds
  · intro leaf hbuild
    exact members_ssubset_of_build htask hbuild
  · intro leaf state hleaf
    rwa [Leaf.applied_evaluate]
  · intro leaf state hleaf
    rwa [Leaf.applied_optimize]

/-- A hand-in of a job of the depth keeps the best leaf, or makes it one that advances. What a job
of an earlier depth hands in has no effect. -/
theorem Explores.receive {task : Task K} {phase : TaskPhase N K}
    (h : s.Explores epoch previous crew)
    (hjob : s.JobExplores epoch previous ⟨task, phase⟩) :
    s.Explores epoch previous { crew with best := s.receive task crew.best phase } := by
  cases phase with
  | finished final =>
    by_cases hopen : crew.best.isOpen task.epoch = true
    · have hepoch : task.epoch = epoch := by
        rw [← h.epoch_eq]
        exact (beq_iff_eq.mp hopen).symm
      rcases Best.submit_cases s.criteria task.epoch task.previous final
        task.candidate.combination crew.best with ⟨himproved, -, haccepted⟩ | ⟨-, hsame⟩
      · rw [Search.receive, haccepted]
        obtain ⟨leaf, hleaf, rfl⟩ := hjob.adds
        obtain ⟨parent, -, htask⟩ := hjob.tends.parent
        obtain ⟨-, -, below, htries⟩ := tries_of_mem_tasks htask
        have hcost : task.previous.cost? = some below.cost.total := by
          rw [FinalizedLeaf.cost?, htries.result_eq]
          rfl
        have hprevious := hjob.previous_eq hepoch
        dsimp only at hprevious hleaf
        rw [hprevious] at hcost hleaf himproved
        refine ⟨h.epoch_eq, .inr ⟨congrArg (· + 1) hepoch, hleaf, ?_⟩, ⟨leaf, rfl⟩, h.jobs⟩
        obtain ⟨new, hnew⟩ := saves_of_isImprovement hcost himproved
        exact ⟨_, new, hcost, hnew⟩
      · rw [Search.receive, hsame]
        exact h
    · have hsame : s.receive task crew.best (.finished final : TaskPhase N K) = crew.best := by
        simp [Search.receive, Best.submit, hopen]
      rw [hsame]
      exact h
  | _ => exact h

theorem Explores.move (i : Nat) (state : σ) (h : s.Explores epoch previous crew) :
    s.Explores epoch previous (crew.move (s.step services) i state).1 := by
  cases hi : crew.jobs[i]? with
  | none => rwa [Crew.move_of_none hi]
  | some job =>
    obtain ⟨task, phase⟩ := job
    have hjob := h.jobs _ (List.mem_of_getElem? hi)
    rw [Crew.move_of_some hi, s.onlySubmits_step services]
    obtain ⟨hepoch, hbest, hfinalized, -⟩ := h.receive hjob
    refine ⟨hepoch, hbest, hfinalized, fun other hother => ?_⟩
    rcases List.mem_or_eq_of_mem_set hother with hold | rfl
    · exact h.jobs other hold
    · exact hjob.step state

/-- What is known of a crew between two depths. -/
structure Settled (s : Search N K) (crew : Crew N K) : Prop where
  depth_eq : crew.best.depth = crew.best.epoch
  finalized : ∃ leaf : Leaf N K, leaf.finalize = crew.best.leaf
  jobs : ∀ job ∈ crew.jobs, s.JobExplores crew.best.epoch crew.best.leaf job

theorem Settled.explores (h : s.Settled crew) : s.Explores crew.best.epoch crew.best.leaf
    (crew.enlist (s.tasks crew.best.epoch crew.best.leaf)) := by
  refine ⟨rfl, .inl ⟨rfl, h.depth_eq⟩, h.finalized, fun job hjob => ?_⟩
  rcases List.mem_append.mp hjob with hold | hnew
  · exact h.jobs job hold
  · obtain ⟨task, htask, rfl⟩ := List.mem_map.mp hnew
    obtain ⟨hepoch, hprevious, -⟩ := tries_of_mem_tasks htask
    obtain ⟨leaf, hleaf⟩ := h.finalized
    refine ⟨⟨⟨leaf, trivial, ?_⟩, trivial⟩, hepoch.le, fun _ => hprevious, trivial⟩
    rw [hepoch, hleaf]
    exact htask

/-- A job of a depth is one of an earlier depth in the next one. -/
theorem JobExplores.later {job : Job N K} (h : s.JobExplores epoch previous job)
    (next : FinalizedLeaf K) : s.JobExplores (epoch + 1) next job := by
  refine ⟨h.tends, Nat.le_succ_of_le h.epoch_le, fun hepoch => ?_, h.adds⟩
  have hle := h.epoch_le
  omega

/-- A depth brings a best leaf that advances from the previous one, or leaves that one. -/
theorem Settled.afterDepth_cases (h : s.Settled crew) (services : Services N K σ)
    (turns : List (Turn σ)) :
    let next := s.afterDepth services turns crew
    (next.hasAdvanced = true ∧ s.Settled next ∧ next.best.depth = crew.best.depth + 1 ∧
        s.Advances crew.best.leaf next.best.leaf) ∨
      (next.hasAdvanced = false ∧ next.best.leaf = crew.best.leaf ∧
        next.best.depth = crew.best.depth) := by
  intro next
  have hexplores : s.Explores crew.best.epoch crew.best.leaf
      ((crew.enlist (s.tasks crew.best.epoch crew.best.leaf)).interleave
        (s.step services) turns) := by
    refine Crew.interleave_induction ?_ turns h.explores
    intro crew i state hcrew
    exact hcrew.move i state
  have hepoch : next.best.epoch = crew.best.epoch + 1 := congrArg (· + 1) hexplores.epoch_eq
  rcases hexplores.best with ⟨hleaf, hdepth⟩ | ⟨hdepth, hadvances⟩
  · refine .inr ⟨?_, hleaf, hdepth.trans h.depth_eq.symm⟩
    have hdepth : next.best.depth = crew.best.epoch := hdepth
    simp [Crew.hasAdvanced, hepoch, hdepth]
  · have hdepth : next.best.depth = crew.best.epoch + 1 := hdepth
    refine .inl ⟨?_, ⟨?_, hexplores.finalized, ?_⟩, ?_, hadvances⟩
    · simp [Crew.hasAdvanced, hepoch, hdepth]
    · rw [hdepth, hepoch]
    · intro job hjob
      rw [hepoch]
      exact (hexplores.jobs job hjob).later _
    · rw [hdepth, h.depth_eq]

/-! ### All depths -/

/-- The best leaves of some depths, each of which advances from the one before it, end with the
last crew's, and so do their depths. -/
structure Climbs (s : Search N K) (left : Nat) (crew : Crew N K) (crews : List (Crew N K)) :
    Prop where
  isChain : (crew.best.leaf :: (crews.filter Crew.hasAdvanced).map (·.best.leaf)).IsChain s.Advances
  getLast : (crew.best.leaf :: (crews.filter Crew.hasAdvanced).map (·.best.leaf)).getLast? =
    some (crews.getLast?.getD crew).best.leaf
  depth_eq : (crews.getLast?.getD crew).best.depth =
    crew.best.depth + (crews.filter Crew.hasAdvanced).length
  length_le : (crews.filter Crew.hasAdvanced).length ≤ left

omit [Network N K] in
theorem climbs_nil (left : Nat) (crew : Crew N K) : s.Climbs left crew [] :=
  ⟨List.isChain_singleton _, rfl, rfl, Nat.zero_le _⟩

/-- By induction on the number of depths that are left, they advance as far as they go. -/
theorem Settled.climbs (h : s.Settled crew) (left : Nat) (schedule : List (List (Turn σ))) :
    s.Climbs left crew (s.depths services left schedule crew) := by
  induction left generalizing schedule crew with
  | zero => exact climbs_nil 0 crew
  | succ left ih =>
    rw [depths]
    split
    · exact climbs_nil (left + 1) crew
    · have hcases := h.afterDepth_cases services (schedule.headD [])
      dsimp only at hcases ⊢
      generalize s.afterDepth services (schedule.headD []) crew = next at hcases ⊢
      rcases hcases with ⟨hadvanced, hsettled, hdepth, hadvances⟩ | ⟨hstays, hleaf, hdepth⟩
      · have hrest := ih hsettled schedule.tail
        rw [if_pos hadvanced]
        generalize s.depths services left schedule.tail next = rest at hrest ⊢
        have hlast : (next :: rest).getLast?.getD crew = rest.getLast?.getD next := by
          rw [List.getLast?_cons, Option.getD_some]
        constructor
        · rw [List.filter_cons_of_pos hadvanced, List.map_cons]
          exact List.IsChain.cons_cons hadvances hrest.isChain
        · rw [List.filter_cons_of_pos hadvanced, List.map_cons, List.getLast?_cons_cons, hlast]
          exact hrest.getLast
        · rw [List.filter_cons_of_pos hadvanced, List.length_cons, hlast, hrest.depth_eq, hdepth]
          omega
        · rw [List.filter_cons_of_pos hadvanced, List.length_cons]
          exact Nat.succ_le_succ hrest.length_le
      · have hstays : ¬next.hasAdvanced = true := Bool.not_eq_true _ ▸ hstays
        rw [if_neg hstays]
        have hfilter : [next].filter Crew.hasAdvanced = [] := List.filter_cons_of_neg hstays
        constructor
        · rw [hfilter]
          exact List.isChain_singleton _
        · rw [hfilter]
          exact congrArg some hleaf.symm
        · rw [hfilter]
          exact hdepth
        · rw [hfilter]
          exact Nat.zero_le _

omit [Network N K] in
/-- Along a chain of leaves that advance the cost does not rise. -/
theorem cost_getLast_le {first last : FinalizedLeaf K} {rest : List (FinalizedLeaf K)}
    (h : (first :: rest).IsChain s.Advances) (hlast : (first :: rest).getLast? = some last) :
    last.cost ≤ first.cost := by
  induction rest generalizing first with
  | nil =>
    obtain rfl := Option.some.inj hlast
    exact le_refl _
  | cons second rest ih =>
    rw [List.isChain_cons_cons] at h
    rw [List.getLast?_cons_cons] at hlast
    obtain ⟨old, new, hold, hnew, hlt, -⟩ := h.1.saves
    refine (ih h.2 hlast).trans ?_
    rw [FinalizedLeaf.cost, FinalizedLeaf.cost, hold, hnew]
    exact WithTop.coe_le_coe.mpr hlt.le

/-- Whatever the order of all steps, a search ends with the last of its optima, at the depth that
counts them: each of them has more network actions than the one before it and saves more than the
thresholds, or just something if it reaches the stop criterion. So the result costs no more than
the root when it was first evaluated. A search in time is one of these. -/
theorem progress (s : Search N K) (services : Services N K σ) (state : σ) :
    (∃ schedule : List (List (Turn σ)),
        (s.run services state).1 = (s.course services schedule state).result) ∧
      ∀ schedule : List (List (Turn σ)),
        let course := s.course services schedule state
        course.optima.head? = some (s.root services state).1.finalize ∧
        course.optima.getLast? = some course.result.leaf ∧
        course.optima.length = course.result.depth + 1 ∧
        course.result.depth ≤ s.parameters.tree.maxDepth ∧
        course.optima.IsChain s.Advances ∧
        course.result.leaf.cost ≤
          ((Leaf.root s.situation).evaluate services s.situation.objective
            state).1.finalize.cost := by
  refine ⟨s.exists_schedule services state, fun schedule => ?_⟩
  intro course
  let start : Crew N K := { best := { leaf := (s.root services state).1.finalize } }
  have hclimbs : s.Climbs s.parameters.tree.maxDepth start course.crews := by
    have hsettled : s.Settled start := ⟨rfl, ⟨_, rfl⟩, by simp [start]⟩
    change s.Climbs _ start (if _ then _ else _)
    split
    · exact climbs_nil _ start
    · exact hsettled.climbs _ schedule
  have hresult : course.result =
      ⟨(course.crews.getLast?.getD start).best.leaf,
        (course.crews.getLast?.getD start).best.depth⟩ := by
    unfold Course.result
    cases course.crews.getLast? <;> rfl
  have hoptima : course.optima =
      start.best.leaf :: (course.crews.filter Crew.hasAdvanced).map (·.best.leaf) := rfl
  have hdepth : course.result.depth = (course.crews.filter Crew.hasAdvanced).length := by
    rw [hresult, hclimbs.depth_eq]
    exact Nat.zero_add _
  have hlast : course.optima.getLast? = some course.result.leaf := by
    rw [hresult]
    exact hclimbs.getLast
  refine ⟨rfl, hlast, ?_, ?_, hclimbs.isChain, ?_⟩
  · rw [hoptima, List.length_cons, List.length_map, hdepth]
  · rw [hdepth]
    exact hclimbs.length_le
  · exact (cost_getLast_le hclimbs.isChain hlast).trans (s.cost_root_le services state)

end Search

end GridRelief
