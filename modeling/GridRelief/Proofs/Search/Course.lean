import GridRelief.Proofs.Search.Candidates
import GridRelief.Proofs.Search.Leaf
import GridRelief.Proofs.Search.Shift
import GridRelief.Search.Course

/-!
# What holds along a course

A search in time takes one of its courses, so what holds of all courses holds of it. A leaf is the
root, or it is built from a leaf one depth below it by a task of that depth, and then it is
evaluated and optimised. So what the root has, and building, evaluating and optimising keep, all
leaves have that a search may build.

* `Search.exists_schedule`: a search in time takes one of its courses.
* `Search.depths_induction`: what a depth keeps, all depths keep.
* `Search.Visits`: a crew as it is at some moment of a search; the crews of all courses are such.
* `Search.Inherits.builds_induction`: what all leaves have that a search may build.
-/

namespace GridRelief

variable {K N σ : Type} [Scalar K] [Network N K]

namespace Search

/-! ### A search in time takes one of its courses -/

theorem iterate_of_reachesStop {s : Search N K} {services : Services N K σ} {left : Nat}
    {shift : Shift N K} {state : σ} (h : s.criteria.reachesStop shift.crew.best.leaf = true) :
    (s.iterate services (left + 1) shift state).1 = shift := by
  unfold iterate
  rw [if_pos h]
  rfl

/-- A further depth is followed by others as far as it has brought an improvement. -/
theorem iterate_of_explore {s : Search N K} {services : Services N K σ} {left : Nat}
    {shift next : Shift N K} {state after : σ}
    (h : s.criteria.reachesStop shift.crew.best.leaf ≠ true)
    (hexplore : s.explore services shift state = (next, after)) :
    (s.iterate services (left + 1) shift state).1 =
      if next.crew.hasAdvanced then (s.iterate services left next after).1 else next := by
  have hbind : (s.iterate services (left + 1) shift state).1 =
      ((if next.crew.best.depth = next.crew.best.epoch then s.iterate services left next
        else pure next : StateM σ (Shift N K)) after).1 := by
    conv_lhs => unfold iterate
    rw [if_neg h]
    simp only [bind, StateT.bind, hexplore]
  rw [hbind]
  by_cases hadvanced : next.crew.best.depth = next.crew.best.epoch
  · have hflag : next.crew.hasAdvanced = true := beq_iff_eq.mpr hadvanced
    rw [if_pos hadvanced, if_pos hflag]
  · have hflag : ¬next.crew.hasAdvanced = true := fun h => hadvanced (beq_iff_eq.mp h)
    rw [if_neg hadvanced, if_neg hflag]
    rfl

/-- What happens in several depths in time is told by a list of turns for each of them. -/
theorem exists_schedule_of_iterate (s : Search N K) (services : Services N K σ) (left : Nat)
    (shift : Shift N K) (state : σ) :
    ∃ schedule : List (List (Turn σ)), (s.iterate services left shift state).1.crew =
      (s.depths services left schedule shift.crew).getLast?.getD shift.crew := by
  induction left generalizing shift state with
  | zero => exact ⟨[], rfl⟩
  | succ left ih =>
    by_cases hstop : s.criteria.reachesStop shift.crew.best.leaf = true
    · refine ⟨[], ?_⟩
      rw [iterate_of_reachesStop hstop, depths, if_pos hstop]
      rfl
    · obtain ⟨turns, hturns, -⟩ := s.exists_turns_of_explore services shift state
      rcases hexplore : s.explore services shift state with ⟨next, after⟩
      rw [hexplore] at hturns
      rw [iterate_of_explore hstop hexplore]
      by_cases hadvanced : next.crew.hasAdvanced = true
      · obtain ⟨schedule, hschedule⟩ := ih next after
        refine ⟨turns :: schedule, ?_⟩
        rw [if_pos hadvanced, hschedule, depths, if_neg hstop, List.headD_cons, List.tail_cons]
        dsimp only at hturns ⊢
        rw [← hturns, if_pos hadvanced, List.getLast?_cons, Option.getD_some]
      · refine ⟨[turns], ?_⟩
        rw [if_neg hadvanced, depths, if_neg hstop, List.headD_cons]
        dsimp only at hturns ⊢
        rw [← hturns, if_neg hadvanced]
        rfl

/-- A search in time takes one of its courses. -/
theorem exists_schedule (s : Search N K) (services : Services N K σ) (state : σ) :
    ∃ schedule : List (List (Turn σ)),
      (s.run services state).1 = (s.course services schedule state).result := by
  rcases hroot : s.root services state with ⟨root, after⟩
  have hrun : (s.run services state).1 =
      if root.status = .failed || s.stopsAt root then ⟨root.finalize, 0⟩
      else (s.grow services root.finalize after).1 := by
    unfold run
    simp only [bind, StateT.bind, hroot]
    split <;> rfl
  by_cases hends : (root.status = .failed || s.stopsAt root) = true
  · refine ⟨[], ?_⟩
    rw [hrun, if_pos hends]
    unfold course Course.result
    simp only [hroot, if_pos hends]
    rfl
  · obtain ⟨schedule, hschedule⟩ := s.exists_schedule_of_iterate services
      s.parameters.tree.maxDepth { crew := { best := { leaf := root.finalize } } } after
    refine ⟨schedule, ?_⟩
    have hgrow : (s.grow services root.finalize after).1 =
        ⟨(s.iterate services s.parameters.tree.maxDepth
            { crew := { best := { leaf := root.finalize } } } after).1.crew.best.leaf,
          (s.iterate services s.parameters.tree.maxDepth
            { crew := { best := { leaf := root.finalize } } } after).1.crew.best.depth⟩ := rfl
    rw [hrun, if_neg hends, hgrow, hschedule]
    unfold course Course.result
    simp only [hroot, if_neg hends]
    cases (s.depths services s.parameters.tree.maxDepth schedule
      { best := { leaf := root.finalize } }).getLast? <;> rfl

/-! ### Depth after depth -/

variable {s : Search N K} {services : Services N K σ}

/-- What a depth keeps, all depths keep. A depth is explored only if the one before it has brought
an improvement. -/
theorem depths_induction {P : Crew N K → Prop}
    (hdepth : ∀ crew turns, P crew → crew.hasAdvanced = true → P (s.afterDepth services turns crew))
    {left : Nat} {schedule : List (List (Turn σ))} {crew : Crew N K} (h : P crew)
    (hadvanced : crew.hasAdvanced = true) :
    ∀ later ∈ s.depths services left schedule crew, P later := by
  induction left generalizing schedule crew with
  | zero =>
    intro later hlater
    simp [depths] at hlater
  | succ left ih =>
    intro later hlater
    rw [depths] at hlater
    split at hlater
    · simp at hlater
    · have hnext := hdepth crew (schedule.headD []) h hadvanced
      rcases List.mem_cons.mp hlater with rfl | hrest
      · exact hnext
      · split at hrest
        · next hagain => exact ih hnext hagain later hrest
        · simp at hrest

/-- What the root has and every depth keeps, all crews of a course have. -/
theorem crews_induction {P : Crew N K → Prop}
    (hroot : ∀ state, P { best := { leaf := (s.root services state).1.finalize } })
    (hdepth : ∀ crew turns, P crew → crew.hasAdvanced = true → P (s.afterDepth services turns crew))
    {schedule : List (List (Turn σ))} {state : σ} {crew : Crew N K}
    (hcrew : crew ∈ (s.course services schedule state).crews) : P crew := by
  unfold course at hcrew
  dsimp only at hcrew
  split at hcrew
  · simp at hcrew
  · exact depths_induction hdepth (hroot state) rfl crew hcrew

/-- What a depth does step by step: its tasks are enlisted, jobs move, and it is closed. -/
theorem afterDepth_induction {P : Crew N K → Prop}
    (hmove : ∀ crew i state, P crew → P (crew.move (s.step services) i state).1)
    (hclose : ∀ crew, P crew → P crew.close) {crew : Crew N K} (turns : List (Turn σ))
    (h : P (crew.enlist (s.tasks crew.best.epoch crew.best.leaf))) :
    P (s.afterDepth services turns crew) :=
  hclose _ (Crew.interleave_induction hmove turns h)

end Search

/-! ### Moments of a search -/

/-- A crew as it is at some moment of a search. -/
inductive Search.Visits (s : Search N K) (services : Services N K σ) : Crew N K → Prop
  /-- The root has been finalized. -/
  | start (state : σ) : s.Visits services { best := { leaf := (s.root services state).1.finalize } }
  /-- The tasks of a depth have joined, after one that has brought an improvement. -/
  | enlist {crew : Crew N K} (h : s.Visits services crew) (hadvanced : crew.hasAdvanced = true) :
      s.Visits services (crew.enlist (s.tasks crew.best.epoch crew.best.leaf))
  /-- A job has taken a step. -/
  | move {crew : Crew N K} (h : s.Visits services crew) (i : Nat) (state : σ) :
      s.Visits services (crew.move (s.step services) i state).1
  /-- A depth has been closed. -/
  | close {crew : Crew N K} (h : s.Visits services crew) : s.Visits services crew.close

/-- The crews at the ends of depths are among those of all moments. -/
theorem Search.visits_of_mem_crews {s : Search N K} {services : Services N K σ} {crew : Crew N K}
    {schedule : List (List (Turn σ))} {state : σ}
    (hcrew : crew ∈ (s.course services schedule state).crews) : s.Visits services crew := by
  refine crews_induction (P := s.Visits services) .start ?_ hcrew
  intro crew turns hcrew hadvanced
  refine afterDepth_induction ?_ ?_ turns (hcrew.enlist hadvanced)
  · intro crew i state hcrew
    exact hcrew.move i state
  · intro crew hcrew
    exact hcrew.close

/-! ### The leaves that a search may build -/

/-- What a task holds has a property. -/
def TaskPhase.Has (P : Leaf N K → Prop) : TaskPhase N K → Prop
  | .built leaf | .confirmed leaf | .evaluated leaf | .cleared leaf => P leaf
  | .finished final => ∃ leaf, P leaf ∧ leaf.finalize = final
  | .queued | .opened | .admitted | .done => True

/-- What a task holds has a property, and its leaf has another one once it is finalized. -/
def TaskPhase.Holds (P : Leaf N K → Prop) (R : FinalizedLeaf K → Prop) : TaskPhase N K → Prop
  | .built leaf | .confirmed leaf | .evaluated leaf | .cleared leaf => P leaf
  | .finished final => R final
  | .queued | .opened | .admitted | .done => True

omit [Scalar K] [Network N K] in
theorem TaskPhase.has_iff_holds {P : Leaf N K → Prop} {phase : TaskPhase N K} :
    phase.Has P ↔ phase.Holds P fun final => ∃ leaf, P leaf ∧ leaf.finalize = final := by
  cases phase <;> rfl

omit [Network N K] in
theorem TaskPhase.Has.of_shown {P : Leaf N K → Prop} {phase : TaskPhase N K}
    {final : FinalizedLeaf K} (h : phase.Has P) (hshown : phase.shown? = some final) :
    ∃ leaf, P leaf ∧ leaf.finalize = final := by
  cases phase with
  | built leaf | confirmed leaf | evaluated leaf | cleared leaf =>
    exact ⟨leaf, h, Option.some.inj hshown⟩
  | finished leaf =>
    obtain rfl := Option.some.inj hshown
    exact h
  | queued | opened | admitted | done => simp [shown?] at hshown

namespace Search

variable {s : Search N K} {services : Services N K σ} {P : Nat → Leaf N K → Prop}

/-- What building gives a leaf and evaluating keeps, a task holds up to the step that finalizes its
leaf, as it is or optimised. -/
theorem holds_step {Q : Leaf N K → Prop} {R : FinalizedLeaf K → Prop} {task : Task K}
    {best : Best K} {phase : TaskPhase N K}
    (hbuild : ∀ leaf, s.build task = .ok leaf → Q leaf)
    (hevaluate : ∀ (leaf : Leaf N K) (state : σ), Q leaf →
      Q (leaf.evaluate services s.situation.objective state).1)
    (hfinal : ∀ leaf, Q leaf → R leaf.finalize)
    (hoptimize : ∀ (leaf : Leaf N K) (state : σ), Q leaf →
      R (leaf.optimize services s.situation s.parameters state).1.1.finalize)
    (state : σ) (h : phase.Holds Q R) : (s.step services task best phase state).1.2.Holds Q R := by
  cases phase with
  | queued =>
    rw [phase_step_queued]
    split <;> trivial
  | opened =>
    rw [phase_step_opened]
    split <;> trivial
  | admitted =>
    cases hresult : s.build task with
    | error fault =>
      rw [phase_step_admitted_of_error hresult]
      trivial
    | ok leaf =>
      rw [phase_step_admitted_of_ok hresult]
      exact hbuild leaf hresult
  | built leaf =>
    rw [phase_step_built]
    split
    · exact h
    · trivial
  | confirmed leaf =>
    have hleaf := hevaluate leaf state h
    change (s.afterEvaluation (leaf.evaluate services s.situation.objective state).1).Holds _ _
    unfold afterEvaluation
    split
    · trivial
    · split
      · exact hfinal _ hleaf
      · exact hleaf
  | evaluated leaf =>
    rw [phase_step_evaluated]
    split
    · exact hfinal leaf h
    · exact h
  | cleared leaf => exact hoptimize leaf state h
  | finished leaf => trivial
  | done => trivial

/-- What building gives a leaf, and evaluating and optimising keep, a task leads to. -/
theorem has_step {Q : Leaf N K → Prop} {task : Task K} {best : Best K} {phase : TaskPhase N K}
    (hbuild : ∀ leaf, s.build task = .ok leaf → Q leaf)
    (hevaluate : ∀ (leaf : Leaf N K) (state : σ), Q leaf →
      Q (leaf.evaluate services s.situation.objective state).1)
    (hoptimize : ∀ (leaf : Leaf N K) (state : σ), Q leaf →
      Q (leaf.optimize services s.situation s.parameters state).1.1)
    (state : σ) (h : phase.Has Q) : (s.step services task best phase state).1.2.Has Q := by
  rw [TaskPhase.has_iff_holds] at h ⊢
  refine holds_step hbuild hevaluate ?_ ?_ state h
  · intro leaf hleaf
    exact ⟨leaf, hleaf, rfl⟩
  · intro leaf state hleaf
    exact ⟨_, hoptimize leaf state hleaf, rfl⟩

/-- What a task of a depth applies: the actions of the leaf below it and those of its candidate. -/
theorem exists_tries_of_build {task : Task K} {depth : Nat} {parent leaf : Leaf N K}
    (htask : task ∈ s.tasks depth parent.finalize) (hbuild : s.build task = .ok leaf) :
    ∃ below, s.Tries below task ∧ below.applied = parent.applied ∧
      leaf.applied = parent.applied.union task.candidate.combination.actions := by
  obtain ⟨-, hprevious, below, htries⟩ := tries_of_mem_tasks htask
  have hresult : parent.result = .ok below := by
    rw [← Leaf.result?_finalize, ← hprevious]
    exact htries.result_eq
  obtain ⟨start, -, -, happlied⟩ := exists_start_of_build hbuild
  rw [hprevious] at happlied
  exact ⟨below, htries, Leaf.applied_of_result hresult, happlied⟩

/-- A property of depth and leaf that the root has, and that building a leaf on top of another one,
evaluating it and optimising it keep. -/
structure Inherits (s : Search N K) (services : Services N K σ) (P : Nat → Leaf N K → Prop) :
    Prop where
  root : P 0 (Leaf.root s.situation)
  build : ∀ {depth : Nat} {parent leaf : Leaf N K} {task : Task K}, P depth parent →
    task ∈ s.tasks depth parent.finalize → s.build task = .ok leaf → P (depth + 1) leaf
  evaluate : ∀ {depth : Nat} {leaf : Leaf N K} (state : σ), P depth leaf →
    P depth (leaf.evaluate services s.situation.objective state).1
  optimize : ∀ {depth : Nat} {leaf : Leaf N K} (state : σ), P depth leaf →
    P depth (leaf.optimize services s.situation s.parameters state).1.1

/-- Any property of no content is inherited. -/
theorem inherits_true : s.Inherits services fun _ _ => True :=
  ⟨trivial, fun _ _ _ => trivial, fun _ _ => trivial, fun _ _ => trivial⟩

/-- A job that tries a candidate on top of a leaf with a property, and holds one that has it. -/
structure Tends (s : Search N K) (P : Nat → Leaf N K → Prop) (job : Job N K) : Prop where
  parent : ∃ parent, P job.task.epoch parent ∧ job.task ∈ s.tasks job.task.epoch parent.finalize
  phase : job.phase.Has (P (job.task.epoch + 1))

/-- A crew whose best leaf has a property, and whose jobs hold leaves that have it. -/
structure TendsAll (s : Search N K) (P : Nat → Leaf N K → Prop) (crew : Crew N K) : Prop where
  best : ∃ leaf, P crew.best.depth leaf ∧ leaf.finalize = crew.best.leaf
  jobs : ∀ job ∈ crew.jobs, s.Tends P job

/-- A hand-in leaves a best leaf with the property. -/
theorem Tends.receive {task : Task K} {best : Best K} {phase : TaskPhase N K}
    (hbest : ∃ leaf, P best.depth leaf ∧ leaf.finalize = best.leaf)
    (hjob : s.Tends P ⟨task, phase⟩) :
    ∃ leaf, P (s.receive task best phase).depth leaf ∧
      leaf.finalize = (s.receive task best phase).leaf := by
  cases phase with
  | finished final =>
    rcases Best.submit_cases s.criteria task.epoch task.previous final
      task.candidate.combination best with ⟨-, -, haccepted⟩ | ⟨-, hsame⟩
    · rw [Search.receive, haccepted]
      exact hjob.phase
    · rw [Search.receive, hsame]
      exact hbest
  | _ => exact hbest

/-- The tasks of a depth are tried on top of the best leaf of the depth below. -/
theorem TendsAll.enlist {crew : Crew N K} (hcrew : s.TendsAll P crew)
    (hadvanced : crew.hasAdvanced = true) :
    s.TendsAll P (crew.enlist (s.tasks crew.best.epoch crew.best.leaf)) := by
  refine ⟨hcrew.best, fun job hjob => ?_⟩
  rcases List.mem_append.mp hjob with hold | hnew
  · exact hcrew.jobs job hold
  · obtain ⟨task, htask, rfl⟩ := List.mem_map.mp hnew
    obtain ⟨leaf, hleaf, hfinal⟩ := hcrew.best
    have hepoch : task.epoch = crew.best.epoch := (tries_of_mem_tasks htask).1
    rw [beq_iff_eq.mp hadvanced, ← hepoch] at hleaf
    rw [← hepoch, ← hfinal] at htask
    exact ⟨⟨leaf, hleaf, htask⟩, trivial⟩

namespace Inherits

variable (h : s.Inherits services P)
include h

theorem tends_step {task : Task K} {best : Best K} {phase : TaskPhase N K} (state : σ)
    (hjob : s.Tends P ⟨task, phase⟩) :
    s.Tends P ⟨task, (s.step services task best phase state).1.2⟩ := by
  refine ⟨hjob.parent, ?_⟩
  obtain ⟨parent, hparent, htask⟩ := hjob.parent
  refine has_step ?_ ?_ ?_ state hjob.phase
  · intro leaf hbuild
    exact h.build hparent htask hbuild
  · intro leaf state hleaf
    exact h.evaluate state hleaf
  · intro leaf state hleaf
    exact h.optimize state hleaf

theorem tendsAll_move {crew : Crew N K} (i : Nat) (state : σ) (hcrew : s.TendsAll P crew) :
    s.TendsAll P (crew.move (s.step services) i state).1 := by
  cases hi : crew.jobs[i]? with
  | none => rwa [Crew.move_of_none hi]
  | some job =>
    obtain ⟨task, phase⟩ := job
    have hjob := hcrew.jobs _ (List.mem_of_getElem? hi)
    rw [Crew.move_of_some hi, s.onlySubmits_step services]
    refine ⟨Tends.receive hcrew.best hjob, fun other hother => ?_⟩
    rcases List.mem_or_eq_of_mem_set hother with hold | rfl
    · exact hcrew.jobs other hold
    · exact h.tends_step state hjob

/-- The root of a course has the property. -/
theorem root_course (state : σ) : P 0 (s.root services state).1 := by
  have hstart := h.evaluate state h.root
  unfold Search.root
  rcases hevaluate : (Leaf.root s.situation).evaluate services s.situation.objective state
    with ⟨leaf, after⟩
  rw [hevaluate] at hstart
  simp only [bind, StateT.bind, hevaluate]
  split
  · exact hstart
  · exact h.optimize after hstart

/-- All leaves have the property that the jobs hold at some moment, and those that they are tried on
top of. -/
theorem tendsAll {crew : Crew N K} (hcrew : s.Visits services crew) : s.TendsAll P crew := by
  induction hcrew with
  | start state => exact ⟨⟨_, h.root_course state, rfl⟩, by simp⟩
  | enlist _ hadvanced ih => exact ih.enlist hadvanced
  | move _ i state ih => exact h.tendsAll_move i state ih
  | close _ ih => exact ⟨ih.best, ih.jobs⟩

/-- What the root has, and building, evaluating and optimising keep, all leaves have that a search
may build. -/
theorem builds_induction {depth : Nat} {final : FinalizedLeaf K}
    (hbuilds : s.Builds services depth final) : ∃ leaf, P depth leaf ∧ leaf.finalize = final := by
  cases hbuilds with
  | start => exact ⟨_, h.root, rfl⟩
  | evaluated state => exact ⟨_, h.evaluate state h.root, rfl⟩
  | root state => exact ⟨_, h.root_course state, rfl⟩
  | task hcrew hjob hleaf =>
    exact ((h.tendsAll (visits_of_mem_crews hcrew)).jobs _ hjob).phase.of_shown hleaf

end Inherits

/-- A test that some job of a course passes with its leaf is passed by a leaf that a search may
build. -/
theorem exists_builds_of_any (s : Search N K) (services : Services N K σ) (depth : Nat)
    (test : FinalizedLeaf K → Bool) (schedule : List (List (Turn σ))) (state : σ)
    (h : ((s.course services schedule state).crews.any fun crew => crew.jobs.any fun job =>
      job.task.epoch + 1 == depth && job.phase.shown?.any test) = true) :
    ∃ leaf, s.Builds services depth leaf ∧ test leaf = true := by
  obtain ⟨crew, hcrew, hjobs⟩ := List.any_eq_true.mp h
  obtain ⟨job, hjob, hany⟩ := List.any_eq_true.mp hjobs
  rw [Bool.and_eq_true, beq_iff_eq, Option.any_eq_true] at hany
  obtain ⟨rfl, leaf, hleaf, htest⟩ := hany
  exact ⟨leaf, .task hcrew hjob hleaf, htest⟩

end Search

end GridRelief
