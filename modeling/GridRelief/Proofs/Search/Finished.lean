import GridRelief.Proofs.Search.Course

/-!
# Leaves at the moment they are finalized

A leaf is finalized once: the root before the first depth, the leaf of a task in the step after
which it may be handed in. Before that step the leaf of a task has been built and perhaps evaluated,
and is optimised in that step at most. So what building gives a leaf, and evaluating keeps, it has
up to that step.

* `Search.Visits.jobs_induction`: what every step keeps, all jobs have at all moments.
* `Search.Visits.holds_of_build`: what building gives the leaf of a task and evaluating keeps.
* `TaskPhase.finishing?`: the leaf that the next step of a task may finalize.
* `Search.Finishes`: a leaf as a search finalizes it; `Search.finishes_of_step`.
-/

namespace GridRelief

variable {K N σ : Type} [Scalar K] [Network N K]

/-! ### Before the last step -/

namespace Search.Visits

variable {s : Search N K} {services : Services N K σ} {crew : Crew N K}
  (h : s.Visits services crew)
include h

/-- What tasks have that have not been started, and every step keeps, all jobs have at all
moments. -/
theorem jobs_induction {J : Task K → TaskPhase N K → Prop} (hqueued : ∀ task, J task .queued)
    (hstep : ∀ task best phase state, J task phase →
      J task (s.step services task best phase state).1.2) :
    ∀ job ∈ crew.jobs, J job.task job.phase := by
  induction h with
  | start state => simp
  | enlist _ _ ih =>
    intro job hjob
    rcases List.mem_append.mp hjob with hold | hnew
    · exact ih job hold
    · obtain ⟨task, -, rfl⟩ := List.mem_map.mp hnew
      exact hqueued task
  | @move crew _ i state ih =>
    cases hi : crew.jobs[i]? with
    | none => rwa [Crew.move_of_none hi]
    | some job =>
      obtain ⟨task, phase⟩ := job
      rw [Crew.move_of_some hi]
      intro other hother
      rcases List.mem_or_eq_of_mem_set hother with hold | rfl
      · exact ih other hold
      · exact hstep task _ phase state (ih _ (List.mem_of_getElem? hi))
  | close _ ih => exact ih

/-- What building gives the leaf of a task and evaluating keeps, it has as long as it has not been
finalized. -/
theorem holds_of_build {job : Job N K} (hjob : job ∈ crew.jobs) {P : Leaf N K → Prop}
    (hbuild : ∀ leaf, s.build job.task = .ok leaf → P leaf)
    (hevaluate : ∀ (leaf : Leaf N K) (state : σ), P leaf →
      P (leaf.evaluate services s.situation.objective state).1) :
    job.phase.Holds P fun _ => True := by
  refine h.jobs_induction (J := fun task phase =>
    (∀ leaf, s.build task = .ok leaf → P leaf) → phase.Holds P fun _ => True) ?_ ?_ job hjob hbuild
  · intro task _
    trivial
  · intro task best phase state hphase hbuild
    exact holds_step hbuild hevaluate (by simp) (by simp) state (hphase hbuild)

end Search.Visits

/-! ### The last step -/

/-- The leaf that the next step of a task may finalize, and how its optimisation ends. -/
def TaskPhase.finishing? (s : Search N K) (services : Services N K σ) (state : σ) :
    TaskPhase N K → Option (Leaf N K × Except (Fault K) Unit)
  | .confirmed leaf => some ((leaf.evaluate services s.situation.objective state).1, .ok ())
  | .evaluated leaf => some (leaf, .ok ())
  | .cleared leaf => some (leaf.optimize services s.situation s.parameters state).1
  | .queued | .opened | .admitted | .built _ | .finished _ | .done => none

namespace Search

/-- The root at the start of a search, and how its optimisation ends. -/
def finishingRoot (s : Search N K) (services : Services N K σ) :
    StateM σ (Leaf N K × Except (Fault K) Unit) := do
  let leaf ← (Leaf.root s.situation).evaluate services s.situation.objective
  if leaf.status = .failed || s.stopsAt leaf then return (leaf, .ok ())
  else leaf.optimize services s.situation s.parameters

/-- A leaf as a search finalizes it, and how its optimisation has ended. -/
inductive Finishes (s : Search N K) (services : Services N K σ) :
    Leaf N K → Except (Fault K) Unit → Prop
  /-- The root. -/
  | root (state : σ) :
      s.Finishes services (s.finishingRoot services state).1.1 (s.finishingRoot services state).1.2
  /-- The leaf of a task. -/
  | task {crew : Crew N K} {job : Job N K} {state : σ} {leaf : Leaf N K}
      {answer : Except (Fault K) Unit} (hcrew : s.Visits services crew) (hjob : job ∈ crew.jobs)
      (hleaf : job.phase.finishing? s services state = some (leaf, answer)) :
      s.Finishes services leaf answer

variable {s : Search N K} {services : Services N K σ}

/-- The root of a search is one that is finalized. -/
theorem finishes_root (s : Search N K) (services : Services N K σ) (state : σ) :
    ∃ answer, s.Finishes services (s.root services state).1 answer := by
  have heq : (s.finishingRoot services state).1.1 = (s.root services state).1 := by
    unfold finishingRoot root
    rcases hevaluate : (Leaf.root s.situation).evaluate services s.situation.objective state
      with ⟨leaf, after⟩
    simp only [bind, StateT.bind, hevaluate]
    split <;> rfl
  rw [← heq]
  exact ⟨_, .root state⟩

/-- What a step of a task finalizes, at any moment, is one of these leaves. -/
theorem finishes_of_step {crew : Crew N K} {task : Task K} {phase : TaskPhase N K}
    {final : FinalizedLeaf K} {state : σ} (hcrew : s.Visits services crew)
    (hjob : ⟨task, phase⟩ ∈ crew.jobs)
    (hstep : (s.step services task crew.best phase state).1.2 = .finished final) :
    ∃ leaf answer, s.Finishes services leaf answer ∧ leaf.finalize = final := by
  suffices hfinishing : ∃ leaf answer, phase.finishing? s services state = some (leaf, answer) ∧
      leaf.finalize = final by
    obtain ⟨leaf, answer, hleaf, hfinal⟩ := hfinishing
    exact ⟨leaf, answer, .task hcrew hjob hleaf, hfinal⟩
  cases phase with
  | queued =>
    rw [phase_step_queued] at hstep
    split at hstep <;> cases hstep
  | opened =>
    rw [phase_step_opened] at hstep
    split at hstep <;> cases hstep
  | admitted =>
    cases hresult : s.build task with
    | error fault =>
      rw [phase_step_admitted_of_error hresult] at hstep
      cases hstep
    | ok leaf =>
      rw [phase_step_admitted_of_ok hresult] at hstep
      cases hstep
  | built leaf =>
    rw [phase_step_built] at hstep
    split at hstep <;> cases hstep
  | confirmed leaf =>
    change s.afterEvaluation (leaf.evaluate services s.situation.objective state).1 = _ at hstep
    unfold afterEvaluation at hstep
    split at hstep
    · cases hstep
    · split at hstep
      · exact ⟨_, _, rfl, TaskPhase.finished.inj hstep⟩
      · cases hstep
  | evaluated leaf =>
    rw [phase_step_evaluated] at hstep
    split at hstep
    · exact ⟨_, _, rfl, TaskPhase.finished.inj hstep⟩
    · cases hstep
  | cleared leaf => exact ⟨_, _, rfl, TaskPhase.finished.inj hstep⟩
  | finished leaf => cases hstep
  | done => cases hstep

/-- A test that some job of a course passes with the leaf that its next step may finalize is passed
by a leaf that is finalized, if the optimisation of the leaf ends without a fault. -/
theorem exists_finishes_of_any (s : Search N K) (services : Services N K σ)
    (test : Leaf N K → Bool) (schedule : List (List (Turn σ))) (state now : σ)
    (h : ((s.course services schedule state).crews.any fun crew => crew.jobs.any fun job =>
      (job.phase.finishing? s services now).any fun found =>
        found.2.isOk && test found.1) = true) :
    ∃ leaf, s.Finishes services leaf (.ok ()) ∧ test leaf = true := by
  obtain ⟨crew, hcrew, hjobs⟩ := List.any_eq_true.mp h
  obtain ⟨job, hjob, hany⟩ := List.any_eq_true.mp hjobs
  rw [Option.any_eq_true] at hany
  obtain ⟨⟨leaf, answer⟩, hleaf, hpasses⟩ := hany
  obtain ⟨hok, htest⟩ := Bool.and_eq_true_iff.mp hpasses
  cases answer with
  | ok _ => exact ⟨leaf, .task (visits_of_mem_crews hcrew) hjob hleaf, htest⟩
  | error fault => cases hok

end Search

end GridRelief
