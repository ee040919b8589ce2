import GridRelief.Proofs.Search.Interleaving
import GridRelief.Proofs.Search.Submission

/-!
# What a task will hand in

A task that is never skipped hands in what its candidate comes to: its leaf is built, evaluated
and, unless that was enough, optimised. The services may be found in different states at the two
steps that ask them, so what a candidate comes to is a function of two states.

* `Search.uncheckedStep`: one step of a task that does not look at the stop combination.
* `Search.attempt`: what a candidate comes to.
* `Search.Settles`: it comes to the same in all states of the services.
* `Search.prospect`: what a task will hand in from where it stands.
* `Search.prospect_uncheckedStep`: a step that hands nothing in keeps what will be handed in.
-/

namespace GridRelief

variable {K N σ : Type} [Scalar K] [Network N K]

namespace Search

/-! ### Steps without checks -/

/-- One step of a task that is never skipped: it does not look at the combination that has reached
the stop criterion, neither before its leaf is built nor before it is optimised. -/
def uncheckedStep (s : Search N K) (services : Services N K σ) (task : Task K) (best : Best K) :
    TaskPhase N K → StateM σ (Best K × TaskPhase N K)
  | .opened => return (best, .admitted)
  | .evaluated leaf => return (best, .cleared leaf)
  | phase => s.step services task best phase

/-- What tasks share after a step: only a finished leaf changes it. -/
def receive (s : Search N K) (task : Task K) (best : Best K) : TaskPhase N K → Best K
  | .finished leaf =>
    best.submit s.criteria task.epoch task.previous task.candidate.combination leaf
  | _ => best

/-- Steps that change what tasks share by a hand-in only. -/
def OnlySubmits (s : Search N K) (step : TaskStep N K σ) : Prop :=
  ∀ task best phase state, (step task best phase state).1.1 = s.receive task best phase

variable {s : Search N K} {services : Services N K σ} {task : Task K} {best : Best K}
  {phase : TaskPhase N K} {state : σ}

/-- A step changes what tasks share by a hand-in only. -/
theorem onlySubmits_step (s : Search N K) (services : Services N K σ) :
    s.OnlySubmits (s.step services) := by
  intro task best phase state
  cases phase with
  | admitted =>
    unfold step
    cases s.build task <;> rfl
  | _ => rfl

/-- A step without checks changes what tasks share by a hand-in only. -/
theorem onlySubmits_uncheckedStep (s : Search N K) (services : Services N K σ) :
    s.OnlySubmits (s.uncheckedStep services) := by
  intro task best phase state
  cases phase with
  | opened => rfl
  | evaluated leaf => rfl
  | _ => exact s.onlySubmits_step services task best _ state

omit [Network N K] in
/-- A hand-in never closes the depth. -/
@[simp] theorem isOpen_receive (epoch : Nat) :
    (s.receive task best phase).isOpen epoch = best.isOpen epoch := by
  cases phase <;> simp [receive, Best.isOpen]

/-- When a task is ahead of the stop combination, its step is the one without checks. -/
theorem step_eq_uncheckedStep (hahead : best.isAhead task.candidate.combination = true) :
    s.step services task best phase state = s.uncheckedStep services task best phase state := by
  cases phase with
  | opened => simp [step, uncheckedStep, hahead]
  | evaluated leaf =>
    have hnot : best.isOutranked task.candidate.combination = false := by
      rw [Bool.eq_false_iff]
      intro hout
      rw [Best.isAhead_eq_false_of_isOutranked hout] at hahead
      exact Bool.false_ne_true hahead
    simp [step, uncheckedStep, hnot]
  | _ => rfl

omit [Network N K] in
/-- A move leaves what tasks share as it is, or hands in what some task has finished. -/
theorem best_move_cases {step : TaskStep N K σ} (hstep : s.OnlySubmits step)
    (crew : Crew N K) (i : Nat) (state : σ) :
    (crew.move step i state).1.best = crew.best ∨
      ∃ task phase, (crew.move step i state).1.best = s.receive task crew.best phase := by
  cases hjob : crew.jobs[i]? with
  | none => exact .inl (by rw [Crew.move_of_none hjob])
  | some job =>
    obtain ⟨task, phase⟩ := job
    exact .inr ⟨task, phase, by rw [Crew.move_of_some hjob, hstep]⟩

omit [Network N K] in
/-- A move keeps a depth open. -/
theorem isOpen_move {step : TaskStep N K σ} (hstep : s.OnlySubmits step)
    (crew : Crew N K) (i : Nat) (state : σ) (epoch : Nat) :
    (crew.move step i state).1.best.isOpen epoch = crew.best.isOpen epoch := by
  rcases best_move_cases hstep crew i state with hsame | ⟨task, phase, hreceived⟩
  · rw [hsame]
  · rw [hreceived, isOpen_receive]

omit [Network N K] in
/-- Turns keep a depth open. -/
theorem isOpen_interleave {step : TaskStep N K σ} (hstep : s.OnlySubmits step)
    (crew : Crew N K) (turns : List (Turn σ)) (epoch : Nat) :
    (crew.interleave step turns).best.isOpen epoch = crew.best.isOpen epoch :=
  Crew.interleave_induction (P := fun c => c.best.isOpen epoch = crew.best.isOpen epoch)
    (fun c i state h => (isOpen_move hstep c i state epoch).trans h) turns rfl

/-! ### Where a step leads to -/

@[simp] theorem phase_step_queued : (s.step services task best .queued state).1.2 =
    if best.isOpen task.epoch then .opened else .done := rfl

@[simp] theorem phase_step_opened : (s.step services task best .opened state).1.2 =
    if best.isAhead task.candidate.combination then .admitted else .done := rfl

theorem phase_step_admitted_of_ok {leaf : Leaf N K} (h : s.build task = .ok leaf) :
    (s.step services task best .admitted state).1.2 = .built leaf := by
  simp only [step, h]
  rfl

theorem phase_step_admitted_of_error {fault : Fault K} (h : s.build task = .error fault) :
    (s.step services task best .admitted state).1.2 = .done := by
  simp only [step, h]
  rfl

@[simp] theorem phase_step_built (leaf : Leaf N K) :
    (s.step services task best (.built leaf) state).1.2 =
      if best.isOpen task.epoch then .confirmed leaf else .done := rfl

@[simp] theorem phase_step_evaluated (leaf : Leaf N K) :
    (s.step services task best (.evaluated leaf) state).1.2 =
      if best.isOutranked task.candidate.combination then .finished leaf.finalize
      else .cleared leaf := rfl

theorem uncheckedStep_queued : s.uncheckedStep services task best .queued state =
    s.step services task best .queued state := rfl

theorem uncheckedStep_admitted : s.uncheckedStep services task best .admitted state =
    s.step services task best .admitted state := rfl

theorem uncheckedStep_built (leaf : Leaf N K) :
    s.uncheckedStep services task best (.built leaf) state =
      s.step services task best (.built leaf) state := rfl

/-! ### What a leaf comes to -/

/-- Where a task stands once its leaf has been evaluated in a state of the services. -/
def assess (s : Search N K) (services : Services N K σ) (leaf : Leaf N K) (state : σ) :
    TaskPhase N K :=
  s.afterEvaluation (leaf.evaluate services s.situation.objective state).1

/-- What an evaluated leaf is handed in as once it has been optimised in a state of the services. -/
def improve (s : Search N K) (services : Services N K σ) (leaf : Leaf N K) (state : σ) :
    FinalizedLeaf K :=
  (leaf.optimize services s.situation s.parameters state).1.1.finalize

/-- What a leaf comes to when it is evaluated in one state of the services and optimised in another
one; nothing if it fails. -/
def conclude (s : Search N K) (services : Services N K σ) (leaf : Leaf N K) (a b : σ) :
    Option (FinalizedLeaf K) :=
  match s.assess services leaf a with
  | .finished leaf => some leaf
  | .evaluated leaf => some (s.improve services leaf b)
  | _ => none

/-- What the candidate of a task comes to; nothing if its leaf cannot be built. -/
def attempt (s : Search N K) (services : Services N K σ) (task : Task K) (a b : σ) :
    Option (FinalizedLeaf K) :=
  match s.build task with
  | .ok leaf => s.conclude services leaf a b
  | .error _ => none

/-- The candidate of a task comes to the same whenever the services are asked. -/
def Settles (s : Search N K) (services : Services N K σ) (task : Task K)
    (outcome : Option (FinalizedLeaf K)) : Prop :=
  ∀ a b, s.attempt services task a b = outcome

/-- What a task that is never skipped hands in from where it stands on. -/
def prospect (s : Search N K) (services : Services N K σ) (task : Task K) :
    TaskPhase N K → σ → σ → Option (FinalizedLeaf K)
  | .queued, a, b | .opened, a, b | .admitted, a, b => s.attempt services task a b
  | .built leaf, a, b | .confirmed leaf, a, b => s.conclude services leaf a b
  | .evaluated leaf, _, b | .cleared leaf, _, b => some (s.improve services leaf b)
  | .finished leaf, _, _ => some leaf
  | .done, _, _ => none

omit [Network N K] in
/-- An evaluated leaf has failed, is finished or is to be optimised. -/
theorem assess_cases (s : Search N K) (services : Services N K σ) (leaf : Leaf N K) (state : σ) :
    s.assess services leaf state = .done ∨
      (∃ final, s.assess services leaf state = .finished final) ∨
      ∃ next, s.assess services leaf state = .evaluated next := by
  unfold assess afterEvaluation
  split
  · exact .inl rfl
  · split
    · exact .inr (.inl ⟨_, rfl⟩)
    · exact .inr (.inr ⟨_, rfl⟩)

/-- A step that hands nothing in keeps what will be handed in, for some states in which the
services are found. -/
theorem prospect_uncheckedStep (s : Search N K) (services : Services N K σ)
    (hopen : best.isOpen task.epoch = true) (hphase : ∀ leaf, phase ≠ .finished leaf)
    (state a b : σ) :
    ∃ a' b', s.prospect services task (s.uncheckedStep services task best phase state).1.2 a b =
      s.prospect services task phase a' b' := by
  cases phase with
  | queued =>
    refine ⟨a, b, ?_⟩
    rw [uncheckedStep_queued, phase_step_queued, if_pos hopen]
    rfl
  | opened => exact ⟨a, b, rfl⟩
  | admitted =>
    refine ⟨a, b, ?_⟩
    cases hbuild : s.build task with
    | ok leaf =>
      rw [uncheckedStep_admitted, phase_step_admitted_of_ok hbuild]
      simp [prospect, attempt, hbuild]
    | error fault =>
      rw [uncheckedStep_admitted, phase_step_admitted_of_error hbuild]
      simp [prospect, attempt, hbuild]
  | built leaf =>
    refine ⟨a, b, ?_⟩
    rw [uncheckedStep_built, phase_step_built, if_pos hopen]
    rfl
  | confirmed leaf =>
    -- the state in which the leaf is evaluated is the present one
    refine ⟨state, b, ?_⟩
    change s.prospect services task (s.assess services leaf state) a b = _
    simp only [prospect, conclude]
    rcases s.assess_cases services leaf state with h | ⟨final, h⟩ | ⟨next, h⟩ <;> rw [h]
  | evaluated leaf => exact ⟨a, b, rfl⟩
  | cleared leaf => exact ⟨a, state, rfl⟩
  | finished leaf => exact absurd rfl (hphase leaf)
  | done => exact ⟨a, b, rfl⟩

/-! ### Coming to an end -/

theorem descends_step (s : Search N K) (services : Services N K σ) :
    TaskStep.Descends (s.step services) := by
  intro task best phase state
  cases phase with
  | queued =>
    rw [phase_step_queued]
    split <;> simp [TaskPhase.stepsLeft]
  | opened =>
    rw [phase_step_opened]
    split <;> simp [TaskPhase.stepsLeft]
  | admitted =>
    cases hbuild : s.build task with
    | ok leaf => simp [phase_step_admitted_of_ok hbuild, TaskPhase.stepsLeft]
    | error fault => simp [phase_step_admitted_of_error hbuild, TaskPhase.stepsLeft]
  | built leaf =>
    rw [phase_step_built]
    split <;> simp [TaskPhase.stepsLeft]
  | confirmed leaf =>
    change (s.assess services leaf state).stepsLeft ≤ 3
    rcases s.assess_cases services leaf state with h | ⟨final, h⟩ | ⟨next, h⟩ <;>
      simp [h, TaskPhase.stepsLeft]
  | evaluated leaf =>
    rw [phase_step_evaluated]
    split <;> simp [TaskPhase.stepsLeft]
  | cleared leaf => exact Nat.le_refl 1
  | finished leaf => exact Nat.le_refl 0
  | done => exact Nat.le_refl 0

theorem descends_uncheckedStep (s : Search N K) (services : Services N K σ) :
    TaskStep.Descends (s.uncheckedStep services) := by
  intro task best phase state
  cases phase with
  | opened => exact Nat.le_refl 6
  | evaluated leaf => exact Nat.le_refl 2
  | _ => exact s.descends_step services task best _ state

end Search

end GridRelief
