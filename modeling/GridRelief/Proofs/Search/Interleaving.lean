import GridRelief.Search.Interleaving

/-!
# Interleavings of jobs

Facts on turns that hold whatever one step does, and for the steps of a search.

* `Crew.interleave_induction`: what one move keeps, every list of turns keeps.
* `Crew.getElem?_interleave`: a job keeps its task, and every turn of its own brings it one step
  closer to its end.
* `Crew.isDone_interleave`: jobs that have had enough turns are done.
-/

namespace GridRelief

variable {K N σ : Type}

/-- The most steps that a task still takes. -/
def TaskPhase.stepsLeft : TaskPhase N K → Nat
  | .queued => 8
  | .opened => 7
  | .admitted => 6
  | .built _ => 5
  | .confirmed _ => 4
  | .evaluated _ => 3
  | .cleared _ => 2
  | .finished _ => 1
  | .done => 0

theorem TaskPhase.isDone_iff {phase : TaskPhase N K} : phase.isDone = true ↔ phase = .done := by
  cases phase <;> simp [isDone]

theorem TaskPhase.isDone_iff_stepsLeft {phase : TaskPhase N K} :
    phase.isDone = true ↔ phase.stepsLeft = 0 := by
  cases phase <;> simp [isDone, stepsLeft]

theorem TaskPhase.stepsLeft_le (phase : TaskPhase N K) : phase.stepsLeft ≤ 8 := by
  cases phase <;> simp [stepsLeft]

/-- Turns that let jobs work one after the other, each of them to its end. -/
def Turn.oneByOne (state : σ) (order : List Nat) : List (Turn σ) :=
  order.flatMap fun job => List.replicate 8 ⟨job, state⟩

theorem Turn.oneByOne_cons (state : σ) (job : Nat) (order : List Nat) :
    oneByOne state (job :: order) = List.replicate 8 ⟨job, state⟩ ++ oneByOne state order :=
  List.flatMap_cons

/-- A job that is let work has enough turns. -/
theorem Turn.le_countP_oneByOne {state : σ} {order : List Nat} {i : Nat} (h : i ∈ order) :
    8 ≤ (oneByOne state order).countP (·.job == i) := by
  induction order with
  | nil => simp at h
  | cons job order ih =>
    rw [oneByOne_cons, List.countP_append]
    rcases List.mem_cons.mp h with rfl | hmem
    · simp
    · exact Nat.le_trans (ih hmem) (Nat.le_add_left ..)

/-- Every step of a task that is not done brings it closer to its end. -/
def TaskStep.Descends (step : TaskStep N K σ) : Prop :=
  ∀ task best phase state,
    (step task best phase state).1.2.stepsLeft ≤ TaskPhase.stepsLeft phase - 1

namespace Crew

variable {step : TaskStep N K σ} {crew : Crew N K}

/-! ### Setting out -/

@[simp] theorem best_setOut (best : Best K) (candidates : List (Candidate K)) :
    (setOut best candidates : Crew N K).best = best := rfl

@[simp] theorem length_setOut (best : Best K) (candidates : List (Candidate K)) :
    (setOut best candidates : Crew N K).jobs.length = candidates.length := List.length_map _

theorem getElem?_setOut_of_some (best : Best K) {candidates : List (Candidate K)} {i : Nat}
    {candidate : Candidate K} (h : candidates[i]? = some candidate) :
    (setOut best candidates : Crew N K).jobs[i]? = some ⟨best.task candidate, .queued⟩ := by
  rw [setOut, List.getElem?_map, h]
  rfl

/-- At the outset no task of a candidate has been started. -/
theorem getElem?_setOut {best : Best K} {candidates : List (Candidate K)} {i : Nat}
    {job : Job N K} (h : (setOut best candidates).jobs[i]? = some job) :
    ∃ candidate, candidates[i]? = some candidate ∧ job = ⟨best.task candidate, .queued⟩ := by
  rw [setOut, List.getElem?_map, Option.map_eq_some_iff] at h
  obtain ⟨candidate, hcandidate, rfl⟩ := h
  exact ⟨candidate, hcandidate, rfl⟩

/-! ### Moves and turns -/

theorem move_of_none {i : Nat} {state : σ} (h : crew.jobs[i]? = none) :
    (crew.move step i state).1 = crew := by
  unfold move
  rw [h]
  rfl

theorem move_of_some {i : Nat} {state : σ} {task : Task K} {phase : TaskPhase N K}
    (h : crew.jobs[i]? = some ⟨task, phase⟩) :
    (crew.move step i state).1 =
      ⟨(step task crew.best phase state).1.1,
        crew.jobs.set i ⟨task, (step task crew.best phase state).1.2⟩⟩ := by
  unfold move
  rw [h]
  rfl

@[simp] theorem interleave_nil : crew.interleave step [] = crew := rfl

theorem interleave_cons (turn : Turn σ) (turns : List (Turn σ)) :
    crew.interleave step (turn :: turns) =
      (crew.move step turn.job turn.services).1.interleave step turns := rfl

theorem interleave_append (turns later : List (Turn σ)) :
    crew.interleave step (turns ++ later) = (crew.interleave step turns).interleave step later :=
  List.foldl_append

/-- What one move keeps, every list of turns keeps. -/
theorem interleave_induction {P : Crew N K → Prop}
    (hmove : ∀ crew i state, P crew → P (crew.move step i state).1) (turns : List (Turn σ))
    (h : P crew) : P (crew.interleave step turns) := by
  induction turns generalizing crew with
  | nil => exact h
  | cons turn turns ih => exact ih (hmove crew turn.job turn.services h)

/-- A move leaves all other jobs as they are. -/
theorem getElem?_move_of_ne {i j : Nat} (hij : i ≠ j) (state : σ) :
    (crew.move step i state).1.jobs[j]? = crew.jobs[j]? := by
  cases h : crew.jobs[i]? with
  | none => rw [move_of_none h]
  | some job =>
    obtain ⟨task, phase⟩ := job
    rw [move_of_some h]
    exact List.getElem?_set_ne hij

/-- A move of a job leaves it with its task, and where one step brings it. -/
theorem getElem?_move_self (step : TaskStep N K σ) (state : σ) {i : Nat} {task : Task K}
    {phase : TaskPhase N K} (h : crew.jobs[i]? = some ⟨task, phase⟩) :
    (crew.move step i state).1.jobs[i]? =
      some ⟨task, (step task crew.best phase state).1.2⟩ := by
  rw [move_of_some h]
  exact List.getElem?_set_self (List.getElem?_eq_some_iff.mp h).1

/-- A move leaves every job with its task. -/
@[simp] theorem map_task_move (i : Nat) (state : σ) (j : Nat) :
    ((crew.move step i state).1.jobs[j]?).map Job.task = (crew.jobs[j]?).map Job.task := by
  by_cases hij : i = j
  · subst hij
    cases h : crew.jobs[i]? with
    | none => rw [move_of_none h, h]
    | some job =>
      obtain ⟨task, phase⟩ := job
      rw [getElem?_move_self step state h]
      rfl
  · rw [getElem?_move_of_ne hij]

/-- A job after a move has the task of one before it. -/
theorem exists_task_of_mem_move {i : Nat} {state : σ} {job : Job N K}
    (h : job ∈ (crew.move step i state).1.jobs) : ∃ old ∈ crew.jobs, old.task = job.task := by
  obtain ⟨j, hj⟩ := List.getElem?_of_mem h
  have htask : ((crew.move step i state).1.jobs[j]?).map Job.task =
      (crew.jobs[j]?).map Job.task := map_task_move i state j
  rw [hj] at htask
  obtain ⟨old, hold, heq⟩ := Option.map_eq_some_iff.mp htask.symm
  exact ⟨old, List.mem_of_getElem? hold, heq⟩

@[simp] theorem length_move (i : Nat) (state : σ) :
    (crew.move step i state).1.jobs.length = crew.jobs.length := by
  cases h : crew.jobs[i]? with
  | none => rw [move_of_none h]
  | some job =>
    obtain ⟨task, phase⟩ := job
    rw [move_of_some h]
    exact List.length_set

@[simp] theorem length_interleave (turns : List (Turn σ)) :
    (crew.interleave step turns).jobs.length = crew.jobs.length :=
  interleave_induction (P := fun c => c.jobs.length = crew.jobs.length)
    (fun _ i state h => (length_move i state).trans h) turns rfl

/-- Turns leave every job with its task. -/
@[simp] theorem map_task_interleave (step : TaskStep N K σ) (turns : List (Turn σ)) (j : Nat) :
    ((crew.interleave step turns).jobs[j]?).map Job.task = (crew.jobs[j]?).map Job.task :=
  interleave_induction
    (P := fun c => (c.jobs[j]?).map Job.task = (crew.jobs[j]?).map Job.task)
    (fun _ i state h => (map_task_move i state j).trans h) turns rfl

/-- Turns of other jobs leave a job as it is. -/
theorem getElem?_interleave_of_ne {turns : List (Turn σ)} {j : Nat}
    (h : ∀ turn ∈ turns, turn.job ≠ j) : (crew.interleave step turns).jobs[j]? = crew.jobs[j]? := by
  induction turns generalizing crew with
  | nil => rfl
  | cons turn turns ih =>
    rw [interleave_cons, ih (fun later hlater => h later (List.mem_cons_of_mem _ hlater)),
      getElem?_move_of_ne (h turn List.mem_cons_self)]

/-! ### Coming to an end -/

/-- A job keeps its task, and every turn of its own brings it one step closer to its end. -/
theorem getElem?_interleave (hstep : step.Descends) (turns : List (Turn σ)) {i : Nat}
    {job : Job N K} (h : crew.jobs[i]? = some job) :
    ∃ phase, (crew.interleave step turns).jobs[i]? = some ⟨job.task, phase⟩ ∧
      phase.stepsLeft ≤ job.phase.stepsLeft - turns.countP (·.job == i) := by
  induction turns generalizing crew job with
  | nil => exact ⟨job.phase, h, by simp⟩
  | cons turn turns ih =>
    rw [interleave_cons]
    by_cases hi : turn.job = i
    · subst hi
      obtain ⟨phase, hphase, hle⟩ := ih (getElem?_move_self step turn.services h)
      refine ⟨phase, hphase, Nat.le_trans hle ?_⟩
      have hone := hstep job.task crew.best job.phase turn.services
      simp only [List.countP_cons, beq_self_eq_true, if_true]
      omega
    · obtain ⟨phase, hphase, hle⟩ :=
        ih ((getElem?_move_of_ne hi turn.services).trans h)
      refine ⟨phase, hphase, Nat.le_trans hle ?_⟩
      simp [hi]

theorem isDone_iff : crew.isDone = true ↔ ∀ (i : Nat) (task : Task K) (phase : TaskPhase N K),
    crew.jobs[i]? = some ⟨task, phase⟩ → phase = .done := by
  simp only [isDone, List.all_eq_true, TaskPhase.isDone_iff]
  constructor
  · intro h i task phase hi
    exact h _ (List.mem_of_getElem? hi)
  · intro h job hjob
    obtain ⟨i, hi⟩ := List.getElem?_of_mem hjob
    exact h i job.task job.phase hi

/-- Jobs that have had enough turns are done. -/
theorem isDone_interleave (hstep : step.Descends) {turns : List (Turn σ)}
    (h : ∀ i < crew.jobs.length, 8 ≤ turns.countP (·.job == i)) :
    (crew.interleave step turns).isDone = true := by
  rw [isDone_iff]
  intro i task phase hi
  have hlt : i < crew.jobs.length := by
    simpa using (List.getElem?_eq_some_iff.mp hi).1
  obtain ⟨phase', hphase', hle⟩ :=
    getElem?_interleave hstep turns (List.getElem?_eq_getElem hlt)
  rw [hi] at hphase'
  obtain ⟨-, rfl⟩ := Job.mk.inj (Option.some.inj hphase')
  have hmost := crew.jobs[i].phase.stepsLeft_le
  have henough := h i hlt
  rw [← TaskPhase.isDone_iff, TaskPhase.isDone_iff_stepsLeft]
  omega

/-- Jobs that have worked one after the other are done. -/
theorem isDone_interleave_oneByOne (hstep : step.Descends) (state : σ) {order : List Nat}
    (h : ∀ i < crew.jobs.length, i ∈ order) :
    (crew.interleave step (Turn.oneByOne state order)).isDone = true :=
  isDone_interleave hstep fun i hi => Turn.le_countP_oneByOne (h i hi)

/-- When all jobs are done, further turns change nothing. -/
theorem interleave_of_isDone
    (hbest : ∀ task best state, (step task best .done state).1 = (best, .done))
    (h : crew.isDone = true) (turns : List (Turn σ)) : crew.interleave step turns = crew := by
  refine interleave_induction (P := (· = crew)) ?_ turns rfl
  intro c i state hc
  rw [hc]
  cases hi : crew.jobs[i]? with
  | none => exact move_of_none hi
  | some job =>
    obtain ⟨task, phase⟩ := job
    obtain rfl := isDone_iff.mp h i task phase hi
    obtain ⟨hlt, hget⟩ := List.getElem?_eq_some_iff.mp hi
    rw [move_of_some hi, hbest, ← hget, List.set_getElem_self]

end Crew

end GridRelief
