import Mathlib.Algebra.Order.BigOperators.Group.Finset
import GridRelief.Proofs.Exact
import GridRelief.Proofs.Search.Prospect
import GridRelief.Search.Course

/-!
# Tasks in time are interleaved tasks

However many workers there are and however long each step takes, what happens in a depth is told
by a list of turns. So what holds for all lists of turns holds for the search.

* `Search.exists_turns_of_work`: the steps of a depth are those of a list of turns.
* `Shift.allStepsLeft_afterStep`: every step brings the jobs closer to their end.
* `Search.work_ends`: so they are worked on until none is busy, or until the time is over.
* `Search.exists_turns_of_explore`: a depth is one of interleaved tasks, and these are done at its
  end unless its time is over.
-/

namespace GridRelief

variable {K N σ : Type}

namespace Shift

variable {shift : Shift N K} {i : Nat} {entry : Job N K}

/-! ### Jobs that are over -/

theorem isOver_iff {phase : TaskPhase N K} :
    shift.isOver i phase = true ↔ phase = .done ∧ shift.due.getD i 0 ≤ shift.now := by
  simp only [isOver, startOf, Bool.and_eq_true, TaskPhase.isDone_iff, beq_iff_eq]
  exact and_congr_right fun _ => max_eq_left_iff

theorem mem_numbers {test : Nat → TaskPhase N K → Bool} :
    i ∈ shift.numbers test ↔ ∃ entry, shift.crew.jobs[i]? = some entry ∧ test i entry.phase := by
  rw [numbers, List.mem_filter, List.mem_range, Option.any_eq_true]
  refine ⟨fun h => h.2, fun ⟨entry, hentry, htest⟩ => ?_⟩
  exact ⟨(List.getElem?_eq_some_iff.mp hentry).1, entry, hentry, htest⟩

/-- A job that may move is not over. -/
theorem exists_of_mem_movable {workers : Nat} (h : i ∈ shift.movable workers) :
    ∃ entry, shift.crew.jobs[i]? = some entry ∧ shift.isOver i entry.phase = false := by
  rcases List.mem_append.mp h with hstarted | hqueued
  · obtain ⟨entry, hentry, htest⟩ := mem_numbers.mp hstarted
    rw [Bool.and_eq_true, Bool.not_eq_true'] at htest
    exact ⟨entry, hentry, by simpa using htest.2⟩
  · have hqueue : i ∈ shift.queue := by
      split at hqueued
      · exact List.mem_of_mem_take hqueued
      · simp at hqueued
    obtain ⟨entry, hentry, htest⟩ := mem_numbers.mp hqueue
    refine ⟨entry, hentry, ?_⟩
    cases hphase : entry.phase <;> simp_all [isOver, TaskPhase.isDone, TaskPhase.isQueued]

/-- When no job may move, all are over. -/
theorem isOver_of_movable_eq_nil {workers : Nat} (hworkers : 0 < workers)
    (h : shift.movable workers = []) (hentry : shift.crew.jobs[i]? = some entry) :
    shift.isOver i entry.phase = true := by
  obtain ⟨hstarted, hqueue⟩ := List.append_eq_nil_iff.mp h
  have hidle : i ∉ shift.queue := by
    rw [hstarted, List.length_nil, if_pos hworkers, List.take_eq_nil_iff] at hqueue
    simp [hqueue.resolve_left Nat.one_ne_zero]
  have hnot : i ∉ shift.started := by simp [hstarted]
  by_contra hover
  refine hnot (mem_numbers.mpr ⟨entry, hentry, ?_⟩)
  have hqueued : entry.phase.isQueued = false := by
    by_contra hqueued
    exact hidle (mem_numbers.mpr ⟨entry, hentry, by simpa using hqueued⟩)
  simp [hqueued, Bool.eq_false_iff.mpr hover]

/-- The job that moves next is one that may move. -/
theorem next?_mem {workers : Nat} (h : shift.next? workers = some i) :
    i ∈ shift.movable workers := by
  unfold next? at h
  split at h
  · cases h
  · next first rest hmovable =>
    rw [hmovable]
    obtain rfl := Option.some.inj h
    refine foldl_mem_cons (fun best job => ?_) first rest
    split
    · exact .inr rfl
    · exact .inl rfl

theorem next?_eq_none {workers : Nat} (h : shift.next? workers = none) :
    shift.movable workers = [] := by
  unfold next? at h
  split at h
  · assumption
  · cases h

/-! ### The steps that are left -/

/-- The most steps that a job still takes, with the end of the last one. -/
def stepsLeft (shift : Shift N K) (job : Nat) : Nat :=
  match shift.crew.jobs[job]? with
  | none => 0
  | some entry => if shift.isOver job entry.phase then 0 else entry.phase.stepsLeft + 1

/-- The most steps that all jobs together still take. -/
def allStepsLeft (shift : Shift N K) : Nat :=
  ∑ job ∈ Finset.range shift.crew.jobs.length, shift.stepsLeft job

theorem stepsLeft_of_some (h : shift.crew.jobs[i]? = some entry) : shift.stepsLeft i =
    if shift.isOver i entry.phase then 0 else entry.phase.stepsLeft + 1 := by
  rw [stepsLeft, h]

theorem allStepsLeft_le (shift : Shift N K) :
    shift.allStepsLeft ≤ Search.stepLimit * shift.crew.jobs.length := by
  have hjob : ∀ i ∈ Finset.range shift.crew.jobs.length, shift.stepsLeft i ≤ Search.stepLimit := by
    intro i hi
    rw [stepsLeft_of_some (List.getElem?_eq_getElem (Finset.mem_range.mp hi))]
    split
    · exact Nat.zero_le _
    · exact Nat.succ_le_succ (TaskPhase.stepsLeft_le _)
  have hsum := Finset.sum_le_sum hjob
  rwa [Finset.sum_const_nat fun _ _ => rfl, Finset.card_range, Nat.mul_comm] at hsum

/-- When no steps are left, all jobs are over. -/
theorem isOver_of_allStepsLeft_eq_zero (h : shift.allStepsLeft = 0)
    (hentry : shift.crew.jobs[i]? = some entry) : shift.isOver i entry.phase = true := by
  have hzero := Finset.sum_eq_zero_iff.mp h i
    (Finset.mem_range.mpr (List.getElem?_eq_some_iff.mp hentry).1)
  rw [stepsLeft_of_some hentry] at hzero
  by_contra hover
  rw [if_neg hover] at hzero
  exact Nat.succ_ne_zero _ hzero

/-- When all jobs are over, none is busy. -/
theorem isBusy_eq_false_of_isOver
    (h : ∀ i entry, shift.crew.jobs[i]? = some entry → shift.isOver i entry.phase = true) :
    shift.isBusy = false := by
  unfold isBusy
  rw [List.any_eq_false]
  intro i _
  cases hentry : shift.crew.jobs[i]? with
  | none => simp
  | some entry => simp [h i entry hentry]

theorem isOver_afterStep_of_ne {crew : Crew N K} {job spent : Nat} (hne : job ≠ i)
    {phase : TaskPhase N K} (h : shift.isOver i phase = true) :
    (shift.afterStep job crew spent).isOver i phase = true := by
  rw [isOver_iff] at h ⊢
  refine ⟨h.1, ?_⟩
  have hdue : (shift.due.set job (shift.startOf job + spent)).getD i 0 = shift.due.getD i 0 := by
    rw [List.getD_eq_getElem?_getD, List.getD_eq_getElem?_getD, List.getElem?_set_ne hne]
  exact hdue ▸ h.2.trans (Nat.le_max_left ..)

/-- A job that has no step to take is over once the end of its last one has come. -/
theorem isOver_afterStep_self {crew : Crew N K} :
    (shift.afterStep i crew 0).isOver i (.done : TaskPhase N K) = true := by
  rw [isOver_iff]
  refine ⟨rfl, ?_⟩
  change (shift.due.set i (shift.startOf i)).getD i 0 ≤ shift.startOf i
  rw [List.getD_eq_getElem?_getD, List.getElem?_set_self']
  cases shift.due[i]? <;> simp

/-- A move of a job brings the others no further from their end. -/
theorem stepsLeft_afterStep_of_ne {step : TaskStep N K σ} {job : Nat} (hne : job ≠ i) (state : σ)
    (spent : Nat) :
    (shift.afterStep job (shift.crew.move step job state).1 spent).stepsLeft i ≤
      shift.stepsLeft i := by
  have hsame : (shift.afterStep job (shift.crew.move step job state).1 spent).crew.jobs[i]? =
      shift.crew.jobs[i]? := Crew.getElem?_move_of_ne hne state
  unfold stepsLeft
  rw [hsame]
  cases shift.crew.jobs[i]? with
  | none => exact Nat.le_refl _
  | some entry =>
    dsimp only
    cases hover : shift.isOver i entry.phase with
    | true => rw [isOver_afterStep_of_ne hne hover]
    | false =>
      rw [if_neg Bool.false_ne_true]
      split
      · exact Nat.zero_le _
      · exact Nat.le_refl _

/-- A move of a job that is not over brings it closer to its end. -/
theorem stepsLeft_afterStep_self {step : TaskStep N K σ} (hstep : step.Descends)
    (hentry : shift.crew.jobs[i]? = some entry) (hover : shift.isOver i entry.phase = false)
    (state : σ) {spent : Nat} (hspent : entry.phase = .done → spent = 0) :
    (shift.afterStep i (shift.crew.move step i state).1 spent).stepsLeft i < shift.stepsLeft i := by
  obtain ⟨task, phase⟩ := entry
  have hnext : (shift.afterStep i (shift.crew.move step i state).1 spent).crew.jobs[i]? =
      some ⟨task, (step task shift.crew.best phase state).1.2⟩ :=
    Crew.getElem?_move_self step state hentry
  rw [stepsLeft_of_some hentry, stepsLeft_of_some hnext, hover, if_neg Bool.false_ne_true]
  have hle := hstep task shift.crew.best phase state
  by_cases hdone : phase = .done
  · -- the last step is over, as the job takes no time any more
    rw [hdone] at hle
    have hstays : (step task shift.crew.best phase state).1.2 = .done := by
      rw [← TaskPhase.isDone_iff, TaskPhase.isDone_iff_stepsLeft, hdone]
      exact Nat.le_zero.mp hle
    rw [hstays, hspent hdone, isOver_afterStep_self]
    exact Nat.succ_pos _
  · have hpos : phase.stepsLeft ≠ 0 := by
      rwa [Ne, ← TaskPhase.isDone_iff_stepsLeft, TaskPhase.isDone_iff]
    split
    · exact Nat.succ_pos _
    · change (step task shift.crew.best phase state).1.2.stepsLeft + 1 < phase.stepsLeft + 1
      omega

/-- A move of a job that is not over brings all jobs together closer to their end. -/
theorem allStepsLeft_afterStep {step : TaskStep N K σ} (hstep : step.Descends)
    (hentry : shift.crew.jobs[i]? = some entry) (hover : shift.isOver i entry.phase = false)
    (state : σ) {spent : Nat} (hspent : entry.phase = .done → spent = 0) :
    (shift.afterStep i (shift.crew.move step i state).1 spent).allStepsLeft <
      shift.allStepsLeft := by
  have hlength : (shift.afterStep i (shift.crew.move step i state).1 spent).crew.jobs.length =
      shift.crew.jobs.length := Crew.length_move i state
  have hlt := stepsLeft_afterStep_self hstep hentry hover state hspent
  unfold allStepsLeft
  rw [hlength]
  refine Finset.sum_lt_sum (fun j _ => ?_) ⟨i, ?_, hlt⟩
  · by_cases hij : i = j
    · exact hij ▸ hlt.le
    · exact stepsLeft_afterStep_of_ne hij state spent
  · exact Finset.mem_range.mpr (List.getElem?_eq_some_iff.mp hentry).1

/-- When no job is busy, those of the open depth are done. -/
theorem phase_eq_done_of_isBusy_eq_false (h : shift.isBusy = false)
    (hentry : entry ∈ shift.crew.jobs) (hopen : shift.crew.best.isOpen entry.task.epoch = true) :
    entry.phase = .done := by
  obtain ⟨i, hi⟩ := List.getElem?_of_mem hentry
  have hlt := (List.getElem?_eq_some_iff.mp hi).1
  have hidle := List.any_eq_false.mp h i (List.mem_range.mpr hlt)
  simp only [hi, Option.any_some, hopen, Bool.true_and, Bool.not_eq_true', Bool.not_eq_false]
    at hidle
  exact (isOver_iff.mp hidle).1

end Shift

namespace Search

variable [Scalar K] [Network N K]

/-- The steps of a depth are those of a list of turns. -/
theorem exists_turns_of_work (s : Search N K) (services : Services N K σ)
    (workers deadline steps : Nat) (shift : Shift N K) (state : σ) :
    ∃ turns : List (Turn σ), (s.work services workers deadline steps shift state).1.crew =
      shift.crew.interleave (s.step services) turns := by
  induction steps generalizing shift state with
  | zero => exact ⟨[], rfl⟩
  | succ steps ih =>
    unfold work
    cases hnext : shift.next? workers with
    | none => exact ⟨[], rfl⟩
    | some job =>
      dsimp only
      split
      · exact ⟨[], rfl⟩
      · split
        · exact ⟨[], rfl⟩
        · obtain ⟨turns, hturns⟩ := ih _ (shift.crew.move (s.step services) job state).2
          exact ⟨⟨job, state⟩ :: turns, hturns⟩

/-- With as many steps as are left, the tasks of a depth are worked on until none is busy, or until
the time of the depth is over. -/
theorem work_ends (s : Search N K) (services : Services N K σ) {workers : Nat}
    (hworkers : 0 < workers) (deadline : Nat) {steps : Nat} {shift : Shift N K}
    (henough : shift.allStepsLeft ≤ steps) (state : σ) :
    (s.work services workers deadline steps shift state).1.isBusy = false ∨
      (s.work services workers deadline steps shift state).1.now = deadline := by
  induction steps generalizing shift state with
  | zero =>
    exact .inl (Shift.isBusy_eq_false_of_isOver fun i entry hentry =>
      Shift.isOver_of_allStepsLeft_eq_zero (Nat.le_zero.mp henough) hentry)
  | succ steps ih =>
    unfold work
    cases hnext : shift.next? workers with
    | none =>
      exact .inl (Shift.isBusy_eq_false_of_isOver fun i entry hentry =>
        Shift.isOver_of_movable_eq_nil hworkers (Shift.next?_eq_none hnext) hentry)
    | some job =>
      dsimp only
      split
      · next hidle => exact .inl ((Bool.not_eq_true' _).mp hidle)
      · split
        · exact .inr rfl
        · obtain ⟨entry, hentry, hover⟩ := Shift.exists_of_mem_movable (Shift.next?_mem hnext)
          refine ih (Nat.lt_succ_iff.mp (Nat.lt_of_lt_of_le ?_ henough)) _
          refine Shift.allStepsLeft_afterStep (s.descends_step services) hentry hover state ?_
          intro hdone
          obtain ⟨task, phase⟩ := entry
          obtain rfl : phase = .done := hdone
          have hstate : (shift.crew.move (s.step services) job state).2 = state := by
            unfold Crew.move
            rw [hentry]
            rfl
          change services.clock (shift.crew.move (s.step services) job state).2 -
            services.clock state = 0
          rw [hstate, Nat.sub_self]

/-- What happens in a depth in time is told by a list of turns. At its end the tasks of the depth
are done, unless its time is over. -/
theorem exists_turns_of_explore (s : Search N K) (services : Services N K σ) (shift : Shift N K)
    (state : σ) :
    ∃ turns : List (Turn σ),
      (s.explore services shift state).1.crew = s.afterDepth services turns shift.crew ∧
      ((∀ job ∈ (s.explore services shift state).1.crew.jobs,
          shift.crew.best.isOpen job.task.epoch = true → job.phase = .done) ∨
        (s.explore services shift state).1.now =
          shift.now + 1000 * s.parameters.tree.timeoutSeconds) := by
  let enlisted := shift.enlist (s.tasks shift.crew.best.epoch shift.crew.best.leaf)
  let deadline := shift.now + 1000 * s.parameters.tree.timeoutSeconds
  let steps := stepLimit * enlisted.crew.jobs.length
  have hworkers : 0 < s.workers services := Nat.le_max_left 1 _
  obtain ⟨turns, hturns⟩ :=
    s.exists_turns_of_work services (s.workers services) deadline steps enlisted state
  refine ⟨turns, congrArg Crew.close hturns, ?_⟩
  refine (s.work_ends services hworkers deadline enlisted.allStepsLeft_le state).imp_left ?_
  intro hidle job hjob hopen
  refine Shift.phase_eq_done_of_isBusy_eq_false hidle hjob ?_
  rw [hturns, isOpen_interleave (s.onlySubmits_step services)]
  exact hopen

end Search

end GridRelief
