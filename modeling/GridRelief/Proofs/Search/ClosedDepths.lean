import GridRelief.Proofs.Search.HandIns
import GridRelief.Proofs.Search.Moments
import GridRelief.Proofs.Search.TwoSwitches

/-!
# Closed depths

The jobs of a closed depth may go on for as long as they like, also while later depths are explored.
Whatever they do then has no effect on what is shared: a hand-in looks at the depth of its task and
changes the best leaf in one step, so no depth is closed in between. So a search ends with what
comes of the leaves that were handed in in time, and it would end with the same if the jobs of
closed depths did not move at all.

* `Crew.best_move_of_isLate`: a late job changes nothing of what is shared.
* `Search.timely`: what is handed in in time; `Search.best_after`: nothing else counts.
* `Search.Alike`: two moments that differ in how far late jobs have come.
* `Search.closed_depths_inert`: what late jobs do has no effect on what a search ends with.
-/

namespace GridRelief

variable {K N σ : Type} [Scalar K] [Network N K]

/-! ### Late jobs -/

/-- Whether a job belongs to a depth that is not the one being explored. -/
def Crew.isLate (crew : Crew N K) (i : Nat) : Bool :=
  (crew.jobs[i]?).any fun job => !crew.best.isOpen job.task.epoch

omit [Network N K] in
/-- What is handed in to a depth that is not open changes nothing. -/
theorem Search.receive_of_not_isOpen {s : Search N K} {task : Task K} {best : Best K}
    {phase : TaskPhase N K} (h : ¬best.isOpen task.epoch = true) :
    s.receive task best phase = best := by
  cases phase with
  | finished leaf => simp [receive, Best.submit, h]
  | _ => rfl

omit [Scalar K] [Network N K] in
theorem Crew.isLate_of_some {crew : Crew N K} {i : Nat} {job : Job N K}
    (h : crew.jobs[i]? = some job) : crew.isLate i = !crew.best.isOpen job.task.epoch := by
  rw [isLate, h, Option.any_some]

/-- A late job changes nothing of what is shared. -/
theorem Crew.best_move_of_isLate {s : Search N K} {services : Services N K σ} {crew : Crew N K}
    {i : Nat} (h : crew.isLate i = true) (state : σ) :
    (crew.move (s.step services) i state).1.best = crew.best := by
  cases hi : crew.jobs[i]? with
  | none => rw [move_of_none hi]
  | some job =>
    obtain ⟨task, phase⟩ := job
    rw [isLate_of_some hi, Bool.not_eq_true', Bool.eq_false_iff] at h
    rw [move_of_some hi, s.onlySubmits_step services]
    exact Search.receive_of_not_isOpen h

/-! ### What is handed in in time -/

/-- What tasks share after a hand-in to the depth of its task. -/
def HandIn.take (criteria : Criteria K) (best : Best K) (h : HandIn K) : Best K :=
  h.accept criteria { best with epoch := h.task.epoch }

/-- What an event hands in to the depth that is being explored. -/
def Moment.timely? (m : Moment N K) : Event σ → Option (HandIn K)
  | .move turn => (m.crew.handIn? turn.job).filter fun h => m.crew.best.isOpen h.task.epoch
  | .enter | .close => none

/-- Whether an event is a turn of a late job. -/
def Moment.isLate (m : Moment N K) : Event σ → Bool
  | .move turn => m.crew.isLate turn.job
  | .enter | .close => false

namespace Search

/-- What some events hand in before the depths of the tasks are closed. -/
def timely (s : Search N K) (services : Services N K σ) :
    List (Event σ) → Moment N K → List (HandIn K)
  | [], _ => []
  | event :: events, m =>
    (m.timely? event).toList ++ s.timely services events (s.pass services m event)

/-- Some events without the turns of late jobs. -/
def withoutLate (s : Search N K) (services : Services N K σ) :
    List (Event σ) → Moment N K → List (Event σ)
  | [], _ => []
  | event :: events, m =>
    if m.isLate event then s.withoutLate services events (s.pass services m event)
    else event :: s.withoutLate services events (s.pass services m event)

variable {s : Search N K} {services : Services N K σ} {m other : Moment N K}

omit [Network N K] in
/-- What a job of the open depth hands in is in time. -/
theorem foldl_take_of_isOpen {task : Task K} {best : Best K} (phase : TaskPhase N K) (i : Nat)
    (hopen : best.isOpen task.epoch = true) :
    (phase.leaf?.map (HandIn.mk i task)).toList.foldl (HandIn.take s.criteria) best =
      s.receive task best phase := by
  have hsame : { best with epoch := task.epoch } = best := by rw [← beq_iff_eq.mp hopen]
  cases phase with
  | finished leaf =>
    change HandIn.accept s.criteria { best with epoch := task.epoch } ⟨i, task, leaf⟩ = _
    rw [hsame]
    rfl
  | _ => rfl

omit [Scalar K] [Network N K] in
theorem timely?_move_of_some {turn : Turn σ} {job : Job N K}
    (hi : m.crew.jobs[turn.job]? = some job) : m.timely? (.move turn) =
      if m.crew.best.isOpen job.task.epoch then job.phase.leaf?.map (HandIn.mk turn.job job.task)
      else none := by
  rw [Moment.timely?, Crew.handIn?_of_some hi]
  cases job.phase.leaf? with
  | none => simp
  | some leaf => simp [Option.filter]

/-- What is shared changes with the leaves that are handed in in time, but for the number of
depths that have been closed. -/
theorem best_pass (event : Event σ) : (s.pass services m event).crew.best =
    { (m.timely? event).toList.foldl (HandIn.take s.criteria) m.crew.best with
      epoch := (s.pass services m event).crew.best.epoch } := by
  cases event with
  | enter =>
    by_cases hmay : s.mayEnter m = true
    · rw [pass_enter_of_mayEnter hmay]
      rfl
    · rw [pass_enter_of_not hmay]
      rfl
  | close =>
    by_cases hexploring : m.isExploring = true
    · rw [pass_close_of_isExploring hexploring]
      rfl
    · rw [pass_close_of_not hexploring]
      rfl
  | move turn =>
    rw [pass_move]
    cases hi : m.crew.jobs[turn.job]? with
    | none =>
      rw [Crew.move_of_none hi, Moment.timely?, Crew.handIn?, hi]
      rfl
    | some job =>
      rw [Crew.move_of_some hi, s.onlySubmits_step services, timely?_move_of_some hi]
      by_cases hopen : m.crew.best.isOpen job.task.epoch = true
      · rw [if_pos hopen, foldl_take_of_isOpen job.phase turn.job hopen]
      · rw [if_neg hopen, receive_of_not_isOpen hopen]
        rfl

omit [Network N K] in
/-- The number of closed depths does not count for what is handed in in time. -/
theorem foldl_take_epoch (criteria : Criteria K) (handIns : List (HandIn K)) (best : Best K)
    (epoch last : Nat) :
    { handIns.foldl (HandIn.take criteria) { best with epoch } with epoch := last } =
      { handIns.foldl (HandIn.take criteria) best with epoch := last } := by
  cases handIns <;> rfl

/-- What is shared after some events is what comes of the leaves that are handed in in time. -/
theorem best_after (events : List (Event σ)) : (s.after services events m).crew.best =
    { (s.timely services events m).foldl (HandIn.take s.criteria) m.crew.best with
      epoch := (s.after services events m).crew.best.epoch } := by
  induction events generalizing m with
  | nil => rfl
  | cons event events ih =>
    rw [after_cons, timely, List.foldl_append, ih, best_pass (m := m) event, foldl_take_epoch]

/-! ### Without the turns of late jobs -/

/-- Two moments that differ at most in how far late jobs have come. -/
structure Alike (m other : Moment N K) : Prop where
  best_eq : other.crew.best = m.crew.best
  base_eq : other.base = m.base
  isExploring_eq : other.isExploring = m.isExploring
  length_eq : other.crew.jobs.length = m.crew.jobs.length
  epoch_le : ∀ job ∈ m.crew.jobs, job.task.epoch ≤ m.crew.best.epoch
  /-- The jobs of the open depth are the same. -/
  jobs : ∀ (i : Nat) (job : Job N K), m.crew.jobs[i]? = some job →
    m.crew.best.isOpen job.task.epoch = true → other.crew.jobs[i]? = some job

omit [Scalar K] [Network N K] in
/-- A search is like itself when it sets out. -/
theorem alike_outset (root : FinalizedLeaf K) :
    Alike (Moment.outset root : Moment N K) (.outset root) :=
  ⟨rfl, rfl, rfl, rfl, fun _ hjob => (List.not_mem_nil hjob).elim, fun _ _ h _ => h⟩

namespace Alike

variable (h : Alike m other)
include h

theorem enter : Alike (s.pass services m .enter) (s.pass services other .enter) := by
  have hsame : s.mayEnter other = s.mayEnter m := by
    simp only [mayEnter, Crew.hasAdvanced, h.best_eq, h.isExploring_eq]
  by_cases hmay : s.mayEnter m = true
  · rw [pass_enter_of_mayEnter hmay, pass_enter_of_mayEnter (hsame.trans hmay), h.best_eq]
    refine ⟨h.best_eq, rfl, rfl, ?_, ?_, ?_⟩
    · simp [Crew.enlist, h.length_eq]
    · intro job hjob
      rcases List.mem_append.mp hjob with hold | hnew
      · exact h.epoch_le job hold
      · obtain ⟨task, htask, rfl⟩ := List.mem_map.mp hnew
        exact (tries_of_mem_tasks htask).1.le
    · intro i job hi hopen
      simp only [Crew.enlist, List.getElem?_append, h.length_eq] at hi ⊢
      by_cases hold : i < m.crew.jobs.length
      · rw [if_pos hold] at hi ⊢
        exact h.jobs i job hi hopen
      · rwa [if_neg hold] at hi ⊢
  · rwa [pass_enter_of_not hmay, pass_enter_of_not (hsame ▸ hmay)]

/-- When a depth is closed, its jobs become late. -/
theorem close : Alike (s.pass services m .close) (s.pass services other .close) := by
  by_cases hexploring : m.isExploring = true
  · rw [pass_close_of_isExploring hexploring,
      pass_close_of_isExploring (h.isExploring_eq.trans hexploring)]
    refine ⟨congrArg Best.close h.best_eq, h.base_eq, rfl, h.length_eq, ?_, ?_⟩
    · intro job hjob
      exact Nat.le_succ_of_le (h.epoch_le job hjob)
    · intro i job hi hopen
      have hle := h.epoch_le job (List.mem_of_getElem? hi)
      have hlast : m.crew.best.epoch + 1 = job.task.epoch := beq_iff_eq.mp hopen
      omega
  · rwa [pass_close_of_not hexploring, pass_close_of_not (h.isExploring_eq ▸ hexploring)]

/-- A step of a late job leaves a moment like the others. -/
theorem move_of_isLate {turn : Turn σ} (hlate : m.crew.isLate turn.job = true) :
    Alike (s.pass services m (.move turn)) other := by
  have hbest : (m.crew.move (s.step services) turn.job turn.services).1.best = m.crew.best :=
    Crew.best_move_of_isLate hlate turn.services
  rw [pass_move]
  refine ⟨?_, h.base_eq, h.isExploring_eq, ?_, ?_, ?_⟩
  · rw [hbest, h.best_eq]
  · rw [Crew.length_move, h.length_eq]
  · rw [hbest]
    intro job hjob
    obtain ⟨old, hold, htask⟩ := Crew.exists_task_of_mem_move hjob
    rw [← htask]
    exact h.epoch_le old hold
  · rw [hbest]
    intro i job hi hopen
    by_cases hturn : turn.job = i
    · subst hturn
      have htask : ((m.crew.move (s.step services) turn.job turn.services).1.jobs[turn.job]?).map
          Job.task = (m.crew.jobs[turn.job]?).map Job.task := Crew.map_task_move ..
      rw [hi] at htask
      obtain ⟨old, hold, htask⟩ := Option.map_eq_some_iff.mp htask.symm
      rw [Crew.isLate_of_some hold, htask, hopen] at hlate
      cases hlate
    · rw [Crew.getElem?_move_of_ne hturn] at hi
      exact h.jobs i job hi hopen

/-- A step of a job that is not late is the same in both. -/
theorem move_of_not_isLate {turn : Turn σ} (hlate : ¬m.crew.isLate turn.job = true) :
    Alike (s.pass services m (.move turn)) (s.pass services other (.move turn)) := by
  rw [pass_move, pass_move]
  cases hi : m.crew.jobs[turn.job]? with
  | none =>
    have hother : other.crew.jobs[turn.job]? = none := by
      rw [List.getElem?_eq_none_iff] at hi ⊢
      rwa [h.length_eq]
    rwa [Crew.move_of_none hi, Crew.move_of_none hother]
  | some job =>
    obtain ⟨task, phase⟩ := job
    rw [Crew.isLate_of_some hi, Bool.not_eq_true', Bool.not_eq_false] at hlate
    have hother := h.jobs _ _ hi hlate
    refine ⟨?_, h.base_eq, h.isExploring_eq, ?_, ?_, ?_⟩
    · rw [Crew.move_of_some hi, Crew.move_of_some hother, h.best_eq]
    · rw [Crew.length_move, Crew.length_move, h.length_eq]
    · rw [epoch_move]
      intro job hjob
      obtain ⟨old, hold, htask⟩ := Crew.exists_task_of_mem_move hjob
      rw [← htask]
      exact h.epoch_le old hold
    · intro i job hj hopen
      rw [isOpen_move (s.onlySubmits_step services)] at hopen
      by_cases hturn : turn.job = i
      · subst hturn
        rw [Crew.getElem?_move_self _ _ hi] at hj
        rw [Crew.getElem?_move_self _ _ hother, h.best_eq]
        exact hj
      · rw [Crew.getElem?_move_of_ne hturn] at hj ⊢
        exact h.jobs i job hj hopen

omit [Scalar K] [Network N K] in
/-- What is handed in in time is the same in both. -/
theorem timely?_eq {event : Event σ} (hlate : ¬m.isLate event = true) :
    other.timely? event = m.timely? event := by
  cases event with
  | enter | close => rfl
  | move turn =>
    cases hi : m.crew.jobs[turn.job]? with
    | none =>
      have hother : other.crew.jobs[turn.job]? = none := by
        rw [List.getElem?_eq_none_iff] at hi ⊢
        rwa [h.length_eq]
      simp [Moment.timely?, Crew.handIn?, hi, hother]
    | some job =>
      rw [Moment.isLate, Crew.isLate_of_some hi, Bool.not_eq_true', Bool.not_eq_false] at hlate
      rw [timely?_move_of_some hi, timely?_move_of_some (h.jobs _ _ hi hlate), h.best_eq]

end Alike

omit [Scalar K] [Network N K] in
/-- A late job hands in nothing in time. -/
theorem timely?_of_isLate {event : Event σ} (hlate : m.isLate event = true) :
    m.timely? event = none := by
  cases event with
  | enter | close => rfl
  | move turn =>
    cases hi : m.crew.jobs[turn.job]? with
    | none => simp [Moment.timely?, Crew.handIn?, hi]
    | some job =>
      rw [Moment.isLate, Crew.isLate_of_some hi, Bool.not_eq_true'] at hlate
      rw [timely?_move_of_some hi, hlate]
      rfl

/-- Without the turns of late jobs, a search comes to a moment like the one that it comes to with
them, and the same is handed in in time. -/
theorem Alike.withoutLate (s : Search N K) (services : Services N K σ) (h : Alike m other)
    (events : List (Event σ)) :
    Alike (s.after services events m)
        (s.after services (s.withoutLate services events m) other) ∧
      s.timely services (s.withoutLate services events m) other = s.timely services events m := by
  induction events generalizing m other with
  | nil => exact ⟨h, rfl⟩
  | cons event events ih =>
    rw [after_cons, Search.withoutLate, Search.timely]
    by_cases hlate : m.isLate event = true
    · rw [if_pos hlate, timely?_of_isLate hlate]
      cases event with
      | enter | close => cases hlate
      | move turn => exact ih (h.move_of_isLate hlate)
    · rw [if_neg hlate, after_cons, Search.timely, h.timely?_eq hlate]
      have hnext : Alike (s.pass services m event) (s.pass services other event) := by
        cases event with
        | enter => exact h.enter
        | close => exact h.close
        | move turn => exact h.move_of_not_isLate hlate
      obtain ⟨halike, hsame⟩ := ih hnext
      exact ⟨halike, congrArg _ hsame⟩

/-- No step of a job whose depth is not the one being explored changes what tasks share, at
whatever point the job is and however many depths have been closed since. So a search ends with
what comes of the leaves that are handed in before the depths of their tasks are closed, one after
the other, and without the turns of late jobs it would end with the same. A search in time is told
by such a list of events. -/
theorem closed_depths_inert (s : Search N K) (services : Services N K σ) :
    (∀ (crew : Crew N K) (i : Nat) (job : Job N K) (state : σ), crew.jobs[i]? = some job →
        job.task.epoch ≠ crew.best.epoch →
          (crew.move (s.step services) i state).1.best = crew.best) ∧
      (∀ (root : FinalizedLeaf K) (events : List (Event σ)),
        let start := Moment.outset root
        let last := s.after services events start
        let kept := s.withoutLate services events start
        last.crew.best =
            { (s.timely services events start).foldl (HandIn.take s.criteria) { leaf := root } with
              epoch := last.crew.best.epoch } ∧
          s.timely services kept start = s.timely services events start ∧
          (s.after services kept start).crew.best = last.crew.best) ∧
      ∀ state, ∃ events, (s.run services state).1 =
        (s.after services events (.outset (s.root services state).1.finalize)).result := by
  refine ⟨?_, ?_, s.exists_events services⟩
  · intro crew i job state hi hepoch
    refine Crew.best_move_of_isLate ?_ state
    rw [Crew.isLate_of_some hi, Bool.not_eq_true', Best.isOpen, beq_eq_false_iff_ne]
    exact hepoch.symm
  · intro root events start last kept
    obtain ⟨halike, htimely⟩ := (alike_outset root).withoutLate s services events
    exact ⟨best_after events, htimely, halike.best_eq⟩

end Search

/-- The search for the least cost on two switches, in its second depth. The job of the first switch
has taken all turns but its last one when the first depth is closed. -/
def TwoSwitches.leftBehind : Moment (LinearNetwork ℚ) ℚ :=
  (search (network 100 0 50) .minObjective 0).after services
    (.enter :: List.replicate 7 (.move ⟨0, ()⟩) ++ List.replicate 8 (.move ⟨1, ()⟩) ++
      [.close, .enter])
    (.outset (root (search (network 100 0 50) .minObjective 0)))

/-- The leaf of the first switch is cheaper than the best one, but it comes too late. -/
theorem Search.closed_depths_inert_leftBehind :
    ∃ job, TwoSwitches.leftBehind.crew.jobs[0]? = some job ∧
      job.task.epoch ≠ TwoSwitches.leftBehind.crew.best.epoch ∧
      (∃ leaf, job.phase.leaf? = some leaf ∧
        Criteria.isCheaper leaf.cost? TwoSwitches.leftBehind.crew.best.leaf.cost? = true) ∧
      (TwoSwitches.leftBehind.crew.move
        ((TwoSwitches.search (TwoSwitches.network 100 0 50) .minObjective 0).step
          TwoSwitches.services) 0 ()).1.best = TwoSwitches.leftBehind.crew.best := by
  have hlate : ((TwoSwitches.leftBehind.crew.jobs[0]?).any fun job =>
      job.task.epoch != TwoSwitches.leftBehind.crew.best.epoch &&
        (job.phase.leaf?).any fun leaf =>
          Criteria.isCheaper leaf.cost? TwoSwitches.leftBehind.crew.best.leaf.cost?) = true := by
    decide +kernel
  rw [Option.any_eq_true] at hlate
  obtain ⟨job, hjob, hlate⟩ := hlate
  rw [Bool.and_eq_true, bne_iff_ne, Option.any_eq_true] at hlate
  obtain ⟨hepoch, hleaf⟩ := hlate
  refine ⟨job, hjob, hepoch, hleaf, ?_⟩
  exact (closed_depths_inert (TwoSwitches.search (TwoSwitches.network 100 0 50) .minObjective 0)
    TwoSwitches.services).1 _ 0 job () hjob hepoch

end GridRelief
