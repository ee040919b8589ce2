import GridRelief.Proofs.Search.Course
import GridRelief.Search.Moment

/-!
# What is told step by step

What happens in a course, and in a search in time, is told by a list of events, so what holds at all
moments holds of them. At every moment the best leaf is the one that the last depth started from, or
it is an improvement on that leaf which a task of the last depth has handed in.

* `Search.exists_events`: a course is told by a list of events, and so is a search in time.
* `Search.Reaches.visits`: the crew of a moment is one that the search visits.
* `Search.Improves`: a task of the last depth has handed in the best leaf.
* `Search.Reaches.stands`: where the search stands at every moment.
-/

namespace GridRelief

variable {K N σ : Type} [Scalar K] [Network N K]

namespace Search

variable {s : Search N K} {services : Services N K σ} {m : Moment N K}

/-! ### One event after the other -/

@[simp] theorem after_nil : s.after services [] m = m := rfl

theorem after_cons (event : Event σ) (events : List (Event σ)) :
    s.after services (event :: events) m = s.after services events (s.pass services m event) := rfl

theorem after_append (events later : List (Event σ)) :
    s.after services (events ++ later) m = s.after services later (s.after services events m) :=
  List.foldl_append

theorem pass_enter_of_mayEnter (h : s.mayEnter m = true) :
    s.pass services m .enter =
      ⟨m.crew.enlist (s.tasks m.crew.best.epoch m.crew.best.leaf), m.crew.best.leaf, true⟩ :=
  if_pos h

theorem pass_enter_of_not (h : ¬s.mayEnter m = true) : s.pass services m .enter = m := if_neg h

theorem pass_move (turn : Turn σ) : s.pass services m (.move turn) =
    { m with crew := (m.crew.move (s.step services) turn.job turn.services).1 } := rfl

theorem pass_close_of_isExploring (h : m.isExploring = true) :
    s.pass services m .close = { m with crew := m.crew.close, isExploring := false } := if_pos h

theorem pass_close_of_not (h : ¬m.isExploring = true) : s.pass services m .close = m := if_neg h

/-- What may not happen changes nothing, so a property of what comes of an event is one of the
moment itself, of a depth that may be entered, of turns, and of a depth that is closed. -/
theorem pass_induction {P : Moment N K → Prop} (hsame : P m)
    (henter : s.mayEnter m = true → P (s.pass services m .enter))
    (hmove : ∀ turn, P (s.pass services m (.move turn)))
    (hclose : m.isExploring = true → P (s.pass services m .close)) (event : Event σ) :
    P (s.pass services m event) := by
  cases event with
  | enter =>
    by_cases hmay : s.mayEnter m = true
    · exact henter hmay
    · rwa [pass_enter_of_not hmay]
  | move turn => exact hmove turn
  | close =>
    by_cases hexploring : m.isExploring = true
    · exact hclose hexploring
    · rwa [pass_close_of_not hexploring]

omit [Network N K] in
/-- A further depth is explored when the last one has been closed and has brought an improvement,
the best leaf does not reach the stop criterion, and the greatest depth has not been reached. -/
theorem mayEnter_iff : s.mayEnter m = true ↔
    m.isExploring = false ∧ m.crew.best.epoch < s.parameters.tree.maxDepth ∧
      m.crew.hasAdvanced = true ∧ ¬s.criteria.reachesStop m.crew.best.leaf = true := by
  simp [mayEnter, and_assoc]

/-- Turns one after the other are what jobs side by side do. -/
theorem after_map_move (turns : List (Turn σ)) : s.after services (turns.map .move) m =
    { m with crew := m.crew.interleave (s.step services) turns } := by
  induction turns generalizing m with
  | nil => rfl
  | cons turn turns ih =>
    rw [List.map_cons, after_cons, ih]
    rfl

/-- A depth with some turns is entered, goes on for these turns and is closed. -/
theorem after_ofDepth (services : Services N K σ) (h : s.mayEnter m = true)
    (turns : List (Turn σ)) :
    s.after services (Event.ofDepth turns) m =
      ⟨s.afterDepth services turns m.crew, m.crew.best.leaf, false⟩ := by
  rw [Event.ofDepth, List.cons_append, after_cons, after_append, pass_enter_of_mayEnter h,
    after_map_move]
  rfl

/-! ### Counting depths -/

omit [Network N K] in
@[simp] theorem epoch_receive (task : Task K) (best : Best K) (phase : TaskPhase N K) :
    (s.receive task best phase).epoch = best.epoch := by
  cases phase <;> simp [receive]

/-- No job closes a depth. -/
@[simp] theorem epoch_move (crew : Crew N K) (i : Nat) (state : σ) :
    (crew.move (s.step services) i state).1.best.epoch = crew.best.epoch := by
  rcases best_move_cases (s.onlySubmits_step services) crew i state with hsame | ⟨_, _, hreceived⟩
  · rw [hsame]
  · rw [hreceived, epoch_receive]

@[simp] theorem epoch_afterDepth (turns : List (Turn σ)) (crew : Crew N K) :
    (s.afterDepth services turns crew).best.epoch = crew.best.epoch + 1 := by
  suffices hturns : ((crew.enlist (s.tasks crew.best.epoch crew.best.leaf)).interleave
      (s.step services) turns).best.epoch = crew.best.epoch from congrArg (· + 1) hturns
  refine Crew.interleave_induction (P := fun c => c.best.epoch = crew.best.epoch) ?_ turns rfl
  intro c i state h
  rw [epoch_move, h]

omit [Scalar K] [Network N K] in
theorem depths_eq_of_not_isExploring (h : m.isExploring = false) :
    m.depths = m.crew.best.epoch := by
  simp [Moment.depths, h]

/-- The number of depths goes up when one is entered. -/
theorem depths_pass (s : Search N K) (services : Services N K σ) (m : Moment N K)
    (event : Event σ) : (s.pass services m event).depths = m.depths ∨
    (s.mayEnter m = true ∧ event = .enter ∧ (s.pass services m event).depths = m.depths + 1) := by
  cases event with
  | enter =>
    by_cases hmay : s.mayEnter m = true
    · refine .inr ⟨hmay, rfl, ?_⟩
      rw [depths_eq_of_not_isExploring (mayEnter_iff.mp hmay).1, pass_enter_of_mayEnter hmay]
      rfl
    · exact .inl (by rw [pass_enter_of_not hmay])
  | move turn => exact .inl (by simp [pass_move, Moment.depths])
  | close =>
    by_cases hexploring : m.isExploring = true
    · refine .inl ?_
      rw [pass_close_of_isExploring hexploring, Moment.depths, Moment.depths, hexploring]
      rfl
    · exact .inl (by rw [pass_close_of_not hexploring])

/-! ### Courses -/

/-- The crews at the ends of further depths are there after some events. -/
theorem exists_events_of_mem_depths {left : Nat} {schedule : List (List (Turn σ))}
    (hclosed : m.isExploring = false) (hadvanced : m.crew.hasAdvanced = true)
    (hleft : m.crew.best.epoch + left ≤ s.parameters.tree.maxDepth) :
    ∀ later ∈ s.depths services left schedule m.crew,
      ∃ events, (s.after services events m).crew = later := by
  induction left generalizing schedule m with
  | zero =>
    intro later hlater
    simp [depths] at hlater
  | succ left ih =>
    intro later hlater
    rw [depths] at hlater
    split at hlater
    · simp at hlater
    · next hstop =>
      have hlt : m.crew.best.epoch < s.parameters.tree.maxDepth := by omega
      have hdepth := after_ofDepth services
        (mayEnter_iff.mpr ⟨hclosed, hlt, hadvanced, hstop⟩) (schedule.headD [])
      rcases List.mem_cons.mp hlater with rfl | hrest
      · exact ⟨Event.ofDepth (schedule.headD []), by rw [hdepth]⟩
      · split at hrest
        · next hagain =>
          -- the events of the first depth are followed by those of the others
          obtain ⟨events, hevents⟩ := ih (m := s.after services
            (Event.ofDepth (schedule.headD [])) m) (by rw [hdepth]) (by rwa [hdepth])
            (by rw [hdepth, epoch_afterDepth]; omega) later (by rwa [hdepth])
          exact ⟨_, (congrArg Moment.crew (after_append _ events)).trans hevents⟩
        · simp at hrest

/-- The crew at the end of a depth of a course is there after some events, and the root has not
ended the search. -/
theorem exists_events_of_mem_crews {schedule : List (List (Turn σ))} {state : σ}
    {crew : Crew N K} (hcrew : crew ∈ (s.course services schedule state).crews) :
    ¬((s.root services state).1.status = .failed || s.stopsAt (s.root services state).1) ∧
      ∃ events, (s.after services events
        (.outset (s.root services state).1.finalize)).crew = crew := by
  unfold course at hcrew
  dsimp only at hcrew
  split at hcrew
  · simp at hcrew
  · next hends => exact ⟨hends, exists_events_of_mem_depths rfl rfl (Nat.zero_add _).le crew hcrew⟩

/-- What a course ends with is there after some events. -/
theorem exists_events_of_course (s : Search N K) (services : Services N K σ)
    (schedule : List (List (Turn σ))) (state : σ) :
    ∃ events, (s.course services schedule state).result =
      (s.after services events (.outset (s.root services state).1.finalize)).result := by
  cases hlast : (s.course services schedule state).crews.getLast? with
  | none =>
    refine ⟨[], ?_⟩
    rw [Course.result, hlast]
    rfl
  | some crew =>
    obtain ⟨-, events, hevents⟩ := exists_events_of_mem_crews (List.mem_of_getLast? hlast)
    refine ⟨events, ?_⟩
    rw [Course.result, hlast, Moment.result, hevents]

/-- What a search in time ends with is there after some events. -/
theorem exists_events (s : Search N K) (services : Services N K σ) (state : σ) :
    ∃ events, (s.run services state).1 =
      (s.after services events (.outset (s.root services state).1.finalize)).result := by
  obtain ⟨schedule, hschedule⟩ := s.exists_schedule services state
  obtain ⟨events, hevents⟩ := s.exists_events_of_course services schedule state
  exact ⟨events, hschedule.trans hevents⟩

/-! ### Moments of all runs -/

namespace Reaches

/-- What happens after a moment leads to others. -/
theorem after (h : s.Reaches services m) (events : List (Event σ)) :
    s.Reaches services (s.after services events m) := by
  induction events generalizing m with
  | nil => exact h
  | cons event events ih => exact ih (h.pass event)

/-- The crew of a moment is one that the search visits. -/
theorem visits (h : s.Reaches services m) : s.Visits services m.crew := by
  induction h with
  | outset state _ => exact .start state
  | @pass m _ event ih =>
    refine pass_induction (P := fun next => s.Visits services next.crew) ih ?_ ?_ ?_ event
    · intro hmay
      rw [pass_enter_of_mayEnter hmay]
      exact ih.enlist (mayEnter_iff.mp hmay).2.2.1
    · intro turn
      exact ih.move turn.job turn.services
    · intro hexploring
      rw [pass_close_of_isExploring hexploring]
      exact ih.close

end Reaches

/-! ### Where a search stands -/

/-- A task comes to hand in a leaf at some moment. -/
def HandsIn (s : Search N K) (services : Services N K σ) (task : Task K)
    (leaf : FinalizedLeaf K) : Prop :=
  ∃ crew : Crew N K, s.Visits services crew ∧ ⟨task, .finished leaf⟩ ∈ crew.jobs

/-- The best leaf is the one that the last depth started from. -/
structure Rests (depths : Nat) (base : FinalizedLeaf K) (best : Best K) : Prop where
  leaf_eq : best.leaf = base
  depth_eq : best.depth = depths - 1
  stop_eq : best.stop = none

/-- A task of the last depth has handed in the best leaf, as an improvement on the leaf that the
depth started from. -/
structure Improves (s : Search N K) (services : Services N K σ) (depths : Nat)
    (base : FinalizedLeaf K) (best : Best K) (task : Task K) : Prop where
  depths_eq : depths = task.epoch + 1
  depth_eq : best.depth = task.epoch + 1
  mem_tasks : task ∈ s.tasks task.epoch base
  handsIn : s.HandsIn services task best.leaf
  isImprovement : s.criteria.isImprovement base best.leaf = true
  stop_eq : best.stop =
    if s.criteria.reachesStop best.leaf then some task.candidate.combination else none

/-- Where a search stands at some moment. -/
structure Stands (s : Search N K) (services : Services N K σ) (m : Moment N K) : Prop where
  finalized : ∃ leaf : Leaf N K, leaf.finalize = m.base
  result : ∃ result, m.base.result? = some result
  goesOn : s.criteria.reachesStop m.base = false
  best : Rests m.depths m.base m.crew.best ∨
    ∃ task, s.Improves services m.depths m.base m.crew.best task
  epoch_lt : ∀ job ∈ m.crew.jobs, job.task.epoch < m.depths
  mem_tasks : ∀ job ∈ m.crew.jobs, job.task.epoch + 1 = m.depths →
    job.task ∈ s.tasks job.task.epoch m.base

omit [Network N K] in
/-- An improvement has results. -/
theorem exists_result_of_isImprovement {criteria : Criteria K} {previous leaf : FinalizedLeaf K}
    (h : criteria.isImprovement previous leaf = true) : ∃ result, leaf.result? = some result := by
  cases hresult : leaf.result? with
  | some result => exact ⟨result, rfl⟩
  | none =>
    have hcost : leaf.cost? = none := by rw [FinalizedLeaf.cost?, hresult]; rfl
    cases hprevious : previous.cost? <;>
      simp [Criteria.isImprovement, Criteria.isCheaper, hcost, hprevious] at h

namespace Stands

variable (h : s.Stands services m)
include h

/-- The best leaf has results. -/
theorem result_best : ∃ result, m.crew.best.leaf.result? = some result := by
  rcases h.best with hrests | ⟨task, himproves⟩
  · rw [hrests.leaf_eq]
    exact h.result
  · exact exists_result_of_isImprovement himproves.isImprovement

/-- As long as the best leaf does not reach the stop criterion, no combination is noted. -/
theorem stop_eq_none (hstop : s.criteria.reachesStop m.crew.best.leaf = false) :
    m.crew.best.stop = none := by
  rcases h.best with hrests | ⟨task, himproves⟩
  · exact hrests.stop_eq
  · rw [himproves.stop_eq, hstop]
    rfl

/-- A depth that is entered starts from the best leaf. -/
theorem enter (hvisits : s.Visits services m.crew) (hmay : s.mayEnter m = true) :
    s.Stands services (s.pass services m .enter) := by
  obtain ⟨hclosed, -, hadvanced, hstop⟩ := mayEnter_iff.mp hmay
  have hgoesOn := Bool.eq_false_iff.mpr hstop
  have hdepths := depths_eq_of_not_isExploring hclosed
  rw [pass_enter_of_mayEnter hmay]
  refine ⟨?_, h.result_best, hgoesOn, .inl ⟨rfl, ?_, h.stop_eq_none hgoesOn⟩, ?_, ?_⟩
  · obtain ⟨leaf, -, hleaf⟩ := (inherits_true.tendsAll hvisits).best
    exact ⟨leaf, hleaf⟩
  · exact beq_iff_eq.mp hadvanced
  · intro job hjob
    rcases List.mem_append.mp hjob with hold | hnew
    · have hlt := h.epoch_lt job hold
      rw [hdepths] at hlt
      exact Nat.lt_succ_of_lt hlt
    · obtain ⟨task, htask, rfl⟩ := List.mem_map.mp hnew
      exact Nat.lt_succ_of_le (tries_of_mem_tasks htask).1.le
  · intro job hjob hlast
    rcases List.mem_append.mp hjob with hold | hnew
    · have hlt := h.epoch_lt job hold
      have hlast : job.task.epoch + 1 = m.crew.best.epoch + 1 := hlast
      omega
    · obtain ⟨task, htask, rfl⟩ := List.mem_map.mp hnew
      rwa [(tries_of_mem_tasks htask).1]

/-- A step of a job leaves what is shared as it is, or hands in an improvement. -/
theorem receive (hvisits : s.Visits services m.crew) {task : Task K} {phase : TaskPhase N K}
    (hjob : ⟨task, phase⟩ ∈ m.crew.jobs) :
    s.receive task m.crew.best phase = m.crew.best ∨
      s.Improves services m.depths m.base (s.receive task m.crew.best phase) task := by
  cases phase with
  | finished final =>
    by_cases hopen : m.crew.best.isOpen task.epoch = true
    · rcases Best.submit_cases s.criteria task.epoch task.previous final
        task.candidate.combination m.crew.best with ⟨himproved, hbeaten, haccepted⟩ | ⟨-, hsame⟩
      · right
        have hepoch : m.crew.best.epoch = task.epoch := beq_iff_eq.mp hopen
        have hdepths : m.depths = task.epoch + 1 := by
          have hlt := h.epoch_lt _ hjob
          have hle := Bool.toNat_le m.isExploring
          unfold Moment.depths at hlt ⊢
          dsimp only at hlt
          omega
        have hmem := h.mem_tasks _ hjob hdepths.symm
        dsimp only at hmem
        rw [(tries_of_mem_tasks hmem).2.1] at himproved
        rw [Search.receive, haccepted]
        refine ⟨hdepths, rfl, hmem, ⟨m.crew, hvisits, hjob⟩, himproved, ?_⟩
        dsimp only
        split
        · rfl
        · next hstops =>
          cases hstop : m.crew.best.stop with
          | none => rfl
          | some stop => simp [Best.isBeaten, hstop, hstops] at hbeaten
      · exact .inl hsame
    · left
      simp [Search.receive, Best.submit, hopen]
  | _ => exact .inl rfl

/-- No job that moves changes what the depth started from, nor what its tasks are. -/
theorem move (hvisits : s.Visits services m.crew) (turn : Turn σ) :
    s.Stands services (s.pass services m (.move turn)) := by
  have hdepths : (s.pass services m (.move turn)).depths = m.depths := by
    simp [pass_move, Moment.depths]
  refine ⟨h.finalized, h.result, h.goesOn, ?_, ?_, ?_⟩
  · rw [hdepths, pass_move]
    cases hi : m.crew.jobs[turn.job]? with
    | none =>
      rw [Crew.move_of_none hi]
      exact h.best
    | some job =>
      obtain ⟨task, phase⟩ := job
      rw [Crew.move_of_some hi, s.onlySubmits_step services]
      rcases h.receive hvisits (List.mem_of_getElem? hi) with hbest | himproves
      · rw [hbest]
        exact h.best
      · exact .inr ⟨task, himproves⟩
  · intro job hjob
    obtain ⟨old, hold, htask⟩ := Crew.exists_task_of_mem_move hjob
    rw [hdepths, ← htask]
    exact h.epoch_lt old hold
  · intro job hjob hlast
    obtain ⟨old, hold, htask⟩ := Crew.exists_task_of_mem_move hjob
    rw [hdepths, ← htask] at hlast
    rw [← htask]
    exact h.mem_tasks old hold hlast

theorem close (hexploring : m.isExploring = true) :
    s.Stands services (s.pass services m .close) := by
  have hdepths : (s.pass services m .close).depths = m.depths := by
    rcases s.depths_pass services m .close with hsame | ⟨-, hevent, -⟩
    · exact hsame
    · cases hevent
  rw [pass_close_of_isExploring hexploring] at hdepths ⊢
  refine ⟨h.finalized, h.result, h.goesOn, ?_, ?_, ?_⟩
  · rw [hdepths]
    rcases h.best with hrests | ⟨task, himproves⟩
    · exact .inl ⟨hrests.leaf_eq, hrests.depth_eq, hrests.stop_eq⟩
    · exact .inr ⟨task, himproves.depths_eq, himproves.depth_eq, himproves.mem_tasks,
        himproves.handsIn, himproves.isImprovement, himproves.stop_eq⟩
  · rw [hdepths]
    exact h.epoch_lt
  · rw [hdepths]
    exact h.mem_tasks

end Stands

/-- A root that has not failed has results. -/
theorem exists_result_root {state : σ} (h : (s.root services state).1.status ≠ .failed) :
    ∃ result, (s.root services state).1.result = .ok result := by
  unfold root at h ⊢
  rcases hevaluate : (Leaf.root s.situation).evaluate services s.situation.objective state
    with ⟨leaf, after⟩
  have hresult := (Leaf.root s.situation).exists_result_evaluate services s.situation.objective
    state
  rw [hevaluate] at hresult
  simp only [bind, StateT.bind, hevaluate] at h ⊢
  by_cases hends : (leaf.status = .failed || s.stopsAt leaf) = true
  · rw [if_pos hends] at h ⊢
    exact hresult h
  · rw [if_neg hends]
    apply Leaf.exists_result_optimize
    apply hresult
    intro hfailed
    simp [hfailed] at hends

/-- A search that its root does not end sets out from it. -/
theorem stands_outset {state : σ}
    (hends : ¬((s.root services state).1.status = .failed ||
      s.stopsAt (s.root services state).1)) :
    s.Stands services (.outset (s.root services state).1.finalize) := by
  simp only [Bool.or_eq_true, decide_eq_true_eq, not_or] at hends
  obtain ⟨result, hresult⟩ := exists_result_root hends.1
  refine ⟨⟨_, rfl⟩, ⟨result, Leaf.result?_finalize.mpr hresult⟩, ?_, .inl ⟨rfl, rfl, rfl⟩, ?_, ?_⟩
  · rw [Moment.outset, reachesStop_finalize]
    exact Bool.eq_false_iff.mpr hends.2
  · intro job hjob
    cases hjob
  · intro job hjob
    cases hjob

/-- Where a search stands at every moment. -/
theorem Reaches.stands (h : s.Reaches services m) : s.Stands services m := by
  induction h with
  | outset state hends => exact stands_outset hends
  | pass hm event ih =>
    exact pass_induction ih (ih.enter hm.visits) (ih.move hm.visits) ih.close event

end Search

end GridRelief
