import GridRelief.Proofs.Search.Finished
import GridRelief.Proofs.Search.Moments
import GridRelief.Proofs.Search.TwoSwitches

/-!
# What tasks share at every moment

The best leaf and the stop combination are two parts of what tasks share, and no moment of any run
finds them at odds: a combination is noted just when the best leaf reaches the stop criterion, and
then the best leaf is what this combination comes to on top of the leaf that its depth started from.
From then on no further depth is entered, and only combinations of higher priority take its place.

* `Search.Pursues`: what a task holds is on the way to what its candidate comes to.
* `Search.HandsIn.exists_attempt`: a leaf that reaches the stop criterion is what a candidate comes
  to.
* `Search.Reaches.stop_after`: what becomes of the stop combination.
* `Search.shared_state_consistent`: what holds of the shared state at every moment.
-/

namespace GridRelief

variable {K N σ : Type} [Scalar K] [Network N K]

namespace Search

/-! ### What a task holds -/

/-- What a task holds is on the way to what its candidate comes to. A leaf that is handed in without
being optimised, because its combination was outranked, does not reach the stop criterion. -/
def Pursues (s : Search N K) (services : Services N K σ) (task : Task K) : TaskPhase N K → Prop
  | .built leaf | .confirmed leaf => s.build task = .ok leaf
  | .evaluated leaf | .cleared leaf =>
    ∃ built a, s.build task = .ok built ∧ s.assess services built a = .evaluated leaf
  | .finished final => s.criteria.reachesStop final = true →
    ∃ a b, s.attempt services task a b = some final
  | .queued | .opened | .admitted | .done => True

variable {s : Search N K} {services : Services N K σ} {m : Moment N K} {task : Task K}

omit [Network N K] in
/-- A leaf that is to be optimised does not reach the stop criterion. -/
theorem stopsAt_of_assess {leaf next : Leaf N K} {state : σ}
    (h : s.assess services leaf state = .evaluated next) : s.stopsAt next = false := by
  unfold assess afterEvaluation at h
  split at h
  · cases h
  · split at h
    · cases h
    · next hstops =>
      obtain rfl := TaskPhase.evaluated.inj h
      exact Bool.eq_false_iff.mpr hstops

/-- Every step of a task brings it nearer to what its candidate comes to. -/
theorem pursues_step {best : Best K} {phase : TaskPhase N K} (state : σ)
    (h : s.Pursues services task phase) :
    s.Pursues services task (s.step services task best phase state).1.2 := by
  cases phase with
  | queued =>
    rw [phase_step_queued]
    split <;> trivial
  | opened =>
    rw [phase_step_opened]
    split <;> trivial
  | admitted =>
    cases hbuild : s.build task with
    | error fault =>
      rw [phase_step_admitted_of_error hbuild]
      trivial
    | ok leaf =>
      rw [phase_step_admitted_of_ok hbuild]
      exact hbuild
  | built leaf =>
    rw [phase_step_built]
    split
    · exact h
    · trivial
  | confirmed leaf =>
    have hbuild : s.build task = .ok leaf := h
    change s.Pursues services task (s.assess services leaf state)
    rcases s.assess_cases services leaf state with hdone | ⟨final, hfinal⟩ | ⟨next, hnext⟩
    · rw [hdone]
      trivial
    · rw [hfinal]
      intro _
      exact ⟨state, state, by simp [attempt, conclude, hbuild, hfinal]⟩
    · rw [hnext]
      exact ⟨leaf, state, hbuild, hnext⟩
  | evaluated leaf =>
    obtain ⟨built, a, hbuild, hassess⟩ := h
    rw [phase_step_evaluated]
    split
    · -- the leaf of an outranked combination
      intro hstops
      rw [reachesStop_finalize, stopsAt_of_assess hassess] at hstops
      cases hstops
    · exact ⟨built, a, hbuild, hassess⟩
  | cleared leaf =>
    obtain ⟨built, a, hbuild, hassess⟩ := h
    intro _
    refine ⟨a, state, ?_⟩
    simp only [attempt, conclude, hbuild, hassess]
    rfl
  | finished leaf => trivial
  | done => trivial

/-- A leaf that a task hands in and that reaches the stop criterion is what its candidate comes
to. -/
theorem HandsIn.exists_attempt {leaf : FinalizedLeaf K} (h : s.HandsIn services task leaf)
    (hstops : s.criteria.reachesStop leaf = true) :
    ∃ a b, s.attempt services task a b = some leaf := by
  obtain ⟨crew, hvisits, hjob⟩ := h
  refine hvisits.jobs_induction (J := s.Pursues services) ?_ ?_ _ hjob hstops
  · intro task
    trivial
  · intro task best phase state hphase
    exact pursues_step state hphase

/-- The set-points that the leaf of a task starts from are known. -/
theorem Reaches.exists_startOf (h : s.Reaches services m) {job : Job N K}
    (hjob : job ∈ m.crew.jobs) : ∃ start, s.startOf job.task = .ok start := by
  obtain ⟨parent, -, htask⟩ := ((inherits_true.tendsAll h.visits).jobs job hjob).parent
  obtain ⟨-, -, below, htries⟩ := tries_of_mem_tasks htask
  unfold startOf
  split
  · exact ⟨_, rfl⟩
  · rw [FinalizedLeaf.result, htries.result_eq]
    exact ⟨_, rfl⟩

/-! ### The stop combination -/

/-- A combination is noted just when the best leaf reaches the stop criterion. -/
theorem Stands.isSome_stop_iff (h : s.Stands services m) :
    m.crew.best.stop.isSome = true ↔ s.criteria.reachesStop m.crew.best.leaf = true := by
  rcases h.best with hrests | ⟨task, himproves⟩
  · simp [hrests.stop_eq, hrests.leaf_eq, h.goesOn]
  · rw [himproves.stop_eq]
    by_cases hstops : s.criteria.reachesStop m.crew.best.leaf = true <;> simp [hstops]

/-- An event changes the stop combination to one of higher priority, if at all. -/
theorem stop_pass (s : Search N K) (services : Services N K σ) {c : Combination K}
    (hstop : m.crew.best.stop = some c) (event : Event σ) :
    ∃ d, (s.pass services m event).crew.best.stop = some d ∧ (d = c ∨ d.priority c = .lt) := by
  refine pass_induction
    (P := fun next => ∃ d, next.crew.best.stop = some d ∧ (d = c ∨ d.priority c = .lt))
    ⟨c, hstop, .inl rfl⟩ ?_ ?_ ?_ event
  · intro hmay
    rw [pass_enter_of_mayEnter hmay]
    exact ⟨c, hstop, .inl rfl⟩
  · intro turn
    rw [pass_move]
    rcases best_move_cases (s.onlySubmits_step services) m.crew turn.job turn.services with
      hsame | ⟨task, phase, hreceived⟩
    · rw [hsame]
      exact ⟨c, hstop, .inl rfl⟩
    · rw [hreceived]
      cases phase with
      | finished leaf =>
        rcases Best.submit_stop s.criteria task.epoch task.previous leaf
          task.candidate.combination m.crew.best with hkept | ⟨hnew, hahead⟩
        · exact ⟨c, hkept.trans hstop, .inl rfl⟩
        · refine ⟨_, hnew, .inr ?_⟩
          simpa [Best.isAhead, hstop] using hahead
      | _ => exact ⟨c, hstop, .inl rfl⟩
  · intro hexploring
    rw [pass_close_of_isExploring hexploring]
    exact ⟨c, hstop, .inl rfl⟩

/-- Once a combination has been noted, no further depth is entered, and only combinations of higher
priority take its place. -/
theorem Reaches.stop_after (h : s.Reaches services m) {c : Combination K}
    (hstop : m.crew.best.stop = some c) (events : List (Event σ)) :
    (s.after services events m).depths = m.depths ∧ (s.after services events m).base = m.base ∧
      ∃ d, (s.after services events m).crew.best.stop = some d ∧
        (d = c ∨ d.priority c = .lt) := by
  induction events generalizing m c with
  | nil => exact ⟨rfl, rfl, c, hstop, .inl rfl⟩
  | cons event events ih =>
    -- the best leaf reaches the stop criterion, so no depth is entered
    have hstops := h.stands.isSome_stop_iff.mp (by rw [hstop]; rfl)
    have hnot : ¬s.mayEnter m = true := fun hmay => (mayEnter_iff.mp hmay).2.2.2 hstops
    have hbase : (s.pass services m event).base = m.base := by
      refine pass_induction (P := fun next => next.base = m.base) rfl ?_ ?_ ?_ event
      · intro hmay
        exact absurd hmay hnot
      · intro turn
        rfl
      · intro hexploring
        rw [pass_close_of_isExploring hexploring]
    have hdepths : (s.pass services m event).depths = m.depths := by
      rcases s.depths_pass services m event with hsame | ⟨hmay, -⟩
      · exact hsame
      · exact absurd hmay hnot
    obtain ⟨d, hd, hfirst⟩ := s.stop_pass services hstop event
    obtain ⟨hdepths', hbase', e, he, hrest⟩ := ih (h.pass event) hd
    refine ⟨hdepths'.trans hdepths, hbase'.trans hbase, e, he, ?_⟩
    rcases hrest with rfl | hrest
    · exact hfirst
    · rcases hfirst with rfl | hfirst
      · exact .inr hrest
      · exact .inr (Combination.priority_lt_trans hrest hfirst)

/-- At every moment of every run the best leaf has results, so candidates can be found for it, and
the set-points that the leaf of a task starts from are known. A combination has been noted just when
the best leaf reaches the stop criterion. Then the best leaf is what this combination comes to on
top of the leaf that the depth started from; whatever happens, no further depth is entered and only
a combination of higher priority takes the place of this one. -/
theorem shared_state_consistent (s : Search N K) (services : Services N K σ) (m : Moment N K)
    (h : s.Reaches services m) :
    (∃ result, m.crew.best.leaf.result = .ok result) ∧
      (∀ job ∈ m.crew.jobs, ∃ start, s.startOf job.task = .ok start) ∧
      (m.crew.best.stop.isSome = true ↔ s.criteria.reachesStop m.crew.best.leaf = true) ∧
      ∀ c, m.crew.best.stop = some c →
        (∃ epoch, m.depths = epoch + 1 ∧ ∃ task ∈ s.tasks epoch m.base,
          task.candidate.combination = c ∧
            ∃ a b, s.attempt services task a b = some m.crew.best.leaf) ∧
        ∀ events, let later := s.after services events m
          later.depths = m.depths ∧ later.base = m.base ∧
            ∃ d, later.crew.best.stop = some d ∧ (d = c ∨ d.priority c = .lt) := by
  have hstands := h.stands
  refine ⟨?_, fun job hjob => h.exists_startOf hjob, hstands.isSome_stop_iff, ?_⟩
  · obtain ⟨result, hresult⟩ := hstands.result_best
    exact ⟨result, by rw [FinalizedLeaf.result, hresult]⟩
  · intro c hstop
    refine ⟨?_, h.stop_after hstop⟩
    have hstops := hstands.isSome_stop_iff.mp (by rw [hstop]; rfl)
    rcases hstands.best with hrests | ⟨task, himproves⟩
    · rw [hrests.stop_eq] at hstop
      cases hstop
    · have heq := himproves.stop_eq
      rw [hstop, if_pos hstops] at heq
      exact ⟨task.epoch, himproves.depths_eq, task, himproves.mem_tasks,
        (Option.some.inj heq).symm, himproves.handsIn.exists_attempt hstops⟩

end Search

namespace TwoSwitches

/-- The search on two switches for a cost that opening either of them comes below. -/
def targetSearch : Search (LinearNetwork ℚ) ℚ := search (network 100 0 50) .atTarget (-340)

/-- The moment at which the second switch has been handed in, before the first one. -/
def stopped : Moment (LinearNetwork ℚ) ℚ :=
  targetSearch.after services (.enter :: List.replicate 8 (.move ⟨1, ()⟩))
    (.outset (root targetSearch))

/-- The first switch takes the place of the second one, which has reached the stop criterion. -/
theorem shared_state_consistent_stopped : targetSearch.Reaches services stopped ∧
    ∃ c d, stopped.crew.best.stop = some c ∧ c.ids = ["open-second"] ∧
      (targetSearch.after services (List.replicate 8 (.move ⟨0, ()⟩)) stopped).crew.best.stop =
        some d ∧ d.ids = ["open-first"] ∧ d.priority c = .lt := by
  have hreaches : targetSearch.Reaches services stopped :=
    (Search.Reaches.outset () (by decide +kernel)).after _
  have hfirst : stopped.crew.best.stop.map (·.ids) = some ["open-second"] := by decide +kernel
  have hlast : (targetSearch.after services (List.replicate 8 (.move ⟨0, ()⟩))
      stopped).crew.best.stop.map (·.ids) = some ["open-first"] := by decide +kernel
  obtain ⟨c, hc, hids⟩ := Option.map_eq_some_iff.mp hfirst
  obtain ⟨-, -, d, hd, hpriority⟩ :=
    ((targetSearch.shared_state_consistent services stopped hreaches).2.2.2 c hc).2
      (List.replicate 8 (.move ⟨0, ()⟩))
  rw [hd] at hlast
  have hids' : d.ids = ["open-first"] := Option.some.inj hlast
  refine ⟨hreaches, c, d, hc, hids, hd, hids', ?_⟩
  rcases hpriority with rfl | hlt
  · rw [hids] at hids'
    simp at hids'
  · exact hlt

end TwoSwitches

end GridRelief
