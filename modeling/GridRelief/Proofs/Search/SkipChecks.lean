import GridRelief.Proofs.Search.TwoSwitches
import GridRelief.Proofs.Search.Leaf

/-!
# Tasks may be skipped

A task looks at the stop combination twice, before its leaf is built and before it is optimised,
and acts on what it has seen while the combination may change. Nothing is lost by it. The proof is
a simulation by a crew that never looks: what tasks share is the same, and each job is either at
the same point in both crews or behind the stop combination, where it stays and where its hand-in
has no effect.

* `Search.stepsLeft_assess`: what a leaf comes to tells how its evaluation ends.
* `Search.Twins.step`: one step of a job in both crews.
* `Search.Shadows.interleave`: the simulation.
* `Search.best_crewAfter_eq_unchecked`: what tasks share is the same with and without checks.
-/

namespace GridRelief.Search

variable {K N σ : Type} [Scalar K] [Network N K]
variable {s : Search N K} {services : Services N K σ} {task : Task K} {best : Best K}
  {phase : TaskPhase N K} {outcome : Option (FinalizedLeaf K)} {state : σ}

/-! ### Where a task stands on its way to an outcome -/

/-- The steps that are left after the evaluation of a leaf that comes to an outcome: a leaf that
has reached the stop criterion without being optimised only has to be handed in. -/
def stepsAfterEvaluation (s : Search N K) : Option (FinalizedLeaf K) → Nat
  | none => 0
  | some leaf => if leaf.status = .evaluated ∧ s.criteria.reachesStop leaf = true then 1 else 3

omit [Network N K] in
/-- Evaluating a leaf that has just been built fails, or ends the task exactly when the leaf
reaches the stop criterion. -/
theorem assess_of_created {leaf : Leaf N K} (h : leaf.phase = .created) (state : σ) :
    s.assess services leaf state = .done ∨
      ∃ next : Leaf N K, next.status = .evaluated ∧
        s.assess services leaf state =
          if s.stopsAt next then .finished next.finalize else .evaluated next := by
  unfold assess afterEvaluation
  rcases Leaf.status_evaluate services s.situation.objective h state with hfailed | hdone
  · rw [if_pos hfailed]
    exact .inl rfl
  · rw [if_neg (by rw [hdone]; decide)]
    exact .inr ⟨_, hdone, rfl⟩

/-- What a leaf comes to tells how its evaluation ends. -/
theorem stepsLeft_assess {leaf : Leaf N K} (h : leaf.phase = .created) (a b : σ) :
    (s.assess services leaf a).stepsLeft =
      s.stepsAfterEvaluation (s.conclude services leaf a b) := by
  unfold conclude
  rcases assess_of_created h a with hdone | ⟨next, hstatus, hnext⟩
  · rw [hdone]
    rfl
  · rw [hnext]
    cases hstops : s.stopsAt next with
    | true =>
      have hfinal : next.finalize.status = .evaluated := hstatus
      simp [stepsAfterEvaluation, TaskPhase.stepsLeft, hfinal, hstops]
    | false =>
      simp only [Bool.false_eq_true, if_false, TaskPhase.stepsLeft, stepsAfterEvaluation, improve]
      rcases Leaf.finalize_optimize_cases services s.situation s.parameters hstatus b
        with hoptimized | hsame
      · simp [hoptimized]
      · simp [hsame, hstops]

/-- Where a task may stand that is never skipped and comes to an outcome. -/
def LeadsTo (s : Search N K) (services : Services N K σ) (task : Task K)
    (outcome : Option (FinalizedLeaf K)) : TaskPhase N K → Prop
  | .built leaf | .confirmed leaf => s.build task = .ok leaf
  | .evaluated leaf | .cleared leaf => ∀ state, outcome = some (s.improve services leaf state)
  | .finished leaf => outcome = some leaf
  | .queued | .opened | .admitted | .done => True

/-- A leaf that has been built comes to the outcome of its task. -/
theorem Settles.conclude_eq (hsettled : s.Settles services task outcome) {leaf : Leaf N K}
    (hbuild : s.build task = .ok leaf) (a b : σ) : s.conclude services leaf a b = outcome := by
  have h := hsettled a b
  rwa [attempt, hbuild] at h

/-- A step of a task that is never skipped leads on to its outcome. -/
theorem LeadsTo.uncheckedStep (hsettled : s.Settles services task outcome)
    (h : s.LeadsTo services task outcome phase) :
    s.LeadsTo services task outcome (s.uncheckedStep services task best phase state).1.2 := by
  cases phase with
  | queued =>
    rw [uncheckedStep_queued, phase_step_queued]
    split <;> trivial
  | opened => trivial
  | admitted =>
    cases hbuild : s.build task with
    | ok leaf =>
      rw [uncheckedStep_admitted, phase_step_admitted_of_ok hbuild]
      exact hbuild
    | error fault =>
      rw [uncheckedStep_admitted, phase_step_admitted_of_error hbuild]
      trivial
  | built leaf =>
    rw [uncheckedStep_built, phase_step_built]
    split
    · exact h
    · trivial
  | confirmed leaf =>
    change s.LeadsTo services task outcome (s.assess services leaf state)
    have hconclude := hsettled.conclude_eq h state
    unfold conclude at hconclude
    rcases s.assess_cases services leaf state with heq | ⟨final, heq⟩ | ⟨next, heq⟩
    · rw [heq]
      trivial
    · rw [heq] at hconclude ⊢
      exact (hconclude state).symm
    · rw [heq] at hconclude ⊢
      exact fun b => (hconclude b).symm
  | evaluated leaf => exact h
  | cleared leaf => exact h state
  | finished leaf => trivial
  | done => trivial

/-- The steps that are left to a task that is never skipped, after one of so many. -/
def stepsAfter (s : Search N K) (task : Task K) (best : Best K)
    (outcome : Option (FinalizedLeaf K)) : Nat → Nat
  | 8 => if best.isOpen task.epoch then 7 else 0
  | 6 => if (s.build task).toOption.isSome then 5 else 0
  | 5 => if best.isOpen task.epoch then 4 else 0
  | 4 => s.stepsAfterEvaluation outcome
  | steps => steps - 1

/-- The outcome of a task and the number of steps left tell how many are left after one more. -/
theorem stepsLeft_uncheckedStep (hsettled : s.Settles services task outcome)
    (h : s.LeadsTo services task outcome phase) :
    (s.uncheckedStep services task best phase state).1.2.stepsLeft =
      s.stepsAfter task best outcome phase.stepsLeft := by
  cases phase with
  | queued =>
    rw [uncheckedStep_queued, phase_step_queued]
    cases hopen : best.isOpen task.epoch <;> simp [TaskPhase.stepsLeft, stepsAfter, hopen]
  | admitted =>
    cases hbuild : s.build task with
    | ok leaf =>
      rw [uncheckedStep_admitted, phase_step_admitted_of_ok hbuild]
      simp [TaskPhase.stepsLeft, stepsAfter, hbuild, Except.toOption]
    | error fault =>
      rw [uncheckedStep_admitted, phase_step_admitted_of_error hbuild]
      simp [TaskPhase.stepsLeft, stepsAfter, hbuild, Except.toOption]
  | built leaf =>
    rw [uncheckedStep_built, phase_step_built]
    cases hopen : best.isOpen task.epoch <;> simp [TaskPhase.stepsLeft, stepsAfter, hopen]
  | confirmed leaf =>
    change (s.assess services leaf state).stepsLeft = s.stepsAfterEvaluation outcome
    rw [stepsLeft_assess (phase_build h) state state, hsettled.conclude_eq h]
  | _ => rfl

/-- The outcome of a task and the number of steps left tell what it hands in at its next step. -/
theorem LeadsTo.receive_eq (h : s.LeadsTo services task outcome phase) :
    s.receive task best phase =
      if phase.stepsLeft = 1 then (outcome.map (s.receive task best <| .finished ·)).getD best
      else best := by
  cases phase with
  | finished leaf =>
    obtain rfl : outcome = some leaf := h
    rfl
  | _ => rfl

/-! ### One job in both crews -/

/-- A job in a crew that looks at the stop combination and in one that does not: either both are at
the same point on the way to one outcome, or both are behind the stop combination. -/
structure Twins (s : Search N K) (services : Services N K σ) (best : Best K)
    (job shadow : Job N K) : Prop where
  task_eq : job.task = shadow.task
  cases : best.isAhead job.task.candidate.combination = false ∨
    ∃ outcome, s.Settles services job.task outcome ∧
      s.LeadsTo services job.task outcome job.phase ∧
      s.LeadsTo services job.task outcome shadow.phase ∧
      job.phase.stepsLeft = shadow.phase.stepsLeft

omit [Network N K] in
/-- A combination that is not ahead stays so, whatever a task hands in. -/
theorem isAhead_receive_eq_false {c : Combination K} (h : best.isAhead c = false) :
    (s.receive task best phase).isAhead c = false := by
  cases phase with
  | finished leaf => exact Best.isAhead_submit_eq_false h
  | _ => exact h

omit [Network N K] in
/-- What a task hands in that is not ahead has no effect. -/
theorem receive_of_isAhead_eq_false
    (h : best.isAhead task.candidate.combination = false) :
    s.receive task best phase = best := by
  cases phase with
  | finished leaf => exact Best.submit_of_isAhead_eq_false h
  | _ => rfl

/-- What another task hands in keeps two jobs together. -/
theorem Twins.receive {job shadow : Job N K} (h : s.Twins services best job shadow) :
    s.Twins services (s.receive task best phase) job shadow :=
  ⟨h.task_eq, h.cases.imp_left isAhead_receive_eq_false⟩

/-- One step of a job in both crews does the same to what tasks share and keeps the two
together. -/
theorem Twins.step {shadowPhase : TaskPhase N K}
    (h : s.Twins services best ⟨task, phase⟩ ⟨task, shadowPhase⟩) (state shadowState : σ) :
    s.receive task best phase = s.receive task best shadowPhase ∧
      s.Twins services (s.receive task best phase)
        ⟨task, (s.step services task best phase state).1.2⟩
        ⟨task, (s.uncheckedStep services task best shadowPhase shadowState).1.2⟩ := by
  cases hahead : best.isAhead task.candidate.combination with
  | false =>
    rw [receive_of_isAhead_eq_false hahead, receive_of_isAhead_eq_false hahead]
    exact ⟨rfl, rfl, .inl hahead⟩
  | true =>
    rcases h.cases with hbehind | ⟨outcome, hsettled, hleads, hshadow, hsteps⟩
    · simp [hahead] at hbehind
    · rw [step_eq_uncheckedStep hahead]
      refine ⟨?_, rfl, .inr ⟨outcome, hsettled, hleads.uncheckedStep hsettled,
        hshadow.uncheckedStep hsettled, ?_⟩⟩
      · rw [hleads.receive_eq, hshadow.receive_eq, hsteps]
      · rw [stepsLeft_uncheckedStep hsettled hleads, stepsLeft_uncheckedStep hsettled hshadow,
          hsteps]

/-! ### All jobs in both crews -/

/-- A crew that never looks at the stop combination, beside one that does. -/
structure Shadows (s : Search N K) (services : Services N K σ) (crew shadow : Crew N K) : Prop where
  best_eq : crew.best = shadow.best
  length_eq : crew.jobs.length = shadow.jobs.length
  twins : ∀ (i : Nat) (job other : Job N K), crew.jobs[i]? = some job →
    shadow.jobs[i]? = some other → s.Twins services crew.best job other

/-- A move of the same job in both crews keeps them together. -/
theorem Shadows.move {crew shadow : Crew N K} (h : s.Shadows services crew shadow) (i : Nat)
    (state shadowState : σ) :
    s.Shadows services (crew.move (s.step services) i state).1
      (shadow.move (s.uncheckedStep services) i shadowState).1 := by
  cases hjob : crew.jobs[i]? with
  | none =>
    have hshadow : shadow.jobs[i]? = none := by
      rw [List.getElem?_eq_none_iff] at hjob ⊢
      rwa [← h.length_eq]
    rw [Crew.move_of_none hjob, Crew.move_of_none hshadow]
    exact h
  | some job =>
    obtain ⟨task, phase⟩ := job
    have hlt : i < shadow.jobs.length := by
      rw [← h.length_eq]
      exact (List.getElem?_eq_some_iff.mp hjob).1
    have hother := List.getElem?_eq_getElem hlt
    have htwins := h.twins i _ _ hjob hother
    generalize shadow.jobs[i] = other at hother htwins
    obtain ⟨shadowTask, shadowPhase⟩ := other
    obtain rfl : task = shadowTask := htwins.task_eq
    obtain ⟨hbest, hnext⟩ := htwins.step state shadowState
    rw [Crew.move_of_some hjob, Crew.move_of_some hother, ← h.best_eq,
      s.onlySubmits_step services, s.onlySubmits_uncheckedStep services]
    refine ⟨hbest, ?_, ?_⟩
    · simpa using h.length_eq
    · intro j job' other' hjob' hother'
      by_cases hij : i = j
      · subst hij
        rw [List.getElem?_set_self (List.getElem?_eq_some_iff.mp hjob).1] at hjob'
        rw [List.getElem?_set_self hlt] at hother'
        obtain rfl := Option.some.inj hjob'
        obtain rfl := Option.some.inj hother'
        exact hnext
      · rw [List.getElem?_set_ne hij] at hjob' hother'
        exact (h.twins j _ _ hjob' hother').receive

/-- Turns of the same jobs in both crews keep them together. -/
theorem Shadows.interleave {crew shadow : Crew N K} (h : s.Shadows services crew shadow)
    {turns shadowTurns : List (Turn σ)} (hturns : turns.map Turn.job = shadowTurns.map Turn.job) :
    s.Shadows services (crew.interleave (s.step services) turns)
      (shadow.interleave (s.uncheckedStep services) shadowTurns) := by
  induction turns generalizing crew shadow shadowTurns with
  | nil =>
    obtain rfl := List.map_eq_nil_iff.mp hturns.symm
    exact h
  | cons turn turns ih =>
    cases shadowTurns with
    | nil => simp at hturns
    | cons shadowTurn shadowTurns =>
      obtain ⟨hjob, hrest⟩ := List.cons_eq_cons.mp hturns
      rw [Crew.interleave_cons, Crew.interleave_cons, ← hjob]
      exact ih (h.move turn.job turn.services shadowTurn.services) hrest

/-- At the outset both crews are the same. -/
theorem shadows_setOut {candidates : List (Candidate K)}
    {outcome : Candidate K → Option (FinalizedLeaf K)}
    (hsettled : ∀ c ∈ candidates, s.Settles services (best.task c) (outcome c)) :
    s.Shadows services (Crew.setOut best candidates) (Crew.setOut best candidates) := by
  refine ⟨rfl, rfl, ?_⟩
  intro i job other hjob hother
  obtain rfl := Option.some.inj (hjob.symm.trans hother)
  obtain ⟨c, hc, rfl⟩ := Crew.getElem?_setOut hjob
  exact ⟨rfl, .inr ⟨outcome c, hsettled c (List.mem_of_getElem? hc), trivial, trivial, rfl⟩⟩

/-- Whatever the turns, the best leaf and the stop combination are those of tasks that are never
skipped: that always build their leaf, evaluate it, optimise it unless it stops and hand it in. -/
theorem best_crewAfter_eq_unchecked (s : Search N K) (services : Services N K σ) (best : Best K)
    (candidates : List (Candidate K)) (outcome : Candidate K → Option (FinalizedLeaf K))
    (hsettled : ∀ c ∈ candidates, s.Settles services (best.task c) (outcome c))
    (turns uncheckedTurns : List (Turn σ))
    (hturns : turns.map Turn.job = uncheckedTurns.map Turn.job) :
    (s.crewAfter services best candidates turns).best =
      ((Crew.setOut best candidates).interleave (s.uncheckedStep services) uncheckedTurns).best :=
  ((shadows_setOut hsettled).interleave hturns).best_eq

end GridRelief.Search

namespace GridRelief.TwoSwitches

/-- Opening the first switch reaches the target, so the task of the second one is skipped: it ends
at its second turn, where one that never looks has six steps to go. What they share is the same. -/
theorem best_eq_unchecked_of_skipped :
    let s := search (network 200 0 60) .atTarget (-350)
    let unchecked := fun turns =>
      (Crew.setOut { leaf := root s } [openFirst, openSecond]).interleave
        (s.uncheckedStep services) turns
    let turns := Turn.oneByOne () [0, 1]
    (crewAfter s (turns.take 10)).jobs.map (·.phase.stepsLeft) = [0, 0] ∧
      (unchecked (turns.take 10)).jobs.map (·.phase.stepsLeft) = [0, 6] ∧
      (crewAfter s turns).best = (unchecked turns).best := by
  intro s unchecked turns
  refine ⟨by decide +kernel, by decide +kernel, ?_⟩
  exact s.best_crewAfter_eq_unchecked services _ _ (outcome s) (fun c _ => settles s c) turns
    turns rfl

end GridRelief.TwoSwitches
