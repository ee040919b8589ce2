import GridRelief.Proofs.Search.Criteria
import GridRelief.Proofs.Search.Ending
import GridRelief.Proofs.Search.RootCandidates

/-!
# What counts as tested

A single action is rejected when it completes a combination that the user has named, for together
with the others it would have been tried before. It has been tried only if the combination was a
candidate of an earlier depth: if all filters let it pass on top of the leaf that the depth started
from, and its leaf could be built. The other actions may have come into use one by one, with the
combination rejected each time for reasons that no longer hold.

* `Search.isInTime`: every depth of a run is closed once its jobs are done.
* `Search.trail`: the moments of a run; `Search.HasBuilt`: what has been built at one of them.
* `Search.Accounts`: what the jobs of a run in time tell of it; `Search.accounts_after`.
* `Search.tested_iff_passed`: when the combination behind a rejection has been built.
* `LateAction.rejected_untested`: an action that is rejected although it has not been tried.
-/

namespace GridRelief

variable {K N σ : Type} [Scalar K] [Network N K]

/-! ### Runs in time -/

/-- Whether an event closes a depth. -/
def Event.isClose : Event σ → Bool
  | .close => true
  | .enter | .move _ => false

/-- Whether the leaf of a task has just been built. -/
def TaskPhase.isBuilt : TaskPhase N K → Bool
  | .built _ => true
  | _ => false

omit [Scalar K] [Network N K] in
/-- Every job is still there after a move. -/
theorem Crew.exists_mem_move {step : TaskStep N K σ} {crew : Crew N K} {i : Nat} {state : σ}
    {job : Job N K} (h : job ∈ crew.jobs) :
    ∃ other ∈ (crew.move step i state).1.jobs, other.task = job.task := by
  obtain ⟨j, hj⟩ := List.getElem?_of_mem h
  have htask : ((crew.move step i state).1.jobs[j]?).map Job.task =
      (crew.jobs[j]?).map Job.task := map_task_move i state j
  rw [hj] at htask
  obtain ⟨other, hother, heq⟩ := Option.map_eq_some_iff.mp htask
  exact ⟨other, List.mem_of_getElem? hother, heq⟩

/-- A filter of a search looks at the actions of a combination alone, not at where it comes from. -/
theorem Bloom.judge_eq_of_actions {s : Situation N K} {predefined : List (Combination K)}
    {p : Parameters K} {c d : Combination K} (h : d.actions = c.actions) {f : Filter K}
    (hf : f ∈ filtersOf s predefined p) (leaf : LeafResult K) :
    f.judge leaf d = f.judge leaf c := by
  obtain ⟨actions, origin⟩ := c
  obtain ⟨same, other⟩ := d
  obtain rfl : same = actions := h
  simp only [filtersOf, List.mem_append, List.mem_cons, List.not_mem_nil, or_false] at hf
  rcases hf with ((rfl | rfl | rfl | rfl | rfl) | hnear) | rfl | rfl | rfl | rfl
  case inl.inr =>
    split at hnear
    · obtain rfl := List.mem_singleton.mp hnear
      rfl
    · cases hnear
  all_goals rfl

namespace Search

/-- The moment at which a search sets out from its root. -/
def outset (s : Search N K) (services : Services N K σ) (state : σ) : Moment N K :=
  .outset (s.root services state).1.finalize

/-- Whether every depth that some events close has its jobs done. -/
def isInTime (s : Search N K) (services : Services N K σ) : List (Event σ) → Moment N K → Bool
  | [], _ => true
  | event :: events, m =>
    (!event.isClose || m.crew.isDone) && s.isInTime services events (s.pass services m event)

/-- The moments that some events lead through. -/
def trail (s : Search N K) (services : Services N K σ) (events : List (Event σ))
    (m : Moment N K) : List (Moment N K) :=
  events.inits.map fun passed => s.after services passed m

/-- The leaf of a task has been built at one of some moments. -/
def BuiltAt (moments : List (Moment N K)) (task : Task K) : Prop :=
  ∃ m ∈ moments, ∃ job ∈ m.crew.jobs, job.task = task ∧ job.phase.isBuilt = true

/-- Whether the leaf of a combination with certain actions has been built at one of some moments. -/
def hasBuilt (moments : List (Moment N K)) (c : Combination K) : Bool :=
  moments.any fun m => m.crew.jobs.any fun job =>
    job.phase.isBuilt && job.task.candidate.combination.same c

/-- The tasks of the depth that is being explored. -/
def tasksAt (s : Search N K) (m : Moment N K) : List (Task K) :=
  s.tasks m.crew.best.epoch m.base

variable {s : Search N K} {services : Services N K σ} {m start : Moment N K}
  {events : List (Event σ)}

theorem isInTime_append (later : List (Event σ)) :
    s.isInTime services (events ++ later) m =
      (s.isInTime services events m && s.isInTime services later (s.after services events m)) := by
  induction events generalizing m with
  | nil => simp [isInTime]
  | cons event events ih =>
    rw [List.cons_append, isInTime, isInTime, ih, Bool.and_assoc, after_cons]

/-- A further event adds one moment to the trail. -/
theorem trail_concat (event : Event σ) :
    s.trail services (events ++ [event]) start =
      s.trail services events start ++
        [s.pass services (s.after services events start) event] := by
  simp [trail, List.inits_append, after_append, after_cons]

/-- The moments of a trail are moments of the run. -/
theorem Reaches.of_mem_trail (h : s.Reaches services start)
    (hm : m ∈ s.trail services events start) : s.Reaches services m := by
  obtain ⟨passed, -, rfl⟩ := List.mem_map.mp hm
  exact h.after passed

omit [Scalar K] [Network N K] in
theorem BuiltAt.mono {task : Task K} {moments more : List (Moment N K)}
    (h : BuiltAt moments task) (hsub : moments ⊆ more) : BuiltAt more task := by
  obtain ⟨m, hm, hjob⟩ := h
  exact ⟨m, hsub hm, hjob⟩

omit [Scalar K] [Network N K] in
theorem hasBuilt_iff {moments : List (Moment N K)} {c : Combination K} :
    hasBuilt moments c = true ↔
      ∃ task, BuiltAt moments task ∧ task.candidate.combination.same c = true := by
  simp only [hasBuilt, BuiltAt, List.any_eq_true, Bool.and_eq_true]
  constructor
  · rintro ⟨m, hm, job, hjob, hbuilt, hsame⟩
    exact ⟨job.task, ⟨m, hm, job, hjob, rfl, hbuilt⟩, hsame⟩
  · rintro ⟨_, ⟨m, hm, job, hjob, rfl, hbuilt⟩, hsame⟩
    exact ⟨m, hm, job, hjob, hbuilt, hsame⟩

/-! ### What the jobs of a run tell of it -/

/-- What the jobs of a run in time tell of it, given the moments that it has led through. -/
structure Accounts (s : Search N K) (moments : List (Moment N K)) (m : Moment N K) : Prop where
  mem : m ∈ moments
  /-- Only the jobs of the depth that is being explored are not done. -/
  timely : ∀ job ∈ m.crew.jobs, job.phase.isDone = false →
    m.isExploring = true ∧ job.task.epoch = m.crew.best.epoch
  /-- Every job has joined for a depth. -/
  joined : ∀ now ∈ moments, ∀ job ∈ now.crew.jobs, ∃ earlier ∈ moments,
    earlier.isExploring = true ∧ job.task ∈ s.tasksAt earlier
  /-- All tasks of a depth have jobs. -/
  enlisted : ∀ earlier ∈ moments, earlier.isExploring = true →
    ∀ task ∈ s.tasksAt earlier, ∃ job ∈ m.crew.jobs, job.task = task
  /-- A job that has come past building has had its leaf built if that is possible. -/
  built : ∀ job ∈ m.crew.jobs, job.phase.stepsLeft < 6 →
    ∀ leaf, s.build job.task = .ok leaf → BuiltAt moments job.task

/-- In a depth that is open a task comes past building only if its leaf is built or cannot be. -/
theorem built_of_step {moments more : List (Moment N K)} {task : Task K} {best : Best K}
    {phase : TaskPhase N K} {state : σ} (hstop : best.stop = none)
    (hopen : phase.isDone = false → best.isOpen task.epoch = true) (hsub : moments ⊆ more)
    (hold : phase.stepsLeft < 6 → ∀ leaf, s.build task = .ok leaf → BuiltAt moments task)
    (hnew : (s.step services task best phase state).1.2.isBuilt = true → BuiltAt more task) :
    (s.step services task best phase state).1.2.stepsLeft < 6 →
      ∀ leaf, s.build task = .ok leaf → BuiltAt more task := by
  intro hpast leaf hbuild
  cases phase with
  | queued =>
    rw [phase_step_queued, if_pos (hopen rfl)] at hpast
    simp [TaskPhase.stepsLeft] at hpast
  | opened =>
    have hahead : best.isAhead task.candidate.combination = true := by
      simp [Best.isAhead, hstop]
    rw [phase_step_opened, if_pos hahead] at hpast
    simp [TaskPhase.stepsLeft] at hpast
  | admitted => exact hnew (by rw [phase_step_admitted_of_ok hbuild]; rfl)
  | built _ | confirmed _ | evaluated _ | cleared _ | finished _ | done =>
    exact (hold (by simp [TaskPhase.stepsLeft]) leaf hbuild).mono hsub

namespace Accounts

variable {moments : List (Moment N K)} (h : s.Accounts moments m)
include h

/-- A further moment whose jobs are those of this one, as they have got on, and those of a depth. -/
theorem extend {next : Moment N K}
    (htimely : ∀ job ∈ next.crew.jobs, job.phase.isDone = false →
      next.isExploring = true ∧ job.task.epoch = next.crew.best.epoch)
    (hknown : ∀ job ∈ next.crew.jobs, (∃ old ∈ m.crew.jobs, old.task = job.task) ∨
      (next.isExploring = true ∧ job.task ∈ s.tasksAt next))
    (hkept : ∀ job ∈ m.crew.jobs, ∃ other ∈ next.crew.jobs, other.task = job.task)
    (henlisted : next.isExploring = true →
      ∀ task ∈ s.tasksAt next, ∃ job ∈ next.crew.jobs, job.task = task)
    (hbuilt : ∀ job ∈ next.crew.jobs, job.phase.stepsLeft < 6 →
      ∀ leaf, s.build job.task = .ok leaf → BuiltAt (moments ++ [next]) job.task) :
    s.Accounts (moments ++ [next]) next := by
  refine ⟨by simp, htimely, ?_, ?_, hbuilt⟩
  · intro now hnow job hjob
    have hold : ∀ now ∈ moments, ∀ job ∈ now.crew.jobs, ∃ earlier ∈ moments ++ [next],
        earlier.isExploring = true ∧ job.task ∈ s.tasksAt earlier := by
      intro now hnow job hjob
      obtain ⟨earlier, hearlier, hjoined⟩ := h.joined now hnow job hjob
      exact ⟨earlier, List.mem_append_left _ hearlier, hjoined⟩
    rcases List.mem_append.mp hnow with hmem | hlast
    · exact hold now hmem job hjob
    · obtain rfl := List.mem_singleton.mp hlast
      rcases hknown job hjob with ⟨old, hmem, htask⟩ | hjoins
      · rw [← htask]
        exact hold m h.mem old hmem
      · exact ⟨now, by simp, hjoins⟩
  · intro earlier hearlier hexploring task htask
    rcases List.mem_append.mp hearlier with hmem | hlast
    · obtain ⟨job, hjob, rfl⟩ := h.enlisted earlier hmem hexploring task htask
      exact hkept job hjob
    · obtain rfl := List.mem_singleton.mp hlast
      exact henlisted hexploring task htask

theorem same : s.Accounts (moments ++ [m]) m := by
  refine h.extend h.timely ?_ ?_ (h.enlisted m h.mem) ?_
  · exact fun job hjob => .inl ⟨job, hjob, rfl⟩
  · exact fun job hjob => ⟨job, hjob, rfl⟩
  · exact fun job hjob hpast leaf hbuild =>
      (h.built job hjob hpast leaf hbuild).mono (List.subset_append_left _ _)

/-- The tasks of a depth that is entered join jobs that are all done. -/
theorem enter (hmay : s.mayEnter m = true) :
    s.Accounts (moments ++ [s.pass services m .enter]) (s.pass services m .enter) := by
  have hdone : ∀ job ∈ m.crew.jobs, job.phase.isDone = false → False := by
    intro job hjob hnot
    have hexploring := (h.timely job hjob hnot).1
    rw [(mayEnter_iff.mp hmay).1] at hexploring
    cases hexploring
  have hnew : ∀ job ∈ (s.tasks m.crew.best.epoch m.crew.best.leaf).map
      (fun task => ({ task } : Job N K)), job.task ∈ s.tasks m.crew.best.epoch m.crew.best.leaf ∧
        job.phase = .queued := by
    intro job hjob
    obtain ⟨task, htask, rfl⟩ := List.mem_map.mp hjob
    exact ⟨htask, rfl⟩
  rw [pass_enter_of_mayEnter hmay]
  refine h.extend ?_ ?_ ?_ ?_ ?_
  · intro job hjob hnot
    rcases List.mem_append.mp hjob with hold | hjoins
    · exact (hdone job hold hnot).elim
    · exact ⟨rfl, (tries_of_mem_tasks (hnew job hjoins).1).1⟩
  · intro job hjob
    rcases List.mem_append.mp hjob with hold | hjoins
    · exact .inl ⟨job, hold, rfl⟩
    · exact .inr ⟨rfl, (hnew job hjoins).1⟩
  · exact fun job hjob => ⟨job, List.mem_append_left _ hjob, rfl⟩
  · intro _ task htask
    exact ⟨_, List.mem_append_right _ (List.mem_map_of_mem htask), rfl⟩
  · intro job hjob hpast leaf hbuild
    rcases List.mem_append.mp hjob with hold | hjoins
    · exact (h.built job hold hpast leaf hbuild).mono (List.subset_append_left _ _)
    · rw [(hnew job hjoins).2] at hpast
      simp [TaskPhase.stepsLeft] at hpast

/-- A job that moves stays in its depth, and comes past building only if its leaf is built or cannot
be. -/
theorem move (hstop : m.crew.best.stop = none) (turn : Turn σ) :
    s.Accounts (moments ++ [s.pass services m (.move turn)]) (s.pass services m (.move turn)) := by
  have hepoch : (s.pass services m (.move turn)).crew.best.epoch = m.crew.best.epoch := by
    rw [pass_move, epoch_move]
  cases hi : m.crew.jobs[turn.job]? with
  | none =>
    rw [pass_move, Crew.move_of_none hi]
    exact h.same
  | some job =>
    obtain ⟨task, phase⟩ := job
    have hjobs : (s.pass services m (.move turn)).crew.jobs = m.crew.jobs.set turn.job
        ⟨task, (s.step services task m.crew.best phase turn.services).1.2⟩ := by
      rw [pass_move, Crew.move_of_some hi]
    have hmem := List.mem_of_getElem? hi
    refine h.extend ?_ ?_ ?_ ?_ ?_
    · intro other hother hnot
      rw [hepoch]
      rw [hjobs] at hother
      rcases List.mem_or_eq_of_mem_set hother with hold | rfl
      · exact h.timely other hold hnot
      · have hbefore : phase.isDone = false := by
          by_contra hdone
          obtain rfl := TaskPhase.isDone_iff.mp (Bool.not_eq_false _ |>.mp hdone)
          cases hnot
        exact h.timely ⟨task, phase⟩ hmem hbefore
    · intro other hother
      exact .inl (Crew.exists_task_of_mem_move hother)
    · intro old hold
      exact Crew.exists_mem_move hold
    · intro hexploring other hother
      rw [tasksAt, hepoch] at hother
      obtain ⟨old, hold, rfl⟩ := h.enlisted m h.mem hexploring other hother
      exact Crew.exists_mem_move hold
    · intro other hother
      have hnew := hother
      rw [hjobs] at hother
      rcases List.mem_or_eq_of_mem_set hother with hold | rfl
      · exact fun hpast leaf hbuild =>
          (h.built other hold hpast leaf hbuild).mono (List.subset_append_left _ _)
      · refine built_of_step hstop ?_ (List.subset_append_left _ _) (h.built _ hmem) ?_
        · intro hnot
          exact beq_iff_eq.mpr (h.timely _ hmem hnot).2.symm
        · exact fun hbuilt => ⟨_, by simp, _, hnew, rfl, hbuilt⟩

/-- A depth is closed once its jobs are done. -/
theorem close (hdone : m.crew.isDone = true) (hexploring : m.isExploring = true) :
    s.Accounts (moments ++ [s.pass services m .close]) (s.pass services m .close) := by
  rw [pass_close_of_isExploring hexploring]
  refine h.extend ?_ ?_ ?_ ?_ ?_
  · intro job hjob hnot
    rw [List.all_eq_true.mp hdone job hjob] at hnot
    cases hnot
  · exact fun job hjob => .inl ⟨job, hjob, rfl⟩
  · exact fun job hjob => ⟨job, hjob, rfl⟩
  · intro hopen
    cases hopen
  · exact fun job hjob hpast leaf hbuild =>
      (h.built job hjob hpast leaf hbuild).mono (List.subset_append_left _ _)

end Accounts

theorem accounts_outset (root : FinalizedLeaf K) :
    s.Accounts [(.outset root : Moment N K)] (.outset root) := by
  constructor <;> simp [Moment.outset]

/-- What the jobs tell of a run in time that no combination stops. -/
theorem accounts_after (hgoesOn : ∀ leaf, s.criteria.reachesStop leaf = false)
    (h : s.Reaches services start) (hstart : s.Accounts [start] start)
    (htime : s.isInTime services events start = true) :
    s.Accounts (s.trail services events start) (s.after services events start) := by
  induction events using List.reverseRecOn with
  | nil => exact hstart
  | append_singleton events event ih =>
    rw [isInTime_append, Bool.and_eq_true] at htime
    have hnow := ih htime.1
    have hstop := (h.after events).stands.stop_eq_none (hgoesOn _)
    rw [trail_concat, after_append, after_cons, after_nil]
    cases event with
    | enter =>
      by_cases hmay : s.mayEnter (s.after services events start) = true
      · exact hnow.enter hmay
      · rw [pass_enter_of_not hmay]
        exact hnow.same
    | move turn => exact hnow.move hstop turn
    | close =>
      by_cases hexploring : (s.after services events start).isExploring = true
      · refine hnow.close ?_ hexploring
        simpa [isInTime, Event.isClose] using htime.2
      · rw [pass_close_of_not hexploring]
        exact hnow.same

/-! ### What has been built -/

/-- The leaf of a job that is built is the one that its task builds. -/
theorem Reaches.exists_build (h : s.Reaches services m) {job : Job N K} (hjob : job ∈ m.crew.jobs)
    (hbuilt : job.phase.isBuilt = true) : ∃ leaf, s.build job.task = .ok leaf := by
  refine h.visits.jobs_induction (J := fun task phase =>
    phase.isBuilt = true → ∃ leaf, s.build task = .ok leaf) ?_ ?_ job hjob hbuilt
  · intro task hnot
    cases hnot
  · intro task best phase state _ hnow
    cases phase with
    | admitted =>
      cases hbuild : s.build task with
      | ok leaf => exact ⟨leaf, rfl⟩
      | error fault =>
        rw [phase_step_admitted_of_error hbuild] at hnow
        cases hnow
    | queued =>
      rw [phase_step_queued] at hnow
      split at hnow <;> cases hnow
    | opened =>
      rw [phase_step_opened] at hnow
      split at hnow <;> cases hnow
    | built leaf =>
      rw [phase_step_built] at hnow
      split at hnow <;> cases hnow
    | evaluated leaf =>
      rw [phase_step_evaluated] at hnow
      split at hnow <;> cases hnow
    | confirmed leaf =>
      have hnot : ∀ leaf, (s.afterEvaluation leaf).isBuilt = false := by
        intro leaf
        unfold afterEvaluation
        split
        · rfl
        · split <;> rfl
      exact absurd (hnow.symm.trans (hnot _)) (by simp)
    | cleared _ | finished _ | done => cases hnow

/-- Between two depths of a run in time, the leaf of a task has been built just if it is a task of
an earlier depth whose leaf can be built. -/
theorem builtAt_iff (h : s.Reaches services start)
    (haccounts : s.Accounts (s.trail services events start) (s.after services events start))
    (hclosed : (s.after services events start).isExploring = false) {task : Task K} :
    BuiltAt (s.trail services events start) task ↔
      ∃ m ∈ s.trail services events start, m.isExploring = true ∧ task ∈ s.tasksAt m ∧
        ∃ leaf, s.build task = .ok leaf := by
  constructor
  · rintro ⟨now, hnow, job, hjob, rfl, hbuilt⟩
    obtain ⟨m, hm, hexploring, htask⟩ := haccounts.joined now hnow job hjob
    exact ⟨m, hm, hexploring, htask, (h.of_mem_trail hnow).exists_build hjob hbuilt⟩
  · rintro ⟨m, hm, hexploring, htask, leaf, hbuild⟩
    obtain ⟨job, hjob, rfl⟩ := haccounts.enlisted m hm hexploring task htask
    have hdone : job.phase.isDone = true := by
      by_contra hnot
      rw [(haccounts.timely job hjob (Bool.eq_false_iff.mpr hnot)).1] at hclosed
      cases hclosed
    refine haccounts.built job hjob ?_ leaf hbuild
    rw [TaskPhase.isDone_iff_stepsLeft.mp hdone]
    omega

/-! ### What is a candidate -/

/-- A combination named by the user whose actions are at hand is tried on top of a leaf just if all
filters let it pass. -/
theorem exists_task_iff (hnames : s.HasOneActionPerName) {c : Combination K}
    (hc : c ∈ s.predefined)
    (hhand : Bloom.isAtHand s.situation.perimeter.networkActions c = true) {depth : Nat}
    {base : FinalizedLeaf K} {earlier : LeafResult K} (hearlier : base.result? = some earlier) :
    (∃ task ∈ s.tasks depth base, task.candidate.combination.same c = true) ↔
      ∀ f ∈ s.bloom.filters, f.judge earlier c ≠ .reject := by
  have hoffered : c ∈ s.bloom.offered s.situation.perimeter.networkActions :=
    Bloom.mem_offered.mpr (.inl ⟨hc, hhand⟩)
  -- of two combinations with the same names that are offered, both pass or none does
  have hpasses : ∀ d ∈ s.bloom.offered s.situation.perimeter.networkActions, d.ids = c.ids →
      ∀ f ∈ s.bloom.filters, f.judge earlier d = f.judge earlier c := by
    intro d hd hids f hf
    refine Bloom.judge_eq_of_actions (ActionSet.ext_actions ?_) hf earlier
    exact hnames.actions_eq (fun _ ha => mem_knownActions rfl hoffered ha)
      (fun _ ha => mem_knownActions rfl hd ha) hids
  constructor
  · rintro ⟨task, htask, hsame⟩ f hf
    unfold tasks at htask
    rw [hearlier] at htask
    obtain ⟨candidate, hcandidate, rfl⟩ := List.mem_map.mp htask
    rw [Candidate.mem_byPriority] at hcandidate
    obtain ⟨hmem, hkept⟩ := Bloom.offered_of_mem_candidates hcandidate
    rw [← hpasses _ hmem (beq_iff_eq.mp hsame) f hf]
    exact hkept f hf
  · intro hkept
    obtain ⟨d, hd, hids, hcandidate⟩ := Bloom.exists_mem_candidates earlier hoffered
    obtain ⟨candidate, hmem, rfl⟩ := hcandidate fun f hf => by
      rw [hpasses d hd hids f hf]
      exact hkept f hf
    refine ⟨⟨depth, base, candidate⟩, ?_, beq_iff_eq.mpr hids⟩
    unfold tasks
    rw [hearlier]
    exact List.mem_map_of_mem (Candidate.mem_byPriority.mpr hmem)

/-- Whether the last action that is missing of a combination is at hand. -/
theorem Reaches.isAtHand (h : s.Reaches services m) {below : LeafResult K}
    (hbelow : m.crew.best.leaf.result? = some below) {c : Combination K} {b : NetworkAction K}
    (hb : b ∈ s.situation.perimeter.networkActions)
    (hlast : RelevanceFilter.lastMissing? below c = some b.id) :
    Bloom.isAtHand s.situation.perimeter.networkActions c = true := by
  rw [Bloom.isAtHand_iff]
  intro a ha
  by_cases happlied : below.isApplied a = true
  · obtain ⟨leaf, hleaf, hfinal⟩ := h.staysWithin
    rw [← hfinal, Leaf.result?_finalize] at hbelow
    obtain ⟨used, hused, hid⟩ := ActionSet.contains_iff.mp happlied
    rw [Leaf.applied_of_result hbelow] at hused
    rw [← hid]
    exact mem_actionNames.mp (hleaf.mem_actionNames used hused)
  · unfold RelevanceFilter.lastMissing? at hlast
    have hmissing : a ∈ c.actions.actions.filter fun a => !below.isApplied a := by
      simp [ha, happlied]
    split at hlast
    · next last hfilter =>
      rw [hfilter, List.mem_singleton] at hmissing
      rw [hmissing, Option.some.inj hlast]
      exact ⟨b, hb, rfl⟩
    · cases hlast

/-- In a run in time that no combination stops, let an action be the last one that is missing of a
combination named by the user, when the next depth is about to be entered. Then the action
alone counts as tested. The combination has been built just if on top of one of the leaves that
earlier depths started from all filters let it pass, so that it was tried there, and its leaf could
be built. -/
theorem tested_iff_passed (s : Search N K) (services : Services N K σ) (state : σ)
    (events : List (Event σ))
    (hends : ¬((s.root services state).1.status = .failed || s.stopsAt (s.root services state).1))
    (hgoesOn : ∀ leaf, s.criteria.reachesStop leaf = false) (hnames : s.HasOneActionPerName)
    (htime : s.isInTime services events (s.outset services state) = true)
    (hclosed : (s.after services events (s.outset services state)).isExploring = false)
    {below : LeafResult K} (hbelow : (s.after services events
      (s.outset services state)).crew.best.leaf.result? = some below)
    {c : Combination K} (hc : c ∈ s.predefined) (hnamed : c.isDetected = false)
    {b : NetworkAction K} (hb : b ∈ s.situation.perimeter.networkActions)
    (hlast : RelevanceFilter.lastMissing? below c = some b.id) :
    (RelevanceFilter.notTested s.predefined).judge below (.single b) = .reject ∧
      (hasBuilt (s.trail services events (s.outset services state)) c = true ↔
        ∃ m ∈ s.trail services events (s.outset services state), m.isExploring = true ∧
          ∃ task ∈ s.tasksAt m, task.candidate.combination.same c = true ∧
            ∃ leaf, s.build task = .ok leaf) ∧
      ∀ m ∈ s.trail services events (s.outset services state), ∀ earlier,
        m.base.result? = some earlier →
          ((∃ task ∈ s.tasksAt m, task.candidate.combination.same c = true) ↔
            ∀ f ∈ s.bloom.filters, f.judge earlier c ≠ .reject) := by
  have hreaches : s.Reaches services (s.outset services state) := .outset state hends
  have haccounts := accounts_after hgoesOn hreaches (accounts_outset _) htime
  refine ⟨?_, ?_, ?_⟩
  · have hsingle : (Combination.single b).size = 1 :=
      Combination.size_eq_one_iff.mpr ⟨b.id, Combination.ids_single b⟩
    have htested : b.id ∈ (s.predefined.filter (!·.isDetected)).filterMap
        (RelevanceFilter.lastMissing? below) :=
      List.mem_filterMap.mpr ⟨c, by simp [hc, hnamed], hlast⟩
    simp [RelevanceFilter.notTested, Filter.keeping, hsingle, htested]
  · rw [hasBuilt_iff]
    simp only [builtAt_iff hreaches haccounts hclosed]
    constructor
    · rintro ⟨task, ⟨m, hm, hexploring, htask, hbuild⟩, hsame⟩
      exact ⟨m, hm, hexploring, task, htask, hsame, hbuild⟩
    · rintro ⟨m, hm, hexploring, task, htask, hsame, hbuild⟩
      exact ⟨task, ⟨m, hm, hexploring, htask, hbuild⟩, hsame⟩
  · intro m hm earlier hearlier
    exact exists_task_iff hnames hc ((hreaches.after events).isAtHand hbelow hb hlast) hearlier

end Search

/-! ### An action that comes late -/

namespace LateAction

/-- The action that opens the first switch. -/
def openFirst : NetworkAction ℚ := { id := "open-first", parts := [.topology "first" false] }

/-- The action that opens the second switch; it may be late, usable only while the other line is
overloaded. -/
def openSecond (late : Bool) : NetworkAction ℚ where
  id := "open-second"
  parts := [.topology "second" false]
  rules := [if late then .onFlowConstraint .preventive "other" else .onInstant .preventive]

/-- A line that carries 900 MW and another one that carries 700 MW. Opening the first switch takes
200 MW off the line and puts 150 MW on the other one; opening the second switch takes some off the
line. -/
def network (relief : ℚ) : LinearNetwork ℚ :=
  ({ id := "grid" } : LinearNetwork ℚ)
    |>.withBaseFlow "line" 900
    |>.withBaseFlow "other" 700
    |>.withSwitchable "first"
    |>.withOpeningEffect "first" "line" (-200)
    |>.withOpeningEffect "first" "other" 150
    |>.withSwitchable "second"
    |>.withOpeningEffect "second" "line" (-relief)

/-- The line, which may carry 800 MW. -/
def line : Cnec ℚ :=
  { id := "line", element := "line", lower := some (-800), upper := some 800, voltage := 400 }

/-- The other line, which may carry as much and is only monitored. -/
def other : Cnec ℚ :=
  { id := "other", element := "other", optimized := false, monitored := true
    lower := some (-800), upper := some 800, voltage := 400 }

/-- The two lines and the two actions. -/
def perimeter (late : Bool) : Perimeter ℚ :=
  .ofLists .preventive [line, other] [openFirst, openSecond late] []

/-- The two actions together, as the user has named them. -/
def both (late : Bool) : Combination ℚ := .ofList [openFirst, openSecond late] .predefined

/-- What computes the flows of the two lines. -/
def computer : LinearComputer ℚ := { cnecs := [line, other], rangeActions := [] }

/-- Services that compute flows; there is nothing to solve. -/
def services : Services (LinearNetwork ℚ) ℚ Unit where
  compute network := return computer.compute network
  solve _ := return .failed
  clock _ := 0

/-- The search for the best worst margin. -/
def search (late : Bool) (relief : ℚ) : Search (LinearNetwork ℚ) ℚ where
  situation :=
    { network := network relief
      perimeter := perimeter late
      outcome := computer.compute (network relief)
      setpoints := {}
      objective := (MarginObjective.ofPerimeter (perimeter late) .megawatt).evaluate
      borders := .empty
      detected := [] }
  parameters :=
    { Parameters.default with objective := ⟨.minMargin, .megawatt, .minObjective, 0⟩ }
  predefined := [both late]

/-- A depth with so many tasks, one after the other. -/
def depth (tasks : Nat) : List (Event Unit) := Event.ofDepth (Turn.oneByOne () (List.range tasks))

theorem networkActions_perimeter (late : Bool) :
    (perimeter late).networkActions = [openFirst, openSecond late] := by
  cases late <;> rfl

theorem hasOneActionPerName (late : Bool) (relief : ℚ) :
    (search late relief).HasOneActionPerName := by
  have hknown : (search late relief).knownActions =
      [openFirst, openSecond late, openFirst, openSecond late] := by
    cases late <;> rfl
  intro a ha b hb hid
  rw [hknown] at ha hb
  simp only [List.mem_cons, List.not_mem_nil, or_false] at ha hb
  rcases ha with rfl | rfl | rfl | rfl <;> rcases hb with rfl | rfl | rfl | rfl <;>
    first | rfl | exact absurd hid (by simp [openFirst, openSecond])

/-- The second action may be used at any time, and makes things worse. -/
def anyTimeSearch : Search (LinearNetwork ℚ) ℚ := search false (-50)

/-- The second action is late, and would help. -/
def lateSearch : Search (LinearNetwork ℚ) ℚ := search true 50

/-- When the second action may be used at any time, both actions together pass all filters on top of
the root, and they have been tried when the second one alone counts as tested. -/
theorem tested_at_any_time : ∃ below,
    (anyTimeSearch.after services (depth 3)
      (anyTimeSearch.outset services ())).crew.best.leaf.result? = some below ∧
    (RelevanceFilter.notTested [both false]).judge below (.single (openSecond false)) = .reject ∧
    Search.hasBuilt (anyTimeSearch.trail services (depth 3)
      (anyTimeSearch.outset services ())) (both false) = true := by
  have hmissing : (anyTimeSearch.after services (depth 3)
      (anyTimeSearch.outset services ())).crew.best.leaf.result?.any (fun below =>
        RelevanceFilter.lastMissing? below (both false) == some (openSecond false).id) = true := by
    decide +kernel
  obtain ⟨below, hbelow, hlast⟩ := Option.any_eq_true _ _ |>.mp hmissing
  have htried : (anyTimeSearch.trail services (depth 3) (anyTimeSearch.outset services ())).any
      (fun m => m.isExploring && (anyTimeSearch.tasksAt m).any fun task =>
        task.candidate.combination.same (both false) &&
          (anyTimeSearch.build task).toOption.isSome) = true := by
    decide +kernel
  obtain ⟨htested, hbuilt, -⟩ := anyTimeSearch.tested_iff_passed services () (depth 3)
    (by decide +kernel) (Search.reachesStop_eq_false rfl rfl) (hasOneActionPerName _ _)
    (by decide +kernel) (by decide +kernel) hbelow List.mem_cons_self rfl
    (networkActions_perimeter false ▸ List.mem_cons_of_mem _ List.mem_cons_self)
    (beq_iff_eq.mp hlast)
  refine ⟨below, hbelow, htested, hbuilt.mpr ?_⟩
  simp only [List.any_eq_true, Bool.and_eq_true] at htried
  obtain ⟨m, hm, hexploring, task, htask, hsame, hleaf⟩ := htried
  refine ⟨m, hm, hexploring, task, htask, hsame, ?_⟩
  cases hbuild : anyTimeSearch.build task with
  | ok leaf => exact ⟨leaf, rfl⟩
  | error fault => simp [hbuild, Except.toOption] at hleaf

/-- When the second action is late, it may be used once the first one has put load on the other
line. Both together were rejected on top of the root, where the second one was not usable yet, so
nothing with it has been tried. It may be used now, but alone it counts as tested, although the run
is in time and the search goes on. -/
theorem rejected_untested : ∃ below,
    lateSearch.isInTime services (depth 1) (lateSearch.outset services ()) = true ∧
    lateSearch.Reaches services
      (lateSearch.after services (depth 1) (lateSearch.outset services ())) ∧
    lateSearch.mayEnter
      (lateSearch.after services (depth 1) (lateSearch.outset services ())) = true ∧
    (lateSearch.after services (depth 1)
      (lateSearch.outset services ())).crew.best.leaf.result? = some below ∧
    (∀ leaf, lateSearch.criteria.reachesStop leaf = false) ∧
    both true ∈ lateSearch.predefined ∧ (both true).isDetected = false ∧
    2 ≤ (both true).size ∧ (both true).contains (openSecond true) = true ∧
    (∀ a ∈ (both true).actions.actions, a.id ≠ (openSecond true).id → below.isApplied a = true) ∧
    lateSearch.isUsableOn below (openSecond true) = true ∧
    (RelevanceFilter.notTested lateSearch.predefined).judge below
      (.single (openSecond true)) = .reject ∧
    Search.hasBuilt (lateSearch.trail services (depth 1)
      (lateSearch.outset services ())) (both true) = false := by
  have hreached : (lateSearch.after services (depth 1)
      (lateSearch.outset services ())).crew.best.leaf.result?.any (fun below =>
        ((both true).actions.actions.all fun a =>
          a.id == (openSecond true).id || below.isApplied a) &&
        lateSearch.isUsableOn below (openSecond true) &&
        decide ((RelevanceFilter.notTested lateSearch.predefined).judge below
          (.single (openSecond true)) = .reject)) = true := by
    decide +kernel
  obtain ⟨below, hbelow, hreached⟩ := Option.any_eq_true _ _ |>.mp hreached
  simp only [Bool.and_eq_true, List.all_eq_true, Bool.or_eq_true, beq_iff_eq, decide_eq_true_eq]
    at hreached
  obtain ⟨⟨hothers, husable⟩, hrejected⟩ := hreached
  have hends : ¬((lateSearch.root services ()).1.status = .failed ||
      lateSearch.stopsAt (lateSearch.root services ()).1) := by
    decide +kernel
  have hreaches : lateSearch.Reaches services (lateSearch.outset services ()) := .outset () hends
  refine ⟨below, by decide +kernel, hreaches.after _, by decide +kernel, hbelow,
    Search.reachesStop_eq_false rfl rfl, List.mem_cons_self, rfl, by decide +kernel,
    by decide +kernel, ?_, husable, hrejected, by decide +kernel⟩
  intro a ha hother
  exact (hothers a ha).resolve_left hother

end LateAction

end GridRelief
