import GridRelief.Proofs.Search.Prospect

/-!
# What is handed in

The leaves that a list of turns hands in, in the order in which they arrive. What tasks share at
the end depends on nothing else. A job that is never skipped hands in what its candidate comes to,
and nothing else; jobs that work one after the other hand in in that order.

* `Crew.handIns`: the leaves that a list of turns hands in.
* `Crew.best_interleave`: what tasks share at the end.
* `Crew.filter_handIns`: what a job has handed in when it is done.
* `Crew.mem_handIns_setOut_iff`: when outcomes are settled, they are handed in and nothing else.
* `Crew.handIns_oneByOne`: what jobs hand in that work one after the other.
-/

namespace GridRelief

variable {K N σ : Type}

/-- A leaf that a job hands in. -/
structure HandIn (K : Type) where
  /-- The number of the job. -/
  job : Nat
  task : Task K
  leaf : FinalizedLeaf K

/-- What tasks share after a hand-in. -/
def HandIn.accept [Scalar K] (criteria : Criteria K) (best : Best K) (h : HandIn K) : Best K :=
  best.submit criteria h.task.epoch h.task.previous h.task.candidate.combination h.leaf

/-- The leaf that a task hands in at its next step. -/
def TaskPhase.leaf? : TaskPhase N K → Option (FinalizedLeaf K)
  | .finished leaf => some leaf
  | _ => none

theorem TaskPhase.leaf?_eq_some_iff {phase : TaskPhase N K} {leaf : FinalizedLeaf K} :
    phase.leaf? = some leaf ↔ phase = .finished leaf := by
  cases phase <;> simp [leaf?]

/-- A hand-in of the depth that starts from what tasks share. -/
structure HandIn.IsFor (start : Best K) (h : HandIn K) : Prop where
  epoch_eq : h.task.epoch = start.epoch
  previous_eq : h.task.previous = start.leaf

/-- A hand-in of a depth whose leaf is the outcome of a candidate. -/
structure HandIn.IsSettled (start : Best K) (candidates : List (Candidate K))
    (outcome : Candidate K → Option (FinalizedLeaf K)) (h : HandIn K) : Prop
    extends h.IsFor start where
  mem : h.task.candidate ∈ candidates
  outcome_eq : outcome h.task.candidate = some h.leaf

namespace Crew

/-- What a job hands in when it moves. -/
def handIn? (job : Nat) (crew : Crew N K) : Option (HandIn K) :=
  (crew.jobs[job]?).bind fun entry => entry.phase.leaf?.map (⟨job, entry.task, ·⟩)

/-- What a list of turns hands in, in the order of the turns. -/
def handIns (step : TaskStep N K σ) : List (Turn σ) → Crew N K → List (HandIn K)
  | [], _ => []
  | turn :: turns, crew =>
    (crew.handIn? turn.job).toList ++
      handIns step turns (crew.move step turn.job turn.services).1

variable {step : TaskStep N K σ} {crew : Crew N K}

/-! ### Whatever a step does -/

theorem handIn?_of_some {i : Nat} {job : Job N K} (h : crew.jobs[i]? = some job) :
    crew.handIn? i = job.phase.leaf?.map (⟨i, job.task, ·⟩) := by
  rw [handIn?, h]
  rfl

/-- What a job hands in has its number and its task. -/
theorem handIn?_eq_some {i : Nat} {h : HandIn K} (hi : crew.handIn? i = some h) :
    h.job = i ∧ (crew.jobs[i]?).map Job.task = some h.task := by
  rw [handIn?, Option.bind_eq_some_iff] at hi
  obtain ⟨job, hjob, hleaf⟩ := hi
  rw [Option.map_eq_some_iff] at hleaf
  obtain ⟨leaf, -, rfl⟩ := hleaf
  exact ⟨rfl, by rw [hjob]; rfl⟩

@[simp] theorem handIns_nil : crew.handIns step [] = [] := rfl

theorem handIns_cons (turn : Turn σ) (turns : List (Turn σ)) :
    crew.handIns step (turn :: turns) =
      (crew.handIn? turn.job).toList ++
        (crew.move step turn.job turn.services).1.handIns step turns := rfl

theorem handIns_append (turns later : List (Turn σ)) :
    crew.handIns step (turns ++ later) =
      crew.handIns step turns ++ (crew.interleave step turns).handIns step later := by
  induction turns generalizing crew with
  | nil => rfl
  | cons turn turns ih =>
    rw [List.cons_append, handIns_cons, handIns_cons, ih, interleave_cons, List.append_assoc]

/-- What is handed in comes from jobs whose turn it was. -/
theorem exists_turn_of_mem_handIns {turns : List (Turn σ)} {h : HandIn K}
    (hmem : h ∈ crew.handIns step turns) : ∃ turn ∈ turns, turn.job = h.job := by
  induction turns generalizing crew with
  | nil => simp at hmem
  | cons turn turns ih =>
    rw [handIns_cons, List.mem_append, Option.mem_toList] at hmem
    rcases hmem with hhead | htail
    · exact ⟨turn, List.mem_cons_self, (handIn?_eq_some hhead).1.symm⟩
    · obtain ⟨later, hlater, heq⟩ := ih htail
      exact ⟨later, List.mem_cons_of_mem _ hlater, heq⟩

/-- What is handed in comes from the tasks of the jobs. -/
theorem task_of_mem_handIns {turns : List (Turn σ)} {h : HandIn K}
    (hmem : h ∈ crew.handIns step turns) : (crew.jobs[h.job]?).map Job.task = some h.task := by
  induction turns generalizing crew with
  | nil => simp at hmem
  | cons turn turns ih =>
    rw [handIns_cons, List.mem_append, Option.mem_toList] at hmem
    rcases hmem with hhead | htail
    · obtain ⟨hjob, htask⟩ := handIn?_eq_some hhead
      rwa [hjob]
    · simpa using ih htail

/-- What the tasks of candidates hand in. -/
theorem task_of_mem_handIns_setOut {best : Best K} {candidates : List (Candidate K)}
    {turns : List (Turn σ)} {h : HandIn K}
    (hmem : h ∈ (setOut best candidates).handIns step turns) :
    ∃ candidate, candidates[h.job]? = some candidate ∧ h.task = best.task candidate := by
  obtain ⟨job, hjob, htask⟩ := Option.map_eq_some_iff.mp (task_of_mem_handIns hmem)
  obtain ⟨candidate, hcandidate, rfl⟩ := getElem?_setOut hjob
  exact ⟨candidate, hcandidate, htask.symm⟩

/-! ### For the steps of a search -/

variable [Scalar K] [Network N K] {s : Search N K} {services : Services N K σ}

omit [Network N K] in
/-- What tasks share at the end is what comes of the hand-ins, one after the other. -/
theorem best_interleave (hstep : s.OnlySubmits step) (turns : List (Turn σ)) :
    (crew.interleave step turns).best =
      (crew.handIns step turns).foldl (HandIn.accept s.criteria) crew.best := by
  induction turns generalizing crew with
  | nil => rfl
  | cons turn turns ih =>
    rw [interleave_cons, handIns_cons, List.foldl_append, ih]
    congr 1
    cases hjob : crew.jobs[turn.job]? with
    | none => simp [move_of_none hjob, handIn?, hjob]
    | some job =>
      rw [move_of_some hjob, handIn?_of_some hjob, hstep]
      cases job.phase <;> rfl

/-! ### Tasks that are never skipped -/

/-- What a job has handed in when it is done: what could be expected where it started, for some
states in which it has found the services. -/
theorem filter_handIns [Nonempty σ] {turns : List (Turn σ)} {i : Nat} {task : Task K}
    {phase : TaskPhase N K} (hjob : crew.jobs[i]? = some ⟨task, phase⟩)
    (hopen : crew.best.isOpen task.epoch = true)
    (hdone : (crew.interleave (s.uncheckedStep services) turns).jobs[i]? = some ⟨task, .done⟩) :
    ∃ a b, (crew.handIns (s.uncheckedStep services) turns).filter (·.job == i) =
      (s.prospect services task phase a b).toList.map (⟨i, task, ·⟩) := by
  induction turns generalizing crew phase with
  | nil =>
    obtain ⟨state⟩ := ‹Nonempty σ›
    obtain rfl : phase = .done := (Job.mk.inj (Option.some.inj (hjob.symm.trans hdone))).2
    exact ⟨state, state, rfl⟩
  | cons turn turns ih =>
    rw [interleave_cons] at hdone
    rw [handIns_cons, List.filter_append]
    have hstill := (Search.isOpen_move (s.onlySubmits_uncheckedStep services) crew turn.job
      turn.services task.epoch).trans hopen
    by_cases hi : turn.job = i
    · subst hi
      have hnext := getElem?_move_self (s.uncheckedStep services) turn.services hjob
      obtain ⟨a, b, hrest⟩ := ih hnext hstill hdone
      rw [hrest, handIn?_of_some hjob]
      cases hleaf : phase.leaf? with
      | some leaf =>
        obtain rfl := TaskPhase.leaf?_eq_some_iff.mp hleaf
        have hend : s.prospect services task
            (s.uncheckedStep services task crew.best (.finished leaf) turn.services).1.2 a b =
              none := rfl
        refine ⟨a, b, ?_⟩
        rw [hend]
        simp [Search.prospect]
      | none =>
        have hnot : ∀ leaf, phase ≠ .finished leaf := by
          rintro leaf rfl
          cases hleaf
        obtain ⟨a', b', hprospect⟩ :=
          s.prospect_uncheckedStep services hopen hnot turn.services a b
        exact ⟨a', b', by rw [hprospect]; rfl⟩
    · have hother : (crew.handIn? turn.job).toList.filter (·.job == i) = [] := by
        rw [List.filter_eq_nil_iff]
        intro h hmem hjob'
        rw [Option.mem_toList] at hmem
        exact hi ((handIn?_eq_some hmem).1.symm.trans (beq_iff_eq.mp hjob'))
      rw [hother, List.nil_append]
      exact ih ((getElem?_move_of_ne hi turn.services).trans hjob) hstill hdone

/-- What the task of a candidate has handed in when it is done: what the candidate comes to. -/
theorem filter_handIns_setOut {best : Best K} {candidates : List (Candidate K)}
    {turns : List (Turn σ)} {i : Nat} {candidate : Candidate K}
    (hcandidate : candidates[i]? = some candidate)
    (hdone : ((setOut best candidates).interleave (s.uncheckedStep services) turns).isDone = true) :
    ∃ a b, ((setOut best candidates).handIns (s.uncheckedStep services) turns).filter
        (·.job == i) =
      (s.attempt services (best.task candidate) a b).toList.map (⟨i, best.task candidate, ·⟩) := by
  have hjob := getElem?_setOut_of_some (N := N) best hcandidate
  obtain ⟨phase, hphase, -⟩ :=
    getElem?_interleave (s.descends_uncheckedStep services) turns hjob
  obtain rfl := isDone_iff.mp hdone i _ phase hphase
  -- a job that has not been started is not done, so there has been some turn
  cases turns with
  | nil => cases (hjob.symm.trans hphase)
  | cons turn turns =>
    have : Nonempty σ := ⟨turn.services⟩
    exact filter_handIns hjob (beq_self_eq_true _) hphase

/-- What the task of a candidate hands in that comes to a settled outcome. -/
def settledHandIn? (best : Best K) (candidates : List (Candidate K))
    (outcome : Candidate K → Option (FinalizedLeaf K)) (i : Nat) : Option (HandIn K) :=
  (candidates[i]?).bind fun candidate => (outcome candidate).map (⟨i, best.task candidate, ·⟩)

omit [Scalar K] in
theorem settledHandIn?_eq_some_iff {best : Best K} {candidates : List (Candidate K)}
    {outcome : Candidate K → Option (FinalizedLeaf K)} {i : Nat} {h : HandIn K} :
    settledHandIn? best candidates outcome i = some h ↔ ∃ candidate,
      candidates[i]? = some candidate ∧ outcome candidate = some h.leaf ∧
        h = ⟨i, best.task candidate, h.leaf⟩ := by
  unfold settledHandIn?
  simp only [Option.bind_eq_some_iff, Option.map_eq_some_iff]
  constructor
  · rintro ⟨candidate, hcandidate, leaf, hleaf, rfl⟩
    exact ⟨candidate, hcandidate, hleaf, rfl⟩
  · rintro ⟨candidate, hcandidate, hleaf, heq⟩
    exact ⟨candidate, hcandidate, h.leaf, hleaf, heq.symm⟩

omit [Scalar K] in
theorem isSettled_of_settledHandIn? {best : Best K} {candidates : List (Candidate K)}
    {outcome : Candidate K → Option (FinalizedLeaf K)} {i : Nat} {h : HandIn K}
    (hi : settledHandIn? best candidates outcome i = some h) :
    h.IsSettled best candidates outcome := by
  obtain ⟨candidate, hcandidate, hleaf, heq⟩ := settledHandIn?_eq_some_iff.mp hi
  rw [heq]
  exact ⟨⟨rfl, rfl⟩, List.mem_of_getElem? hcandidate, hleaf⟩

omit [Scalar K] in
theorem isSettled_of_mem_flatMap {best : Best K} {candidates : List (Candidate K)}
    {outcome : Candidate K → Option (FinalizedLeaf K)} {order : List Nat} {h : HandIn K}
    (hmem : h ∈ order.flatMap fun i => (settledHandIn? best candidates outcome i).toList) :
    h.IsSettled best candidates outcome := by
  obtain ⟨i, -, hi⟩ := List.mem_flatMap.mp hmem
  exact isSettled_of_settledHandIn? (Option.mem_toList.mp hi)

omit [Scalar K] in
/-- The outcome of a candidate is handed in by some job. -/
theorem exists_settledHandIn? (best : Best K) {candidates : List (Candidate K)}
    {outcome : Candidate K → Option (FinalizedLeaf K)} {candidate : Candidate K}
    {leaf : FinalizedLeaf K} (hmem : candidate ∈ candidates)
    (hleaf : outcome candidate = some leaf) :
    ∃ i < candidates.length, settledHandIn? best candidates outcome i =
      some ⟨i, best.task candidate, leaf⟩ := by
  obtain ⟨i, hi⟩ := List.getElem?_of_mem hmem
  exact ⟨i, (List.getElem?_eq_some_iff.mp hi).1,
    settledHandIn?_eq_some_iff.mpr ⟨candidate, hi, hleaf, rfl⟩⟩

/-- When outcomes are settled and all tasks are done, the outcomes have been handed in and nothing
else. -/
theorem mem_handIns_setOut_iff {best : Best K} {candidates : List (Candidate K)}
    {outcome : Candidate K → Option (FinalizedLeaf K)}
    (hsettled : ∀ c ∈ candidates, s.Settles services (best.task c) (outcome c))
    {turns : List (Turn σ)}
    (hdone : ((setOut best candidates).interleave (s.uncheckedStep services) turns).isDone = true)
    (h : HandIn K) :
    h ∈ (setOut best candidates).handIns (s.uncheckedStep services) turns ↔
      settledHandIn? best candidates outcome h.job = some h := by
  have hfilter : ∀ (i : Nat) (candidate : Candidate K), candidates[i]? = some candidate →
      ((setOut best candidates).handIns (s.uncheckedStep services) turns).filter (·.job == i) =
        (outcome candidate).toList.map (⟨i, best.task candidate, ·⟩) := by
    intro i candidate hcandidate
    obtain ⟨a, b, hin⟩ := filter_handIns_setOut hcandidate hdone
    rwa [hsettled candidate (List.mem_of_getElem? hcandidate) a b] at hin
  rw [settledHandIn?_eq_some_iff]
  constructor
  · intro hmem
    obtain ⟨candidate, hcandidate, -⟩ := task_of_mem_handIns_setOut hmem
    have hown := List.mem_filter (p := (·.job == h.job)).mpr ⟨hmem, beq_self_eq_true h.job⟩
    rw [hfilter h.job candidate hcandidate, List.mem_map] at hown
    obtain ⟨leaf, hleaf, heq⟩ := hown
    obtain rfl : leaf = h.leaf := congrArg HandIn.leaf heq
    exact ⟨candidate, hcandidate, Option.mem_toList.mp hleaf, heq.symm⟩
  · rintro ⟨candidate, hcandidate, hleaf, heq⟩
    have hown : h ∈ ((setOut best candidates).handIns (s.uncheckedStep services) turns).filter
        (·.job == h.job) := by
      rw [hfilter h.job candidate hcandidate, hleaf]
      exact List.mem_singleton.mpr heq
    exact (List.mem_filter.mp hown).1

/-- A job that has eight turns in a row hands in what its candidate comes to. -/
theorem handIns_replicate {best : Best K} {candidates : List (Candidate K)}
    {outcome : Candidate K → Option (FinalizedLeaf K)} {i : Nat} {candidate : Candidate K}
    (hcandidate : candidates[i]? = some candidate)
    (hsettled : s.Settles services (best.task candidate) (outcome candidate)) (state : σ)
    (hjob : crew.jobs[i]? = some ⟨best.task candidate, .queued⟩)
    (hopen : crew.best.isOpen best.epoch = true) :
    crew.handIns (s.uncheckedStep services) (List.replicate 8 ⟨i, state⟩) =
      (settledHandIn? best candidates outcome i).toList := by
  have : Nonempty σ := ⟨state⟩
  have hdone : (crew.interleave (s.uncheckedStep services)
      (List.replicate 8 ⟨i, state⟩)).jobs[i]? = some ⟨best.task candidate, .done⟩ := by
    obtain ⟨phase, hphase, hle⟩ := getElem?_interleave (s.descends_uncheckedStep services)
      (List.replicate 8 ⟨i, state⟩) hjob
    have hzero : phase.stepsLeft = 0 := by simpa [TaskPhase.stepsLeft] using hle
    rw [hphase, TaskPhase.isDone_iff.mp (TaskPhase.isDone_iff_stepsLeft.mpr hzero)]
  obtain ⟨a, b, hfilter⟩ := filter_handIns hjob hopen hdone
  have hprospect : s.prospect services (best.task candidate) .queued a b = outcome candidate :=
    hsettled a b
  rw [List.filter_eq_self.mpr] at hfilter
  · rw [hfilter, hprospect, settledHandIn?, hcandidate, Option.bind_some, Option.toList_map]
  · intro h hmem
    obtain ⟨turn, hturn, heq⟩ := exists_turn_of_mem_handIns hmem
    rw [beq_iff_eq, ← heq, List.eq_of_mem_replicate hturn]

/-- Jobs that work one after the other hand in in that order. -/
theorem handIns_oneByOne {best : Best K} {candidates : List (Candidate K)}
    {outcome : Candidate K → Option (FinalizedLeaf K)}
    (hsettled : ∀ c ∈ candidates, s.Settles services (best.task c) (outcome c)) (state : σ)
    {order : List Nat} (hnodup : order.Nodup)
    (hqueued : ∀ i ∈ order, ∃ candidate, candidates[i]? = some candidate ∧
      crew.jobs[i]? = some ⟨best.task candidate, .queued⟩)
    (hopen : crew.best.isOpen best.epoch = true) :
    crew.handIns (s.uncheckedStep services) (Turn.oneByOne state order) =
      order.flatMap fun i => (settledHandIn? best candidates outcome i).toList := by
  induction order generalizing crew with
  | nil => rfl
  | cons i order ih =>
    obtain ⟨hnew, hnodup⟩ := List.nodup_cons.mp hnodup
    obtain ⟨candidate, hcandidate, hjob⟩ := hqueued i List.mem_cons_self
    have hstill := (Search.isOpen_interleave (s.onlySubmits_uncheckedStep services) crew
      (List.replicate 8 ⟨i, state⟩) best.epoch).trans hopen
    rw [Turn.oneByOne_cons, handIns_append, List.flatMap_cons,
      handIns_replicate hcandidate (hsettled candidate (List.mem_of_getElem? hcandidate)) state
        hjob hopen,
      ih hnodup ?_ hstill]
    intro j hj
    rw [getElem?_interleave_of_ne]
    · exact hqueued j (List.mem_cons_of_mem _ hj)
    · intro turn hturn heq
      obtain rfl : i = j := by rwa [List.eq_of_mem_replicate hturn] at heq
      exact hnew hj

end Crew

end GridRelief
