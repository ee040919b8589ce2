import Mathlib.Data.List.Basic
import GridRelief.Proofs.Search.HandIns
import GridRelief.Proofs.Search.NetworkPool

/-!
# Jobs on leased copies

Each job of a depth leases a copy of the network when it is started, works on it, and gives it back
in the step that ends it, whichever step this is. A job that is to be started waits while no copy is
free. So as many copies are away as jobs are at work: none is lost when a job is skipped or fails,
and no job waits while there are fewer at work than copies. Apart from the waiting the jobs do what
they would do with networks of their own.

* `PooledCrew`, `PooledCrew.run`: jobs that take turns, and the pool that they share.
* `PooledCrew.IsOrderly`: as many copies are away as jobs are at work, and no two share a lease.
* `Search.copies_of_jobs`: so it is after all turns, and all copies are back when the jobs are done.
-/

namespace GridRelief

variable {K N σ : Type}

/-- A job is at work from its start until it is done. -/
def TaskPhase.isAtWork (phase : TaskPhase N K) : Bool := !phase.isQueued && !phase.isDone

/-- Jobs that work on copies from a pool. -/
structure PooledCrew (N K : Type) where
  crew : Crew N K
  pool : NetworkPool N
  /-- The number of the lease of each job that is at work. -/
  leaseOf : Nat → Nat := fun _ => 0

/-- A turn of a job, and what the job makes of its copy in this turn. -/
structure PooledTurn (N σ : Type) extends Turn σ where
  network : N

namespace PooledCrew

variable {c : PooledCrew N K} {step : TaskStep N K σ}

/-- The crew that sets out to try candidates on copies of a network. -/
def setOut (base : N) (size : Nat) (best : Best K) (candidates : List (Candidate K)) :
    PooledCrew N K where
  crew := .setOut best candidates
  pool := .ofNetwork base size

/-- The lease under which a job takes a step, a new one if it is started. -/
def numberOf (c : PooledCrew N K) (job : Nat) (phase : TaskPhase N K) : Nat :=
  if phase.isQueued then c.pool.leases.length else c.leaseOf job

/-- What a step means for the pool: a copy is leased when a job is started, it is changed, and the
lease ends when the job is done. -/
def events (number : Nat) (phase later : TaskPhase N K) (network : N) : List (PoolEvent N) :=
  (if phase.isQueued then [.checkout] else []) ++
    .change number network :: if later.isDone then [.release number] else []

/-- Let a job take one step. A job that is to be started waits while no copy is free. -/
def move (step : TaskStep N K σ) (c : PooledCrew N K) (turn : PooledTurn N σ) : PooledCrew N K :=
  match c.crew.jobs[turn.job]? with
  | none => c
  | some ⟨task, phase⟩ =>
    if phase.isDone || (phase.isQueued && c.pool.available == 0) then c
    else
      let number := c.numberOf turn.job phase
      let later := (step task c.crew.best phase turn.services).1.2
      { crew := (c.crew.move step turn.job turn.services).1
        pool := c.pool.after (events number phase later turn.network)
        leaseOf := Function.update c.leaseOf turn.job number }

/-- Let jobs take steps turn by turn. -/
def run (step : TaskStep N K σ) (c : PooledCrew N K) (turns : List (PooledTurn N σ)) :
    PooledCrew N K := turns.foldl (move step) c

/-- The number of jobs at work. -/
def atWork (c : PooledCrew N K) : Nat := c.crew.jobs.countP (·.phase.isAtWork)

/-! ### Order -/

/-- As many copies are away as jobs are at work, and each of these has a lease of its own. -/
structure IsOrderly (c : PooledCrew N K) : Prop where
  count : c.pool.available + c.atWork = c.pool.size
  held : ∀ (i : Nat) job, c.crew.jobs[i]? = some job → job.phase.isAtWork = true →
    (c.pool.lease? (c.leaseOf i)).isSome = true
  apart : ∀ (i j : Nat) job other, c.crew.jobs[i]? = some job → job.phase.isAtWork = true →
    c.crew.jobs[j]? = some other → other.phase.isAtWork = true → c.leaseOf i = c.leaseOf j → i = j

theorem isAtWork_of_queued {phase : TaskPhase N K} (h : phase.isQueued = true) :
    phase.isAtWork = false := by
  unfold TaskPhase.isAtWork
  rw [h]
  rfl

/-- The entries that pass a test are counted anew when one entry is changed. -/
theorem countP_set_add {α : Type} (test : α → Bool) {xs : List α} {i : Nat} {x : α}
    (h : xs[i]? = some x) (y : α) :
    (xs.set i y).countP test + (if test x then 1 else 0) =
      xs.countP test + if test y then 1 else 0 := by
  obtain ⟨hi, rfl⟩ := List.getElem?_eq_some_iff.mp h
  have hpositive : test xs[i] = true → 0 < xs.countP test := fun htest =>
    List.countP_pos_iff.mpr ⟨xs[i], List.getElem_mem hi, htest⟩
  rw [List.countP_set hi]
  split
  · next htest =>
    have hone := hpositive htest
    omega
  · omega

/-! ### One step -/

/-- What a pool is like once a job has its copy: the job has a lease that no other job at work has,
and one copy is away for it. -/
structure Holds (c : PooledCrew N K) (i number : Nat) (phase : TaskPhase N K)
    (pool : NetworkPool N) : Prop where
  count : pool.available + 1 + c.atWork = c.pool.size + if phase.isAtWork then 1 else 0
  held : (pool.lease? number).isSome = true
  others : ∀ (j : Nat) job, j ≠ i → c.crew.jobs[j]? = some job → job.phase.isAtWork = true →
    number ≠ c.leaseOf j ∧ (pool.lease? (c.leaseOf j)).isSome = true

namespace IsOrderly

variable (hc : c.IsOrderly) {i : Nat} {task : Task K} {phase later : TaskPhase N K}
include hc

/-- A job that is started gets a lease of its own. -/
theorem holds_checkout (i : Nat) (hqueued : phase.isQueued = true)
    (hfree : 0 < c.pool.available) :
    c.Holds i c.pool.leases.length phase (c.pool.handle .checkout) := by
  obtain ⟨q, hq⟩ := Option.isSome_iff_exists.mp (NetworkPool.isSome_checkout?_iff.mpr hfree)
  obtain ⟨⟨copy, -, hlease⟩, havailable, hothers⟩ := NetworkPool.lease?_of_checkout? hq
  have hpool : c.pool.handle .checkout = q := by
    change c.pool.checkout?.getD c.pool = q
    rw [hq]
    rfl
  rw [hpool]
  constructor
  · rw [isAtWork_of_queued hqueued, havailable]
    exact hc.count
  · rw [hlease]
    rfl
  · intro j job hne hother hwork
    have hheld := hc.held j job hother hwork
    have hlt := NetworkPool.lt_of_lease? hheld
    exact ⟨Nat.ne_of_gt hlt, hothers _ hlt ▸ hheld⟩

/-- A job at work has a lease of its own. -/
theorem holds_atWork (hjob : c.crew.jobs[i]? = some ⟨task, phase⟩)
    (hwork : phase.isAtWork = true) : c.Holds i (c.leaseOf i) phase c.pool := by
  constructor
  · rw [hwork, if_pos rfl, ← hc.count]
    omega
  · exact hc.held i _ hjob hwork
  · intro j job hne hother hwork'
    exact ⟨fun heq => hne (hc.apart j i job _ hother hwork' hjob hwork heq.symm),
      hc.held j job hother hwork'⟩

end IsOrderly

/-- A change of the copy of a job changes nothing of who has a lease. -/
theorem Holds.change {i number : Nat} {phase : TaskPhase N K} {pool : NetworkPool N}
    (h : c.Holds i number phase pool) (network : N) :
    c.Holds i number phase (pool.change number network) := by
  constructor
  · rw [pool.available_change]
    exact h.count
  · rw [pool.isSome_lease?_change]
    exact h.held
  · intro j job hne hother hwork
    rw [pool.isSome_lease?_change]
    exact h.others j job hne hother hwork

/-- Once a job has taken its step the crew is in order again: the job keeps its lease, or it is done
and its copy is back. -/
theorem Holds.settle {i number : Nat} {task : Task K} {phase later : TaskPhase N K}
    {pool : NetworkPool N} (hc : c.IsOrderly) (h : c.Holds i number phase pool)
    (hjob : c.crew.jobs[i]? = some ⟨task, phase⟩) (hlater : later.isQueued = false)
    (hsize : pool.size = c.pool.size) (best : Best K) :
    IsOrderly ⟨⟨best, c.crew.jobs.set i ⟨task, later⟩⟩,
      if later.isDone then pool.release number else pool, Function.update c.leaseOf i number⟩ := by
  have hwork : later.isAtWork = !later.isDone := by
    unfold TaskPhase.isAtWork
    rw [hlater, Bool.not_false, Bool.true_and]
  have hi : i < c.crew.jobs.length := (List.getElem?_eq_some_iff.mp hjob).1
  have hcases : ∀ (j : Nat) job, (c.crew.jobs.set i ⟨task, later⟩)[j]? = some job →
      job.phase.isAtWork = true → (j = i ∧ later.isDone = false) ∨
        (j ≠ i ∧ c.crew.jobs[j]? = some job ∧ job.phase.isAtWork = true) := by
    intro j job hj hatWork
    by_cases hne : j = i
    · subst hne
      rw [List.getElem?_set_self hi] at hj
      obtain rfl := Option.some.inj hj
      exact .inl ⟨rfl, by simpa [hwork] using hatWork⟩
    · rw [List.getElem?_set_ne (Ne.symm hne)] at hj
      exact .inr ⟨hne, hj, hatWork⟩
  obtain ⟨hfree, hkept⟩ := NetworkPool.lease?_release h.held
  constructor
  · have hcount := countP_set_add (fun job : Job N K => job.phase.isAtWork) hjob ⟨task, later⟩
    have hbefore := h.count
    unfold atWork at hbefore ⊢
    dsimp only at hcount hbefore ⊢
    rw [hwork] at hcount
    cases hdone : later.isDone with
    | false =>
      rw [hdone] at hcount
      simp only [Bool.not_false, if_true, Bool.false_eq_true, if_false] at hcount ⊢
      omega
    | true =>
      rw [hdone] at hcount
      simp only [Bool.not_true, Bool.false_eq_true, if_false, if_true, hfree] at hcount ⊢
      have hsame : (pool.release number).size = pool.size :=
        (pool.base_size_handle (.release number)).2
      omega
  · intro j job hj hatWork
    dsimp only at hj ⊢
    rcases hcases j job hj hatWork with ⟨rfl, hdone⟩ | ⟨hne, hother, hwork'⟩
    · rw [Function.update_self, hdone]
      exact h.held
    · obtain ⟨hapart, hheld⟩ := h.others j job hne hother hwork'
      rw [Function.update_of_ne hne]
      split
      · rw [hkept _ hapart]
        exact hheld
      · exact hheld
  · intro j k job other hj hatWork hk hatWork' heq
    dsimp only at hj hk heq
    rcases hcases j job hj hatWork with ⟨rfl, -⟩ | ⟨hj', hjob', hwork'⟩
    · rcases hcases k other hk hatWork' with ⟨rfl, -⟩ | ⟨hk', hother', hwork''⟩
      · rfl
      · rw [Function.update_self, Function.update_of_ne hk'] at heq
        exact absurd heq (h.others k other hk' hother' hwork'').1
    · rw [Function.update_of_ne hj'] at heq
      rcases hcases k other hk hatWork' with ⟨rfl, -⟩ | ⟨hk', hother', hwork''⟩
      · rw [Function.update_self] at heq
        exact absurd heq.symm (h.others j job hj' hjob' hwork').1
      · rw [Function.update_of_ne hk'] at heq
        exact hc.apart j k job other hjob' hwork' hother' hwork'' heq

/-- What a step means for the pool, event by event. -/
theorem after_events (pool : NetworkPool N) (number : Nat) (phase later : TaskPhase N K)
    (network : N) : pool.after (events number phase later network) =
      let started := if phase.isQueued then pool.handle .checkout else pool
      let changed := started.change number network
      if later.isDone then changed.release number else changed := by
  unfold events
  cases phase.isQueued <;> cases later.isDone <;> rfl

theorem isQueued_eq_false {phase : TaskPhase N K} (h : phase.stepsLeft < 8) :
    phase.isQueued = false := by
  cases phase with
  | queued => exact absurd h (Nat.lt_irrefl 8)
  | _ => rfl

/-- One step keeps the crew in order. -/
theorem IsOrderly.move (hc : c.IsOrderly) (hstep : step.Descends) (turn : PooledTurn N σ) :
    (c.move step turn).IsOrderly := by
  unfold PooledCrew.move
  split
  · exact hc
  · next task phase hjob =>
    split
    · exact hc
    · next hmoves =>
      rw [Bool.or_eq_true, Bool.and_eq_true, beq_iff_eq, not_or] at hmoves
      obtain ⟨hdone, hfree⟩ := hmoves
      have hlater : (step task c.crew.best phase turn.services).1.2.isQueued = false := by
        have hless := hstep task c.crew.best phase turn.services
        have hmost := phase.stepsLeft_le
        exact isQueued_eq_false (by omega)
      dsimp only
      rw [Crew.move_of_some hjob, after_events]
      unfold numberOf
      cases hqueued : phase.isQueued with
      | true =>
        have hsome : 0 < c.pool.available :=
          Nat.pos_of_ne_zero fun hzero => hfree ⟨hqueued, hzero⟩
        have hholds := (hc.holds_checkout turn.job hqueued hsome).change turn.network
        have hsize := (c.pool.base_size_after
          [.checkout, .change c.pool.leases.length turn.network]).2
        exact hholds.settle hc hjob hlater hsize _
      | false =>
        have hwork : phase.isAtWork = true := by
          unfold TaskPhase.isAtWork
          rw [hqueued, Bool.eq_false_iff.mpr hdone]
          rfl
        have hsize := (c.pool.base_size_handle (.change (c.leaseOf turn.job) turn.network)).2
        exact ((hc.holds_atWork hjob hwork).change turn.network).settle hc hjob hlater hsize _

/-- A turn of a job that waits is no turn, and another one is a turn of the crew. -/
theorem crew_move (step : TaskStep N K σ) (c : PooledCrew N K) (turn : PooledTurn N σ) :
    (c.move step turn).crew = c.crew ∨
      (c.move step turn).crew = (c.crew.move step turn.job turn.services).1 := by
  unfold move
  split
  · exact .inl rfl
  · split
    · exact .inl rfl
    · exact .inr rfl

/-- What happens to the pool is a list of events. -/
theorem exists_events_move (step : TaskStep N K σ) (c : PooledCrew N K) (turn : PooledTurn N σ) :
    ∃ events, (c.move step turn).pool = c.pool.after events := by
  unfold move
  split
  · exact ⟨[], rfl⟩
  · split
    · exact ⟨[], rfl⟩
    · exact ⟨_, rfl⟩

/-! ### Runs -/

theorem IsOrderly.run (hc : c.IsOrderly) (hstep : step.Descends) (turns : List (PooledTurn N σ)) :
    (c.run step turns).IsOrderly := by
  induction turns generalizing c with
  | nil => exact hc
  | cons turn turns ih => exact ih (hc.move hstep turn)

theorem exists_turns_run (step : TaskStep N K σ) (c : PooledCrew N K)
    (turns : List (PooledTurn N σ)) : ∃ kept : List (Turn σ),
      kept.Sublist (turns.map PooledTurn.toTurn) ∧
        (c.run step turns).crew = c.crew.interleave step kept := by
  induction turns generalizing c with
  | nil => exact ⟨[], .slnil, rfl⟩
  | cons turn turns ih =>
    obtain ⟨kept, hkept, hcrew⟩ := ih (c.move step turn)
    rcases c.crew_move step turn with hsame | hmoved
    · rw [hsame] at hcrew
      exact ⟨kept, hkept.cons _, hcrew⟩
    · rw [hmoved] at hcrew
      exact ⟨turn.toTurn :: kept, hkept.cons_cons _, hcrew⟩

theorem exists_events_run (step : TaskStep N K σ) (c : PooledCrew N K)
    (turns : List (PooledTurn N σ)) : ∃ events, (c.run step turns).pool = c.pool.after events := by
  induction turns generalizing c with
  | nil => exact ⟨[], rfl⟩
  | cons turn turns ih =>
    obtain ⟨later, hlater⟩ := ih (c.move step turn)
    obtain ⟨first, hfirst⟩ := c.exists_events_move step turn
    refine ⟨first ++ later, hlater.trans ?_⟩
    rw [hfirst, NetworkPool.after, NetworkPool.after, NetworkPool.after, List.foldl_append]

theorem isOrderly_setOut (base : N) (size : Nat) (best : Best K)
    (candidates : List (Candidate K)) : (setOut base size best candidates).IsOrderly := by
  have hqueued : ∀ (i : Nat) job, (setOut base size best candidates).crew.jobs[i]? = some job →
      job.phase.isAtWork = false := by
    intro i job hjob
    obtain ⟨candidate, -, rfl⟩ := Crew.getElem?_setOut hjob
    rfl
  constructor
  · have hzero : (setOut base size best candidates).atWork = 0 := by
      refine List.countP_eq_zero.mpr fun job hjob hwork => ?_
      obtain ⟨i, hi⟩ := List.mem_iff_getElem?.mp hjob
      rw [hqueued i job hi] at hwork
      cases hwork
    rw [hzero]
    exact List.length_replicate
  · intro i job hjob hwork
    rw [hqueued i job hjob] at hwork
    cases hwork
  · intro i j job other hjob hwork
    rw [hqueued i job hjob] at hwork
    cases hwork

/-- No job is at work when all are done. -/
theorem atWork_eq_zero (h : c.crew.isDone = true) : c.atWork = 0 := by
  refine List.countP_eq_zero.mpr fun job hjob hwork => ?_
  unfold TaskPhase.isAtWork at hwork
  rw [List.all_eq_true.mp h job hjob, Bool.not_true, Bool.and_false] at hwork
  cases hwork

end PooledCrew

/-- Whatever turns the jobs of a depth take, as many copies of its pool are away as jobs are at
work, and each of these has a lease of its own. So all copies are back when the jobs are done, and a
copy is free while fewer are at work than there are copies. Apart from the waiting the jobs do what
they do with networks of their own. -/
theorem Search.copies_of_jobs [Scalar K] [Network N K] (s : Search N K) (services : Services N K σ)
    (best : Best K) (candidates : List (Candidate K)) (size : Nat)
    (turns : List (PooledTurn N σ)) :
    let outset := PooledCrew.setOut s.situation.network size best candidates
    let c := outset.run (s.step services) turns
    c.IsOrderly ∧ c.pool.available + c.atWork = max size 1 ∧
    (c.crew.isDone = true → c.pool.available = max size 1) ∧
    (∃ events, c.pool = (NetworkPool.ofNetwork s.situation.network size).after events) ∧
    ∃ kept : List (Turn σ), kept.Sublist (turns.map PooledTurn.toTurn) ∧
      c.crew = s.crewAfter services best candidates kept := by
  intro outset c
  have hc : c.IsOrderly :=
    (PooledCrew.isOrderly_setOut _ _ _ _).run (s.descends_step services) turns
  obtain ⟨events, hevents⟩ := PooledCrew.exists_events_run (s.step services) outset turns
  have hsize : c.pool.size = max size 1 := by
    rw [show c.pool = _ from hevents]
    exact (NetworkPool.base_size_after _ events).2
  have hcount : c.pool.available + c.atWork = max size 1 := hc.count.trans hsize
  refine ⟨hc, hcount, fun hdone => ?_, ⟨events, hevents⟩,
    PooledCrew.exists_turns_run (s.step services) _ turns⟩
  rwa [PooledCrew.atWork_eq_zero hdone, Nat.add_zero] at hcount

end GridRelief
