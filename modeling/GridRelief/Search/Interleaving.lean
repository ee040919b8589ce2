import GridRelief.Search.Depth

/-!
# Tasks side by side

Tasks are worked on side by side: one step of one task is followed by one step of any other. What
happens is told by a list of turns, each naming the task that moves. Between two turns anything
may have been asked of the services, so a turn also says in which state it finds them.

## Main definitions

* `Job N K`: a task, and where it stands.
* `Crew N K`: jobs, and what they share.
* `Crew.move`: one step of one job.
* `Crew.interleave`: the steps of a list of turns.
* `Search.crewAfter`: the tasks of a depth after some turns.
-/

namespace GridRelief

variable {K N σ : Type}

/-- A task at work. -/
structure Job (N K : Type) where
  task : Task K
  phase : TaskPhase N K := .queued

/-- Jobs that are worked on side by side. -/
structure Crew (N K : Type) where
  best : Best K
  jobs : List (Job N K) := []

/-- What one step of a task does with what tasks share and with where the task stands. -/
abbrev TaskStep (N K σ : Type) : Type :=
  Task K → Best K → TaskPhase N K → StateM σ (Best K × TaskPhase N K)

/-- A turn of a job. -/
structure Turn (σ : Type) where
  /-- The number of the job that moves. -/
  job : Nat
  /-- The state in which it finds the services. -/
  services : σ

/-- Whether a task takes no further step. -/
def TaskPhase.isDone : TaskPhase N K → Bool
  | .done => true
  | _ => false

/-- Whether a task has not been started. -/
def TaskPhase.isQueued : TaskPhase N K → Bool
  | .queued => true
  | _ => false

/-- The task of trying a candidate on top of the best leaf. -/
def Best.task (best : Best K) (candidate : Candidate K) : Task K :=
  ⟨best.epoch, best.leaf, candidate⟩

namespace Crew

/-- The crew that sets out to try candidates on top of the best leaf. -/
def setOut (best : Best K) (candidates : List (Candidate K)) : Crew N K where
  best
  jobs := candidates.map fun candidate => { task := best.task candidate }

/-- Let a job take one step; a number that no job has does nothing. -/
def move (step : TaskStep N K σ) (job : Nat) (crew : Crew N K) : StateM σ (Crew N K) :=
  match crew.jobs[job]? with
  | none => return crew
  | some ⟨task, phase⟩ => do
    let (best, phase) ← step task crew.best phase
    return ⟨best, crew.jobs.set job ⟨task, phase⟩⟩

/-- Let jobs take steps turn by turn. -/
def interleave (step : TaskStep N K σ) (turns : List (Turn σ)) (crew : Crew N K) : Crew N K :=
  turns.foldl (fun crew turn => (crew.move step turn.job turn.services).1) crew

/-- Whether no job takes a further step. -/
def isDone (crew : Crew N K) : Bool := crew.jobs.all (·.phase.isDone)

end Crew

/-- The tasks of trying candidates on top of the best leaf, after some turns. -/
def Search.crewAfter [Scalar K] [Network N K] (s : Search N K) (services : Services N K σ)
    (best : Best K) (candidates : List (Candidate K)) (turns : List (Turn σ)) : Crew N K :=
  (Crew.setOut best candidates).interleave (s.step services) turns

end GridRelief
