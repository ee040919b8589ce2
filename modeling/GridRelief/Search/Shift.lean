import GridRelief.Search.Interleaving

/-!
# Tasks in time

A limited number of workers see to the tasks of a search. A free worker starts the task that comes
next in the queue, and keeps to it until its end. Of the steps that are due, the earliest is taken
first, so what a step costs in time decides in which order the steps of several tasks come. What
is still under way when the time of a depth is over goes on, and keeps its worker.

## Main definitions

* `Shift N K`: a crew at work in time.
* `Shift.next?`: the job that moves next.
* `Search.work`, `Search.explore`: the steps of a depth until its end.
-/

namespace GridRelief

variable {K N σ : Type}

/-- A crew at work in time. -/
structure Shift (N K : Type) where
  crew : Crew N K
  /-- The time at which the next step of each job is due. -/
  due : List Nat := []
  /-- The time of the last step. -/
  now : Nat := 0

namespace Shift

/-- The time at which the next step of a job starts. -/
def startOf (shift : Shift N K) (job : Nat) : Nat := max shift.now (shift.due.getD job 0)

/-- Whether a job is done and its last step is over. -/
def isOver (shift : Shift N K) (job : Nat) (phase : TaskPhase N K) : Bool :=
  phase.isDone && shift.startOf job == shift.now

/-- The numbers of the jobs that pass a test. -/
def numbers (shift : Shift N K) (test : Nat → TaskPhase N K → Bool) : List Nat :=
  (List.range shift.crew.jobs.length).filter fun job =>
    (shift.crew.jobs[job]?).any fun entry => test job entry.phase

/-- The jobs that have a worker. -/
def started (shift : Shift N K) : List Nat :=
  shift.numbers fun job phase => !phase.isQueued && !shift.isOver job phase

/-- The jobs that wait for a worker, in order. -/
def queue (shift : Shift N K) : List Nat := shift.numbers fun _ phase => phase.isQueued

/-- The jobs that may move: those that have a worker, and the first one of the queue if a worker
is free. -/
def movable (workers : Nat) (shift : Shift N K) : List Nat :=
  shift.started ++ if shift.started.length < workers then shift.queue.take 1 else []

/-- The job whose next step starts first, the first one of several. -/
def next? (workers : Nat) (shift : Shift N K) : Option Nat :=
  match shift.movable workers with
  | [] => none
  | first :: rest =>
    let earlier (best job : Nat) : Nat :=
      if shift.startOf job < shift.startOf best then job else best
    some (rest.foldl earlier first)

/-- Whether some job of the open depth is not over. -/
def isBusy (shift : Shift N K) : Bool :=
  (List.range shift.crew.jobs.length).any fun job =>
    (shift.crew.jobs[job]?).any fun entry =>
      shift.crew.best.isOpen entry.task.epoch && !shift.isOver job entry.phase

/-- A shift after a job has taken a step, which has led to a crew and cost some time. -/
def afterStep (shift : Shift N K) (job : Nat) (crew : Crew N K) (spent : Nat) : Shift N K :=
  ⟨crew, shift.due.set job (shift.startOf job + spent), shift.startOf job⟩

/-- Put tasks at the end of the queue. -/
def enlist (shift : Shift N K) (tasks : List (Task K)) : Shift N K :=
  { shift with
    crew.jobs := shift.crew.jobs ++ tasks.map ({ task := · })
    due := shift.due ++ tasks.map fun _ => shift.now }

/-- Close the depth being explored. -/
def close (shift : Shift N K) : Shift N K := { shift with crew.best := shift.crew.best.close }

end Shift

namespace Search

variable [Scalar K] [Network N K]

/-- The number of workers: as many as the parameters or the processors allow, but not more than
there are network actions. -/
def workers (s : Search N K) (services : Services N K σ) : Nat :=
  let wanted :=
    match s.parameters.tree.leavesInParallel with
    | 0 => services.processors
    | wanted => wanted
  max 1 (min wanted s.situation.perimeter.networkActions.length)

/-- The most steps that a task takes, with the end of the last one. -/
def stepLimit : Nat := 9

/-- Take so many steps, until all jobs of the depth are over or its time is. -/
def work (s : Search N K) (services : Services N K σ) (workers deadline : Nat) :
    Nat → Shift N K → StateM σ (Shift N K)
  | 0, shift => return shift
  | steps + 1, shift =>
    match shift.next? workers with
    | none => return shift
    | some job =>
      if !shift.isBusy then return shift
      else if deadline < shift.startOf job then return { shift with now := deadline }
      else do
        let before := services.clock (← get)
        let crew ← shift.crew.move (s.step services) job
        let spent := services.clock (← get) - before
        s.work services workers deadline steps (shift.afterStep job crew spent)

/-- Explore the next depth on top of the best leaf, and close it. -/
def explore (s : Search N K) (services : Services N K σ) (shift : Shift N K) :
    StateM σ (Shift N K) := do
  let best := shift.crew.best
  let shift := shift.enlist (s.tasks best.epoch best.leaf)
  let deadline := shift.now + 1000 * s.parameters.tree.timeoutSeconds
  let steps := stepLimit * shift.crew.jobs.length
  let shift ← s.work services (s.workers services) deadline steps shift
  return shift.close

end Search

end GridRelief
