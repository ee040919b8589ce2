import GridRelief.Search.Bloom
import GridRelief.Search.Criteria
import GridRelief.Search.Leaf

/-!
# One depth of the search

The candidates of a depth are worked on by one task each. A task builds the leaf of its candidate
on a network of its own, evaluates it, optimises it and hands it in. Tasks share the best leaf so
far and the combination that has reached the stop criterion, and look at them in single steps,
so the steps of several tasks may be interleaved in any order.

A task is skipped when a combination that comes before its own has reached the stop criterion.
When a depth is closed its number is counted up, and what its tasks still do has no effect.

## Main definitions

* `Best K`: what tasks share.
* `Best.submit`: hand in a leaf.
* `Task K`, `TaskPhase N K`: a task, and where it stands.
* `Search.step`: one step of a task.
-/

namespace GridRelief

variable {K N σ : Type} [Scalar K] [Network N K]

/-! ### What tasks share -/

/-- What the tasks of a depth share. -/
structure Best (K : Type) where
  /-- The best leaf so far. -/
  leaf : FinalizedLeaf K
  /-- The depth at which it was found, zero for the root. -/
  depth : Nat := 0
  /-- The combination that has reached the stop criterion. -/
  stop : Option (Combination K) := none
  /-- The number of depths that have been closed. -/
  epoch : Nat := 0

namespace Best

/-- Whether a depth is the one being explored. -/
def isOpen (best : Best K) (epoch : Nat) : Bool := best.epoch == epoch

/-- Close the depth being explored. -/
def close (best : Best K) : Best K := { best with epoch := best.epoch + 1 }

/-- Whether no combination that has reached the stop criterion comes before this one or is it. -/
def isAhead (best : Best K) (c : Combination K) : Bool :=
  best.stop.all fun stop => c.priority stop == .lt

/-- Whether a combination that comes before this one has reached the stop criterion. -/
def isOutranked (best : Best K) (c : Combination K) : Bool :=
  best.stop.any fun stop => c.priority stop == .gt

/-- Whether a leaf that is an improvement takes the place of the best one. -/
def isBeaten (best : Best K) (c : Combination K) (leaf : FinalizedLeaf K) (stops : Bool) : Bool :=
  match best.stop with
  | none => Criteria.isCheaper leaf.cost? best.leaf.cost?
  | some _ => stops && best.isAhead c

/-- Hand in the leaf of a combination, which was tried on top of a previous leaf in a depth. -/
def submit (criteria : Criteria K) (epoch : Nat) (previous : FinalizedLeaf K)
    (c : Combination K) (leaf : FinalizedLeaf K) (best : Best K) : Best K :=
  let stops := criteria.reachesStop leaf
  if best.isOpen epoch && criteria.isImprovement previous leaf && best.isBeaten c leaf stops then
    { best with leaf, depth := epoch + 1, stop := if stops then some c else best.stop }
  else best

end Best

/-! ### Tasks -/

/-- A candidate to be tried on top of a leaf. -/
structure Task (K : Type) where
  /-- The depth that the task belongs to. -/
  epoch : Nat
  /-- The leaf that the candidate is tried on top of. -/
  previous : FinalizedLeaf K
  candidate : Candidate K

/-- Where a task stands. -/
inductive TaskPhase (N K : Type) where
  /-- It has not been started. -/
  | queued
  /-- Its depth was open. -/
  | opened
  /-- No combination before its own had reached the stop criterion: its leaf may be built. -/
  | admitted
  /-- Its leaf is built. -/
  | built (leaf : Leaf N K)
  /-- Its depth was still open: its leaf may be evaluated. -/
  | confirmed (leaf : Leaf N K)
  /-- Its leaf is evaluated and does not reach the stop criterion. -/
  | evaluated (leaf : Leaf N K)
  /-- No combination before its own had reached the stop criterion: its leaf may be optimised. -/
  | cleared (leaf : Leaf N K)
  /-- Its leaf may be handed in. -/
  | finished (leaf : FinalizedLeaf K)
  | done

/-- A search: what it starts from, and what it is told. -/
structure Search (N K : Type) where
  situation : Situation N K
  parameters : Parameters K
  /-- The combinations found before or named by the user. -/
  predefined : List (Combination K)

namespace Search

/-- The criteria of a search. -/
def criteria (s : Search N K) : Criteria K := .ofParameters s.situation.perimeter s.parameters

/-- What the candidates of a search are made of. -/
def bloom (s : Search N K) : Bloom K := .ofParameters s.situation s.predefined s.parameters

/-- Whether what a leaf reached meets the stop criterion. -/
def stopsAt (s : Search N K) (leaf : Leaf N K) : Bool :=
  match leaf.result with
  | .ok result => s.criteria.stopsAt result.cost
  | .error _ => false

/-- The set-points that the leaf of a task starts from: those of the leaf below it, or those before
any action if its range actions go back. -/
def startOf (s : Search N K) (task : Task K) : Except (Fault K) (Activation K) :=
  if task.candidate.dropsRangeActions then .ok s.situation.unmoved
  else task.previous.result.map (·.point.activation)

/-- Build the leaf of a task on a network before any action. -/
def build (s : Search N K) (task : Task K) : Except (Fault K) (Leaf N K) := do
  let start ← s.startOf task
  let (network, moved) := start.applyAll s.situation.perimeter.rangeActions s.situation.network
  moved
  (Leaf.child network task.previous.applied task.candidate.combination start).2

/-- Where a task stands once its leaf has been evaluated. -/
def afterEvaluation (s : Search N K) (leaf : Leaf N K) : TaskPhase N K :=
  if leaf.status = .failed then .done
  else if s.stopsAt leaf then .finished leaf.finalize
  else .evaluated leaf

/-- One step of a task; a task that is done takes no further step. -/
def step (s : Search N K) (services : Services N K σ) (task : Task K) (best : Best K) :
    TaskPhase N K → StateM σ (Best K × TaskPhase N K)
  | .queued => return (best, if best.isOpen task.epoch then .opened else .done)
  | .opened =>
    return (best, if best.isAhead task.candidate.combination then .admitted else .done)
  | .admitted =>
    match s.build task with
    | .ok leaf => return (best, .built leaf)
    | .error _ => return (best, .done)
  | .built leaf => return (best, if best.isOpen task.epoch then .confirmed leaf else .done)
  | .confirmed leaf => do
    let leaf ← leaf.evaluate services s.situation.objective
    return (best, s.afterEvaluation leaf)
  | .evaluated leaf =>
    return (best,
      if best.isOutranked task.candidate.combination then .finished leaf.finalize
      else .cleared leaf)
  | .cleared leaf => do
    let (leaf, _) ← leaf.optimize services s.situation s.parameters
    return (best, .finished leaf.finalize)
  | .finished leaf =>
    return (best.submit s.criteria task.epoch task.previous task.candidate.combination leaf, .done)
  | .done => return (best, .done)

/-- The tasks of a depth, in the order of priority. -/
def tasks (s : Search N K) (epoch : Nat) (previous : FinalizedLeaf K) : List (Task K) :=
  match previous.result? with
  | none => []
  | some result =>
    let candidates := s.bloom.candidates result s.situation.perimeter.networkActions
    (Candidate.byPriority candidates).map fun candidate => { epoch, previous, candidate }

end Search

end GridRelief
