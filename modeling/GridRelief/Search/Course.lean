import GridRelief.Search.Tree

/-!
# Courses of a search

What happens in a depth is told by a list of turns, and what happens in a search by one such list
for each depth. The time of a depth may be over before its tasks are done; they are still there
in later depths, and take their turns among the new ones.

## Main definitions

* `Search.afterDepth`: the crew at the end of a depth.
* `Course N K`: the root of a search, and the crew at the end of each depth.
* `Search.course`: the course that the turns of all depths give a search.
* `Course.result`, `Course.optima`: what a search ends with, and the best leaves on the way there.
* `Search.Builds`: the leaves that a search may build.
-/

namespace GridRelief

variable {K N σ : Type}

namespace Crew

/-- Let tasks join the jobs. -/
def enlist (crew : Crew N K) (tasks : List (Task K)) : Crew N K :=
  { crew with jobs := crew.jobs ++ tasks.map ({ task := · }) }

/-- Close the depth being explored. -/
def close (crew : Crew N K) : Crew N K := { crew with best := crew.best.close }

/-- Whether the best leaf was found in the depth that has been closed last. -/
def hasAdvanced (crew : Crew N K) : Bool := crew.best.depth == crew.best.epoch

end Crew

/-- The course of a search. -/
structure Course (N K : Type) where
  root : Leaf N K
  /-- The crew at the end of each depth. -/
  crews : List (Crew N K)

/-- The leaf that a task is about, as it would be handed in. -/
def TaskPhase.shown? [Scalar K] : TaskPhase N K → Option (FinalizedLeaf K)
  | .built leaf | .confirmed leaf | .evaluated leaf | .cleared leaf => some leaf.finalize
  | .finished leaf => some leaf
  | .queued | .opened | .admitted | .done => none

namespace Search

variable [Scalar K] [Network N K]

/-- The crew at the end of a depth whose jobs have taken some turns. -/
def afterDepth (s : Search N K) (services : Services N K σ) (turns : List (Turn σ))
    (crew : Crew N K) : Crew N K :=
  ((crew.enlist (s.tasks crew.best.epoch crew.best.leaf)).interleave (s.step services) turns).close

/-- The crews at the ends of at most so many further depths. -/
def depths (s : Search N K) (services : Services N K σ) :
    Nat → List (List (Turn σ)) → Crew N K → List (Crew N K)
  | 0, _, _ => []
  | left + 1, schedule, crew =>
    if s.criteria.reachesStop crew.best.leaf then []
    else
      let next := s.afterDepth services (schedule.headD []) crew
      next :: if next.hasAdvanced then s.depths services left schedule.tail next else []

/-- The course of a search whose depths have some turns each; the services are found in a state at
its start. -/
def course (s : Search N K) (services : Services N K σ) (schedule : List (List (Turn σ)))
    (state : σ) : Course N K :=
  let root := (s.root services state).1
  { root
    crews :=
      if root.status = .failed || s.stopsAt root then []
      else
        s.depths services s.parameters.tree.maxDepth schedule
          { best := { leaf := root.finalize } } }

end Search

namespace Course

variable [Scalar K]

/-- What a search ends with. -/
def result (c : Course N K) : SearchResult K :=
  match c.crews.getLast? with
  | none => ⟨c.root.finalize, 0⟩
  | some crew => ⟨crew.best.leaf, crew.best.depth⟩

/-- The root, and the best leaf of each depth that has brought an improvement. -/
def optima (c : Course N K) : List (FinalizedLeaf K) :=
  c.root.finalize :: (c.crews.filter Crew.hasAdvanced).map (·.best.leaf)

end Course

/-- The leaves that a search may build at a depth, in whatever order its tasks take their turns.
The root is at depth zero. -/
inductive Search.Builds [Scalar K] [Network N K] (s : Search N K) (services : Services N K σ) :
    Nat → FinalizedLeaf K → Prop
  /-- The root before its cost is known. -/
  | start : s.Builds services 0 (Leaf.root s.situation).finalize
  /-- The root once it has been evaluated. -/
  | evaluated (state : σ) : s.Builds services 0
      ((Leaf.root s.situation).evaluate services s.situation.objective state).1.finalize
  /-- The root once its set-points have been optimised. -/
  | root (state : σ) : s.Builds services 0 (s.root services state).1.finalize
  /-- The leaf that a task is about. -/
  | task {schedule : List (List (Turn σ))} {state : σ} {crew : Crew N K} {job : Job N K}
      {leaf : FinalizedLeaf K} (hcrew : crew ∈ (s.course services schedule state).crews)
      (hjob : job ∈ crew.jobs) (hleaf : job.phase.shown? = some leaf) :
      s.Builds services (job.task.epoch + 1) leaf

end GridRelief
