import GridRelief.Search.Course

/-!
# Moments of a search

A course tells a search depth by depth. Here it is told step by step: a further depth is entered, a
job takes a step, or the depth that is being explored is closed. A depth may be closed at any time,
and jobs of closed depths may take their turns at any time after that, also between two depths.

## Main definitions

* `Event σ`: what happens in a search.
* `Moment N K`: a search at some moment.
* `Search.pass`, `Search.after`: a moment after one event, and after some events.
* `Search.Reaches`: the moments of all runs.
-/

namespace GridRelief

variable {K N σ : Type}

/-- What happens in a search. -/
inductive Event (σ : Type) where
  /-- A further depth is entered: its tasks join the jobs. -/
  | enter
  /-- A job takes a step. -/
  | move (turn : Turn σ)
  /-- The depth being explored is closed, whether or not its tasks are done. -/
  | close

/-- What happens in a depth whose jobs have some turns. -/
def Event.ofDepth (turns : List (Turn σ)) : List (Event σ) :=
  .enter :: turns.map .move ++ [.close]

/-- A search at some moment. -/
structure Moment (N K : Type) where
  crew : Crew N K
  /-- The best leaf when the last depth was entered, and the root before any depth. -/
  base : FinalizedLeaf K
  /-- Whether a depth has been entered that has not been closed. -/
  isExploring : Bool := false

namespace Moment

/-- A search whose root has been finalized. -/
def outset (root : FinalizedLeaf K) : Moment N K := ⟨{ best := { leaf := root } }, root, false⟩

/-- The number of depths that have been entered. -/
def depths (m : Moment N K) : Nat := m.crew.best.epoch + m.isExploring.toNat

/-- What a search ends with that ends at this moment. -/
def result (m : Moment N K) : SearchResult K := ⟨m.crew.best.leaf, m.crew.best.depth⟩

end Moment

namespace Search

variable [Scalar K] [Network N K]

/-- Whether a further depth is explored: the last one has brought an improvement that does not reach
the stop criterion, and the greatest depth has not been reached. -/
def mayEnter (s : Search N K) (m : Moment N K) : Bool :=
  !m.isExploring && decide (m.crew.best.epoch < s.parameters.tree.maxDepth) &&
    m.crew.hasAdvanced && !s.criteria.reachesStop m.crew.best.leaf

/-- A moment after an event; what may not happen changes nothing. -/
def pass (s : Search N K) (services : Services N K σ) (m : Moment N K) : Event σ → Moment N K
  | .enter =>
    if s.mayEnter m then
      { crew := m.crew.enlist (s.tasks m.crew.best.epoch m.crew.best.leaf)
        base := m.crew.best.leaf
        isExploring := true }
    else m
  | .move turn => { m with crew := (m.crew.move (s.step services) turn.job turn.services).1 }
  | .close => if m.isExploring then { m with crew := m.crew.close, isExploring := false } else m

/-- A moment after some events. -/
def after (s : Search N K) (services : Services N K σ) (events : List (Event σ))
    (m : Moment N K) : Moment N K :=
  events.foldl (s.pass services) m

end Search

/-- The moments of all runs of a search that does not end with its root. -/
inductive Search.Reaches [Scalar K] [Network N K] (s : Search N K) (services : Services N K σ) :
    Moment N K → Prop
  /-- The root has been finalized. -/
  | outset (state : σ)
      (hends : ¬((s.root services state).1.status = .failed || s.stopsAt (s.root services state).1))
      : s.Reaches services (.outset (s.root services state).1.finalize)
  /-- Something has happened. -/
  | pass {m : Moment N K} (h : s.Reaches services m) (event : Event σ) :
      s.Reaches services (s.pass services m event)

end GridRelief
