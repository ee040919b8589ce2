import GridRelief.Search.LeafResult
import GridRelief.Search.Situation

/-!
# Leaves

A leaf of the search tree applies its network actions to a network of its own. It is evaluated,
which computes the flows once, and then its range actions may be optimised. A leaf whose flows
could not be computed stays that way, and so does one that has been optimised.

## Main definitions

* `Leaf N K`: a leaf with its network.
* `Leaf.root`, `Leaf.child`: the leaf without network actions, and a leaf with some more.
* `Leaf.evaluate`, `Leaf.optimize`: the two steps of its life.
* `UsageLimits.budget?`: what a leaf's range actions may still use.
-/

namespace GridRelief

variable {K N σ : Type} [Scalar K] [Network N K]

/-! ### Budgets -/

/-- What range actions may still use once some network actions have been counted, if anything is
limited. -/
def UsageLimits.budget? (l : UsageLimits) (applied : ActionSet K) : Option UsageBudget :=
  if l.isEmpty then none
  else some
    { maxRa := l.maxRa.map (· - applied.size)
      maxTso := l.maxTso.map (· - applied.operators.size)
      involved := applied.operators
      maxRaPerTso := l.maxRaPerTso.mapValues fun operator limit => limit - applied.countOf operator
      maxPstPerTso := l.maxPstPerTso
      maxElementaryPerTso := l.maxElementaryPerTso.mapValues fun operator limit =>
        limit - applied.sizeOf operator }

/-! ### The life of a leaf -/

/-- How far a leaf has come, with what it has found. -/
inductive LeafPhase (K : Type) where
  | created
  /-- The flows are known, and the cost once an objective has been asked for it. -/
  | evaluated (outcome : Outcome K) (cost : Option (Cost K))
  /-- The set-points have been optimised from these flows. -/
  | optimized (outcome : Outcome K) (result : Optimized K)
  | failed

/-- The status of a phase. -/
def LeafPhase.status : LeafPhase K → LeafStatus
  | .created => .created
  | .evaluated _ _ => .evaluated
  | .optimized _ _ => .optimized
  | .failed => .failed

/-- A leaf of the search tree. -/
structure Leaf (N K : Type) where
  network : N
  /-- The network actions in use. -/
  applied : ActionSet K
  /-- The set-points that the leaf starts from. -/
  start : Activation K
  phase : LeafPhase K

namespace Leaf

/-- The leaf without network actions; its flows are those before any action. -/
def root (s : Situation N K) : Leaf N K where
  network := s.network
  applied := ∅
  start := s.unmoved
  phase := if s.outcome.status = .failure then .failed else .evaluated s.outcome none

/-- Apply network actions in order up to the first that is refused; the changes made before it
stay. -/
def applyActions : List (NetworkAction K) → N → N × Except (Fault K) Unit
  | [], network => (network, .ok ())
  | action :: rest, network =>
    match action.apply network with
    | (changed, true) => applyActions rest changed
    | (changed, false) => (changed, .error (.actionRefused action.id))

/-- The leaf with the network actions of a parent and those of a combination. The network has no
network action applied, and the set-points of the given activation. -/
def child (network : N) (parent : ActionSet K) (combination : Combination K)
    (start : Activation K) : N × Except (Fault K) (Leaf N K) :=
  let applied := parent.union combination.actions
  let (network, result) := applyActions applied.actions network
  (network, result.map fun _ => { network, applied, start, phase := .created })

/-- The status of a leaf. -/
def status (leaf : Leaf N K) : LeafStatus := leaf.phase.status

/-- The name of a leaf. -/
def name (leaf : Leaf N K) : String := leafName leaf.applied

/-- Whether a leaf uses no network action. -/
def isRoot (leaf : Leaf N K) : Bool := leaf.applied.isEmpty

/-! ### Evaluation -/

/-- The phase of a leaf whose flows have been computed. -/
def phaseOf (leaf : Leaf N K) (objective : Objective K) (outcome : Outcome K) : LeafPhase K :=
  .evaluated outcome (objective outcome.flows leaf.start outcome.sensitivities .success)

/-- Compute the flows of a leaf and their cost. Flows are computed once: on an evaluated leaf only
the cost is computed anew. -/
def evaluate (services : Services N K σ) (objective : Objective K) (leaf : Leaf N K) :
    StateM σ (Leaf N K) :=
  match leaf.phase with
  | .created => do
    let outcome ← services.compute leaf.network
    return { leaf with
      phase := if outcome.status = .failure then .failed else leaf.phaseOf objective outcome }
  | .evaluated outcome _ => return { leaf with phase := leaf.phaseOf objective outcome }
  | .optimized _ _ | .failed => return leaf

/-! ### Optimisation -/

/-- What optimises the set-points of a leaf with these flows. -/
def optimizer (leaf : Leaf N K) (s : Situation N K) (p : Parameters K) (outcome : Outcome K) :
    Optimizer K where
  formulation := ⟨p, s.perimeter, s.baseline, p.limits.budget? leaf.applied⟩
  objective := s.objective
  start := ⟨outcome.flows, outcome.sensitivities, leaf.start⟩

/-- Optimise the set-points from these flows; without range actions there is nothing to do. -/
def optimizeFrom (services : Services N K σ) (s : Situation N K) (p : Parameters K)
    (outcome : Outcome K) (leaf : Leaf N K) : StateM σ (Leaf N K × Except (Fault K) Unit) := do
  if s.perimeter.rangeActions.isEmpty then return (leaf, .ok ())
  else
    let (result, session) :=
      ((leaf.optimizer s p outcome).optimize services).run ⟨leaf.network, ← get⟩
    set session.services
    let leaf := { leaf with network := session.network }
    match result with
    | .ok optimized => return ({ leaf with phase := .optimized outcome optimized }, .ok ())
    | .error fault => return (leaf, .error fault)

/-- Optimise the set-points of an evaluated leaf. An optimised leaf first goes back to the
set-points that it started from. -/
def optimize (services : Services N K σ) (s : Situation N K) (p : Parameters K)
    (leaf : Leaf N K) : StateM σ (Leaf N K × Except (Fault K) Unit) :=
  match leaf.phase with
  | .created => return (leaf, .error (.optimizedTooEarly leaf.name))
  | .failed => return (leaf, .error (.optimizedAfterFailure leaf.name))
  | .evaluated outcome _ => leaf.optimizeFrom services s p outcome
  | .optimized outcome _ => do
    let (network, moved) := leaf.start.applyAll s.perimeter.rangeActions leaf.network
    let leaf := { leaf with network }
    match moved with
    | .ok _ => leaf.optimizeFrom services s p outcome
    | .error fault => return (leaf, .error fault)

/-! ### Results -/

/-- What a leaf reached. -/
def result (leaf : Leaf N K) : Except (Fault K) (LeafResult K) :=
  match leaf.phase with
  | .evaluated outcome (some cost) =>
    .ok { point := ⟨outcome.flows, outcome.sensitivities, leaf.start⟩, cost
          applied := leaf.applied }
  | .evaluated _ none => .error (.notEvaluated leaf.name)
  | .optimized _ optimized =>
    .ok { point := optimized.point, cost := optimized.cost, applied := leaf.applied
          optimization := some optimized.status }
  | .created | .failed => .error (.noResults leaf.name leaf.status.label)

/-- Keep the results of a leaf and give its network back. -/
def finalize (leaf : Leaf N K) : FinalizedLeaf K :=
  ⟨leaf.applied, leaf.status, leaf.result.toOption⟩

/-- The text of a leaf. -/
def text (leaf : Leaf N Float) : String :=
  leaf.name ++ (leaf.result.toOption.map LeafResult.text).getD ""

end Leaf

end GridRelief
