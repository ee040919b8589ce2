import GridRelief.Country
import GridRelief.Optimizer
import GridRelief.Search.Combination

/-!
# Situations

A search starts from a network before any action of the perimeter, with the flows and set-points
on it.

## Main definitions

* `Situation N K`: what a search starts from.
* `Situation.read`: a situation read off a network.
-/

namespace GridRelief

variable {K N σ : Type} [Scalar K] [Network N K]

/-- What a search starts from. -/
structure Situation (N K : Type) where
  /-- The network before any action. -/
  network : N
  perimeter : Perimeter K
  /-- The flows and sensitivities before any action. -/
  outcome : Outcome K
  /-- The set-points before any action. -/
  setpoints : Setpoints K
  objective : Objective K
  borders : BorderGraph
  /-- The combinations that an earlier optimisation has found. -/
  detected : List (Combination K)

namespace Situation

/-- Read the set-points off a network and compute the flows on it. -/
def read (services : Services N K σ) (network : N) (perimeter : Perimeter K)
    (objective : Objective K) (borders : BorderGraph) (detected : List (Combination K)) :
    ExceptT (Fault K) (StateM σ) (Situation N K) := do
  let setpoints ← ofExcept (Setpoints.ofNetwork network perimeter.rangeActions)
  let outcome ← services.compute network
  return { network, perimeter, outcome, setpoints, objective, borders, detected }

/-- The flows and set-points before any action. -/
def baseline (s : Situation N K) : Baseline K := ⟨s.outcome.flows, s.setpoints⟩

/-- The activation that moves no range action. -/
def unmoved (s : Situation N K) : Activation K := .ofReference s.setpoints

end Situation

end GridRelief
