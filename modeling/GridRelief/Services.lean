import GridRelief.Problem.Model
import GridRelief.Result.Activation
import GridRelief.Result.Flows

/-!
# Services

What a search asks from outside: computations on a network, answers to models, and the time. An
answer may depend on all earlier questions, so services keep a state; a search is a function of
the state at its start.

## Main definitions

* `Services N K σ`: services with a state of type `σ`.
* `Session N σ`: a network in work, and the state of the services.
* `Working N K σ`: work that changes a session and may fail; what was changed before a fault stays.
-/

namespace GridRelief

/-- What a search asks from outside. -/
structure Services (N K σ : Type) where
  /-- Flows and sensitivities on a network. -/
  compute : N → StateM σ (Outcome K)
  /-- The answer of a solver to a model. -/
  solve : Model K → StateM σ (Answer K)
  /-- The time in milliseconds that the answers so far have taken. -/
  clock : σ → Nat
  /-- The number of processors. -/
  processors : Nat := 1

/-- A network in work, and the state of the services. -/
structure Session (N σ : Type) where
  network : N
  services : σ

/-- Work that changes a session; what was changed before a fault stays. -/
abbrev Working (N K σ : Type) : Type → Type := ExceptT (Fault K) (StateM (Session N σ))

namespace Working

variable {K N σ : Type} [Scalar K] [Network N K]

/-- Compute flows and sensitivities on the network. -/
def compute (services : Services N K σ) : Working N K σ (Outcome K) :=
  ExceptT.mk fun session =>
    let (outcome, after) := services.compute session.network session.services
    (.ok outcome, { session with services := after })

/-- Solve a linear problem. -/
def solve (services : Services N K σ) (problem : LinearProblem K) :
    Working N K σ (LinearProblem K) :=
  ExceptT.mk fun session =>
    let (solved, after) := problem.solve services.solve session.services
    (.ok solved, { session with services := after })

/-- Move range actions on the network to the set-points of an activation. -/
def moveTo (rangeActions : List (RangeAction K)) (activation : Activation K) :
    Working N K σ Unit :=
  ExceptT.mk fun session =>
    let (network, result) := activation.applyAll rangeActions session.network
    (result, { session with network })

end Working

end GridRelief
