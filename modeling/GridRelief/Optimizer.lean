import GridRelief.Formulation
import GridRelief.Objective
import GridRelief.Services

/-!
# Optimising set-points

Flows are linear only around the point where they were computed. So the set-points are found in
rounds: solve the linear problem, round its set-points to ones that can be reached, compute the
flows there, keep the point if it costs less than the best one so far, and linearise the problem
anew around it. The rounds end when the set-points stay as they were, when the cost does not fall,
when a solve or a computation fails, or at a limit. The best point of all rounds is the result,
and the network is left at its set-points.

## Main definitions

* `Optimized K`: a point with its cost, and how the rounds ended.
* `Optimizer K`: what the rounds work with.
* `Optimizer.optimize`: the rounds.
-/

namespace GridRelief

variable {K N σ : Type} [Scalar K] [Network N K]

/-! ### Results -/

/-- How the rounds ended. -/
inductive OptimizationStatus where
  /-- At set-points that the next round kept or could not better. -/
  | optimal
  /-- Because a solve failed after the first round. -/
  | feasible
  /-- Because the first problem has no solution. -/
  | infeasible
  /-- Because the first problem has no best solution. -/
  | unbounded
  /-- Because the first solve was given up. -/
  | abnormal
  /-- Before any solve. -/
  | notSolved
  /-- Because a computation failed. -/
  | computationFailed
  /-- At the limit of rounds. -/
  | iterationLimit
  deriving DecidableEq, Repr

namespace OptimizationStatus

/-- The name of a status. -/
def label : OptimizationStatus → String
  | .optimal => "OPTIMAL"
  | .feasible => "FEASIBLE"
  | .infeasible => "INFEASIBLE"
  | .unbounded => "UNBOUNDED"
  | .abnormal => "ABNORMAL"
  | .notSolved => "NOT_SOLVED"
  | .computationFailed => "SENSITIVITY_COMPUTATION_FAILED"
  | .iterationLimit => "MAX_ITERATION_REACHED"

/-- The status after a solve in the first round. -/
def ofSolve : SolveStatus → OptimizationStatus
  | .optimal => .optimal
  | .infeasible => .infeasible
  | .unbounded => .unbounded
  | .abnormal => .abnormal
  | .notSolved => .notSolved

end OptimizationStatus

/-- A point with its cost, and how the rounds ended. -/
structure Optimized (K : Type) where
  status : OptimizationStatus
  /-- The number of rounds. -/
  iterations : Nat
  point : Linearization K
  cost : Cost K

/-- The cost of a point that a round has found. -/
def Optimized.ofPoint (objective : Objective K) (point : Linearization K) (iterations : Nat) :
    Optimized K where
  status := .optimal
  iterations
  point
  cost := objective point.flows point.activation point.sensitivities point.sensitivities.status

/-! ### Rounding -/

/-- A set-point that can be reached: the angle of the nearest tap, or the nearest integer. -/
def RangeAction.roundSetpoint (r : RangeAction K) (setpoint : K) : Except (Fault K) K :=
  if r.isPst then do r.angleOf (← r.tapOf setpoint) else .ok (Scalar.round setpoint)

/-- Choose the rounded set-point that a solution gives a range action, unless it is the one before
the optimisation. -/
def LinearProblem.chooseSetpoint (p : LinearProblem K) (initial : Setpoints K)
    (activation : Activation K) (r : RangeAction K) : Except (Fault K) (Activation K) := do
  let v ← (p.requireVariable (.setpoint r.id)).mapError .problem
  let setpoint ← p.solutionValue v
  let reference ← initial.get r.id
  if Scalar.abs (setpoint - reference) ≤ Activation.tolerance then return activation
  else return activation.set r.id (← r.roundSetpoint setpoint)

/-- The rounded set-points of a solution. -/
def LinearProblem.roundedActivation (p : LinearProblem K) (initial : Setpoints K)
    (rangeActions : List (RangeAction K)) : Except (Fault K) (Activation K) :=
  rangeActions.foldlM (p.chooseSetpoint initial) (.ofReference initial)

/-- Whether the set-points of some range actions differ between two activations. -/
def Activation.differs (new old : Activation K) (rangeActions : List (RangeAction K)) :
    Except (Fault K) Bool :=
  rangeActions.anyM fun r => do
    let setpoint ← new.get r.id
    return decide (tolerance ≤ Scalar.abs (setpoint - (← old.get r.id)))

/-! ### Rounds -/

/-- What the rounds work with. -/
structure Optimizer (K : Type) where
  formulation : Formulation K
  objective : Objective K
  /-- The point that the rounds start from. -/
  start : Linearization K

/-- Where the rounds stand. -/
structure Progress (K : Type) where
  problem : LinearProblem K
  /-- The best point so far. -/
  best : Optimized K
  /-- The set-points of the last round. -/
  previous : Activation K

namespace Optimizer

/-- The range actions whose set-points are chosen. -/
def rangeActions (o : Optimizer K) : List (RangeAction K) := o.formulation.perimeter.rangeActions

/-- The problem after some writing by all parts, in order. -/
def write (o : Optimizer K) (step : Part K → Writing K Unit) (p : LinearProblem K) :
    Except (Fault K) (LinearProblem K) :=
  match (o.formulation.parts.forM step).run p with
  | (.ok _, q) => .ok q
  | (.error fault, _) => .error fault

/-- The problem of the first round. -/
def firstProblem (o : Optimizer K) : Except (Fault K) (LinearProblem K) :=
  o.write (·.fill o.start) (.empty o.formulation.parameters.optimizer.solver)

/-- The problem after a round that reached a point. -/
def nextProblem (o : Optimizer K) (reached : Optimized K) (p : LinearProblem K) :
    Except (Fault K) (LinearProblem K) :=
  o.write (·.refresh reached.point reached.iterations) p

/-- The rounded set-points of a solved problem. -/
def rounded (o : Optimizer K) (p : LinearProblem K) : Except (Fault K) (Activation K) :=
  p.roundedActivation o.formulation.baseline.setpoints o.rangeActions

/-- Adapt tap moves to rounded set-points and solve again; the first solution stays if the second
solve fails. -/
def refine (o : Optimizer K) (services : Services N K σ) (p : LinearProblem K)
    (activation : Activation K) : Working N K σ (LinearProblem K × Activation K) := do
  let p ← Working.solve services (← ofExcept (o.write (·.adjust activation) p))
  if p.status = .optimal then return (p, ← ofExcept (o.rounded p)) else return (p, activation)

/-- The rounded set-points of a solved problem, and the problem after rounding. -/
def choose (o : Optimizer K) (services : Services N K σ) (p : LinearProblem K) :
    Working N K σ (LinearProblem K × Activation K) := do
  let activation ← ofExcept (o.rounded p)
  if o.formulation.byTaps then o.refine services p activation else return (p, activation)

/-- How a round ends. -/
inductive RoundEnd (K : Type) where
  /-- It was the last one. -/
  | stop (result : Optimized K)
  /-- Another one may follow. -/
  | next (progress : Progress K)

/-- Compare the point that a round has reached with the best one so far. -/
def compare (o : Optimizer K) (problem : LinearProblem K) (best reached : Optimized K) :
    Working N K σ (RoundEnd K) := do
  let activation := reached.point.activation
  if reached.cost.total < best.cost.total then
    return .next ⟨← ofExcept (o.nextProblem reached problem), reached, activation⟩
  else
    Working.moveTo o.rangeActions best.point.activation
    if o.formulation.parameters.tree.rangeShrinking then
      return .next ⟨← ofExcept (o.nextProblem reached problem), best, activation⟩
    else return .stop best

/-- Compute the flows at chosen set-points and compare their cost. -/
def visit (o : Optimizer K) (services : Services N K σ) (iteration : Nat)
    (problem : LinearProblem K) (best : Optimized K) (activation : Activation K) :
    Working N K σ (RoundEnd K) := do
  Working.moveTo o.rangeActions activation
  let outcome ← Working.compute services
  if outcome.status = .failure then
    Working.moveTo o.rangeActions best.point.activation
    return .stop { best with status := .computationFailed }
  else
    let point : Linearization K := ⟨outcome.flows, outcome.sensitivities, activation⟩
    o.compare problem best (.ofPoint o.objective point iteration)

/-- One round. -/
def round (o : Optimizer K) (services : Services N K σ) (iteration : Nat)
    (progress : Progress K) : Working N K σ (RoundEnd K) := do
  let problem ← Working.solve services progress.problem
  let best := { progress.best with iterations := iteration }
  if problem.status ≠ .optimal then
    let status := if iteration = 1 then .ofSolve problem.status else .feasible
    return .stop { best with status }
  else
    let (problem, activation) ← o.choose services problem
    if ← ofExcept (activation.differs progress.previous o.rangeActions) then
      o.visit services iteration problem best activation
    else return .stop best

/-- At most so many rounds, the next one having a given number. -/
def rounds (o : Optimizer K) (services : Services N K σ) :
    Nat → Nat → Progress K → Working N K σ (Optimized K)
  | 0, _, progress => return { progress.best with status := .iterationLimit }
  | left + 1, iteration, progress => do
    match ← o.round services iteration progress with
    | .stop result => return result
    | .next progress => o.rounds services left (iteration + 1) progress

/-- Optimise the set-points of the range actions on the network. -/
def optimize (o : Optimizer K) (services : Services N K σ) : Working N K σ (Optimized K) := do
  let best := Optimized.ofPoint o.objective o.start 0
  let problem ← ofExcept o.firstProblem
  o.rounds services o.formulation.parameters.optimizer.maxIterations 1
    ⟨problem, best, best.point.activation⟩

end Optimizer

end GridRelief
