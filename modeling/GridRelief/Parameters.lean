import GridRelief.Cnec
import GridRelief.Problem.SolverKind
import GridRelief.Table

/-!
# Parameters

What a search is told about its objective, its tree, the limits on remedial actions, the linear
optimisation and the treatment of some critical elements. Every parameter has a default.

## Main definitions

* `Parameters K`: all parameters of a search.
* `Parameters.validate`: the first reason why parameters are not usable.
-/

namespace GridRelief

/-- What the search makes as large as it can. -/
inductive ObjectiveKind where
  /-- The smallest margin. -/
  | minMargin
  /-- The smallest relative margin. -/
  | minRelativeMargin
  deriving DecidableEq, Repr

/-- Whether margins are relative to zonal sums. -/
def ObjectiveKind.isRelative : ObjectiveKind → Bool
  | .minMargin => false
  | .minRelativeMargin => true

/-- When the search may stop before it has explored all depths. -/
inductive StopCriterion where
  /-- Never. -/
  | minObjective
  /-- As soon as a cost is below the target. -/
  | atTarget
  deriving DecidableEq, Repr

/-- How the set-points of phase shifters enter the linear problem. -/
inductive PstModel where
  /-- As continuous angles. -/
  | continuous
  /-- As integer moves of taps. -/
  | approximatedIntegers
  deriving DecidableEq, Repr

variable {K : Type} [Scalar K]

/-- The objective of a search. -/
structure ObjectiveParameters (K : Type) where
  kind : ObjectiveKind
  unit : FlowUnit
  stopCriterion : StopCriterion
  /-- The cost to stop at. -/
  target : K
  deriving BEq

/-- The usual objective. -/
def ObjectiveParameters.default : ObjectiveParameters K :=
  ⟨.minMargin, .megawatt, .minObjective, 0⟩

/-- The shape of the search tree. -/
structure TreeParameters (K : Type) where
  maxDepth : Nat
  /-- The part of a cost that a further network action has to save. -/
  relativeThreshold : K
  /-- The cost that a further network action has to save. -/
  absoluteThreshold : K
  /-- The number of leaves evaluated at once, zero standing for one per processor. -/
  leavesInParallel : Nat
  /-- Whether actions far from the most limiting element are left out. -/
  skipFarActions : Bool
  /-- The number of borders within which an action is near. -/
  maxBorders : Nat
  /-- The combinations that are tried as one candidate. -/
  predefinedCombinations : List (List String)
  /-- Whether ranges shrink from one iteration to the next. -/
  rangeShrinking : Bool
  /-- How long a depth waits for its leaves. -/
  timeoutSeconds : Nat
  deriving BEq

/-- The usual tree. -/
def TreeParameters.default : TreeParameters K :=
  { maxDepth := 2, relativeThreshold := 0, absoluteThreshold := 0, leavesInParallel := 1
    skipFarActions := false, maxBorders := 2, predefinedCombinations := []
    rangeShrinking := false, timeoutSeconds := 24 * 3600 }

/-- The limits on the use of remedial actions; what is not named is not limited. -/
structure UsageLimits where
  /-- The number of remedial actions. -/
  maxRa : Option Nat := none
  /-- The number of operators. -/
  maxTso : Option Nat := none
  /-- The number of remedial actions of an operator. -/
  maxRaPerTso : Table Nat := ∅
  /-- The number of network actions of an operator. -/
  maxTopoPerTso : Table Nat := ∅
  /-- The number of phase shifters of an operator. -/
  maxPstPerTso : Table Nat := ∅
  /-- The number of elementary actions of an operator, a tap counting as one. -/
  maxElementaryPerTso : Table Nat := ∅
  deriving BEq

/-- Whether nothing is limited. -/
def UsageLimits.isEmpty (l : UsageLimits) : Bool :=
  l.maxRa.isNone && l.maxTso.isNone && l.maxRaPerTso.isEmpty && l.maxTopoPerTso.isEmpty &&
    l.maxPstPerTso.isEmpty && l.maxElementaryPerTso.isEmpty

/-- The linear optimisation of set-points. -/
structure OptimizerParameters (K : Type) where
  maxIterations : Nat
  pstModel : PstModel
  solver : SolverKind
  /-- The sensitivities below which a range action does not count for a flow. -/
  pstSensitivityThreshold : K
  hvdcSensitivityThreshold : K
  injectionSensitivityThreshold : K
  /-- The costs of moving a set-point by one. -/
  pstPenalty : K
  hvdcPenalty : K
  injectionPenalty : K
  /-- The floor of zonal sums in relative margins. -/
  zonalSumFloor : K
  deriving BEq

/-- The usual optimisation. -/
def OptimizerParameters.default : OptimizerParameters K :=
  { maxIterations := 10, pstModel := .continuous, solver := .microlp
    pstSensitivityThreshold := 0, hvdcSensitivityThreshold := 0
    injectionSensitivityThreshold := 0
    pstPenalty := Scalar.ofDecimal 1 2, hvdcPenalty := Scalar.ofDecimal 1 3
    injectionPenalty := Scalar.ofDecimal 1 3, zonalSumFloor := Scalar.ofDecimal 1 2 }

/-- The factors by which rows are relaxed for elements that do not count. -/
structure Relaxation (K : Type) where
  /-- In the rows that recognise a falling margin, times the largest threshold. -/
  marginDecrease : K
  /-- In the rows of the smallest margin, times the largest threshold. -/
  minimumMargin : K
  deriving BEq

/-- The usual factors. -/
def Relaxation.default : Relaxation K := ⟨Scalar.ofInt 20, Scalar.ofInt 2⟩

/-- The critical elements that count for the objective under a condition only. -/
structure UnoptimizedParameters (K : Type) where
  /-- The operators whose elements count only when their margin falls. -/
  operators : NameSet
  /-- The elements in series with a phase shifter, which count only when it cannot relieve them. -/
  inSeries : Table String
  relaxation : Relaxation K
  deriving BEq

/-- No such elements. -/
def UnoptimizedParameters.default : UnoptimizedParameters K := ⟨∅, ∅, .default⟩

/-- Whether there are such elements. -/
def UnoptimizedParameters.isActive (u : UnoptimizedParameters K) : Bool :=
  !u.operators.isEmpty || !u.inSeries.isEmpty

/-- How a fall of the margins of monitored elements is penalised. -/
structure MnecParameters (K : Type) where
  /-- The accepted fall, in megawatts. -/
  acceptableDecrease : K
  violationCost : K
  /-- What is kept clear of the accepted fall. -/
  adjustment : K
  deriving BEq

/-- The usual penalty of monitored elements. -/
def MnecParameters.default : MnecParameters K := ⟨Scalar.ofInt 50, Scalar.ofInt 10, 0⟩

/-- How loop flows beyond their thresholds are penalised. -/
structure LoopFlowParameters (K : Type) where
  /-- The accepted increase, in megawatts. -/
  acceptableIncrease : K
  violationCost : K
  /-- What is kept clear of the threshold. -/
  adjustment : K
  deriving BEq

/-- The usual penalty of loop flows. -/
def LoopFlowParameters.default : LoopFlowParameters K := ⟨0, Scalar.ofInt 10, 0⟩

/-- All parameters of a search. -/
structure Parameters (K : Type) where
  objective : ObjectiveParameters K
  tree : TreeParameters K
  limits : UsageLimits
  optimizer : OptimizerParameters K
  unoptimized : UnoptimizedParameters K
  mnec : Option (MnecParameters K)
  loopFlow : Option (LoopFlowParameters K)
  deriving BEq

namespace Parameters

/-- The usual parameters. -/
def default : Parameters K :=
  ⟨.default, .default, {}, .default, .default, none, none⟩

/-- The first feature of some parameters that needs integer variables. -/
def integerFeature? (p : Parameters K) : Option String :=
  if p.optimizer.pstModel = .approximatedIntegers then
    some "pst-model = approximated-integers"
  else if p.unoptimized.isActive then some "unoptimized CNECs"
  else if !p.limits.isEmpty then some "remedial action usage limits"
  else none

/-- Whether a number is zero or below. -/
def notPositive (x : K) : Bool := decide (x ≤ 0)

/-- The first reason why parameters are not usable. -/
def fault? (p : Parameters K) : Option (Fault K) :=
  let relaxation := p.unoptimized.relaxation
  if p.objective.stopCriterion = .atTarget ∧ ¬Scalar.isFinite p.objective.target then
    some .targetNotFinite
  else if p.optimizer.maxIterations = 0 then some .noIteration
  else if notPositive p.optimizer.zonalSumFloor then some .zonalFloorNotPositive
  else if notPositive relaxation.marginDecrease || notPositive relaxation.minimumMargin then
    some .relaxationNotPositive
  else
    match (if p.optimizer.solver.supportsIntegers then none else p.integerFeature?) with
    | some feature => some (.integersUnsupported feature p.optimizer.solver.label)
    | none => (p.tree.predefinedCombinations.findIdx? List.isEmpty).map .emptyCombination

/-- Refuse parameters that are not usable. -/
def validate (p : Parameters K) : Except (Fault K) Unit :=
  match p.fault? with
  | some fault => .error fault
  | none => .ok ()

end Parameters

end GridRelief
