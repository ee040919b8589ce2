import GridRelief.Decimal.Text
import GridRelief.Problem.Key
import GridRelief.Scalar

/-!
# What can go wrong

A failed operation says what was wrong with its input, not how that is worded. The wording, the
class of each cause and the text of a number in it are stated once, here.

## Main definitions

* `ProblemFault K`: the refusals of a linear problem.
* `Fault K`: everything an operation of the library may refuse or miss.
* `Fault.kind`, `Fault.message`: the class and the text of a fault.
-/

namespace GridRelief

/-- The classes of faults. -/
inductive FaultKind where
  /-- A file could not be read. -/
  | io
  /-- A text is not of the expected form. -/
  | parse
  /-- Data contradict each other. -/
  | validation
  /-- The linear problem or its solver refused. -/
  | solver
  /-- The parameters are not usable. -/
  | config
  /-- The network lacks an element or refuses a value. -/
  | network
  /-- An object is not in the phase that an operation needs. -/
  | invalidState
  /-- A network action could not be applied. -/
  | actionApplication
  /-- Something else. -/
  | other
  /-- A caller broke a promise that the library does not check. -/
  | misuse
  deriving DecidableEq, Repr

/-- What stands in front of the messages of a class. -/
def FaultKind.heading : FaultKind → String
  | .io => "I/O error: "
  | .parse => "Parse error: "
  | .validation => "Validation error: "
  | .solver => "Solver error: "
  | .config => "Configuration error: "
  | .network => "Network error: "
  | .invalidState => "Invalid state: "
  | .actionApplication => "Could not apply network action '"
  | .other => ""
  | .misuse => ""

/-- What stands behind the messages of a class. -/
def FaultKind.ending : FaultKind → String
  | .actionApplication => "'"
  | _ => ""

/-- A refusal of a linear problem. -/
inductive ProblemFault (K : Type) where
  /-- A variable of that name is there already. -/
  | duplicateVariable (key : VariableKey)
  /-- A row of that name is there already. -/
  | duplicateRow (key : RowKey)
  /-- No variable has that name. -/
  | missingVariable (key : VariableKey)
  /-- No row has that name. -/
  | missingRow (key : RowKey)
  /-- The bounds given to the named object are crossed or undefined. -/
  | invalidBounds (name : String) (lower upper : Bound K)
  deriving Repr

/-- The text of a refusal. -/
def ProblemFault.message : ProblemFault Float → String
  | .duplicateVariable key => "variable " ++ key.label ++ " has already been created"
  | .duplicateRow key => "constraint " ++ key.label ++ " has already been created"
  | .missingVariable key => "variable " ++ key.label ++ " has not been created yet"
  | .missingRow key => "constraint " ++ key.label ++ " has not been created yet"
  | .invalidBounds name lower upper =>
    "invalid bounds [" ++ Decimal.shortest lower.toScalar ++ ", "
      ++ Decimal.shortest upper.toScalar ++ "] for " ++ name

/-- What an operation may refuse or miss. -/
inductive Fault (K : Type) where
  /-- A fault given by its class and its text. -/
  | stated (kind : FaultKind) (text : String)
  /-- A text is not of the expected form. -/
  | malformed
  /-- No flow is known for a critical element. -/
  | missingFlow (cnec : String)
  /-- A critical element has no loop-flow threshold. -/
  | noLoopFlowThreshold (cnec : String)
  /-- No set-point is known for a range action. -/
  | missingSetpoint (rangeAction : String)
  /-- A tap is not in the table of a phase shifter. -/
  | undefinedTap (tap : Int) (rangeAction : String)
  /-- A range action has no taps because it is no phase shifter. -/
  | notPhaseShifter (rangeAction : String)
  /-- An angle is farther from a phase shifter's range than the tolerance. -/
  | angleOutOfRange (angle low high : K) (rangeAction : String)
  /-- The table of a phase shifter is empty. -/
  | noTaps (rangeAction : String)
  /-- The network has no such phase shifter. -/
  | unknownPhaseShifter (element : String)
  /-- The network has no such adjustable element. -/
  | unknownElement (element : String)
  /-- The network refused a set-point. -/
  | setpointRefused (setpoint : K) (rangeAction : String)
  /-- The linear problem refused an operation. -/
  | problem (cause : ProblemFault K)
  /-- No solution is there to read a variable's value from. -/
  | noSolutionFor (key : VariableKey) (status : String)
  /-- No solution is there to read the objective's value from. -/
  | noSolution (status : String)
  /-- The last solution does not cover a variable added since. -/
  | outsideSolution
  /-- Taps are so far apart that a calculation with them leaves the integers of thirty-two bits. -/
  | tapsTooFarApart
  /-- The cost to stop at is not finite. -/
  | targetNotFinite
  /-- No iteration is allowed. -/
  | noIteration
  /-- The floor of zonal sums is not positive. -/
  | zonalFloorNotPositive
  /-- A factor of a relaxed row is not positive. -/
  | relaxationNotPositive
  /-- A feature needs integer variables and the solver has none. -/
  | integersUnsupported (feature solver : String)
  /-- A predefined combination has no action. -/
  | emptyCombination (position : Nat)
  /-- A predefined combination names an action that is not in the perimeter. -/
  | unknownNetworkAction (id : String)
  /-- No solver has that name. -/
  | unknownSolver (label : String) (known : List String)
  /-- A file of parameters could not be read. -/
  | unreadableParameters (path : String)
  /-- The network refused a network action. -/
  | actionRefused (networkAction : String)
  /-- A leaf cannot be optimised before it is evaluated. -/
  | optimizedTooEarly (leaf : String)
  /-- A leaf whose evaluation failed cannot be optimised. -/
  | optimizedAfterFailure (leaf : String)
  /-- A leaf has flows but no cost yet. -/
  | notEvaluated (leaf : String)
  /-- A leaf in that phase has no results. -/
  | noResults (leaf status : String)
  deriving Repr

namespace Fault

variable {K : Type}

/-- The class of a fault. -/
def kind : Fault K → FaultKind
  | .stated kind _ => kind
  | .malformed => .parse
  | .missingFlow _ | .noLoopFlowThreshold _ | .missingSetpoint _ | .undefinedTap _ _
  | .notPhaseShifter _ | .angleOutOfRange _ _ _ _ | .noTaps _ => .validation
  | .unknownPhaseShifter _ | .unknownElement _ | .setpointRefused _ _ => .network
  | .problem _ => .solver
  | .noSolutionFor _ _ | .noSolution _ | .optimizedTooEarly _ | .optimizedAfterFailure _
  | .notEvaluated _ | .noResults _ _ => .invalidState
  | .outsideSolution | .tapsTooFarApart => .misuse
  | .targetNotFinite | .noIteration | .zonalFloorNotPositive | .relaxationNotPositive
  | .integersUnsupported _ _ | .emptyCombination _ | .unknownNetworkAction _ => .config
  | .unknownSolver _ _ | .unreadableParameters _ => .other
  | .actionRefused _ => .actionApplication

/-- The text of a fault without the words that its class adds. -/
def text : Fault Float → String
  | .stated _ text => text
  | .malformed => "malformed text"
  | .missingFlow cnec => "no flow computed for CNEC '" ++ cnec ++ "'"
  | .noLoopFlowThreshold cnec => "CNEC '" ++ cnec ++ "' has no loop-flow threshold"
  | .missingSetpoint id => "no set-point known for range action '" ++ id ++ "'"
  | .undefinedTap tap id => "tap " ++ toString tap ++ " is not defined for PST '" ++ id ++ "'"
  | .notPhaseShifter id => "range action '" ++ id ++ "' is not a PST"
  | .angleOutOfRange angle low high id =>
    "angle " ++ Decimal.fixed 4 angle ++ " is out of the range [" ++ Decimal.fixed 4 low ++ ", "
      ++ Decimal.fixed 4 high ++ "] of PST '" ++ id ++ "'"
  | .noTaps id => "PST '" ++ id ++ "' has no taps"
  | .unknownPhaseShifter element => "unknown PST '" ++ element ++ "'"
  | .unknownElement element => "unknown element '" ++ element ++ "'"
  | .setpointRefused setpoint id =>
    "could not apply set-point " ++ Decimal.fixed 4 setpoint ++ " of range action '" ++ id ++ "'"
  | .problem cause => cause.message
  | .noSolutionFor key status =>
    "no solution available for " ++ key.label ++ " (status " ++ status ++ ")"
  | .noSolution status => "no solution available (status " ++ status ++ ")"
  | .outsideSolution => "variable added after the last solve"
  | .tapsTooFarApart => "taps too far apart"
  | .targetNotFinite => "target objective value must be finite"
  | .noIteration => "linear optimizer needs at least one iteration"
  | .zonalFloorNotPositive => "ptdf-sum-lower-bound must be strictly positive"
  | .relaxationNotPositive => "big-M factors must be strictly positive"
  | .integersUnsupported feature solver =>
    feature ++ " needs integer variables, which solver " ++ solver ++ " does not support"
  | .emptyCombination position => "predefined combination #" ++ toString position ++ " is empty"
  | .unknownNetworkAction id =>
    "predefined combination refers to unknown network action '" ++ id ++ "'"
  | .unknownSolver label known =>
    "unknown lp solver '" ++ label ++ "'; supported values: " ++ ", ".intercalate known
  | .unreadableParameters path => "reading search-tree parameters from " ++ path
  | .actionRefused id => id ++ " could not be applied on the network"
  | .optimizedTooEarly leaf => "cannot optimize " ++ leaf ++ ": it has not been evaluated"
  | .optimizedAfterFailure leaf => "cannot optimize " ++ leaf ++ ": its evaluation failed"
  | .notEvaluated leaf => leaf ++ " has no evaluation results"
  | .noResults leaf status => "no results available for " ++ leaf ++ " (" ++ status ++ ")"

/-- The text of a fault. -/
def message (fault : Fault Float) : String :=
  fault.kind.heading ++ fault.text ++ fault.kind.ending

end Fault

end GridRelief
