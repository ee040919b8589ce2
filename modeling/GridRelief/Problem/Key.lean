/-!
# Names of variables and rows

The variables and rows of a linear problem are named by what they stand for. The parts of a
formulation find each other's variables and rows by these names.

## Main definitions

* `VariableKey`, `RowKey`: the names.
* `VariableKey.label`, `RowKey.label`: their texts.
-/

namespace GridRelief

/-- A direction in which the tap of a phase shifter moves. -/
inductive TapDirection where
  | upward
  | downward
  deriving DecidableEq, Repr

/-- The text of a direction in a label. -/
def TapDirection.label : TapDirection → String
  | .upward => "Upward"
  | .downward => "Downward"

/-- The half of an absolute value that a row bounds. -/
inductive AbsoluteSide where
  | positive
  | negative
  deriving DecidableEq, Repr

/-- The text of a half in a label. -/
def AbsoluteSide.label : AbsoluteSide → String
  | .positive => "Positive"
  | .negative => "Negative"

/-- The threshold that a row keeps a flow away from: the flow stays below the upper one or above
the lower one. -/
inductive ThresholdSide where
  | below
  | above
  deriving DecidableEq, Repr

/-- The text of a threshold side in a label. -/
def ThresholdSide.label : ThresholdSide → String
  | .below => "BelowThreshold"
  | .above => "AboveThreshold"

/-- What a variable of a linear problem stands for. -/
inductive VariableKey where
  /-- The flow on a critical element. -/
  | flow (cnec : String)
  /-- The set-point of a range action. -/
  | setpoint (rangeAction : String)
  /-- The distance of a set-point from its reference. -/
  | absoluteVariation (rangeAction : String)
  /-- The number of taps moved in a direction. -/
  | tapVariation (rangeAction : String) (direction : TapDirection)
  /-- Whether taps move in a direction. -/
  | tapVariationBinary (rangeAction : String) (direction : TapDirection)
  /-- The distance of a tap from its reference. -/
  | tapDistance (rangeAction : String)
  /-- The smallest margin. -/
  | minimumMargin
  /-- The smallest relative margin. -/
  | minimumRelativeMargin
  /-- Whether a critical element counts for the smallest margin. -/
  | optimizeCnec (cnec : String)
  /-- The excess over the margin decrease accepted on a monitored element. -/
  | mnecViolation (cnec : String)
  /-- The excess over a loop-flow threshold. -/
  | loopFlowViolation (cnec : String)
  /-- Whether a range action is used. -/
  | variation (rangeAction : String)
  /-- Whether an operator's range actions are used. -/
  | operatorUsed (operator : String)
  deriving DecidableEq, Repr

/-- The text of a variable's name. -/
def VariableKey.label : VariableKey → String
  | .flow c => c ++ "_flow_variable"
  | .setpoint r => r ++ "_setpoint_variable"
  | .absoluteVariation r => r ++ "_absolutevariation_variable"
  | .tapVariation r d => r ++ "_" ++ d.label ++ "_taptovariation_variable"
  | .tapVariationBinary r d => r ++ "_" ++ d.label ++ "_taptovariationbinary_variable"
  | .tapDistance r => r ++ "_absolutevariationfrominitialtap_variable"
  | .minimumMargin => "minmargin_variable"
  | .minimumRelativeMargin => "minrelmargin_variable"
  | .optimizeCnec c => c ++ "_optimizecnec_variable"
  | .mnecViolation c => c ++ "_mnecviolation_variable"
  | .loopFlowViolation c => c ++ "_loopflowviolation_variable"
  | .variation r => r ++ "_isvariation_variable"
  | .operatorUsed o => o ++ "_tsoraused_variable"

/-- What a row of a linear problem states. -/
inductive RowKey where
  /-- The flow on an element follows the set-points. -/
  | flow (cnec : String)
  /-- A set-point's distance from its reference. -/
  | absoluteVariation (rangeAction : String) (side : AbsoluteSide)
  /-- The range left for a set-point after some iterations. -/
  | shrink (rangeAction : String)
  /-- A set-point follows the taps moved. -/
  | tapToAngle (rangeAction : String)
  /-- Taps move in one direction at most. -/
  | upOrDown (rangeAction : String)
  /-- Taps move in a direction only if its indicator is set. -/
  | variationInDirection (rangeAction : String) (direction : TapDirection)
  /-- A tap's distance from its reference. -/
  | tapDistance (rangeAction : String) (side : AbsoluteSide)
  /-- The smallest margin is at most an element's margin. -/
  | minimumMargin (cnec : String) (side : ThresholdSide)
  /-- The smallest relative margin is at most an element's relative margin. -/
  | minimumRelativeMargin (cnec : String) (side : ThresholdSide)
  /-- An element may be left out of the smallest margin only under a condition. -/
  | dontOptimizeCnec (cnec : String) (side : ThresholdSide)
  /-- The excess on a monitored element. -/
  | mnecViolation (cnec : String) (side : ThresholdSide)
  /-- The excess over a loop-flow threshold. -/
  | loopFlowViolation (cnec : String) (side : AbsoluteSide)
  /-- A set-point moves only if its indicator is set. -/
  | variation (rangeAction : String)
  /-- The number of range actions used. -/
  | maxRa
  /-- The number of operators whose range actions are used. -/
  | maxTso
  /-- An operator is involved if its range action is. -/
  | operatorUsed (operator : String) (rangeAction : String)
  /-- The number of an operator's range actions used. -/
  | maxRaPerTso (operator : String)
  /-- The number of an operator's phase shifters used. -/
  | maxPstPerTso (operator : String)
  /-- The number of taps that an operator's phase shifters move. -/
  | maxElementaryActionsPerTso (operator : String)
  deriving DecidableEq, Repr

/-- The text of a row's name. -/
def RowKey.label : RowKey → String
  | .flow c => c ++ "_flow_constraint"
  | .absoluteVariation r s => r ++ "_" ++ s.label ++ "_absolutevariation_constraint"
  | .shrink r => r ++ "_iterativeshrink_constraint"
  | .tapToAngle r => r ++ "_taptoangleconversion_constraint"
  | .upOrDown r => r ++ "_upordown_constraint"
  | .variationInDirection r d => r ++ "_" ++ d.label ++ "_isvariationindirection_constraint"
  | .tapDistance r s => r ++ "_" ++ s.label ++ "_absolutevariationfrominitialtap_constraint"
  | .minimumMargin c s => c ++ "_" ++ s.label ++ "_minmargin_constraint"
  | .minimumRelativeMargin c s => c ++ "_" ++ s.label ++ "_minrelmargin_constraint"
  | .dontOptimizeCnec c s => c ++ "_" ++ s.label ++ "_dontoptimizecnec_constraint"
  | .mnecViolation c s => c ++ "_" ++ s.label ++ "_mnec_constraint"
  | .loopFlowViolation c s => c ++ "_" ++ s.label ++ "_maxloopflow_constraint"
  | .variation r => r ++ "_isvariation_constraint"
  | .maxRa => "maxra_constraint"
  | .maxTso => "maxtso_constraint"
  | .operatorUsed o r => o ++ "_" ++ r ++ "_tsoraused_constraint"
  | .maxRaPerTso o => o ++ "_maxrapertso_constraint"
  | .maxPstPerTso o => o ++ "_maxpstpertso_constraint"
  | .maxElementaryActionsPerTso o => o ++ "_maxelementaryactionspertso_constraint"

end GridRelief
