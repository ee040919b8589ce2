import GridRelief.Json.Domain
import GridRelief.Parameters
import GridRelief.Toml.Printer
import GridRelief.Toml.Reader

/-!
# The written form of parameters

Parameters are a record of records. Every field may be left out and then has its default; unknown
fields are passed over. The same form is written in JSON and in TOML documents.

## Main definitions

* `Parameters.toJson`, `Parameters.fromJson?`: the form of parameters, and its decoder.
* `Parameters.ofToml`, `Parameters.toToml`: parameters from and to TOML documents.
-/

namespace GridRelief

variable {K : Type} [Scalar K]

/-- The form of a table of natural numbers. -/
def Json.ofNats (table : Table Nat) : Json K :=
  .obj (table.toList.map fun entry => (entry.1, .int entry.2))

/-- The form of a natural number that may be absent. -/
def Json.ofNat? : Option Nat → Json K
  | some n => .int n
  | none => .null

/-! ### Names -/

/-- The names of the kinds of objectives. -/
def ObjectiveKind.names : List (String × ObjectiveKind) :=
  [("max-min-margin", .minMargin), ("max-min-relative-margin", .minRelativeMargin)]

/-- The names of the units. -/
def FlowUnit.names : List (String × FlowUnit) := [("megawatt", .megawatt), ("ampere", .ampere)]

/-- The names of the stop criteria. -/
def StopCriterion.names : List (String × StopCriterion) :=
  [("min-objective", .minObjective), ("at-target-objective-value", .atTarget)]

/-- The names of the models of phase shifters. -/
def PstModel.names : List (String × PstModel) :=
  [("continuous", .continuous), ("approximated-integers", .approximatedIntegers)]

/-- The names of the solvers. -/
def SolverKind.names : List (String × SolverKind) :=
  SolverKind.all.map fun kind => (kind.label, kind)

/-- The form of a value that has one of some names. -/
def Json.ofName {α : Type} [BEq α] (names : List (String × α)) (value : α) : Json K :=
  match names.find? (·.2 == value) with
  | some (name, _) => .str name
  | none => .null

/-! ### Records -/

namespace ObjectiveParameters

/-- The form of an objective. -/
def form (number : K → Json K) (o : ObjectiveParameters K) : Json K :=
  .obj [("kind", Json.ofName ObjectiveKind.names o.kind),
    ("unit", Json.ofName FlowUnit.names o.unit),
    ("stop-criterion", Json.ofName StopCriterion.names o.stopCriterion),
    ("target-objective-value", number o.target)]

/-- Read an objective. -/
def fromJson? : Decoder K (ObjectiveParameters K) := fun j => do
  let d : ObjectiveParameters K := .default
  match ← Json.record? ["kind", "unit", "stop-criterion", "target-objective-value"] j with
  | [kind, unit, stopCriterion, target] =>
    return {
      kind := ← kind.orDefault? d.kind (Json.name? ObjectiveKind.names)
      unit := ← unit.orDefault? d.unit (Json.name? FlowUnit.names)
      stopCriterion :=
        ← stopCriterion.orDefault? d.stopCriterion (Json.name? StopCriterion.names)
      target := ← target.orDefault? d.target Json.number? }
  | _ => none

end ObjectiveParameters

namespace TreeParameters

/-- The names of the fields of a tree. -/
def fieldNames : List String :=
  ["max-search-tree-depth", "relative-network-action-minimum-impact-threshold",
    "absolute-network-action-minimum-impact-threshold", "leaves-in-parallel",
    "skip-network-actions-far-from-most-limiting-element",
    "max-number-of-boundaries-for-skipping-network-actions", "predefined-combinations",
    "ra-range-shrinking", "pool-wait-timeout-seconds"]

/-- The form of a tree. -/
def form (number : K → Json K) (t : TreeParameters K) : Json K :=
  .obj (fieldNames.zip
    [.int t.maxDepth, number t.relativeThreshold, number t.absoluteThreshold,
      .int t.leavesInParallel, .bool t.skipFarActions, .int t.maxBorders,
      .arr (t.predefinedCombinations.map Json.ofTexts), .bool t.rangeShrinking,
      .int t.timeoutSeconds])

/-- Read a tree. -/
def fromJson? : Decoder K (TreeParameters K) := fun j => do
  let d : TreeParameters K := .default
  match ← Json.record? fieldNames j with
  | [depth, relative, absolute, parallel, skip, borders, predefined, shrinking, timeout] =>
    return {
      maxDepth := ← depth.orDefault? d.maxDepth Json.nat64?
      relativeThreshold := ← relative.orDefault? d.relativeThreshold Json.number?
      absoluteThreshold := ← absolute.orDefault? d.absoluteThreshold Json.number?
      leavesInParallel := ← parallel.orDefault? d.leavesInParallel Json.nat64?
      skipFarActions := ← skip.orDefault? d.skipFarActions Json.bool?
      maxBorders := ← borders.orDefault? d.maxBorders Json.nat64?
      predefinedCombinations :=
        ← predefined.orDefault? d.predefinedCombinations (Json.list? (Json.list? Json.text?))
      rangeShrinking := ← shrinking.orDefault? d.rangeShrinking Json.bool?
      timeoutSeconds := ← timeout.orDefault? d.timeoutSeconds Json.nat64? }
  | _ => none

end TreeParameters

namespace UsageLimits

/-- The names of the fields of limits. -/
def fieldNames : List String :=
  ["max-ra", "max-tso", "max-ra-per-tso", "max-topo-per-tso", "max-pst-per-tso",
    "max-elementary-actions-per-tso"]

/-- The form of limits. -/
def form (l : UsageLimits) : Json K :=
  .obj (fieldNames.zip
    [Json.ofNat? l.maxRa, Json.ofNat? l.maxTso, Json.ofNats l.maxRaPerTso,
      Json.ofNats l.maxTopoPerTso, Json.ofNats l.maxPstPerTso,
      Json.ofNats l.maxElementaryPerTso])

/-- Read limits. -/
def fromJson? : Decoder K UsageLimits := fun j => do
  let count := Json.nullable? (K := K) Json.nat64?
  let counts := Json.table? (K := K) Json.nat64?
  match ← Json.record? fieldNames j with
  | [ra, tso, raPerTso, topoPerTso, pstPerTso, elementaryPerTso] =>
    return {
      maxRa := ← ra.orDefault? none count
      maxTso := ← tso.orDefault? none count
      maxRaPerTso := ← raPerTso.orDefault? ∅ counts
      maxTopoPerTso := ← topoPerTso.orDefault? ∅ counts
      maxPstPerTso := ← pstPerTso.orDefault? ∅ counts
      maxElementaryPerTso := ← elementaryPerTso.orDefault? ∅ counts }
  | _ => none

end UsageLimits

namespace OptimizerParameters

/-- The names of the fields of an optimisation. -/
def fieldNames : List String :=
  ["max-iterations", "pst-model", "solver", "pst-sensitivity-threshold",
    "hvdc-sensitivity-threshold", "injection-sensitivity-threshold", "pst-penalty-cost",
    "hvdc-penalty-cost", "injection-penalty-cost", "ptdf-sum-lower-bound"]

/-- The form of an optimisation. -/
def form (number : K → Json K) (o : OptimizerParameters K) : Json K :=
  .obj (fieldNames.zip
    ([.int o.maxIterations, Json.ofName PstModel.names o.pstModel,
      Json.ofName SolverKind.names o.solver] ++
    [o.pstSensitivityThreshold, o.hvdcSensitivityThreshold, o.injectionSensitivityThreshold,
      o.pstPenalty, o.hvdcPenalty, o.injectionPenalty, o.zonalSumFloor].map number))

/-- Read an optimisation. -/
def fromJson? : Decoder K (OptimizerParameters K) := fun j => do
  let d : OptimizerParameters K := .default
  match ← Json.record? fieldNames j with
  | [iterations, pstModel, solver, pst, hvdc, injection, pstCost, hvdcCost, injectionCost,
      floor] =>
    return {
      maxIterations := ← iterations.orDefault? d.maxIterations Json.nat64?
      pstModel := ← pstModel.orDefault? d.pstModel (Json.name? PstModel.names)
      solver := ← solver.orDefault? d.solver (Json.name? SolverKind.names)
      pstSensitivityThreshold := ← pst.orDefault? d.pstSensitivityThreshold Json.number?
      hvdcSensitivityThreshold := ← hvdc.orDefault? d.hvdcSensitivityThreshold Json.number?
      injectionSensitivityThreshold :=
        ← injection.orDefault? d.injectionSensitivityThreshold Json.number?
      pstPenalty := ← pstCost.orDefault? d.pstPenalty Json.number?
      hvdcPenalty := ← hvdcCost.orDefault? d.hvdcPenalty Json.number?
      injectionPenalty := ← injectionCost.orDefault? d.injectionPenalty Json.number?
      zonalSumFloor := ← floor.orDefault? d.zonalSumFloor Json.number? }
  | _ => none

end OptimizerParameters

namespace Relaxation

/-- The form of relaxation factors. -/
def form (number : K → Json K) (r : Relaxation K) : Json K :=
  .obj [("margin-decrease-factor", number r.marginDecrease),
    ("minimum-margin-relaxation-factor", number r.minimumMargin)]

/-- Read relaxation factors. -/
def fromJson? : Decoder K (Relaxation K) := fun j => do
  let d : Relaxation K := .default
  match ← Json.record? ["margin-decrease-factor", "minimum-margin-relaxation-factor"] j with
  | [decrease, minimum] =>
    return ⟨← decrease.orDefault? d.marginDecrease Json.number?,
      ← minimum.orDefault? d.minimumMargin Json.number?⟩
  | _ => none

end Relaxation

namespace UnoptimizedParameters

/-- The names of the fields on elements that count under a condition. -/
def fieldNames : List String :=
  ["operators-not-to-optimize", "cnecs-in-series-with-psts", "big-m"]

/-- The form of the parameters on elements that count under a condition. -/
def form (number : K → Json K) (u : UnoptimizedParameters K) : Json K :=
  .obj (fieldNames.zip
    [Json.ofTexts u.operators.toList,
      .obj (u.inSeries.toList.map fun entry => (entry.1, .str entry.2)), u.relaxation.form number])

/-- Read the parameters on elements that count under a condition. -/
def fromJson? : Decoder K (UnoptimizedParameters K) := fun j => do
  let d : UnoptimizedParameters K := .default
  match ← Json.record? fieldNames j with
  | [operators, inSeries, relaxation] =>
    return {
      operators := NameSet.ofNames (← operators.orDefault? [] (Json.list? Json.text?))
      inSeries := ← inSeries.orDefault? d.inSeries (Json.table? Json.text?)
      relaxation := ← relaxation.orDefault? d.relaxation Relaxation.fromJson? }
  | _ => none

end UnoptimizedParameters

namespace MnecParameters

/-- The names of the fields on monitored elements. -/
def fieldNames : List String :=
  ["acceptable-margin-decrease", "violation-cost", "constraint-adjustment-coefficient"]

/-- The form of the parameters on monitored elements. -/
def form (number : K → Json K) (m : MnecParameters K) : Json K :=
  .obj (fieldNames.zip ([m.acceptableDecrease, m.violationCost, m.adjustment].map number))

/-- Read the parameters on monitored elements. -/
def fromJson? : Decoder K (MnecParameters K) := fun j => do
  let d : MnecParameters K := .default
  match ← Json.record? fieldNames j with
  | [decrease, cost, adjustment] =>
    return ⟨← decrease.orDefault? d.acceptableDecrease Json.number?,
      ← cost.orDefault? d.violationCost Json.number?,
      ← adjustment.orDefault? d.adjustment Json.number?⟩
  | _ => none

end MnecParameters

namespace LoopFlowParameters

/-- The names of the fields on loop flows. -/
def fieldNames : List String :=
  ["acceptable-increase", "violation-cost", "constraint-adjustment-coefficient"]

/-- The form of the parameters on loop flows. -/
def form (number : K → Json K) (l : LoopFlowParameters K) : Json K :=
  .obj (fieldNames.zip ([l.acceptableIncrease, l.violationCost, l.adjustment].map number))

/-- Read the parameters on loop flows. -/
def fromJson? : Decoder K (LoopFlowParameters K) := fun j => do
  let d : LoopFlowParameters K := .default
  match ← Json.record? fieldNames j with
  | [increase, cost, adjustment] =>
    return ⟨← increase.orDefault? d.acceptableIncrease Json.number?,
      ← cost.orDefault? d.violationCost Json.number?,
      ← adjustment.orDefault? d.adjustment Json.number?⟩
  | _ => none

end LoopFlowParameters

namespace Parameters

/-- The names of the sections of parameters. -/
def fieldNames : List String :=
  ["objective", "tree", "ra-usage-limits", "linear-optimizer", "unoptimized-cnecs", "mnec",
    "loop-flow"]

/-- The form of parameters, with a form for the numbers in it. -/
def form (number : K → Json K) (p : Parameters K) : Json K :=
  .obj (fieldNames.zip
    [p.objective.form number, p.tree.form number, p.limits.form, p.optimizer.form number,
      p.unoptimized.form number, (p.mnec.map (·.form number)).getD .null,
      (p.loopFlow.map (·.form number)).getD .null])

/-- The form of parameters as a JSON value. -/
def toJson (p : Parameters K) : Json K := p.form Json.ofNumber

/-- Read parameters. -/
def fromJson? : Decoder K (Parameters K) := fun j => do
  match ← Json.record? fieldNames j with
  | [objective, tree, limits, optimizer, unoptimized, mnec, loopFlow] =>
    return {
      objective := ← objective.orDefault? .default ObjectiveParameters.fromJson?
      tree := ← tree.orDefault? .default TreeParameters.fromJson?
      limits := ← limits.orDefault? {} UsageLimits.fromJson?
      optimizer := ← optimizer.orDefault? .default OptimizerParameters.fromJson?
      unoptimized := ← unoptimized.orDefault? .default UnoptimizedParameters.fromJson?
      mnec := ← mnec.orDefault? none (Json.nullable? MnecParameters.fromJson?)
      loopFlow := ← loopFlow.orDefault? none (Json.nullable? LoopFlowParameters.fromJson?) }
  | _ => none

/-! ### TOML documents -/

/-- Usable parameters from the text of a TOML document. -/
def ofToml (text : String) : Except (Fault Float) (Parameters Float) :=
  match (Toml.ofString? text).bind fromJson? with
  | none => .error .malformed
  | some parameters => parameters.validate.map fun _ => parameters

/-- Parameters as the text of a TOML document, in which numbers need not be finite. -/
def toToml (p : Parameters Float) : Except (Fault Float) String :=
  match Toml.render? (p.form .real) with
  | none => .error .malformed
  | some text => .ok text

end Parameters

end GridRelief
