import GridRelief.Json.Domain
import GridRelief.LinearNetwork
import GridRelief.Search.Candidate

/-!
# Reports

What an optimisation looks at and what it found, as JSON for a reader. Beside the data a report
tells what follows from them: totals, the range actions in use, the names of variables and rows.

## Main definitions

* `report` in the namespace of each type that has one.
-/

namespace GridRelief

variable {K : Type} [Scalar K]

/-! ### Tables and lists -/

/-- A list as JSON. -/
def Json.ofList {α : Type} (form : α → Json K) (items : List α) : Json K := .arr (items.map form)

/-- A table as JSON. -/
def Json.ofTable {V : Type} (form : V → Json K) (table : Table V) : Json K :=
  .obj (table.toList.map fun entry => (entry.1, form entry.2))

/-- The values that some names have, as JSON; a name without one is left out. -/
def Json.ofKnown {V : Type} (form : V → Json K) (value : String → Option V)
    (names : List String) : Json K :=
  .obj (names.filterMap fun name => (value name).map fun v => (name, form v))

/-- A count that may be absent. -/
def Json.ofCount? : Option Nat → Json K
  | some n => .int n
  | none => .null

/-! ### Networks -/

/-- The state of some elements of a network, and the flows on some critical elements. -/
def LinearNetwork.report (n : LinearNetwork K) (elements cnecs : List String) : Json K :=
  .obj [("connected", Json.ofKnown .bool (Network.isConnected n) elements),
    ("taps", Json.ofKnown .int (Network.tap n) elements),
    ("setpoints", Json.ofKnown .real (Network.setpoint n) elements),
    ("flows", .obj (cnecs.map fun cnec => (cnec, .real (n.flow cnec))))]

/-! ### Results -/

/-- A cost with its totals. -/
def Cost.report (c : Cost K) : Json K :=
  .obj [("cost", .real c.total), ("functional", .real c.functional), ("virtual", .real c.virtual),
    ("virtual_costs", Json.ofTable .real c.virtualParts),
    ("limiting", Json.ofTexts c.limiting), ("costly", Json.ofTable Json.ofTexts c.costly)]

/-- The total of a cost and its two parts. -/
def Cost.totals (c : Cost K) : Json K :=
  .arr [.real c.total, .real c.functional, .real c.virtual]

/-- An activation with the range actions in use. -/
def Activation.report (a : Activation K) : Json K :=
  .obj [("reference", Json.ofTable .real a.reference.values),
    ("optimized", Json.ofTable .real a.optimized), ("activated", Json.ofTexts a.activated)]

/-! ### Linear problems -/

namespace VariableKind

/-- The name of a kind of variables. -/
def name : VariableKind → String
  | .continuous => "continuous"
  | .integer => "integer"
  | .binary => "binary"

end VariableKind

namespace LinearProblem

/-- The text of a variable's name. -/
def labelOf (p : LinearProblem K) (v : VariableId) : String :=
  (p.columns[v]?.map fun data => data.key.label).getD ""

/-- A variable with its bounds and its coefficient in the objective. -/
def variableReport (p : LinearProblem K) (entry : Variable K × VariableId) : String × Json K :=
  let (data, v) := entry
  (data.key.label, .arr [.str data.key.label, .str data.kind.name, .real data.lower.toScalar,
    .real data.upper.toScalar, .real (p.objectiveCoefficient v)])

/-- A row with its bounds and terms. -/
def rowReport (p : LinearProblem K) (row : Row K) : String × Json K :=
  (row.key.label, .arr [.str row.key.label, .real row.lower.toScalar, .real row.upper.toScalar,
    .obj (row.form.toList.map fun term => (p.labelOf term.1, .real term.2))])

/-- Reports in the order of their names. -/
def inOrder (reports : List (String × Json K)) : Json K :=
  .arr ((reports.mergeSort fun a b => (compare a.1 b.1).isLE).map Prod.snd)

/-- A linear problem, its variables and rows in the order of their names. -/
def report (p : LinearProblem K) : Json K :=
  .obj [("counts", .arr [.int p.columns.length, .int p.rows.length]),
    ("integers", .bool p.hasIntegers),
    ("variables", inOrder (p.columns.zipIdx.map p.variableReport)),
    ("constraints", inOrder (p.rows.map p.rowReport))]

end LinearProblem

/-- What range actions may still use. -/
def UsageBudget.report (b : UsageBudget) : Json K :=
  let counts (table : Table Nat) : Json K := Json.ofTable (fun (n : Nat) => .int n) table
  .obj [("max_ra", Json.ofCount? b.maxRa), ("max_tso", Json.ofCount? b.maxTso),
    ("max_tso_exclusions", Json.ofTexts b.involved.toList),
    ("max_ra_per_tso", counts b.maxRaPerTso), ("max_pst_per_tso", counts b.maxPstPerTso),
    ("max_elementary_actions_per_tso", counts b.maxElementaryPerTso),
    ("limited", .bool b.isLimited)]

/-! ### The search -/

/-- A candidate: its name, whether range actions go back, and where it comes from. -/
def Candidate.report (c : Candidate K) : Json K :=
  .arr [.str c.combination.id, .bool c.dropsRangeActions, .bool c.combination.isPredefined,
    .bool c.combination.isDetected]

/-- The name of a status in documents. -/
def LeafStatus.name : LeafStatus → String
  | .created => "Created"
  | .evaluated => "Evaluated"
  | .optimized => "Optimized"
  | .failed => "Error"

/-- The name of a status in documents. -/
def OptimizationStatus.name : OptimizationStatus → String
  | .optimal => "Optimal"
  | .feasible => "Feasible"
  | .infeasible => "Infeasible"
  | .unbounded => "Unbounded"
  | .abnormal => "Abnormal"
  | .notSolved => "NotSolved"
  | .computationFailed => "SensitivityComputationFailed"
  | .iterationLimit => "MaxIterationReached"

/-- What a leaf reached. -/
def LeafResult.report (r : LeafResult K) : Json K :=
  .obj [("costs", r.cost.totals), ("objective", r.cost.report), ("flows", r.point.flows.toJson),
    ("activation", r.point.activation.report), ("network_actions", Json.ofTexts r.applied.ids),
    ("range_actions", Json.ofTexts r.movedRangeActions),
    ("linear_status", Json.ofText? (r.optimization.map OptimizationStatus.label))]

end GridRelief
