import GridRelief.Json.Record
import GridRelief.Perimeter
import GridRelief.Result.Activation
import GridRelief.Result.Cost
import GridRelief.Result.Flows

/-!
# The JSON form of domain values

Every domain value has a JSON form and a decoder for it. Records are objects with all their
fields, an absent value is null, and a value with several forms is an object whose field `type`
names the form. The keys of a map inside such a tagged value stay texts, and no integer is read from
a text. So a table of taps can be written but only the empty one can be read back.

## Main definitions

* `toJson` and `fromJson?` in the namespace of each domain type.
-/

namespace GridRelief

variable {K : Type} [Scalar K]

/-! ### Tables and lists -/

/-- The form of a table of numbers. -/
def Json.ofNumbers (table : Table K) : Json K :=
  .obj (table.toList.map fun entry => (entry.1, Json.ofNumber entry.2))

/-- The form of a list of texts. -/
def Json.ofTexts (texts : List String) : Json K := .arr (texts.map .str)

/-! ### States -/

namespace InstantKind

/-- The form of a kind of instants. -/
def toJson (kind : InstantKind) : Json K := .str kind.name

/-- Read a kind of instants. -/
def fromJson? : Decoder K InstantKind :=
  Json.name? (InstantKind.all.map fun kind => (kind.name, kind))

end InstantKind

namespace Instant

/-- The form of an instant. -/
def toJson (i : Instant) : Json K :=
  .obj [("order", .int i.order), ("id", .str i.id), ("kind", i.kind.toJson)]

/-- Read an instant. -/
def fromJson? : Decoder K Instant := fun j => do
  match ← Json.record? ["order", "id", "kind"] j with
  | [order, id, kind] =>
    return ⟨← order.required? Json.nat32?, ← id.required? Json.text?,
      ← kind.required? InstantKind.fromJson?⟩
  | _ => none

end Instant

namespace State

/-- The form of a state. -/
def toJson (s : State) : Json K :=
  .obj [("instant", s.instant.toJson), ("contingency", Json.ofText? s.contingency)]

/-- Read a state. -/
def fromJson? : Decoder K State := fun j => do
  match ← Json.record? ["instant", "contingency"] j with
  | [instant, contingency] =>
    return ⟨← instant.required? Instant.fromJson?, ← contingency.optional? Json.text?⟩
  | _ => none

end State

/-! ### Critical elements -/

namespace Cnec

/-- The names of the fields of a critical element. -/
def fieldNames : List String :=
  ["id", "network_element_id", "operator", "state", "optimized", "monitored", "lower_bound_mw",
    "upper_bound_mw", "nominal_voltage_kv", "loop_flow_threshold_mw"]

/-- The form of a critical element. -/
def toJson (c : Cnec K) : Json K :=
  .obj [("id", .str c.id), ("network_element_id", .str c.element),
    ("operator", Json.ofText? c.operator), ("state", c.state.toJson),
    ("optimized", .bool c.optimized), ("monitored", .bool c.monitored),
    ("lower_bound_mw", Json.ofNumber? c.lower), ("upper_bound_mw", Json.ofNumber? c.upper),
    ("nominal_voltage_kv", Json.ofNumber c.voltage),
    ("loop_flow_threshold_mw", Json.ofNumber? c.loopFlowThreshold)]

/-- Read a critical element. -/
def fromJson? : Decoder K (Cnec K) := fun j => do
  match ← Json.record? fieldNames j with
  | [id, element, operator, state, optimized, monitored, lower, upper, voltage, loopFlow] =>
    return {
      id := ← id.required? Json.text?
      element := ← element.required? Json.text?
      operator := ← operator.optional? Json.text?
      state := ← state.required? State.fromJson?
      optimized := ← optimized.required? Json.bool?
      monitored := ← monitored.required? Json.bool?
      lower := ← lower.optional? Json.number?
      upper := ← upper.optional? Json.number?
      voltage := ← voltage.required? Json.number?
      loopFlowThreshold := ← loopFlow.optional? Json.number? }
  | _ => none

end Cnec

/-! ### Network actions -/

namespace ElementaryAction

/-- The form of an elementary action. -/
def toJson : ElementaryAction K → Json K
  | .topology element connect =>
    .obj [("type", .str "topology"), ("element_id", .str element), ("connect", .bool connect)]
  | .pstSetpoint element tap =>
    .obj [("type", .str "pst-setpoint"), ("element_id", .str element), ("tap", .int tap)]
  | .injectionSetpoint element setpoint =>
    .obj [("type", .str "injection-setpoint"), ("element_id", .str element),
      ("setpoint", Json.ofNumber setpoint)]

/-- Read an elementary action. -/
def fromJson? : Decoder K (ElementaryAction K) := fun j => do
  let (tag, rest) ← Json.tagged? j
  let valueName ←
    match tag with
    | "topology" => some "connect"
    | "pst-setpoint" => some "tap"
    | "injection-setpoint" => some "setpoint"
    | _ => none
  match ← Json.record? ["element_id", valueName] rest with
  | [element, value] => do
    let element ← element.required? Json.text?
    match tag with
    | "topology" => return .topology element (← value.required? Json.bool?)
    | "pst-setpoint" => return .pstSetpoint element (← value.required? Json.int32?)
    | _ => return .injectionSetpoint element (← value.required? Json.number?)
  | _ => none

end ElementaryAction

namespace UsageRule

/-- The form of a usage rule. -/
def toJson : UsageRule → Json K
  | .onInstant instant => .obj [("type", .str "on-instant"), ("instant", instant.toJson)]
  | .onFlowConstraint instant cnec =>
    .obj [("type", .str "on-flow-constraint"), ("instant", instant.toJson),
      ("cnec_id", .str cnec)]
  | .onFlowConstraintInCountry instant country =>
    .obj [("type", .str "on-flow-constraint-in-country"), ("instant", instant.toJson),
      ("country", .str country.code)]

/-- Read a usage rule. -/
def fromJson? : Decoder K UsageRule := fun j => do
  let (tag, rest) ← Json.tagged? j
  match tag with
  | "on-instant" =>
    match ← Json.record? ["instant"] rest with
    | [instant] => return .onInstant (← instant.required? InstantKind.fromJson?)
    | _ => none
  | "on-flow-constraint" =>
    match ← Json.record? ["instant", "cnec_id"] rest with
    | [instant, cnec] =>
      return .onFlowConstraint (← instant.required? InstantKind.fromJson?)
        (← cnec.required? Json.text?)
    | _ => none
  | "on-flow-constraint-in-country" =>
    match ← Json.record? ["instant", "country"] rest with
    | [instant, country] =>
      return .onFlowConstraintInCountry (← instant.required? InstantKind.fromJson?)
        ⟨← country.required? Json.text?⟩
    | _ => none
  | _ => none

end UsageRule

namespace NetworkAction

/-- The form of a network action. -/
def toJson (a : NetworkAction K) : Json K :=
  .obj [("id", .str a.id), ("operator", Json.ofText? a.operator),
    ("elementary_actions", .arr (a.parts.map ElementaryAction.toJson)),
    ("usage_rules", .arr (a.rules.map UsageRule.toJson))]

/-- Read a network action; one that states no usage rules is preventive. -/
def fromJson? : Decoder K (NetworkAction K) := fun j => do
  match ← Json.record? ["id", "operator", "elementary_actions", "usage_rules"] j with
  | [id, operator, parts, rules] =>
    return {
      id := ← id.required? Json.text?
      operator := ← operator.optional? Json.text?
      parts := ← parts.required? (Json.list? ElementaryAction.fromJson?)
      rules := ← rules.orDefault? UsageRule.preventiveOnly (Json.list? UsageRule.fromJson?) }
  | _ => none

end NetworkAction

/-! ### Range actions -/

namespace RangeKind

/-- The form of a device. -/
def toJson : RangeKind K → Json K
  | .pst taps =>
    .obj [("type", .str "pst"),
      ("tap_to_angle", .obj (taps.toList.map fun entry =>
        (toString entry.1, Json.ofNumber entry.2)))]
  | .hvdc => .obj [("type", .str "hvdc")]
  | .injection => .obj [("type", .str "injection")]

/-- Read a table of taps inside a tagged value, where its keys are texts. -/
def taps? : Decoder K (TapTable K) := fun j =>
  return TapTable.ofPairs (← Json.entries? Json.int32? Json.number? j)

/-- Read a form that has no fields: an object with any fields, or a list without items. -/
def fieldless? : Decoder K Unit
  | .obj _ => some ()
  | .arr [] => some ()
  | _ => none

/-- Read a device. -/
def fromJson? : Decoder K (RangeKind K) := fun j => do
  let (tag, rest) ← Json.tagged? j
  match tag with
  | "pst" =>
    match ← Json.record? ["tap_to_angle"] rest with
    | [taps] => return .pst (← taps.required? taps?)
    | _ => none
  | "hvdc" => do
    fieldless? rest
    return .hvdc
  | "injection" => do
    fieldless? rest
    return .injection
  | _ => none

end RangeKind

namespace RangeAction

/-- The names of the fields of a range action. -/
def fieldNames : List String :=
  ["id", "network_element_id", "operator", "kind", "min_setpoint", "max_setpoint"]

/-- The form of a range action. -/
def toJson (r : RangeAction K) : Json K :=
  .obj [("id", .str r.id), ("network_element_id", .str r.element),
    ("operator", Json.ofText? r.operator), ("kind", r.kind.toJson),
    ("min_setpoint", Json.ofNumber r.min), ("max_setpoint", Json.ofNumber r.max)]

/-- Read a range action. -/
def fromJson? : Decoder K (RangeAction K) := fun j => do
  match ← Json.record? fieldNames j with
  | [id, element, operator, kind, min, max] =>
    return {
      id := ← id.required? Json.text?
      element := ← element.required? Json.text?
      operator := ← operator.optional? Json.text?
      kind := ← kind.required? RangeKind.fromJson?
      min := ← min.required? Json.number?
      max := ← max.required? Json.number? }
  | _ => none

end RangeAction

/-! ### Results -/

namespace ComputationStatus

/-- The name of a status. -/
def name : ComputationStatus → String
  | .success => "success"
  | .failure => "failure"

/-- The form of a status. -/
def toJson (status : ComputationStatus) : Json K := .str status.name

/-- Read a status. -/
def fromJson? : Decoder K ComputationStatus :=
  Json.name? [("success", .success), ("failure", .failure)]

end ComputationStatus

namespace Flows

/-- The form of flows. -/
def toJson (f : Flows K) : Json K :=
  .obj [("flows", Json.ofNumbers f.flows), ("commercial_flows", Json.ofNumbers f.commercial),
    ("ptdf_zonal_sums", Json.ofNumbers f.zonalSums), ("status", f.status.toJson)]

/-- Read flows. -/
def fromJson? : Decoder K (Flows K) := fun j => do
  match ← Json.record? ["flows", "commercial_flows", "ptdf_zonal_sums", "status"] j with
  | [flows, commercial, zonalSums, status] =>
    return {
      flows := ← flows.required? (Json.table? Json.number?)
      commercial := ← commercial.required? (Json.table? Json.number?)
      zonalSums := ← zonalSums.required? (Json.table? Json.number?)
      status := ← status.required? ComputationStatus.fromJson? }
  | _ => none

end Flows

namespace Sensitivities

/-- The form of sensitivities. -/
def toJson (s : Sensitivities K) : Json K :=
  .obj [("sensitivities", .obj (s.values.toList.map fun entry =>
      (entry.1, Json.ofNumbers entry.2))),
    ("status", s.status.toJson)]

/-- Read sensitivities. -/
def fromJson? : Decoder K (Sensitivities K) := fun j => do
  match ← Json.record? ["sensitivities", "status"] j with
  | [values, status] =>
    return {
      values := ← values.required? (Json.table? (Json.table? Json.number?))
      status := ← status.required? ComputationStatus.fromJson? }
  | _ => none

end Sensitivities

namespace Setpoints

/-- The form of set-points. -/
def toJson (s : Setpoints K) : Json K := .obj [("setpoints", Json.ofNumbers s.values)]

/-- Read set-points. -/
def fromJson? : Decoder K (Setpoints K) := fun j => do
  match ← Json.record? ["setpoints"] j with
  | [values] => return ⟨← values.required? (Json.table? Json.number?)⟩
  | _ => none

end Setpoints

namespace Activation

/-- The form of an activation. -/
def toJson (a : Activation K) : Json K :=
  .obj [("reference", a.reference.toJson), ("optimized", Json.ofNumbers a.optimized)]

/-- Read an activation. -/
def fromJson? : Decoder K (Activation K) := fun j => do
  match ← Json.record? ["reference", "optimized"] j with
  | [reference, optimized] =>
    return ⟨← reference.required? Setpoints.fromJson?,
      ← optimized.required? (Json.table? Json.number?)⟩
  | _ => none

end Activation

namespace Cost

/-- The names of the fields of a cost. -/
def fieldNames : List String :=
  ["functional_cost", "virtual_costs", "most_limiting_elements", "costly_elements"]

/-- The form of a cost. -/
def toJson (c : Cost K) : Json K :=
  .obj [("functional_cost", Json.ofNumber c.functional),
    ("virtual_costs", Json.ofNumbers c.virtualParts),
    ("most_limiting_elements", Json.ofTexts c.limiting),
    ("costly_elements", .obj (c.costly.toList.map fun entry =>
      (entry.1, Json.ofTexts entry.2)))]

/-- Read a cost. -/
def fromJson? : Decoder K (Cost K) := fun j => do
  match ← Json.record? fieldNames j with
  | [functional, virtualParts, limiting, costly] =>
    return {
      functional := ← functional.required? Json.number?
      virtualParts := ← virtualParts.required? (Json.table? Json.number?)
      limiting := ← limiting.required? (Json.list? Json.text?)
      costly := ← costly.required? (Json.table? (Json.list? Json.text?)) }
  | _ => none

end Cost

end GridRelief
