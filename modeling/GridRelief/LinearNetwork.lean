import GridRelief.Action.RangeAction
import GridRelief.Result.Flows

/-!
# Linear networks

A network whose flows are an affine function of its state: every switch that is not as it was
adds its opening effect, and every set-point adds its sensitivity times its distance from the
reference. Its computation is exact.

## Main definitions

* `LinearModel K`: what does not change, such as base flows and sensitivities.
* `LinearNetwork K`: a model with the state of switches, taps and set-points.
* `LinearNetwork.flow`: the flow on a critical element in the present state.
* `LinearComputer K`: flows and sensitivities of some elements and range actions.
-/

namespace GridRelief

variable {K : Type} [Scalar K]

/-- What does not change in a linear network. -/
structure LinearModel (K : Type) where
  /-- The flows in the reference state. -/
  baseFlows : Table K := ∅
  zonalSums : Table K := ∅
  commercialFlows : Table K := ∅
  /-- The change of each flow when an element is opened. -/
  openingEffects : Table (Table K) := ∅
  /-- The change of each flow with the set-point of an element. -/
  sensitivities : Table (Table K) := ∅
  /-- The set-points in the reference state. -/
  referenceSetpoints : Table K := ∅
  /-- Whether an element is connected in the reference state. -/
  initiallyConnected : Table Bool := ∅
  /-- The angles of the taps of each phase shifter. -/
  tapTables : Table (TapTable K) := ∅
  countries : Table (List (Option Country)) := ∅

/-- A network whose flows are linear in its state. -/
structure LinearNetwork (K : Type) where
  id : String
  model : LinearModel K := {}
  connected : Table Bool := ∅
  taps : Table Int := ∅
  setpoints : Table K := ∅

namespace LinearNetwork

/-! ### Building a network -/

/-- State the flow on a critical element in the reference state. -/
def withBaseFlow (n : LinearNetwork K) (cnec : String) (flow : K) : LinearNetwork K :=
  { n with model.baseFlows := n.model.baseFlows.insert cnec flow }

/-- State the zonal sum of a critical element. -/
def withZonalSum (n : LinearNetwork K) (cnec : String) (sum : K) : LinearNetwork K :=
  { n with model.zonalSums := n.model.zonalSums.insert cnec sum }

/-- State the commercial flow on a critical element. -/
def withCommercialFlow (n : LinearNetwork K) (cnec : String) (flow : K) : LinearNetwork K :=
  { n with model.commercialFlows := n.model.commercialFlows.insert cnec flow }

/-- Add a switchable element that is connected. -/
def withSwitchable (n : LinearNetwork K) (element : String) : LinearNetwork K :=
  { n with
    model.initiallyConnected := n.model.initiallyConnected.insert element true
    connected := n.connected.insert element true }

/-- The table of tables with one more entry. -/
def insertNested (table : Table (Table K)) (outer inner : String) (value : K) :
    Table (Table K) :=
  table.insert outer ((table[outer]?.getD ∅).insert inner value)

/-- State the change of a flow when an element is opened. -/
def withOpeningEffect (n : LinearNetwork K) (element cnec : String) (delta : K) :
    LinearNetwork K :=
  { n with model.openingEffects := insertNested n.model.openingEffects element cnec delta }

/-- Add a phase shifter at a tap, with the table of a range action. -/
def withPst (n : LinearNetwork K) (r : RangeAction K) (tap : Int) : LinearNetwork K :=
  match r.kind with
  | .pst taps =>
    { n with
      model.tapTables := n.model.tapTables.insert r.element taps
      model.referenceSetpoints := n.model.referenceSetpoints.insert r.element (taps[tap]?.getD 0)
      taps := n.taps.insert r.element tap }
  | _ => n

/-- Add a line or an injection at a set-point. -/
def withInjection (n : LinearNetwork K) (element : String) (setpoint : K) : LinearNetwork K :=
  { n with
    model.referenceSetpoints := n.model.referenceSetpoints.insert element setpoint
    setpoints := n.setpoints.insert element setpoint }

/-- State the change of a flow with the set-point of an element. -/
def withSensitivity (n : LinearNetwork K) (element cnec : String) (value : K) :
    LinearNetwork K :=
  { n with model.sensitivities := insertNested n.model.sensitivities element cnec value }

/-- State the countries at the ends of an element. -/
def withCountries (n : LinearNetwork K) (element : String) (places : List (Option Country)) :
    LinearNetwork K :=
  { n with model.countries := n.model.countries.insert element places }

/-! ### Flows -/

/-- The present set-point of an element: the angle of its tap if it has one. -/
def currentValue (n : LinearNetwork K) (element : String) : Option K :=
  match n.taps[element]? with
  | some tap => (n.model.tapTables[element]?).bind (·[tap]?)
  | none => n.setpoints[element]?

/-- What the status of a switch adds to a flow. -/
def switchEffect (n : LinearNetwork K) (cnec element : String) (connected : Bool) : Option K :=
  if connected == n.model.initiallyConnected[element]?.getD true then none
  else
    let delta := ((n.model.openingEffects[element]?).bind (·[cnec]?)).getD 0
    some (if connected then -delta else delta)

/-- What the set-point of an element adds to a flow. -/
def setpointEffect (n : LinearNetwork K) (element : String) (sensitivity : K) : K :=
  let reference := n.model.referenceSetpoints[element]?.getD 0
  let current := (n.currentValue element).getD reference
  sensitivity * (current - reference)

/-- The flow on a critical element in the present state. -/
def flow (n : LinearNetwork K) (cnec : String) : K :=
  let base := n.model.baseFlows[cnec]?.getD 0
  let switches := n.connected.toList.filterMap fun entry => n.switchEffect cnec entry.1 entry.2
  let setpoints := n.model.sensitivities.toList.filterMap fun entry =>
    entry.2[cnec]?.map (n.setpointEffect entry.1)
  (switches ++ setpoints).foldl (· + ·) base

/-- The change of a flow with the set-point of an element, zero if none is stated. -/
def sensitivity (n : LinearNetwork K) (element cnec : String) : K :=
  ((n.model.sensitivities[element]?).bind (·[cnec]?)).getD 0

/-! ### Questions and setters -/

/-- Move a phase shifter to a tap of its table. -/
def setTap? (n : LinearNetwork K) (element : String) (tap : Int) : Option (LinearNetwork K) :=
  match n.model.tapTables[element]? with
  | some table =>
    if table.contains tap then some { n with taps := n.taps.insert element tap } else none
  | none => none

instance : Network (LinearNetwork K) K where
  isConnected n element := n.connected[element]?
  setConnected? n element connected :=
    (Table.replace? n.connected element connected).map fun table => { n with connected := table }
  tap n element := n.taps[element]?
  setTap? n element tap := n.setTap? element tap
  setpoint n element := n.setpoints[element]?
  setSetpoint? n element setpoint :=
    (Table.replace? n.setpoints element setpoint).map fun table => { n with setpoints := table }
  countries n element := n.model.countries[element]?.getD [none]

end LinearNetwork

/-! ### The computation -/

/-- Flows and sensitivities of some critical elements and range actions. -/
structure LinearComputer (K : Type) where
  cnecs : List (Cnec K)
  rangeActions : List (RangeAction K)
  /-- The elements without which the computation fails. -/
  failingWhenOpen : List String := []

namespace LinearComputer

/-- Whether the computation fails on a network. -/
def fails (c : LinearComputer K) (n : LinearNetwork K) : Bool :=
  c.failingWhenOpen.any fun element => n.connected[element]? == some false

/-- The sensitivities of a critical element. -/
def row (c : LinearComputer K) (n : LinearNetwork K) (cnec : String) : List (String × K) :=
  c.rangeActions.map fun r => (r.id, n.sensitivity r.element cnec)

/-- The flows on all elements. -/
def flows (c : LinearComputer K) (n : LinearNetwork K) : Flows K :=
  let ids := c.cnecs.map Cnec.id
  { flows := Table.ofPairs (ids.map fun id => (id, n.flow id))
    commercial := Table.ofPairs (ids.map fun id => (id, n.model.commercialFlows[id]?.getD 0))
    zonalSums := Table.ofPairs (ids.filterMap fun id =>
      n.model.zonalSums[id]?.map (id, ·)) }

/-- The sensitivities of all elements. -/
def sensitivities (c : LinearComputer K) (n : LinearNetwork K) : Sensitivities K :=
  c.cnecs.foldl
    (fun result cnec =>
      (c.row n cnec.id).foldl (fun s entry => s.set cnec.id entry.1 entry.2) result)
    {}

/-- The results on a network. -/
def compute (c : LinearComputer K) (n : LinearNetwork K) : Outcome K :=
  if c.fails n then .failed else ⟨c.flows n, c.sensitivities n⟩

end LinearComputer

end GridRelief
