import GridRelief.Search.Candidate
import GridRelief.Search.Situation

/-!
# Filters for relevance

A combination is rejected when it has been tried, when it cannot be applied or may not be used,
when it is far from the elements that matter, or when it changes nothing.

## Main definitions

* `RelevanceFilter.notApplied`, `RelevanceFilter.notTested`: what has been tried.
* `RelevanceFilter.near`: what is near the elements that matter.
* `RelevanceFilter.compatible`, `RelevanceFilter.usable`, `RelevanceFilter.effective`: what can and
  may be used, and what changes something.
-/

namespace GridRelief.RelevanceFilter

variable {K N : Type} [Scalar K] [Network N K]

/-! ### What has been tried -/

/-- No action of the combination is in use. -/
def notApplied : Filter K :=
  .keeping "already-applied" fun leaf c => c.actions.actions.all fun a => !leaf.isApplied a

/-- The last action of a combination that is not in use, if it is the only one. -/
def lastMissing? (leaf : LeafResult K) (c : Combination K) : Option String :=
  match c.actions.actions.filter fun a => !leaf.isApplied a with
  | [last] => some last.id
  | _ => none

/-- The combination is not a single action that completes one of the combinations named by the
user: together with the others it has been tried before. -/
def notTested (predefined : List (Combination K)) : Filter K :=
  .keeping "already-tested" fun leaf c =>
    let tested := (predefined.filter (!·.isDetected)).filterMap (lastMissing? leaf)
    c.size != 1 || c.ids.all fun id => !tested.contains id

/-! ### What is near -/

/-- The places of a critical element. -/
def cnecPlaces (s : Situation N K) (cnec : String) : List (Option Country) :=
  match s.perimeter.cnec? cnec with
  | some c => Network.countries s.network c.element
  | none => [none]

/-- The places of the most limiting element and of the elements behind virtual costs. -/
def limitingPlaces (s : Situation N K) (cost : Cost K) : List (Option Country) :=
  let costly := cost.virtualParts.toList.flatMap fun part => cost.costly[part.1]?.getD []
  (cost.mostLimiting 1 ++ costly).flatMap (cnecPlaces s)

/-- Whether an action is within so many borders of some places; unknown places are near. -/
def isNear (s : Situation N K) (maxBorders : Nat) (places : List (Option Country))
    (a : NetworkAction K) : Bool :=
  let own := a.location s.network
  places.contains none || own.contains none ||
    (places.filterMap fun place => place).any fun place =>
      (own.filterMap fun country => country).any fun country =>
        s.borders.areNeighbors place country maxBorders

/-- Some action of the combination is near the elements that matter. -/
def near (s : Situation N K) (maxBorders : Nat) : Filter K :=
  .keeping "far-from-most-limiting-element" fun leaf c =>
    c.actions.actions.any (isNear s maxBorders (limitingPlaces s leaf.cost))

/-! ### What can and may be used -/

/-- Every action of the combination is compatible with those in use. -/
def compatible : Filter K :=
  .keeping "elementary-actions-compatibility" fun leaf c =>
    c.actions.actions.all fun a => leaf.applied.actions.all a.isCompatible

/-- The critical elements of the main state that are overloaded. -/
def overloaded (perimeter : Perimeter K) (unit : FlowUnit) (flows : Flows K) : List (Cnec K) :=
  (perimeter.cnecs.filter (·.state == perimeter.mainState)).filter fun c =>
    match flows.margin c unit with
    | .ok margin => decide (margin < 0)
    | .error _ => false

/-- Whether a rule of an action is met while some elements are overloaded. -/
def isMet (s : Situation N K) (overloads : List (Cnec K)) : UsageRule → Bool
  | .onInstant _ => true
  | .onFlowConstraint _ cnec => overloads.any (·.id == cnec)
  | .onFlowConstraintInCountry _ country =>
    overloads.any fun c => (cnecPlaces s c.id).contains (some country)

/-- Whether an action may be used while some elements are overloaded. -/
def isUsable (s : Situation N K) (overloads : List (Cnec K)) (a : NetworkAction K) : Bool :=
  (a.rules.filter (·.isDefinedFor s.perimeter.mainState)).any (isMet s overloads)

/-- Every action of the combination may be used with the overloads of the leaf. -/
def usable (s : Situation N K) (unit : FlowUnit) : Filter K :=
  .keeping "on-flow-constraint" fun leaf c =>
    c.actions.actions.all (isUsable s (overloaded s.perimeter unit leaf.point.flows))

/-- The network with some actions applied, as far as they are accepted. -/
def replay (network : N) (actions : ActionSet K) : N :=
  actions.actions.foldl (fun network a => (a.apply network).1) network

/-- Some action of the combination changes the network of the leaf. -/
def effective (s : Situation N K) : Filter K :=
  .keeping "has-impact-on-network" fun leaf c =>
    c.actions.actions.any (·.hasImpact (replay s.network leaf.applied))

end GridRelief.RelevanceFilter
