import GridRelief.Network
import GridRelief.Scalar
import GridRelief.State
import GridRelief.Table

/-!
# Network actions

A network action is a list of elementary actions that are applied together, such as opening a
switch or moving a phase shifter to a tap. It may be used under its usage rules.

## Main definitions

* `ElementaryAction K`: one change of one element.
* `UsageRule`: when an action may be used.
* `NetworkAction K`: elementary actions with a name, an operator and usage rules.
* `NetworkAction.apply`: the network after an action, as far as its parts are accepted.
* `ActionSet K`: network actions by name.
-/

namespace GridRelief

variable {K N : Type} [Scalar K] [Network N K]

/-! ### Elementary actions -/

/-- One change of one network element. -/
inductive ElementaryAction (K : Type) where
  /-- Connect or disconnect a switchable element. -/
  | topology (element : String) (connect : Bool)
  /-- Move a phase shifter to a tap. -/
  | pstSetpoint (element : String) (tap : Int)
  /-- Set a line or an injection to a value. -/
  | injectionSetpoint (element : String) (setpoint : K)
  deriving BEq, Repr

namespace ElementaryAction

/-- The element that an action changes. -/
def element : ElementaryAction K → String
  | .topology element _ | .pstSetpoint element _ | .injectionSetpoint element _ => element

/-- The network after an action, `none` if the network refuses it. -/
def applyTo? (network : N) : ElementaryAction K → Option N
  | .topology element connect => Network.setConnected? network element connect
  | .pstSetpoint element tap => Network.setTap? network element tap
  | .injectionSetpoint element setpoint => Network.setSetpoint? network element setpoint

/-- Set-points that differ by at most this much count as the same. -/
def impactTolerance : K := Scalar.ofDecimal 1 6

/-- Whether a network is not yet in the state that an action leads to. -/
def hasImpact (network : N) : ElementaryAction K → Bool
  | .topology element connect => Network.isConnected network element != some connect
  | .pstSetpoint element tap => Network.tap network element != some tap
  | .injectionSetpoint element setpoint =>
    match Network.setpoint network element with
    | none => true
    | some current => decide (impactTolerance < Scalar.abs (current - setpoint))

/-- Whether two actions change different elements or are the same change. -/
def isCompatible (a b : ElementaryAction K) : Bool :=
  a.element != b.element || a == b

end ElementaryAction

/-! ### Usage rules -/

/-- When a network action may be used. -/
inductive UsageRule where
  /-- Always, at instants of a kind. -/
  | onInstant (instant : InstantKind)
  /-- At instants of a kind, when a critical element is overloaded. -/
  | onFlowConstraint (instant : InstantKind) (cnec : String)
  /-- At instants of a kind, when some critical element in a country is overloaded. -/
  | onFlowConstraintInCountry (instant : InstantKind) (country : Country)
  deriving DecidableEq, Repr

namespace UsageRule

/-- The kind of instants that a rule is for. -/
def instant : UsageRule → InstantKind
  | .onInstant instant | .onFlowConstraint instant _ | .onFlowConstraintInCountry instant _ =>
    instant

/-- Whether a rule is for the instant of a state. -/
def isDefinedFor (rule : UsageRule) (state : State) : Bool :=
  rule.instant == state.instant.kind

/-- The rules of an action that states none. -/
def preventiveOnly : List UsageRule := [.onInstant .preventive]

end UsageRule

/-! ### Network actions -/

/-- Elementary actions that are applied together. -/
structure NetworkAction (K : Type) where
  id : String
  operator : Option String := none
  parts : List (ElementaryAction K)
  rules : List UsageRule := UsageRule.preventiveOnly
  deriving BEq, Repr

namespace NetworkAction

/-- Apply elementary actions in order up to the first that is refused; the changes made before
it stay. -/
def applyParts : List (ElementaryAction K) → N → N × Bool
  | [], network => (network, true)
  | part :: rest, network =>
    match part.applyTo? network with
    | some changed => applyParts rest changed
    | none => (network, false)

/-- The network after an action, and whether every part was accepted. -/
def apply (a : NetworkAction K) (network : N) : N × Bool := applyParts a.parts network

/-- Whether some part of an action changes a network. -/
def hasImpact (a : NetworkAction K) (network : N) : Bool :=
  a.parts.any fun part => part.hasImpact network

/-- Whether every part of an action is compatible with every part of another. -/
def isCompatible (a b : NetworkAction K) : Bool :=
  a.parts.all fun part => b.parts.all fun other => part.isCompatible other

/-- The number of elementary actions. -/
def size (a : NetworkAction K) : Nat := a.parts.length

/-- The number of elementary actions of several network actions. -/
def totalSize (actions : List (NetworkAction K)) : Nat :=
  actions.foldr (fun a total => a.size + total) 0

/-- Whether an operator owns an action. -/
def belongsTo (operator : String) (a : NetworkAction K) : Bool := a.operator == some operator

/-- Insert a country into a list that is sorted, unknown places first, and free of repetitions. -/
def insertPlace (place : Option Country) : List (Option Country) → List (Option Country)
  | [] => [place]
  | other :: rest =>
    match compare (place.map Country.code) (other.map Country.code) with
    | .lt => place :: other :: rest
    | .eq => other :: rest
    | .gt => other :: insertPlace place rest

/-- The countries of the elements that an action changes, each once, unknown places first. -/
def location (a : NetworkAction K) (network : N) : List (Option Country) :=
  (a.parts.flatMap fun part => Network.countries network part.element).foldl
    (fun places place => insertPlace place places) []

end NetworkAction

/-! ### Sets of actions -/

/-- Network actions by name; an action is told from others by its name alone. -/
structure ActionSet (K : Type) where
  table : Table (NetworkAction K)
  /-- Every action is held under its own name. -/
  named : ∀ (id : String) (a : NetworkAction K), table[id]? = some a → a.id = id

namespace ActionSet

/-- The set without actions. -/
def empty : ActionSet K := ⟨∅, by simp⟩

instance : EmptyCollection (ActionSet K) := ⟨empty⟩

/-- The set with one more action, which takes the place of one of the same name. -/
def insert (set : ActionSet K) (a : NetworkAction K) : ActionSet K where
  table := set.table.insert a.id a
  named id b h := by
    rw [Std.ExtTreeMap.getElem?_insert] at h
    split at h
    · next same =>
      obtain rfl := Option.some.inj h
      exact Std.LawfulEqCmp.eq_of_compare same
    · exact set.named id b h

/-- The set of some actions; of two with one name the later stays. -/
def ofList (actions : List (NetworkAction K)) : ActionSet K := actions.foldl insert ∅

/-- Whether a set has no action. -/
def isEmpty (set : ActionSet K) : Bool := set.table.isEmpty

/-- The number of actions. -/
def size (set : ActionSet K) : Nat := set.table.size

/-- Whether a set has an action of a name. -/
def contains (set : ActionSet K) (id : String) : Bool := set.table.contains id

/-- The actions in the order of their names. -/
def actions (set : ActionSet K) : List (NetworkAction K) := set.table.toList.map Prod.snd

/-- The names in order. -/
def ids (set : ActionSet K) : List String := set.actions.map NetworkAction.id

/-- The actions of both sets; of two with one name the one of the second set stays. -/
def union (first second : ActionSet K) : ActionSet K := second.actions.foldl insert first

/-- The operators of some actions. -/
def operators (set : ActionSet K) : NameSet :=
  NameSet.ofNames (set.actions.filterMap NetworkAction.operator)

/-- The number of actions of an operator. -/
def countOf (set : ActionSet K) (operator : String) : Nat :=
  (set.actions.filter (·.belongsTo operator)).length

/-- The number of elementary actions of an operator. -/
def sizeOf (set : ActionSet K) (operator : String) : Nat :=
  NetworkAction.totalSize (set.actions.filter (·.belongsTo operator))

end ActionSet

end GridRelief
