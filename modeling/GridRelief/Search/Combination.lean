import GridRelief.Checksum
import GridRelief.Perimeter

/-!
# Combinations of network actions

The search tries network actions in combinations. A combination is told from others by its set of
actions alone. Where it comes from matters only for its priority: combinations found worth trying
before come first, then those named by the user, then larger ones, and a check value of the names
settles the rest.

## Main definitions

* `Combination K`: actions that are tried together.
* `Combination.priority`: which of two combinations is tried first.
* `Combination.resolve`: the combinations that some lists of names stand for.
-/

namespace GridRelief

variable {K : Type}

/-- Where a combination comes from. -/
inductive Origin where
  /-- It is a single action of the perimeter. -/
  | plain
  /-- The user has named it. -/
  | predefined
  /-- An earlier optimisation has found it worth trying. -/
  | detected
  deriving DecidableEq, Repr

/-- Network actions that are tried together. -/
structure Combination (K : Type) where
  actions : ActionSet K
  origin : Origin := .plain

namespace Combination

/-- The combination of some actions. -/
def ofList (actions : List (NetworkAction K)) (origin : Origin) : Combination K :=
  ⟨.ofList actions, origin⟩

/-- The combination of one action. -/
def single (action : NetworkAction K) : Combination K := ofList [action] .plain

/-- The names of the actions in order. -/
def ids (c : Combination K) : List String := c.actions.ids

/-- The name of a combination. -/
def id (c : Combination K) : String := " + ".intercalate c.ids

/-- The number of actions. -/
def size (c : Combination K) : Nat := c.actions.size

/-- Whether a combination has no action. -/
def isEmpty (c : Combination K) : Bool := c.actions.isEmpty

/-- The operators of the actions. -/
def operators (c : Combination K) : List String := c.actions.operators.toList

/-- Whether an action is in a combination. -/
def contains (c : Combination K) (action : NetworkAction K) : Bool := c.actions.contains action.id

/-- The number of elementary actions. -/
def elementarySize (c : Combination K) : Nat := NetworkAction.totalSize c.actions.actions

/-- Whether an earlier optimisation has found a combination. -/
def isDetected (c : Combination K) : Bool := c.origin == .detected

/-- Whether a combination is named by the user or found before. -/
def isPredefined (c : Combination K) : Bool := c.origin != .plain

/-- The check value of the name. -/
def checksum (c : Combination K) : Int := Checksum.signed c.id

/-- Whether two combinations have the same actions. -/
def same (a b : Combination K) : Bool := a.ids == b.ids

/-- The order of combinations by their actions. -/
def order (a b : Combination K) : Ordering := compare a.ids b.ids

/-- Which of two combinations is tried first. -/
def priority (a b : Combination K) : Ordering :=
  (compare b.isDetected a.isDetected).then <|
    (compare b.isPredefined a.isPredefined).then <|
      (compare b.size a.size).then <|
        (compare a.checksum b.checksum).then (compare a.id b.id)

/-- The actions of a perimeter that some names stand for. -/
def resolveIds (perimeter : Perimeter K) (ids : List String) :
    Except (Fault K) (List (NetworkAction K)) :=
  ids.mapM fun id =>
    match perimeter.networkAction? id with
    | some action => .ok action
    | none => .error (.unknownNetworkAction id)

/-- The combinations that some lists of names stand for. -/
def resolve (perimeter : Perimeter K) (lists : List (List String)) :
    Except (Fault K) (List (Combination K)) :=
  lists.mapM fun ids => return ofList (← resolveIds perimeter ids) .predefined

end Combination

end GridRelief
