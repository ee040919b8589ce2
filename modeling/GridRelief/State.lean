/-!
# Instants and states

A situation of the grid is looked at in a state: an instant of the security process, before any
contingency or after one.

## Main definitions

* `InstantKind`, `Instant`: the steps of the process in chronological order.
* `State`: an instant, after a contingency if one is named.
-/

namespace GridRelief

/-- The kinds of instants, in chronological order. -/
inductive InstantKind where
  /-- Before any contingency. -/
  | preventive
  /-- Right after a contingency. -/
  | outage
  /-- After the automatons have acted. -/
  | auto
  /-- After the operators have acted. -/
  | curative
  deriving DecidableEq, Repr, Ord

/-- The name of a kind of instants. -/
def InstantKind.name : InstantKind → String
  | .preventive => "preventive"
  | .outage => "outage"
  | .auto => "auto"
  | .curative => "curative"

/-- All kinds of instants. -/
def InstantKind.all : List InstantKind := [.preventive, .outage, .auto, .curative]

/-- A named instant with its place in time; instants compare by place, name and kind. -/
structure Instant where
  order : Nat
  id : String
  kind : InstantKind
  deriving DecidableEq, Repr, Ord

namespace Instant

/-- The usual instant before any contingency. -/
def preventive : Instant := ⟨0, "preventive", .preventive⟩

/-- The usual instant right after a contingency. -/
def outage : Instant := ⟨1, "outage", .outage⟩

/-- The usual instant after the operators have acted. -/
def curative : Instant := ⟨3, "curative", .curative⟩

/-- Whether an instant is of the preventive kind. -/
def isPreventive (i : Instant) : Bool := i.kind == .preventive

/-- Whether an instant is of the curative kind. -/
def isCurative (i : Instant) : Bool := i.kind == .curative

/-- Whether an instant has an earlier place than another. -/
def comesBefore (i j : Instant) : Bool := i.order < j.order

end Instant

/-- An instant, after a contingency if one is named. -/
structure State where
  instant : Instant
  contingency : Option String
  deriving DecidableEq, Repr

namespace State

/-- The state before any contingency. -/
def preventive : State := ⟨.preventive, none⟩

/-- Whether no contingency has happened. -/
def isPreventive (s : State) : Bool := s.contingency.isNone

/-- The name of a state: its contingency, if any, and its instant. -/
def id (s : State) : String :=
  match s.contingency with
  | some contingency => contingency ++ " - " ++ s.instant.id
  | none => s.instant.id

/-- How two states compare: by instant, then with no contingency first, then by its name. -/
def order (s t : State) : Ordering :=
  (compare s.instant t.instant).then <|
    match s.contingency, t.contingency with
    | none, none => .eq
    | none, some _ => .lt
    | some _, none => .gt
    | some a, some b => compare a b

end State

end GridRelief
