import GridRelief.Proofs.Exact
import GridRelief.LinearNetwork
import GridRelief.Proofs.Search.Prospect
import GridRelief.Search.Tree

/-!
# A grid with two switches

A small search on which statements about the tasks of a depth can be evaluated. A line carries
500 MW and an element that is monitored carries 100 MW. Opening either of two switches takes load
off the line; opening the first one may put load on the monitored element. The services keep no
state, so what a candidate comes to is settled.

* `TwoSwitches.search`: the search, for any effects of the switches and any stop criterion.
* `TwoSwitches.settles`: what its candidates come to is settled.
* `TwoSwitches.limitedSearch`: a search of two depths with limits on use, where one operator owns
  both switches.
-/

namespace GridRelief

/-- Services that are always found in the same state settle what every candidate comes to. -/
theorem Search.settles_of_subsingleton {K N σ : Type} [Scalar K] [Network N K] [Subsingleton σ]
    (s : Search N K) (services : Services N K σ) (task : Task K) (state : σ) :
    s.Settles services task (s.attempt services task state state) := by
  intro a b
  rw [Subsingleton.elim a state, Subsingleton.elim b state]

namespace TwoSwitches

/-- The grid: what opening the first switch takes off the line and puts on the monitored element,
and what opening the second switch takes off the line. -/
def network (first side second : ℚ) : LinearNetwork ℚ :=
  ({ id := "grid" } : LinearNetwork ℚ)
    |>.withBaseFlow "line" 500
    |>.withBaseFlow "side" 100
    |>.withSwitchable "first"
    |>.withOpeningEffect "first" "line" (-first)
    |>.withOpeningEffect "first" "side" side
    |>.withSwitchable "second"
    |>.withOpeningEffect "second" "line" (-second)

/-- The line, which may carry 800 MW. -/
def line : Cnec ℚ :=
  { id := "line", element := "line", lower := some (-800), upper := some 800, voltage := 400 }

/-- The element that is monitored, which may carry 110 MW. -/
def side : Cnec ℚ :=
  { id := "side", element := "side", optimized := false, monitored := true
    lower := some (-110), upper := some 110, voltage := 400 }

/-- The action that opens a switch. -/
def opening (switch : String) : NetworkAction ℚ :=
  { id := "open-" ++ switch, parts := [.topology switch false] }

/-- The two elements and the two actions. -/
def perimeter : Perimeter ℚ :=
  .ofLists .preventive [line, side] [opening "first", opening "second"] []

/-- What computes the flows of the two elements. -/
def computer : LinearComputer ℚ := { cnecs := perimeter.cnecs, rangeActions := [] }

/-- Services that compute flows; there is nothing to solve. -/
def services : Services (LinearNetwork ℚ) ℚ Unit where
  compute network := return computer.compute network
  solve _ := return .failed
  clock _ := 0

/-- The worst margin as objective, with a cost of ten for each megawatt above the limit of the
monitored element. -/
def objective (grid : LinearNetwork ℚ) : MarginObjective ℚ :=
  { MarginObjective.ofPerimeter perimeter .megawatt with
    mnec := some ⟨(computer.compute grid).flows, 0, 10⟩ }

/-- The situation before any switch is opened. -/
def situation (grid : LinearNetwork ℚ) : Situation (LinearNetwork ℚ) ℚ where
  network := grid
  perimeter
  outcome := computer.compute grid
  setpoints := {}
  objective := (objective grid).evaluate
  borders := .empty
  detected := []

/-- The search with a stop criterion and a target. -/
def search (grid : LinearNetwork ℚ) (criterion : StopCriterion) (target : ℚ) :
    Search (LinearNetwork ℚ) ℚ where
  situation := situation grid
  parameters := { Parameters.default with objective := ⟨.minMargin, .megawatt, criterion, target⟩ }
  predefined := []

/-- The leaf on which no switch is open. -/
def root (s : Search (LinearNetwork ℚ) ℚ) : FinalizedLeaf ℚ :=
  ((s.root services).run ()).1.finalize

/-- Open the first switch, which an earlier optimisation has found worth trying. -/
def openFirst : Candidate ℚ := { combination := .ofList [opening "first"] .detected }

/-- Open the second switch. -/
def openSecond : Candidate ℚ := { combination := .single (opening "second") }

/-- What a candidate comes to on top of the leaf with no open switch. -/
def outcome (s : Search (LinearNetwork ℚ) ℚ) (candidate : Candidate ℚ) :
    Option (FinalizedLeaf ℚ) :=
  s.attempt services ⟨0, root s, candidate⟩ () ()

/-- The tasks of opening either switch after some turns. -/
def crewAfter (s : Search (LinearNetwork ℚ) ℚ) (turns : List (Turn Unit)) :
    Crew (LinearNetwork ℚ) ℚ :=
  s.crewAfter services { leaf := root s } [openFirst, openSecond] turns

/-- What every candidate comes to is settled. -/
theorem settles (s : Search (LinearNetwork ℚ) ℚ) (candidate : Candidate ℚ) :
    s.Settles services (Best.task { leaf := root s } candidate)
      (outcome s candidate) :=
  s.settles_of_subsingleton services _ ()

/-! ### Limits on use -/

/-- The action that opens a switch of the operator. -/
def ownedOpening (switch : String) : NetworkAction ℚ :=
  { opening switch with operator := some "owner" }

/-- The search with limits on use. An earlier optimisation has found the first switch worth trying,
so that it is tried before the second one. -/
def limitedSearch (limits : UsageLimits) : Search (LinearNetwork ℚ) ℚ :=
  let s := search (network 100 0 50) .minObjective 0
  { s with
    situation.perimeter := .ofLists .preventive [line, side]
      [ownedOpening "first", ownedOpening "second"] []
    parameters.limits := limits
    predefined := [.ofList [ownedOpening "first"] .detected] }

/-- Turns of two depths: both tasks of the first one come to their end, and the one that is left
for the second one takes all steps but the last. -/
def schedule : List (List (Turn Unit)) :=
  [Turn.oneByOne () [0, 1], List.replicate 7 ⟨2, ()⟩]

end TwoSwitches

end GridRelief
