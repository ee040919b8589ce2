import GridRelief.Scalar
import GridRelief.Table

/-!
# Costs

The cost of a situation has a functional part, which the optimisation is about, and virtual parts,
which penalise what it should avoid.

## Main definitions

* `Cost K`: the parts of a cost, and the elements behind them.
* `Cost.total`: the functional part plus all virtual parts.
-/

namespace GridRelief

/-- The cost of a situation. -/
structure Cost (K : Type) where
  functional : K
  /-- The virtual parts by name. -/
  virtualParts : Table K := ∅
  /-- The elements that count for the functional part, the most limiting first. -/
  limiting : List String := []
  /-- The elements behind each virtual part, the most costly first. -/
  costly : Table (List String) := ∅
  deriving BEq

namespace Cost

variable {K : Type} [Scalar K]

/-- The sum of the virtual parts. -/
def virtual (c : Cost K) : K := Scalar.sum (c.virtualParts.toList.map Prod.snd)

/-- One virtual part, zero if there is none of that name. -/
def virtualPart (c : Cost K) (name : String) : K := c.virtualParts[name]?.getD 0

/-- The functional part plus all virtual parts. -/
def total (c : Cost K) : K := c.functional + c.virtual

/-- The first elements that count for the functional part. -/
def mostLimiting (c : Cost K) (count : Nat) : List String := c.limiting.take count

/-- The first elements behind a virtual part. -/
def mostCostly (c : Cost K) (name : String) (count : Nat) : List String :=
  (c.costly[name]?.getD []).take count

end Cost

end GridRelief
