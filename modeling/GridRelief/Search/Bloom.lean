import GridRelief.Search.RelevanceFilter
import GridRelief.Search.UsageFilter

/-!
# The candidates of a leaf

A leaf blooms into candidates: the combinations found before or named by the user whose actions
are all at hand, and each single action, as far as all filters keep them.

## Main definitions

* `Bloom K`: the combinations and the filters.
* `Bloom.ofParameters`: the filters that the parameters of a search ask for.
* `Bloom.candidates`: the candidates of a leaf.
-/

namespace GridRelief

variable {K N : Type} [Scalar K] [Network N K]

/-- What the candidates of a leaf are made of. -/
structure Bloom (K : Type) where
  /-- The combinations found before or named by the user. -/
  predefined : List (Combination K)
  filters : List (Filter K)

namespace Bloom

/-- The filters that the parameters of a search ask for. -/
def filtersOf (s : Situation N K) (predefined : List (Combination K)) (p : Parameters K) :
    List (Filter K) :=
  [RelevanceFilter.notApplied,
    RelevanceFilter.notTested predefined,
    UsageFilter.maxRa p.limits.maxRa,
    UsageFilter.maxRaPerTso s.perimeter p.limits.maxRaPerTso p.limits.maxTopoPerTso,
    UsageFilter.maxTso s.perimeter p.limits.maxTso]
  ++ (if p.tree.skipFarActions then [RelevanceFilter.near s p.tree.maxBorders] else [])
  ++ [UsageFilter.maxElementary s.perimeter s.setpoints p.limits.maxElementaryPerTso,
    RelevanceFilter.compatible,
    RelevanceFilter.usable s p.objective.unit,
    RelevanceFilter.effective s]

/-- The combinations and filters of a search. -/
def ofParameters (s : Situation N K) (predefined : List (Combination K)) (p : Parameters K) :
    Bloom K :=
  ⟨predefined, filtersOf s predefined p⟩

/-- Whether all actions of a combination are at hand. -/
def isAtHand (available : List (NetworkAction K)) (c : Combination K) : Bool :=
  c.ids.all fun id => available.any (·.id == id)

/-- The combinations that some actions allow. -/
def offered (b : Bloom K) (available : List (NetworkAction K)) : List (Combination K) :=
  b.predefined.filter (isAtHand available) ++ available.map Combination.single

/-- The candidates of a leaf. -/
def candidates (b : Bloom K) (leaf : LeafResult K) (available : List (NetworkAction K)) :
    List (Candidate K) :=
  Filter.applyAll b.filters leaf (Candidate.ofList ((b.offered available).map (⟨·, false⟩)))

/-- Whether a combination is one of those found before or named by the user. -/
def hasPredefined (b : Bloom K) (c : Combination K) : Bool := b.predefined.any (·.same c)

end Bloom

end GridRelief
