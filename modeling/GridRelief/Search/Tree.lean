import GridRelief.Search.Shift

/-!
# The search tree

The search starts with the root, which uses no network action. Each depth tries combinations on
top of the best leaf so far. The search ends when a depth brings no improvement, when the best
leaf reaches the stop criterion, or at the greatest depth.

## Main definitions

* `Search.ofSituation`: a search with checked parameters.
* `Search.run`: the best leaf, and the depth at which it was found.
-/

namespace GridRelief

variable {K N σ : Type} [Scalar K] [Network N K]

/-- What a search ends with. -/
structure SearchResult (K : Type) where
  leaf : FinalizedLeaf K
  /-- The depth at which the leaf was found, zero for the root. -/
  depth : Nat

namespace Search

/-- A search from a situation; parameters that are not usable are refused, and so are names of
actions that the perimeter does not have. -/
def ofSituation (situation : Situation N K) (parameters : Parameters K) :
    Except (Fault K) (Search N K) := do
  parameters.validate
  let named ← Combination.resolve situation.perimeter parameters.tree.predefinedCombinations
  return { situation, parameters, predefined := situation.detected ++ named }

/-- Explore at most so many further depths. -/
def iterate (s : Search N K) (services : Services N K σ) : Nat → Shift N K → StateM σ (Shift N K)
  | 0, shift => return shift
  | depths + 1, shift => do
    if s.criteria.reachesStop shift.crew.best.leaf then return shift
    else
      let next ← s.explore services shift
      let best := next.crew.best
      if best.depth = best.epoch then s.iterate services depths next else return next

/-- Explore depths from a root on. -/
def grow (s : Search N K) (services : Services N K σ) (root : FinalizedLeaf K) :
    StateM σ (SearchResult K) := do
  let shift ← s.iterate services s.parameters.tree.maxDepth { crew := { best := { leaf := root } } }
  return ⟨shift.crew.best.leaf, shift.crew.best.depth⟩

/-- The root, evaluated, and optimised unless it failed or reaches the stop criterion. -/
def root (s : Search N K) (services : Services N K σ) : StateM σ (Leaf N K) := do
  let leaf ← (Leaf.root s.situation).evaluate services s.situation.objective
  if leaf.status = .failed || s.stopsAt leaf then return leaf
  else
    let (leaf, _) ← leaf.optimize services s.situation s.parameters
    return leaf

/-- The best leaf, and the depth at which it was found. -/
def run (s : Search N K) (services : Services N K σ) : StateM σ (SearchResult K) := do
  let root ← s.root services
  if root.status = .failed || s.stopsAt root then return ⟨root.finalize, 0⟩
  else s.grow services root.finalize

end Search

end GridRelief
