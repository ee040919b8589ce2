import GridRelief.Search.LeafResult
import GridRelief.Search.Combination

/-!
# Candidates

The candidates of a leaf are the combinations that may be tried on top of it. A filter judges each
combination by itself: it rejects it, keeps it, or keeps it on the condition that the range actions
go back to where they were before any action.

## Main definitions

* `Candidate K`: a combination, and whether range actions go back.
* `insertCandidate`: candidates are listed in the order of their actions, each set of actions once.
* `Candidate.byPriority`: the order in which they are tried.
* `Filter K`: the judgement of a filter, given what the leaf reached.
-/

namespace GridRelief

variable {K : Type}

/-- A combination that may be tried. -/
structure Candidate (K : Type) where
  combination : Combination K
  /-- Whether range actions go back to their set-points before any action. -/
  dropsRangeActions : Bool := false

/-- Insert a candidate into a list in the order of the sets of actions. Of two combinations with
the same actions the first stays, and what is said of range actions is what was said last. -/
def insertCandidate (c : Candidate K) : List (Candidate K) → List (Candidate K)
  | [] => [c]
  | d :: rest =>
    match c.combination.order d.combination with
    | .lt => c :: d :: rest
    | .eq => { d with dropsRangeActions := c.dropsRangeActions } :: rest
    | .gt => d :: insertCandidate c rest

/-- The candidates of a list, each set of actions once. -/
def Candidate.ofList (candidates : List (Candidate K)) : List (Candidate K) :=
  candidates.foldl (fun list c => insertCandidate c list) []

/-- Insert a candidate into a list in the order of priority, before those of equal priority. -/
def insertByPriority (c : Candidate K) : List (Candidate K) → List (Candidate K)
  | [] => [c]
  | d :: rest =>
    if (c.combination.priority d.combination).isLE then c :: d :: rest
    else d :: insertByPriority c rest

/-- The candidates of a list in the order of priority, those of equal priority as they come. -/
def Candidate.byPriority (candidates : List (Candidate K)) : List (Candidate K) :=
  candidates.foldr insertByPriority []

/-- The judgement of a filter on a combination. -/
inductive Verdict where
  | reject
  | keep
  /-- It may be tried if range actions go back. -/
  | keepWithoutRangeActions
  deriving DecidableEq, Repr

namespace Verdict

/-- Keep under a condition, and without range actions under another. -/
def of (kept dropped : Bool) : Verdict :=
  if !kept then .reject else if dropped then .keepWithoutRangeActions else .keep

end Verdict

/-- A filter of candidates. -/
structure Filter (K : Type) where
  name : String
  /-- The judgement on a combination, given what the leaf reached. -/
  judge : LeafResult K → Combination K → Verdict

namespace Filter

/-- A filter that keeps combinations under a condition. -/
def keeping (name : String) (keeps : LeafResult K → Combination K → Bool) : Filter K :=
  ⟨name, fun leaf c => .of (keeps leaf c) false⟩

/-- A candidate after a judgement; range actions that go back stay back. -/
def revise (f : Filter K) (leaf : LeafResult K) (c : Candidate K) : Option (Candidate K) :=
  match f.judge leaf c.combination with
  | .reject => none
  | .keep => some c
  | .keepWithoutRangeActions => some { c with dropsRangeActions := true }

/-- The candidates that a filter keeps. -/
def apply (f : Filter K) (leaf : LeafResult K) (candidates : List (Candidate K)) :
    List (Candidate K) :=
  candidates.filterMap (f.revise leaf)

/-- The candidates that all filters keep, applied one after the other. -/
def applyAll (filters : List (Filter K)) (leaf : LeafResult K) (candidates : List (Candidate K)) :
    List (Candidate K) :=
  filters.foldl (fun kept f => f.apply leaf kept) candidates

end Filter

end GridRelief
