import GridRelief.Formulation.Writing

/-!
# Limits on the use of range actions

A binary variable of a range action says whether its set-point moves away from the one before the
optimisation. Limits on numbers of range actions are limits on sums of these variables; an
operator is involved as far as one of its range actions is. The elementary actions of an operator
are the taps that its phase shifters have moved since before the optimisation.

## Main definitions

* `UsageBudget`: what a leaf's range actions may still use.
* `Usage K`: what the limits are written from.
* `Usage.part`: the part that writes them.
-/

namespace GridRelief

variable {K : Type} [Scalar K]

/-- What range actions may still use once network actions have been counted; what is not named is
not limited. -/
structure UsageBudget where
  /-- The number of range actions. -/
  maxRa : Option Nat := none
  /-- The number of further operators. -/
  maxTso : Option Nat := none
  /-- The operators that are involved already. -/
  involved : NameSet := ∅
  /-- The number of range actions of an operator. -/
  maxRaPerTso : Table Nat := ∅
  /-- The number of phase shifters of an operator. -/
  maxPstPerTso : Table Nat := ∅
  /-- The number of taps that an operator's phase shifters may move. -/
  maxElementaryPerTso : Table Nat := ∅
  deriving BEq

/-- Whether something is limited. -/
def UsageBudget.isLimited (b : UsageBudget) : Bool :=
  b.maxRa.isSome || b.maxTso.isSome || !b.maxRaPerTso.isEmpty || !b.maxPstPerTso.isEmpty ||
    !b.maxElementaryPerTso.isEmpty

/-- What the limits are written from. -/
structure Usage (K : Type) where
  rangeActions : List (RangeAction K)
  /-- The set-points before the optimisation. -/
  initial : Setpoints K
  budget : UsageBudget
  /-- Whether set-points of phase shifters follow tap moves. -/
  byTaps : Bool

namespace Usage

open Writing

/-- The range actions of an operator. -/
def ofOperator (u : Usage K) (operator : String) : List (RangeAction K) :=
  u.rangeActions.filter (·.operator == some operator)

/-- The phase shifters of an operator. -/
def shiftersOf (u : Usage K) (operator : String) : List (RangeAction K) :=
  (u.ofOperator operator).filter RangeAction.isPst

/-! ### Which range actions move -/

/-- A set-point that is closer than this has not moved. -/
def tolerance : K := Scalar.ofDecimal 1 4

/-- The number of taps from the lowest to the highest of a table, if there are several. -/
def span? (taps : TapTable K) : Option Int :=
  match taps.minKey?, taps.maxKey? with
  | some lowest, some highest => if lowest < highest then some (highest - lowest) else none
  | _, _ => none

/-- The mean absolute change of the angle with the tap over a whole table. -/
def meanStep? (taps : TapTable K) : Option K :=
  (span? taps).map fun span =>
    let (low, high) := RangeAction.angleRange taps
    Scalar.abs ((high - low) / Scalar.ofInt span)

/-- How far a set-point may be from the one before the optimisation without having moved. The
angles that tap moves reach are near those of the table only, so a phase shifter that follows tap
moves is given a part of a mean step. -/
def slack (u : Usage K) (r : RangeAction K) : K :=
  match if u.byTaps then r.taps?.bind meanStep? else none with
  | some step => Scalar.ofDecimal 3 1 * step
  | none => tolerance

/-- A mean step is calculated from the span of the table. -/
def checkSpan (u : Usage K) (r : RangeAction K) : Except (Fault K) Unit :=
  match if u.byTaps then r.taps?.bind span? else none with
  | some span => (RangeAction.tapNumber span).map fun _ => ()
  | none => .ok ()

/-- Write whether a range action moves. -/
def writeMoves (u : Usage K) (r : RangeAction K) : Writing K Unit := do
  let moves ← addBinary (.variation r.id)
  let distance ← requireVariable (.absoluteVariation r.id)
  ofExcept (u.checkSpan r)
  let _ ← addRow (.variation r.id) .negInf (.ofScalar (u.slack r))
    [(distance, 1), (moves, -(r.max + tolerance - r.min))]

/-- Write a limit on the number of range actions that move. -/
def writeCount (key : RowKey) (limit : Nat) (rangeActions : List (RangeAction K)) :
    Writing K Unit := do
  let row ← addRow key (.finite 0) (.finite (Scalar.ofInt limit)) []
  rangeActions.forM fun r => do setCoefficient row (← requireVariable (.variation r.id)) 1

/-! ### Numbers of range actions and operators -/

/-- Limit the number of range actions. -/
def writeMaxRa (u : Usage K) (limit : Nat) : Writing K Unit :=
  if limit < u.rangeActions.length then writeCount .maxRa limit u.rangeActions else pure ()

/-- The operators of range actions that are not involved yet. -/
def furtherOperators (u : Usage K) : List String :=
  (NameSet.ofNames ((u.rangeActions.filterMap RangeAction.operator).filter fun operator =>
    !u.budget.involved.contains operator)).toList

/-- Write whether an operator is involved: at least as far as each of its range actions moves. -/
def writeOperator (u : Usage K) (row : RowId) (operator : String) : Writing K Unit := do
  let used ← addVariable (.operatorUsed operator) (.finite 0) (.finite 1) .continuous
  setCoefficient row used 1
  (u.ofOperator operator).forM fun r => do
    let moves ← requireVariable (.variation r.id)
    let _ ← addRow (.operatorUsed operator r.id) (.finite 0) .posInf [(used, 1), (moves, -1)]

/-- Limit the number of further operators. -/
def writeMaxTso (u : Usage K) (limit : Nat) : Writing K Unit := do
  if limit < u.furtherOperators.length then
    let row ← addRow .maxTso (.finite 0) (.finite (Scalar.ofInt limit)) []
    u.furtherOperators.forM (u.writeOperator row)

/-! ### Elementary actions -/

/-- How many taps a phase shifter is above its tap before the optimisation; the rows need this
number and its opposite. -/
def tapOffset (u : Usage K) (activation : Activation K) (r : RangeAction K) :
    Except (Fault K) Int := do
  let initial ← u.initial.tap r
  let present ← activation.tap r
  let _ ← RangeAction.tapNumber (K := K) (initial - present)
  RangeAction.tapNumber (present - initial)

/-- Count the taps that a phase shifter has moved, if it follows tap moves. -/
def writeTapDistance (u : Usage K) (activation : Activation K) (row : RowId)
    (r : RangeAction K) : Writing K Unit := do
  let some up ← variableId? (.tapVariation r.id .upward) | return
  let some down ← variableId? (.tapVariation r.id .downward) | return
  let offset ← ofExcept (u.tapOffset activation r)
  let moved ← addVariable (.tapDistance r.id) (.finite 0) .posInf .continuous
  let _ ← addRow (.tapDistance r.id .positive) (.finite (Scalar.ofInt offset)) .posInf
    [(moved, 1), (up, -1), (down, 1)]
  let _ ← addRow (.tapDistance r.id .negative) (.finite (Scalar.ofInt (-offset))) .posInf
    [(moved, 1), (up, 1), (down, -1)]
  setCoefficient row moved 1

/-- Limit the number of elementary actions of an operator. -/
def writeMaxElementary (u : Usage K) (activation : Activation K) (operator : String)
    (limit : Nat) : Writing K Unit := do
  let row ← addRow (.maxElementaryActionsPerTso operator) (.finite 0)
    (.finite (Scalar.ofInt limit)) []
  (u.shiftersOf operator).forM (u.writeTapDistance activation row)

/-- Adapt the count of a phase shifter's taps to its present tap. -/
def adaptTapDistance (u : Usage K) (activation : Activation K) (r : RangeAction K) :
    Writing K Unit := do
  let some positive ← rowId? (.tapDistance r.id .positive) | return
  let some negative ← rowId? (.tapDistance r.id .negative) | return
  let offset ← ofExcept (u.tapOffset activation r)
  modify (·.setRowLower positive (.finite (Scalar.ofInt offset)))
  modify (·.setRowLower negative (.finite (Scalar.ofInt (-offset))))

/-- Adapt the counts of elementary actions to the present taps. -/
def adapt (u : Usage K) (activation : Activation K) : Writing K Unit :=
  u.budget.maxElementaryPerTso.toList.forM fun entry =>
    (u.shiftersOf entry.1).forM (u.adaptTapDistance activation)

/-! ### The part -/

/-- Write all limits of a budget. -/
def write (u : Usage K) (activation : Activation K) : Writing K Unit := do
  u.rangeActions.forM u.writeMoves
  u.budget.maxRa.forM u.writeMaxRa
  u.budget.maxTso.forM u.writeMaxTso
  u.budget.maxRaPerTso.toList.forM fun entry =>
    writeCount (.maxRaPerTso entry.1) entry.2 (u.ofOperator entry.1)
  u.budget.maxPstPerTso.toList.forM fun entry =>
    writeCount (.maxPstPerTso entry.1) entry.2 (u.shiftersOf entry.1)
  u.budget.maxElementaryPerTso.toList.forM fun entry =>
    u.writeMaxElementary activation entry.1 entry.2

/-- The limits of a budget as a part of a linear problem. -/
def part (u : Usage K) : Part K where
  name := "ra-usage-limits"
  fill point := if u.budget.isLimited then u.write point.activation else pure ()
  refresh point _ := u.adapt point.activation
  adjust := u.adapt

end Usage

end GridRelief
