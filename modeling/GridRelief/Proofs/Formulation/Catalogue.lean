import GridRelief.Formulation
import GridRelief.Proofs.Formulation.Contents

/-!
# What the problems of a formulation hold

The variables that the parts of a formulation may write, the terms of flow rows and of rows of the
smallest margin, and the prices in the objective are listed once. Of the other rows it is only said
that they have no term of the smallest margin.

* `Formulation.Column`, `Formulation.Term`, `Formulation.Price`: the lists.
* `Formulation.contents`: what a problem of a formulation may hold.
* `Formulation.covers_addRow` and its likes: the rules of work on rows of which little is said.
-/

namespace GridRelief

open LinearProblem Writing

variable {K : Type} [Scalar K]

/-! ### The lists -/

/-- A bound that is a number, moved any number of times. -/
inductive Bound.IsNumeric : Bound K → Prop
  | ofScalar (a : K) : IsNumeric (.ofScalar a)
  | shift {b : Bound K} (h : IsNumeric b) (distance : K) : IsNumeric (b.shift distance)

/-- The threshold of an element on a side. -/
def Cnec.threshold? (c : Cnec K) : ThresholdSide → Option K
  | .below => c.lower
  | .above => c.upper

/-- The rows that are neither flows nor bounds of the smallest margin. -/
def RowKey.IsPlain : RowKey → Prop
  | .flow _ | .minimumMargin _ _ => False
  | _ => True

namespace Formulation

/-- The variables that a formulation may write. -/
inductive Column (f : Formulation K) : Variable K → Prop
  | setpoint {r : RangeAction K} (hr : r ∈ f.perimeter.rangeActions) :
    Column f ⟨.setpoint r.id, .ofScalar r.min, .ofScalar r.max, .continuous⟩
  | distance (id : String) : Column f ⟨.absoluteVariation id, .finite 0, .posInf, .continuous⟩
  | flow (id : String) : Column f ⟨.flow id, .negInf, .posInf, .continuous⟩
  | moves (h : f.byTaps = true) (id : String) (direction : TapDirection) (room : K) :
    Column f ⟨.tapVariation id direction, .finite 0, .finite room, .integer⟩
  | moving (h : f.byTaps = true) (id : String) (direction : TapDirection) :
    Column f ⟨.tapVariationBinary id direction, .finite 0, .finite 1, .binary⟩
  | margin (h : f.parameters.objective.kind.isRelative = false) :
    Column f ⟨.minimumMargin, .negInf, .posInf, .continuous⟩
  | overload (h : f.parameters.objective.kind.isRelative = true) :
    Column f ⟨.minimumMargin, .negInf, .finite 0, .continuous⟩
  | relativeMargin (largest : K) :
    Column f ⟨.minimumRelativeMargin, .negInf, .ofScalar largest, .continuous⟩
  | counts (h : f.parameters.unoptimized.isActive = true) (id : String) :
    Column f ⟨.optimizeCnec id, .finite 0, .finite 1, .binary⟩
  | excess (id : String) : Column f ⟨.mnecViolation id, .finite 0, .posInf, .continuous⟩
  | loopFlowExcess (id : String) :
    Column f ⟨.loopFlowViolation id, .finite 0, .posInf, .continuous⟩
  | used (h : f.budget.isSome = true) (id : String) :
    Column f ⟨.variation id, .finite 0, .finite 1, .binary⟩
  | involved (operator : String) :
    Column f ⟨.operatorUsed operator, .finite 0, .finite 1, .continuous⟩
  | tapDistance (id : String) : Column f ⟨.tapDistance id, .finite 0, .posInf, .continuous⟩

/-- The terms that the rows of a formulation may have. -/
inductive Term (f : Formulation K) : RowKey → VariableKey → K → Prop
  | flow (id : String) : Term f (.flow id) (.flow id) 1
  | response (id r : String) (sensitivity : K) : Term f (.flow id) (.setpoint r) sensitivity
  | flowOfMargin (id : String) (side : ThresholdSide) (factor : K) :
    Term f (.minimumMargin id side) (.flow id) factor
  | margin {c : Cnec K} {side : ThresholdSide} (hc : c ∈ f.perimeter.optimizedCnecs)
    (hside : (c.threshold? side).isSome = true) :
    Term f (.minimumMargin c.id side) .minimumMargin (1 / c.conversion f.unit)
  | slack (id : String) (side : ThresholdSide) (factor : K) :
    Term f (.minimumMargin id side) (.optimizeCnec id) factor
  | plain {row : RowKey} {key : VariableKey} (hrow : row.IsPlain) (hkey : key ≠ .minimumMargin)
    (factor : K) : Term f row key factor

/-- The prices that the objective of a formulation may have. -/
inductive Price (f : Formulation K) : VariableKey → K → Prop
  | distance (r : RangeAction K) :
    Price f (.absoluteVariation r.id) (f.parameters.optimizer.penalty r)
  | excess {p : MnecParameters K} (hp : f.parameters.mnec = some p) {c : Cnec K}
    (hc : c ∈ f.perimeter.cnecs) :
    Price f (.mnecViolation c.id) (p.violationCost * c.conversion f.unit)
  | loopFlowExcess {p : LoopFlowParameters K} (hp : f.parameters.loopFlow = some p)
    (id : String) : Price f (.loopFlowViolation id) p.violationCost
  | margin : Price f .minimumMargin (-1)
  | relativeMargin : Price f .minimumRelativeMargin (-1)

/-- What a problem of a formulation may hold. -/
def contents (f : Formulation K) : Contents K where
  column := f.Column
  lower key b := ∀ id, key = .flow id → b.IsNumeric
  upper key b := ¬key.IsPlain → b.IsNumeric
  upper_shift h distance hkey := (h hkey).shift distance
  term := f.Term
  lead
    | .flow id => some (.flow id)
    | .minimumMargin _ _ => some .minimumMargin
    | _ => none
  price := f.Price

variable {f : Formulation K} {last : LinearProblem K} {C : Prop} {v w : VariableId}
  {rowKey : RowKey} {key : VariableKey} {lower upper : Bound K} {terms : List (VariableId × K)}

/-! ### Plain rows -/

/-- The variable of a place is not the smallest margin. -/
def Spares (last : LinearProblem K) (v : VariableId) : Prop :=
  ∃ key, last.NamesVariable v key ∧ key ≠ .minimumMargin

omit [Scalar K] in
theorem spares_of_mem_pair {a b : K} (hv : Spares last v) (hw : Spares last w) :
    ∀ term ∈ [(v, a), (w, b)], Spares last term.1 :=
  List.forall_mem_cons.mpr ⟨hv, List.forall_mem_singleton.mpr hw⟩

theorem term_of_spares (hrow : rowKey.IsPlain) (h : Spares last v) (factor : K) :
    ∃ key, last.NamesVariable v key ∧ f.contents.term rowKey key factor := by
  obtain ⟨key, hv, hkey⟩ := h
  exact ⟨key, hv, .plain hrow hkey factor⟩

theorem lower_of_isPlain (hrow : rowKey.IsPlain) : f.contents.lower rowKey lower := by
  rintro id rfl
  exact hrow.elim

theorem upper_of_isPlain (hrow : rowKey.IsPlain) : f.contents.upper rowKey upper :=
  fun h => absurd hrow h

theorem lead_of_isPlain (hrow : rowKey.IsPlain) : f.contents.lead rowKey ≠ some key := by
  cases rowKey with
  | flow | minimumMargin => exact hrow.elim
  | _ => exact nofun

/-- A plain row may have any bounds and any terms but one of the smallest margin. -/
theorem admits_of_spares (hrow : rowKey.IsPlain) (h : ∀ term ∈ terms, Spares last term.1) :
    f.contents.Admits last ⟨rowKey, lower, upper, .ofTerms terms⟩ :=
  Contents.admits_ofTerms (lower_of_isPlain hrow) (upper_of_isPlain hrow)
    (fun term hterm => term_of_spares hrow (h term hterm) term.2)
    fun _ hkey => absurd hkey (lead_of_isPlain hrow)

theorem covers_addRow (hrow : rowKey.IsPlain) (h : C → ∀ term ∈ terms, Spares last term.1) :
    f.contents.Covers last C (addRow rowKey lower upper terms) fun i => last.NamesRow i rowKey :=
  .addRow fun hc => admits_of_spares hrow (h hc)

theorem covers_putRow (hrow : rowKey.IsPlain) (h : C → ∀ term ∈ terms, Spares last term.1) :
    f.contents.Covers last C (putRow rowKey lower upper terms) fun _ => True :=
  .putRow (fun _ => lower_of_isPlain hrow) (fun _ => upper_of_isPlain hrow)
    (fun hc term hterm => term_of_spares hrow (h hc term hterm) term.2)
    fun _ hkey => absurd hkey (lead_of_isPlain hrow)

theorem covers_setCoefficient {i : RowId} {c : K} (hi : C → last.NamesRow i rowKey)
    (hv : C → Spares last v) (hrow : rowKey.IsPlain) :
    f.contents.Covers last C (setCoefficient i v c) fun _ => True :=
  .setCoefficient hi fun h => term_of_spares hrow (hv h) c

theorem covers_setRowBounds {i : RowId} (hi : C → last.NamesRow i rowKey) (hrow : rowKey.IsPlain) :
    f.contents.Covers last C (setRowBounds i lower upper) fun _ => True :=
  .setRowBounds hi (fun _ => lower_of_isPlain hrow) fun _ => upper_of_isPlain hrow

end Formulation

end GridRelief
