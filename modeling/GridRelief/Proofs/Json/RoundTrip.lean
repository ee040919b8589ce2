import GridRelief.Proofs.Exact
import GridRelief.Proofs.Json.Reading
import GridRelief.Json.Domain

/-!
# Domain values read back

Every domain value whose numbers have a JSON form and whose integers fit their types is read back
from its JSON form as it was, with one exception: the taps of a phase shifter are the keys of a
map inside a tagged value. There they stay texts, which are not read as integers, so a phase
shifter is read back only if its table is empty.

* `State.fromJson?_toJson` and its like: a value of the type is read back.
* `RangeAction.fromJson?_toJson`: which range actions are read back.
-/

namespace GridRelief

variable {K : Type}

/-! ### States -/

/-- A list of texts is read back. -/
@[simp] theorem Json.list?_ofTexts (texts : List String) :
    list? text? (ofTexts (K := K) texts) = some texts :=
  list?_map fun _ _ => rfl

@[simp] theorem InstantKind.fromJson?_toJson (kind : InstantKind) :
    fromJson? (kind.toJson (K := K)) = some kind := by
  cases kind <;> rfl

/-- The place of an instant fits its type. -/
def Instant.IsWritable (i : Instant) : Prop := i.order < 2 ^ 32

instance : DecidablePred Instant.IsWritable :=
  fun i => inferInstanceAs (Decidable (i.order < 2 ^ 32))

/-- An instant is read back. -/
theorem Instant.fromJson?_toJson {i : Instant} (h : i.IsWritable) :
    fromJson? (i.toJson (K := K)) = some i := by
  unfold fromJson? toJson
  rw [Json.record?_obj (by rfl) (by decide)]
  simp [Json.nat32?_int h]

/-- The instant of a state fits its type. -/
def State.IsWritable (s : State) : Prop := s.instant.IsWritable

instance : DecidablePred State.IsWritable :=
  fun s => inferInstanceAs (Decidable s.instant.IsWritable)

/-- A state is read back. -/
theorem State.fromJson?_toJson {s : State} (h : s.IsWritable) :
    fromJson? (s.toJson (K := K)) = some s := by
  unfold fromJson? toJson
  rw [Json.record?_obj (by rfl) (by decide)]
  simp [Instant.fromJson?_toJson h]

/-! ### Critical elements -/

variable [Scalar K]

/-- The numbers of a critical element have a JSON form, and its instant fits its type. -/
structure Cnec.IsWritable (c : Cnec K) : Prop where
  state : c.state.IsWritable
  lower : ∀ x ∈ c.lower, Scalar.isFinite x = true
  upper : ∀ x ∈ c.upper, Scalar.isFinite x = true
  voltage : Scalar.isFinite c.voltage = true
  loopFlowThreshold : ∀ x ∈ c.loopFlowThreshold, Scalar.isFinite x = true

/-- A critical element is read back. -/
theorem Cnec.fromJson?_toJson {c : Cnec K} (h : c.IsWritable) : fromJson? c.toJson = some c := by
  unfold fromJson? toJson
  rw [Json.record?_obj (by rfl) (by decide)]
  simp [State.fromJson?_toJson h.state, Json.nullable?_ofNumber? h.lower,
    Json.nullable?_ofNumber? h.upper, Json.number?_ofNumber h.voltage,
    Json.nullable?_ofNumber? h.loopFlowThreshold]

/-! ### Network actions -/

/-- The set-point of an elementary action has a JSON form, or its tap fits its type. -/
def ElementaryAction.IsWritable : ElementaryAction K → Prop
  | .topology .. => True
  | .pstSetpoint _ tap => -2 ^ 31 ≤ tap ∧ tap < 2 ^ 31
  | .injectionSetpoint _ setpoint => Scalar.isFinite setpoint = true

/-- An elementary action is read back. -/
theorem ElementaryAction.fromJson?_toJson {part : ElementaryAction K} (h : part.IsWritable) :
    fromJson? part.toJson = some part := by
  cases part with
  | topology element connect => rfl
  | pstSetpoint element tap =>
    change (Json.int32? (.int tap)).bind (fun tap => some (pstSetpoint element tap)) = _
    rw [Json.int32?_int h]
    rfl
  | injectionSetpoint element setpoint =>
    change (Json.number? (Json.ofNumber setpoint)).bind
      (fun setpoint => some (injectionSetpoint element setpoint)) = _
    rw [Json.number?_ofNumber h]
    rfl

omit [Scalar K] in
/-- A usage rule is read back. -/
theorem UsageRule.fromJson?_toJson (rule : UsageRule) :
    fromJson? (rule.toJson (K := K)) = some rule := by
  cases rule with
  | onInstant instant =>
    change (InstantKind.fromJson? instant.toJson).bind (fun i => some (onInstant i)) = _
    rw [InstantKind.fromJson?_toJson]
    rfl
  | onFlowConstraint instant cnec =>
    change (InstantKind.fromJson? instant.toJson).bind
      (fun i => some (onFlowConstraint i cnec)) = _
    rw [InstantKind.fromJson?_toJson]
    rfl
  | onFlowConstraintInCountry instant country =>
    change (InstantKind.fromJson? instant.toJson).bind
      (fun i => some (onFlowConstraintInCountry i country)) = _
    rw [InstantKind.fromJson?_toJson]
    rfl

/-- The parts of a network action have a JSON form. -/
def NetworkAction.IsWritable (a : NetworkAction K) : Prop := ∀ part ∈ a.parts, part.IsWritable

/-- A network action is read back. -/
theorem NetworkAction.fromJson?_toJson {a : NetworkAction K} (h : a.IsWritable) :
    fromJson? a.toJson = some a := by
  have hparts := Json.list?_map fun part hpart => ElementaryAction.fromJson?_toJson (h part hpart)
  have hrules := Json.list?_map fun rule (_ : rule ∈ a.rules) =>
    UsageRule.fromJson?_toJson (K := K) rule
  unfold fromJson? toJson
  rw [Json.record?_obj (by rfl) (by decide)]
  simp [hparts, hrules]

/-! ### Range actions -/

/-- The angles of a device have a JSON form, and its taps fit their type. -/
def RangeKind.IsWritable : RangeKind K → Prop
  | .pst taps => ∀ (tap : Int) (angle : K), taps[tap]? = some angle →
      (-2 ^ 31 ≤ tap ∧ tap < 2 ^ 31) ∧ Scalar.isFinite angle = true
  | .hvdc | .injection => True

/-- A device has no taps. -/
def RangeKind.IsTapless : RangeKind K → Prop
  | .pst taps => taps.isEmpty = true
  | .hvdc | .injection => True

instance : DecidablePred (RangeKind.IsTapless (K := K)) := fun kind =>
  match kind with
  | .pst taps => inferInstanceAs (Decidable (taps.isEmpty = true))
  | .hvdc | .injection => inferInstanceAs (Decidable True)

/-- A device without taps is read back, and one with taps is refused. -/
theorem RangeKind.fromJson?_toJson (kind : RangeKind K) :
    fromJson? kind.toJson = if kind.IsTapless then some kind else none := by
  cases kind with
  | pst taps =>
    change (taps? (.obj (taps.toList.map fun entry =>
      (toString entry.1, Json.ofNumber entry.2)))).bind (fun taps => some (pst taps)) = _
    by_cases htaps : (pst taps).IsTapless
    · obtain rfl := Std.ExtTreeMap.isEmpty_iff.mp htaps
      rfl
    · have hentries : taps.toList ≠ [] := fun hnone =>
        htaps (Std.ExtTreeMap.isEmpty_iff.mpr (by simpa using hnone))
      rw [if_neg htaps, taps?, Json.entries?_eq_none Json.int32?_str (by simpa using hentries)]
      rfl
  | hvdc => rfl
  | injection => rfl

/-- The numbers of a range action have a JSON form, and its taps fit their type. -/
structure RangeAction.IsWritable (r : RangeAction K) : Prop where
  kind : r.kind.IsWritable
  min : Scalar.isFinite r.min = true
  max : Scalar.isFinite r.max = true

/-- A range action without taps is read back, and one with taps is refused. -/
theorem RangeAction.fromJson?_toJson {r : RangeAction K} (h : r.IsWritable) :
    fromJson? r.toJson = if r.kind.IsTapless then some r else none := by
  unfold fromJson? toJson
  rw [Json.record?_obj (by rfl) (by decide)]
  by_cases htaps : r.kind.IsTapless <;>
    simp [RangeKind.fromJson?_toJson, htaps, Json.number?_ofNumber h.min,
      Json.number?_ofNumber h.max]

/-! ### Results -/

/-- All numbers of a table have a JSON form. -/
def Table.IsFinite (table : Table K) : Prop :=
  ∀ (id : String) (x : K), table[id]? = some x → Scalar.isFinite x = true

/-- A table of numbers is read back. -/
theorem Table.fromJson?_ofNumbers {table : Table K} (h : table.IsFinite) :
    Json.table? Json.number? (Json.ofNumbers table) = some table :=
  Json.table?_map fun id x hentry => Json.number?_ofNumber (h id x hentry)

omit [Scalar K] in
@[simp] theorem ComputationStatus.fromJson?_toJson (status : ComputationStatus) :
    fromJson? (status.toJson (K := K)) = some status := by
  cases status <;> rfl

/-- The numbers of flows have a JSON form. -/
structure Flows.IsWritable (f : Flows K) : Prop where
  flows : f.flows.IsFinite
  commercial : f.commercial.IsFinite
  zonalSums : f.zonalSums.IsFinite

/-- Flows are read back. -/
theorem Flows.fromJson?_toJson {f : Flows K} (h : f.IsWritable) : fromJson? f.toJson = some f := by
  unfold fromJson? toJson
  rw [Json.record?_obj (by rfl) (by decide)]
  simp [Table.fromJson?_ofNumbers h.flows, Table.fromJson?_ofNumbers h.commercial,
    Table.fromJson?_ofNumbers h.zonalSums]

/-- The numbers of sensitivities have a JSON form. -/
def Sensitivities.IsWritable (s : Sensitivities K) : Prop :=
  ∀ (id : String) (table : Table K), s.values[id]? = some table → table.IsFinite

/-- Sensitivities are read back. -/
theorem Sensitivities.fromJson?_toJson {s : Sensitivities K} (h : s.IsWritable) :
    fromJson? s.toJson = some s := by
  have hvalues := Json.table?_map fun id table hentry =>
    Table.fromJson?_ofNumbers (h id table hentry)
  unfold fromJson? toJson
  rw [Json.record?_obj (by rfl) (by decide)]
  simp [hvalues]

/-- Set-points are read back. -/
theorem Setpoints.fromJson?_toJson {s : Setpoints K} (h : s.values.IsFinite) :
    fromJson? s.toJson = some s := by
  unfold fromJson? toJson
  rw [Json.record?_obj (by rfl) (by decide)]
  simp [Table.fromJson?_ofNumbers h]

/-- The set-points of an activation have a JSON form. -/
structure Activation.IsWritable (a : Activation K) : Prop where
  reference : a.reference.values.IsFinite
  optimized : a.optimized.IsFinite

/-- An activation is read back. -/
theorem Activation.fromJson?_toJson {a : Activation K} (h : a.IsWritable) :
    fromJson? a.toJson = some a := by
  unfold fromJson? toJson
  rw [Json.record?_obj (by rfl) (by decide)]
  simp [Setpoints.fromJson?_toJson h.reference, Table.fromJson?_ofNumbers h.optimized]

/-- The numbers of a cost have a JSON form. -/
structure Cost.IsWritable (c : Cost K) : Prop where
  functional : Scalar.isFinite c.functional = true
  virtualParts : c.virtualParts.IsFinite

/-- A cost is read back. -/
theorem Cost.fromJson?_toJson {c : Cost K} (h : c.IsWritable) : fromJson? c.toJson = some c := by
  have hcostly := Json.table?_map fun id texts (_ : c.costly[id]? = some texts) =>
    Json.list?_ofTexts (K := K) texts
  unfold fromJson? toJson
  rw [Json.record?_obj (by rfl) (by decide)]
  simp [hcostly, Json.number?_ofNumber h.functional, Table.fromJson?_ofNumbers h.virtualParts]

/-! ### All types -/

/-- Values of all types are read back as they were, except for range actions with taps, which are
refused. -/
theorem json_read_back :
    (∀ r : RangeAction K, r.IsWritable →
      RangeAction.fromJson? r.toJson = if r.kind.IsTapless then some r else none) ∧
    (∀ a : NetworkAction K, a.IsWritable → NetworkAction.fromJson? a.toJson = some a) ∧
    (∀ c : Cnec K, c.IsWritable → Cnec.fromJson? c.toJson = some c) ∧
    (∀ s : State, s.IsWritable → State.fromJson? (s.toJson (K := K)) = some s) ∧
    (∀ f : Flows K, f.IsWritable → Flows.fromJson? f.toJson = some f) ∧
    (∀ s : Sensitivities K, s.IsWritable → Sensitivities.fromJson? s.toJson = some s) ∧
    (∀ a : Activation K, a.IsWritable → Activation.fromJson? a.toJson = some a) ∧
    (∀ c : Cost K, c.IsWritable → Cost.fromJson? c.toJson = some c) :=
  ⟨fun _ h => RangeAction.fromJson?_toJson h, fun _ h => NetworkAction.fromJson?_toJson h,
    fun _ h => Cnec.fromJson?_toJson h, fun _ h => State.fromJson?_toJson h,
    fun _ h => Flows.fromJson?_toJson h, fun _ h => Sensitivities.fromJson?_toJson h,
    fun _ h => Activation.fromJson?_toJson h, fun _ h => Cost.fromJson?_toJson h⟩

namespace Phase

/-- A phase shifter with a table of taps, whose angles go from -1.5 to 1.5 degrees. -/
def shifter (taps : TapTable ℚ) : RangeAction ℚ :=
  { id := "shifter", element := "coil", kind := .pst taps, min := -3 / 2, max := 3 / 2 }

/-- An action with one part of each form and two usage rules. -/
def action : NetworkAction ℚ where
  id := "all"
  operator := some "owner"
  parts := [.topology "line" false, .pstSetpoint "coil" (-3), .injectionSetpoint "unit" (1 / 3)]
  rules := [.onInstant .curative, .onFlowConstraintInCountry .auto ⟨"FR"⟩]

/-- An element with one threshold after a contingency. -/
def element : Cnec ℚ :=
  { id := "element", element := "line", state := ⟨.curative, some "outage"⟩, upper := some (1 / 3)
    voltage := 400 }

/-- The phase shifter may be written with one tap. -/
theorem isWritable_shifter : (shifter (.ofPairs [(1, 3 / 2)])).IsWritable := by
  refine ⟨fun tap angle htap => ?_, rfl, rfl⟩
  simp only [TapTable.ofPairs, List.foldl_cons, List.foldl_nil, Std.ExtTreeMap.getElem?_insert,
    Std.LawfulEqOrd.compare_eq_iff_eq] at htap
  split at htap
  · next heq => exact ⟨by omega, rfl⟩
  · simp at htap

/-- A value of each type is read back, and the phase shifter with a tap is refused. -/
theorem read_back_one_of_each_type :
    RangeAction.fromJson? (shifter ∅).toJson = some (shifter ∅) ∧
    RangeAction.fromJson? (shifter (.ofPairs [(1, 3 / 2)])).toJson = none ∧
    NetworkAction.fromJson? action.toJson = some action ∧
    Cnec.fromJson? element.toJson = some element ∧
    State.fromJson? (element.state.toJson (K := ℚ)) = some element.state ∧
    Flows.fromJson? ({ flows := .ofPairs [("a", 1 / 3), ("b", -2)] } : Flows ℚ).toJson =
      some { flows := .ofPairs [("a", 1 / 3), ("b", -2)] } ∧
    Sensitivities.fromJson? (Sensitivities.failed (K := ℚ)).toJson = some .failed ∧
    Activation.fromJson? (Activation.ofReference (K := ℚ) ⟨.ofPairs [("a", 1 / 3)]⟩).toJson =
      some (.ofReference ⟨.ofPairs [("a", 1 / 3)]⟩) ∧
    Cost.fromJson? ({ functional := -3, limiting := ["a"] } : Cost ℚ).toJson =
      some { functional := -3, limiting := ["a"] } := by
  obtain ⟨hrange, haction, hcnec, hstate, hflows, hsensitivities, hactivation, hcost⟩ :=
    json_read_back (K := ℚ)
  have hfinite : ∀ table : Table ℚ, table.IsFinite := fun _ _ _ _ => rfl
  refine ⟨?_, ?_, haction _ ?_, hcnec _ ⟨by decide, fun _ _ => rfl, fun _ _ => rfl, rfl,
    fun _ _ => rfl⟩, hstate _ (by decide), hflows _ ⟨hfinite _, hfinite _, hfinite _⟩,
    hsensitivities _ fun _ _ _ => hfinite _, hactivation _ ⟨hfinite _, hfinite _⟩,
    hcost _ ⟨rfl, hfinite _⟩⟩
  · exact (hrange _ ⟨by simp [shifter, RangeKind.IsWritable], rfl, rfl⟩).trans
      (if_pos (by decide))
  · exact (hrange _ isWritable_shifter).trans (if_neg (by decide))
  · simp [action, NetworkAction.IsWritable, ElementaryAction.IsWritable, Scalar.isFinite]

/-- A phase shifter with a tap is not read back. -/
theorem not_read_back_with_taps :
    ¬ ∀ r : RangeAction ℚ, r.IsWritable → RangeAction.fromJson? r.toJson = some r := by
  intro h
  have hrefused := RangeAction.fromJson?_toJson isWritable_shifter
  rw [h _ isWritable_shifter, if_neg (by decide)] at hrefused
  cases hrefused

end Phase

end GridRelief
