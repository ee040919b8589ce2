import GridRelief.Proofs.Objective
import GridRelief.Proofs.Optimizer.Shown

/-!
# Flows as linear functions of set-points

The flow on a linear network adds up what the set-point of each element contributes. Applying the
set-point of one range action changes the contribution of its element alone, by the sensitivity
times the way the set-point has gone, and set-points of range actions on different elements add
their changes. The sensitivities that are reported are those of the model, so what a change of
set-points does to a flow can be told from them alone, wherever the network started from.

* `LinearNetwork.present`: the set-point that the flows of a network are computed with.
* `LinearNetwork.flow_of_present_eq`: the change of a flow when one set-point changes.
* `LinearNetwork.flow_applyAll`: the change when set-points are applied, by induction on them.
* `LinearComputer.get_sensitivities`: the sensitivities that are reported.
* `LinearComputer.flow_change_eq`: from one activation to another, flows change by the reported
  sensitivities.
-/

namespace GridRelief

variable {K : Type} [ExactScalar K]

/-! ### Sums over tables -/

/-- A sum over entries with different names changes with the one term that changes. -/
theorem sum_map_eq_add {V : Type} {entries : List (String × V)} {key : String} {value : V}
    (hnodup : (entries.map Prod.fst).Nodup) (hmem : (key, value) ∈ entries)
    {f g : String × V → K} (hothers : ∀ entry ∈ entries, entry.1 ≠ key → f entry = g entry) :
    (entries.map f).sum = (entries.map g).sum + (f (key, value) - g (key, value)) := by
  induction entries with
  | nil => cases hmem
  | cons entry entries ih =>
    rw [List.map_cons, List.nodup_cons] at hnodup
    rw [List.map_cons, List.map_cons, List.sum_cons, List.sum_cons]
    rcases List.mem_cons.mp hmem with rfl | hmem
    · have hrest : entries.map f = entries.map g := by
        refine List.map_congr_left fun other hother =>
          hothers other (List.mem_cons_of_mem _ hother) ?_
        exact fun heq => hnodup.1 (List.mem_map.mpr ⟨other, hother, heq⟩)
      rw [hrest]
      ring
    · have hne : entry.1 ≠ key := by
        rintro rfl
        exact hnodup.1 (List.mem_map.mpr ⟨_, hmem, rfl⟩)
      rw [ih hnodup.2 hmem fun other hother => hothers other (List.mem_cons_of_mem _ hother),
        hothers entry List.mem_cons_self hne]
      ring

/-- What is left out of a list adds nothing to a sum. -/
theorem sum_filterMap {α : Type} (f : α → Option K) (xs : List α) :
    (xs.filterMap f).sum = (xs.map fun x => (f x).getD 0).sum := by
  induction xs with
  | nil => rfl
  | cons x xs ih =>
    rw [List.map_cons, List.sum_cons, ← ih]
    cases hx : f x with
    | none => rw [List.filterMap_cons_none hx, Option.getD_none, zero_add]
    | some y => rw [List.filterMap_cons_some hx, List.sum_cons, Option.getD_some]

/-- A sum that starts with a number adds it. -/
theorem foldl_add_eq (first : K) (xs : List K) : xs.foldl (· + ·) first = first + xs.sum := by
  induction xs generalizing first with
  | nil => exact (add_zero first).symm
  | cons x xs ih => rw [List.foldl_cons, ih, List.sum_cons, add_assoc]

/-! ### Flows -/

namespace LinearNetwork

variable {n n' : LinearNetwork K} {r : RangeAction K} {rs : List (RangeAction K)} {x : K}
  {a : Activation K} {element : String}

/-- The set-point of an element that flows are computed with: the reference one if it has none. -/
def present (n : LinearNetwork K) (element : String) : K :=
  (n.currentValue element).getD (n.model.referenceSetpoints[element]?.getD 0)

/-- What the set-point of an element contributes to a flow. -/
def contribution (n : LinearNetwork K) (cnec : String) (entry : String × Table K) : K :=
  (entry.2[cnec]?).getD 0 *
    (n.present entry.1 - n.model.referenceSetpoints[entry.1]?.getD 0)

/-- A flow is what the elements contribute to it, beyond a part that depends on switches only. -/
theorem flow_eq (n : LinearNetwork K) (cnec : String) :
    n.flow cnec = n.model.baseFlows[cnec]?.getD 0 +
      (n.connected.toList.filterMap fun entry => n.switchEffect cnec entry.1 entry.2).sum +
        (n.model.sensitivities.toList.map (n.contribution cnec)).sum := by
  have hcontribution : ∀ entry : String × Table K,
      (entry.2[cnec]?.map (n.setpointEffect entry.1)).getD 0 = n.contribution cnec entry := by
    intro entry
    unfold contribution
    cases entry.2[cnec]? with
    | none => simp
    | some sensitivity => rfl
  unfold flow
  rw [foldl_add_eq, List.sum_append, sum_filterMap (fun entry : String × Table K => _), ← add_assoc]
  simp only [hcontribution]

/-- Where networks of the same model differ in the set-point of one element, a flow differs by its
sensitivity times the difference. -/
theorem flow_of_present_eq (hmodel : n'.model = n.model) (hconnected : n'.connected = n.connected)
    (hothers : ∀ other, other ≠ element → n'.present other = n.present other) (cnec : String) :
    n'.flow cnec = n.flow cnec + n.sensitivity element cnec *
      (n'.present element - n.present element) := by
  have hkeys : (n.model.sensitivities.toList.map Prod.fst).Nodup := by
    rw [Std.ExtTreeMap.map_fst_toList_eq_keys]
    exact Std.ExtTreeMap.nodup_keys
  have hswitch : n'.switchEffect cnec = n.switchEffect cnec := by
    unfold switchEffect
    rw [hmodel]
  have hsum : (n.model.sensitivities.toList.map (n'.contribution cnec)).sum =
      (n.model.sensitivities.toList.map (n.contribution cnec)).sum +
        n.sensitivity element cnec * (n'.present element - n.present element) := by
    have hsame : ∀ entry : String × Table K, entry.1 ≠ element →
        n'.contribution cnec entry = n.contribution cnec entry := by
      intro entry hne
      unfold contribution
      rw [hothers entry.1 hne, hmodel]
    unfold sensitivity
    cases helement : n.model.sensitivities[element]? with
    | none =>
      have hlist : n.model.sensitivities.toList.map (n'.contribution cnec) =
          n.model.sensitivities.toList.map (n.contribution cnec) := by
        refine List.map_congr_left fun entry hentry => hsame entry ?_
        rintro rfl
        rw [Std.ExtTreeMap.mem_toList_iff_getElem?_eq_some.mp hentry] at helement
        cases helement
      rw [hlist]
      simp
    | some table =>
      rw [sum_map_eq_add hkeys (Std.ExtTreeMap.mem_toList_iff_getElem?_eq_some.mpr helement)
        fun entry _ => hsame entry, contribution, contribution, hmodel, Option.bind_some]
      ring
  rw [flow_eq, flow_eq, hmodel, hconnected, hsum, hswitch, ← add_assoc]

/-! ### Applying set-points -/

/-- What a network and a range action agree on: a phase shifter has the same taps in the network,
and another element has no tap there. -/
structure Declares (n : LinearNetwork K) (r : RangeAction K) : Prop where
  taps : ∀ taps, r.taps? = some taps → n.model.tapTables[r.element]? = some taps
  plain : r.taps? = none → n.taps[r.element]? = none

/-- Once a set-point has been applied, flows are computed with it, and with the others as before. -/
theorem present_of_apply (hdeclares : n.Declares r) (hx : r.OnTap x) (h : r.apply n x = .ok n') :
    n'.present r.element = x ∧
      ∀ other, other ≠ r.element → n'.present other = n.present other := by
  unfold present currentValue
  cases htaps : r.taps? with
  | some taps =>
    obtain ⟨tap, _, htap, -, -, rfl⟩ := (RangeAction.apply_eq_ok_iff_of_taps htaps).mp h
    constructor
    · simp only [Std.ExtTreeMap.getElem?_insert_self, hdeclares.taps taps htaps, Option.bind_some,
        RangeAction.getElem?_tapOf htaps hx htap, Option.getD_some]
    · intro other hne
      simp only [Table.getElem?_insert_of_ne hne.symm]
  | none =>
    obtain ⟨-, rfl⟩ := (RangeAction.apply_eq_ok_iff_of_no_taps htaps).mp h
    constructor
    · simp only [hdeclares.plain htaps, Std.ExtTreeMap.getElem?_insert_self, Option.getD_some]
    · intro other hne
      simp only [Table.getElem?_insert_of_ne hne.symm]

omit [ExactScalar K] in
/-- A network goes on to agree with a range action while set-points of others are applied. -/
theorem Declares.of_agreesOff (h : n.Declares r) (hagrees : AgreesOff rs n n')
    (helements : ∀ other ∈ rs, other.element ≠ r.element) : n'.Declares r where
  taps taps htaps := hagrees.model ▸ h.taps taps htaps
  plain htaps := by
    rw [← hagrees.taps r.element fun other hother _ => helements other hother]
    exact h.plain htaps

end LinearNetwork

/-- The set-point that an activation has for a range action. -/
def Activation.setpoint (a : Activation K) (r : RangeAction K) : K := (a.get r.id).toOption.getD 0

namespace LinearNetwork

variable {n n' : LinearNetwork K} {r : RangeAction K} {rs : List (RangeAction K)} {a : Activation K}

/-- By induction on range actions on different elements: applying their set-points changes a flow by
the sensitivities times the ways the set-points have gone. -/
theorem flow_applyAll (helements : (rs.map RangeAction.element).Nodup)
    (hdeclares : ∀ r ∈ rs, n.Declares r) (ha : a.OnTaps rs)
    (h : a.applyAll rs n = (n', .ok ())) (cnec : String) :
    n'.flow cnec = n.flow cnec + (rs.map fun r =>
      n.sensitivity r.element cnec * (a.setpoint r - n.present r.element)).sum := by
  induction rs generalizing n with
  | nil =>
    obtain ⟨rfl, -⟩ := Prod.mk.inj h
    simp
  | cons r rest ih =>
    rw [List.map_cons, List.nodup_cons] at helements
    obtain ⟨hfirst, hothers⟩ := helements
    obtain ⟨⟨x, hx, hontap⟩, ha⟩ := List.forall_mem_cons.mp ha
    obtain ⟨hr, hrest⟩ := List.forall_mem_cons.mp hdeclares
    obtain ⟨_, changed, hx', happly, happlied⟩ := Activation.applyAll_cons_eq_ok_iff.mp h
    obtain rfl := Except.ok.inj (hx.symm.trans hx')
    have hagrees : AgreesOff [r] n changed := agreesOff_of_apply List.mem_cons_self happly
    have hne : ∀ other ∈ rest, other.element ≠ r.element := fun other hother heq =>
      hfirst (heq ▸ List.mem_map_of_mem hother)
    obtain ⟨hpresent, hsame⟩ := present_of_apply hr hontap happly
    have hlater := ih hothers (fun other hother => (hrest other hother).of_agreesOff hagrees
      (by simpa using (hne other hother).symm)) ha happlied
    -- the others have the sensitivities and the set-points that they had before
    have hterms : (rest.map fun other => changed.sensitivity other.element cnec *
        (a.setpoint other - changed.present other.element)) =
          rest.map fun other => n.sensitivity other.element cnec *
            (a.setpoint other - n.present other.element) := by
      refine List.map_congr_left fun other hother => ?_
      unfold sensitivity
      rw [hagrees.model, hsame other.element (hne other hother)]
    have hsetpoint : a.setpoint r = x := by
      unfold Activation.setpoint
      rw [hx]
      rfl
    rw [hlater, hterms, flow_of_present_eq hagrees.model.symm hagrees.connected.symm hsame cnec,
      hpresent, List.map_cons, List.sum_cons, hsetpoint]
    ring

/-- A network to which a set-point that is none of a phase shifter can be applied has one there. -/
theorem contains_of_applyAll (helements : (rs.map RangeAction.element).Nodup) (ha : a.OnTaps rs)
    (h : a.applyAll rs n = (n', .ok ())) (hr : r ∈ rs) (htaps : r.taps? = none) :
    n.setpoints.contains r.element = true := by
  have hagrees : AgreesOff rs n n' := agreesOff_of_applyAll (fun _ h => h) h
  obtain ⟨x, -, hx⟩ := shows_of_applyAll helements ha h r hr
  rw [RangeAction.currentSetpoint_eq_ok_iff_of_no_taps htaps] at hx
  rw [hagrees.known, Std.ExtTreeMap.contains_eq_isSome_getElem?, hx]
  rfl

end LinearNetwork

/-! ### What is reported -/

namespace Sensitivities

theorem get_set (s : Sensitivities K) (cnec other id later : String) (value : K) :
    (s.set cnec id value).get other later =
      if cnec = other ∧ id = later then value else s.get other later := by
  unfold set get
  simp only [Std.ExtTreeMap.getElem?_insert, Std.LawfulEqOrd.compare_eq_iff_eq]
  by_cases hcnec : cnec = other
  · subst hcnec
    by_cases hid : id = later
    · simp [hid]
    · simp only [if_pos, hid, and_false, if_false, Option.bind_some,
        Std.ExtTreeMap.getElem?_insert, Std.LawfulEqOrd.compare_eq_iff_eq]
      cases s.values[cnec]? <;> simp
  · simp [hcnec]

/-- By induction on entries with different names: what is recorded of an element. -/
theorem get_foldl_set {entries : List (String × K)} {id : String} {value : K}
    (hnodup : (entries.map Prod.fst).Nodup) (hmem : (id, value) ∈ entries) (s : Sensitivities K)
    (cnec : String) :
    (entries.foldl (fun s entry => s.set cnec entry.1 entry.2) s).get cnec id = value := by
  induction entries using List.reverseRecOn with
  | nil => cases hmem
  | append_singleton entries last ih =>
    rw [List.map_append, List.map_singleton, List.nodup_append'] at hnodup
    obtain ⟨hnodup, -, hdisjoint⟩ := hnodup
    rw [List.foldl_append, List.foldl_cons, List.foldl_nil, get_set]
    rcases List.mem_append.mp hmem with hmem | hmem
    · have hne : last.1 ≠ id := by
        rintro rfl
        exact hdisjoint (List.mem_map_of_mem hmem) List.mem_cons_self
      rw [if_neg fun heq => hne heq.2]
      exact ih hnodup hmem
    · obtain rfl := List.mem_singleton.mp hmem
      exact if_pos ⟨rfl, rfl⟩

/-- What is recorded of one element does not change what is recorded of others. -/
theorem get_foldl_set_of_ne {cnec other : String} (hne : cnec ≠ other) (entries : List (String × K))
    (s : Sensitivities K) (id : String) :
    (entries.foldl (fun s entry => s.set cnec entry.1 entry.2) s).get other id =
      s.get other id := by
  induction entries generalizing s with
  | nil => rfl
  | cons entry entries ih => rw [List.foldl_cons, ih, get_set, if_neg fun heq => hne heq.1]

end Sensitivities

namespace LinearComputer

open LinearNetwork

variable {computer : LinearComputer K} {n before after : LinearNetwork K} {r : RangeAction K}
  {c : Cnec K} {a b : Activation K}

/-- The sensitivities that are reported are those of the model, if range actions have different
ids. -/
theorem get_sensitivities (hids : (computer.rangeActions.map RangeAction.id).Nodup)
    (hc : c ∈ computer.cnecs) (hr : r ∈ computer.rangeActions) :
    (computer.sensitivities n).get c.id r.id = n.sensitivity r.element c.id := by
  unfold sensitivities
  have hrow : ∀ cnec, ((computer.row n cnec).map Prod.fst).Nodup := by
    intro cnec
    unfold row
    rwa [List.map_map]
  have hentry : ∀ cnec, (r.id, n.sensitivity r.element cnec) ∈ computer.row n cnec :=
    fun cnec => List.mem_map.mpr ⟨r, hr, rfl⟩
  generalize computer.cnecs = cnecs at hc
  induction cnecs using List.reverseRecOn with
  | nil => cases hc
  | append_singleton cnecs last ih =>
    rw [List.foldl_append, List.foldl_cons, List.foldl_nil]
    by_cases hlast : last.id = c.id
    · rw [hlast]
      exact Sensitivities.get_foldl_set (hrow c.id) (hentry c.id) _ _
    · rw [Sensitivities.get_foldl_set_of_ne hlast]
      refine ih ((List.mem_append.mp hc).resolve_right fun hmem => hlast ?_)
      rw [List.mem_singleton.mp hmem]

/-- The flows that are reported are those of the network. -/
theorem megawatts_flows (hc : c ∈ computer.cnecs) :
    (computer.flows n).megawatts c.id = .ok (n.flow c.id) := by
  have hflow : (computer.flows n).flows[c.id]? = some (n.flow c.id) := by
    refine Table.getElem?_ofPairs_of_agree
      (List.mem_map.mpr ⟨c.id, List.mem_map_of_mem hc, rfl⟩) fun entry hentry hkey => ?_
    obtain ⟨id, -, rfl⟩ := List.mem_map.mp hentry
    rw [← hkey]
  exact Flows.megawatts_eq hflow

theorem sensitivities_eq_of_model (computer : LinearComputer K)
    (hmodel : after.model = before.model) :
    computer.sensitivities after = computer.sensitivities before := by
  unfold sensitivities row sensitivity
  rw [hmodel]

theorem compute_eq (h : computer.fails n = false) :
    computer.compute n = ⟨computer.flows n, computer.sensitivities n⟩ :=
  if_neg (Bool.eq_false_iff.mp h)

/-- Where two activations have been applied to a network, whatever its state, the sensitivities that
are reported are the same, and each flow differs by the sum of the reported sensitivities times the
differences of the set-points. -/
theorem flow_change_eq (computer : LinearComputer K)
    (helements : (computer.rangeActions.map RangeAction.element).Nodup)
    (hids : (computer.rangeActions.map RangeAction.id).Nodup)
    (htables : ∀ r ∈ computer.rangeActions, ∀ taps, r.taps? = some taps →
      n.model.tapTables[r.element]? = some taps)
    (hkinds : ∀ element : String, n.setpoints.contains element = true → n.taps[element]? = none)
    (ha : a.OnTaps computer.rangeActions) (hb : b.OnTaps computer.rangeActions)
    (hbefore : a.applyAll computer.rangeActions n = (before, .ok ()))
    (hafter : b.applyAll computer.rangeActions n = (after, .ok ())) :
    (computer.compute after).sensitivities = (computer.compute before).sensitivities ∧
      (computer.fails n = false → ∀ c ∈ computer.cnecs, ∃ first second,
        (computer.compute before).flows.megawatts c.id = .ok first ∧
        (computer.compute after).flows.megawatts c.id = .ok second ∧
        second = first + (computer.rangeActions.map fun r =>
          (computer.compute before).sensitivities.get c.id r.id *
            (b.setpoint r - a.setpoint r)).sum) := by
  have hdeclares : ∀ r ∈ computer.rangeActions, n.Declares r := fun r hr =>
    ⟨htables r hr, fun htaps =>
      hkinds r.element (contains_of_applyAll helements ha hbefore hr htaps)⟩
  have hbeforeOff : AgreesOff computer.rangeActions n before :=
    agreesOff_of_applyAll (fun _ h => h) hbefore
  have hafterOff : AgreesOff computer.rangeActions n after :=
    agreesOff_of_applyAll (fun _ h => h) hafter
  have hfails : ∀ later, AgreesOff computer.rangeActions n later →
      computer.fails later = computer.fails n := by
    intro later hlater
    unfold fails
    rw [hlater.connected]
  have hsensitivities := sensitivities_eq_of_model computer
    (hafterOff.model.symm.trans hbeforeOff.model)
  constructor
  · unfold compute
    rw [hfails before hbeforeOff, hfails after hafterOff, hsensitivities]
    split <;> rfl
  · intro hn c hc
    rw [compute_eq ((hfails before hbeforeOff).trans hn),
      compute_eq ((hfails after hafterOff).trans hn)]
    refine ⟨_, _, megawatts_flows hc, megawatts_flows hc, ?_⟩
    have hsum : (computer.rangeActions.map fun r =>
          (computer.sensitivities before).get c.id r.id * (b.setpoint r - a.setpoint r)).sum
        + (computer.rangeActions.map fun r =>
          n.sensitivity r.element c.id * (a.setpoint r - n.present r.element)).sum =
        (computer.rangeActions.map fun r =>
          n.sensitivity r.element c.id * (b.setpoint r - n.present r.element)).sum := by
      rw [← List.sum_map_add]
      congr 1
      refine List.map_congr_left fun r hr => ?_
      rw [get_sensitivities hids hc hr]
      unfold sensitivity
      rw [hbeforeOff.model]
      ring
    rw [flow_applyAll helements hdeclares ha hbefore, flow_applyAll helements hdeclares hb hafter]
    linarith only [hsum]

end LinearComputer

/-! A phase shifter and an injection act on a line whose switch has been opened. Two injections of
one id cannot be told apart in what is reported. -/

namespace SharedId

/-- A line. -/
def line : Cnec ℚ := { id := "line", element := "line", upper := some 800, voltage := 400 }

/-- An injection. -/
def injection (id element : String) : RangeAction ℚ :=
  { id, element, min := -100, max := 100, kind := .injection }

/-- A phase shifter with three taps, which are not monotone. -/
def shifter : RangeAction ℚ :=
  { id := "turn", element := "transformer", min := 0, max := 3
    kind := .pst (TapTable.ofPairs [(-1, 3), (0, 0), (1, 2)]) }

/-- Flows and sensitivities on the line. -/
def computer (rangeActions : List (RangeAction ℚ)) : LinearComputer ℚ := ⟨[line], rangeActions, []⟩

/-- A network with an opened switch, a phase shifter off its reference and two injections. -/
def network : LinearNetwork ℚ :=
  let built := ((((({ id := "net" } : LinearNetwork ℚ).withBaseFlow "line" 500).withSwitchable
    "switch" |>.withOpeningEffect "switch" "line" 30).withPst shifter 1 |>.withInjection "east" 0)
    |>.withInjection "west" 0)
  { ((built.withSensitivity "transformer" "line" 5).withSensitivity "east" "line" 1).withSensitivity
      "west" "line" 2 with connected := Table.ofPairs [("switch", false)] }

/-- Set-points of the phase shifter and of injections of one id. -/
def activation (turn shift : ℚ) : Activation ℚ :=
  ⟨{}, Table.ofPairs [("turn", turn), ("shift", shift)]⟩

/-- What is computed once set-points have been applied. -/
def computed (rangeActions : List (RangeAction ℚ)) (a : Activation ℚ) : Outcome ℚ :=
  (computer rangeActions).compute (a.applyAll rangeActions network).1

theorem onTaps (turn shift : ℚ) (tap : Int)
    (h : (TapTable.ofPairs [(-1, (3 : ℚ)), (0, 0), (1, 2)])[tap]? = some turn) :
    (activation turn shift).OnTaps [shifter, injection "shift" "east"] := by
  have hget : ∀ entry ∈ [("turn", turn), ("shift", shift)],
      (activation turn shift).get entry.1 = .ok entry.2 := by
    intro entry hentry
    unfold Activation.get
    rw [show (activation turn shift).optimized[entry.1]? = some entry.2 from
      Table.getElem?_ofPairs (by simp) hentry]
  refine List.forall_mem_cons.mpr ⟨⟨turn, hget _ List.mem_cons_self, ?_⟩,
    List.forall_mem_singleton.mpr ⟨shift, hget ("shift", shift) (by simp), nofun⟩⟩
  rintro _ ⟨⟩
  exact ⟨tap, h⟩

theorem flow_of_both :
    ∃ first second,
      (computed [shifter, injection "shift" "east"] (activation 0 10)).flows.megawatts "line" =
        .ok first ∧
      (computed [shifter, injection "shift" "east"] (activation 3 (-20))).flows.megawatts "line" =
        .ok second ∧
      second = first + (5 * (3 - 0) + 1 * (-20 - 10)) := by
  have hkinds : ∀ element : String, network.setpoints.contains element = true →
      network.taps[element]? = none := by
    intro element h
    have hkeys : network.setpoints.keys = ["east", "west"] := by decide +kernel
    rw [← Std.ExtTreeMap.mem_iff_contains, ← Std.ExtTreeMap.mem_keys, hkeys] at h
    simp only [List.mem_cons, List.not_mem_nil, or_false] at h
    rcases h with rfl | rfl <;> decide +kernel
  have htables : ∀ r ∈ [shifter, injection "shift" "east"], ∀ taps, r.taps? = some taps →
      network.model.tapTables[r.element]? = some taps := by
    refine List.forall_mem_cons.mpr ⟨?_, List.forall_mem_singleton.mpr nofun⟩
    rintro _ ⟨⟩
    rfl
  have hbefore := onTaps 0 10 0 (by decide +kernel)
  have hafter := onTaps 3 (-20) (-1) (by decide +kernel)
  obtain ⟨-, hflows⟩ := LinearComputer.flow_change_eq (computer [shifter, injection "shift" "east"])
    (by decide) (by decide) htables hkinds hbefore hafter (eq_ok_of_isOk (by decide +kernel))
    (eq_ok_of_isOk (by decide +kernel))
  obtain ⟨first, second, hfirst, hsecond, hchange⟩ := hflows (by decide +kernel) line
    List.mem_cons_self
  refine ⟨first, second, hfirst, hsecond, hchange.trans (congrArg (first + ·) ?_)⟩
  decide +kernel

theorem changes_of_shared_id :
    let rangeActions := [injection "shift" "east", injection "shift" "west"]
    let a := activation 0 0
    let b := activation 0 10
    (rangeActions.map RangeAction.element).Nodup ∧
      (a.applyAll rangeActions network).2.isOk = true ∧
      (b.applyAll rangeActions network).2.isOk = true ∧
      (computed rangeActions a).flows.flows["line"]? = some 530 ∧
      (computed rangeActions b).flows.flows["line"]? = some 560 ∧
      (rangeActions.map fun r => (computed rangeActions a).sensitivities.get "line" r.id *
        (b.setpoint r - a.setpoint r)).sum = 40 := by
  decide +kernel

end SharedId

end GridRelief
