import GridRelief.LinearNetwork
import GridRelief.Proofs.Tables
import GridRelief.Result.Activation

/-!
# Set-points on a linear network

Applying an activation writes the tap or the set-point of each range action's element and nothing
else. So a network on which set-points have been applied agrees with the one before off these
elements, and on networks that agree so an activation leads to the same network.

* `LinearNetwork.AgreesOff`: two networks agree off the elements of some range actions.
* `RangeAction.apply_eq_ok_iff_of_taps`, `RangeAction.apply_eq_ok_iff_of_no_taps`: what applying a
  set-point writes.
* `LinearNetwork.agreesOff_of_applyAll`: applying set-points keeps all else.
* `LinearNetwork.AgreesOff.applyAll_eq`: applying set-points forgets those that were there.
* `LinearNetwork.AgreesAt`: two networks have the same tap or set-point for a range action.
-/

namespace GridRelief

variable {K : Type} {n m n' : LinearNetwork K} {r : RangeAction K} {rs : List (RangeAction K)}

/-! ### Networks that agree -/

namespace LinearNetwork

/-- Two networks of the same model agree off the elements of some range actions, and have the same
elements with set-points. -/
structure AgreesOff (rs : List (RangeAction K)) (n m : LinearNetwork K) : Prop where
  id : n.id = m.id
  model : n.model = m.model
  connected : n.connected = m.connected
  taps : ∀ element : String, (∀ r ∈ rs, r.isPst = true → r.element ≠ element) →
    n.taps[element]? = m.taps[element]?
  setpoints : ∀ element : String, (∀ r ∈ rs, r.isPst = false → r.element ≠ element) →
    n.setpoints[element]? = m.setpoints[element]?
  known : ∀ element : String, n.setpoints.contains element = m.setpoints.contains element

namespace AgreesOff

theorem refl (n : LinearNetwork K) : AgreesOff rs n n :=
  ⟨rfl, rfl, rfl, fun _ _ => rfl, fun _ _ => rfl, fun _ => rfl⟩

theorem symm (h : AgreesOff rs n m) : AgreesOff rs m n where
  id := h.id.symm
  model := h.model.symm
  connected := h.connected.symm
  taps element helement := (h.taps element helement).symm
  setpoints element helement := (h.setpoints element helement).symm
  known element := (h.known element).symm

theorem trans {k : LinearNetwork K} (h : AgreesOff rs n m) (hk : AgreesOff rs m k) :
    AgreesOff rs n k where
  id := h.id.trans hk.id
  model := h.model.trans hk.model
  connected := h.connected.trans hk.connected
  taps element helement := (h.taps element helement).trans (hk.taps element helement)
  setpoints element helement :=
    (h.setpoints element helement).trans (hk.setpoints element helement)
  known element := (h.known element).trans (hk.known element)

/-- Networks that agree off some range actions agree off more of them. -/
theorem mono {more : List (RangeAction K)} (h : AgreesOff rs n m) (hmore : rs ⊆ more) :
    AgreesOff more n m where
  id := h.id
  model := h.model
  connected := h.connected
  taps element helement := h.taps element fun r hr => helement r (hmore hr)
  setpoints element helement := h.setpoints element fun r hr => helement r (hmore hr)
  known := h.known

/-- Networks that agree everywhere are the same. -/
theorem eq (h : AgreesOff [] n m) : n = m := by
  have htaps : n.taps = m.taps := Std.ExtTreeMap.ext_getElem? fun e => h.taps e (by simp)
  have hsetpoints : n.setpoints = m.setpoints :=
    Std.ExtTreeMap.ext_getElem? fun e => h.setpoints e (by simp)
  obtain ⟨hid, hmodel, hconnected, -, -, -⟩ := h
  cases n
  cases m
  congr

end AgreesOff

/-! ### Writing a tap or a set-point -/

/-- Writing the tap of a phase shifter keeps all else. -/
theorem agreesOff_insert_tap (hr : r ∈ rs) (hpst : r.isPst = true) (tap : Int) :
    AgreesOff rs n { n with taps := n.taps.insert r.element tap } := by
  refine ⟨rfl, rfl, rfl, fun element helement => ?_, fun _ _ => rfl, fun _ => rfl⟩
  exact (Table.getElem?_insert_of_ne (helement r hr hpst)).symm

/-- Writing a set-point that is there keeps all else. -/
theorem agreesOff_insert_setpoint (hr : r ∈ rs) (hpst : r.isPst = false)
    (hknown : n.setpoints.contains r.element = true) (x : K) :
    AgreesOff rs n { n with setpoints := n.setpoints.insert r.element x } := by
  refine ⟨rfl, rfl, rfl, fun _ _ => rfl, fun element helement => ?_, fun element => ?_⟩
  · exact (Table.getElem?_insert_of_ne (helement r hr hpst)).symm
  · rw [Std.ExtTreeMap.contains_insert, Bool.eq_iff_iff, Bool.or_eq_true, beq_iff_eq,
      Std.LawfulEqOrd.compare_eq_iff_eq]
    constructor
    · exact .inr
    · rintro (rfl | hcontains)
      · exact hknown
      · exact hcontains

namespace AgreesOff

variable {rest : List (RangeAction K)} {element : String}

/-- After the same tap is written, networks agree off the phase shifters of other elements. -/
theorem insert_tap (h : AgreesOff rs n m)
    (hrest : ∀ r ∈ rs, ¬(r.isPst = true ∧ element = r.element) → r ∈ rest) (tap : Int) :
    AgreesOff rest { n with taps := n.taps.insert element tap }
      { m with taps := m.taps.insert element tap } where
  id := h.id
  model := h.model
  connected := h.connected
  taps other hother := by
    apply Table.getElem?_insert_congr
    intro hne
    apply h.taps other
    intro r hr hpst heq
    exact hother r (hrest r hr fun hwritten => hne (hwritten.2.trans heq)) hpst heq
  setpoints other hother := by
    apply h.setpoints other
    intro r hr hpst
    exact hother r (hrest r hr fun hwritten => Bool.eq_false_iff.mp hpst hwritten.1) hpst
  known := h.known

/-- After the same set-point is written, networks agree off the range actions of other elements. -/
theorem insert_setpoint (h : AgreesOff rs n m)
    (hrest : ∀ r ∈ rs, ¬(r.isPst = false ∧ element = r.element) → r ∈ rest) (x : K) :
    AgreesOff rest { n with setpoints := n.setpoints.insert element x }
      { m with setpoints := m.setpoints.insert element x } where
  id := h.id
  model := h.model
  connected := h.connected
  taps other hother := by
    apply h.taps other
    intro r hr hpst
    exact hother r (hrest r hr fun hwritten => Bool.eq_false_iff.mp hwritten.1 hpst) hpst
  setpoints other hother := by
    apply Table.getElem?_insert_congr
    intro hne
    apply h.setpoints other
    intro r hr hpst heq
    exact hother r (hrest r hr fun hwritten => hne (hwritten.2.trans heq)) hpst heq
  known other := by
    simp only [Std.ExtTreeMap.contains_insert, h.known other]

end AgreesOff

end LinearNetwork

/-! ### Reading set-points -/

variable {x : K}

theorem RangeAction.kind_of_taps {taps : TapTable K} (htaps : r.taps? = some taps) :
    r.kind = .pst taps := by
  unfold taps? at htaps
  split at htaps
  · next hkind => rw [hkind, Option.some.inj htaps]
  · cases htaps

theorem RangeAction.isPst_of_taps {taps : TapTable K} (htaps : r.taps? = some taps) :
    r.isPst = true := by
  rw [isPst, htaps]
  rfl

theorem RangeAction.isPst_of_no_taps (htaps : r.taps? = none) : r.isPst = false := by
  rw [isPst, htaps]
  rfl

namespace RangeAction

/-- The set-point of a phase shifter is the angle of the tap that it has. -/
theorem currentSetpoint_eq_ok_iff_of_taps {taps : TapTable K} (htaps : r.taps? = some taps) :
    r.currentSetpoint n = .ok x ↔ ∃ tap, n.taps[r.element]? = some tap ∧ taps[tap]? = some x := by
  unfold currentSetpoint angleOf
  rw [kind_of_taps htaps, htaps]
  simp only [Network.tap, Option.bind_some]
  cases n.taps[r.element]? with
  | none => simp
  | some tap => cases htap : taps[tap]? <;> simp [htap]

/-- Another set-point is the one that the element has. -/
theorem currentSetpoint_eq_ok_iff_of_no_taps (htaps : r.taps? = none) :
    r.currentSetpoint n = .ok x ↔ n.setpoints[r.element]? = some x := by
  unfold currentSetpoint
  cases hkind : r.kind with
  | pst taps => simp [taps?, hkind] at htaps
  | hvdc | injection =>
    simp only [Network.setpoint]
    cases n.setpoints[r.element]? <;> simp

end RangeAction

/-- Two networks have the same tap or set-point for a range action. -/
def LinearNetwork.AgreesAt (r : RangeAction K) (n m : LinearNetwork K) : Prop :=
  if r.isPst then n.taps[r.element]? = m.taps[r.element]?
  else n.setpoints[r.element]? = m.setpoints[r.element]?

namespace LinearNetwork.AgreesAt

theorem refl (r : RangeAction K) (n : LinearNetwork K) : AgreesAt r n n := by
  unfold AgreesAt
  split <;> rfl

theorem trans {k : LinearNetwork K} (h : AgreesAt r n m) (hk : AgreesAt r m k) :
    AgreesAt r n k := by
  unfold AgreesAt at h hk ⊢
  split
  · next hpst =>
    rw [if_pos hpst] at h hk
    exact h.trans hk
  · next hpst =>
    rw [if_neg hpst] at h hk
    exact h.trans hk

/-- Networks that agree at a range action show the same set-point of it. -/
theorem currentSetpoint_eq_ok_iff (h : AgreesAt r n m) :
    r.currentSetpoint n = .ok x ↔ r.currentSetpoint m = .ok x := by
  unfold AgreesAt at h
  cases htaps : r.taps? with
  | some taps =>
    rw [if_pos (RangeAction.isPst_of_taps htaps)] at h
    rw [RangeAction.currentSetpoint_eq_ok_iff_of_taps htaps,
      RangeAction.currentSetpoint_eq_ok_iff_of_taps htaps, h]
  | none =>
    rw [if_neg (Bool.eq_false_iff.mp (RangeAction.isPst_of_no_taps htaps))] at h
    rw [RangeAction.currentSetpoint_eq_ok_iff_of_no_taps htaps,
      RangeAction.currentSetpoint_eq_ok_iff_of_no_taps htaps, h]

end LinearNetwork.AgreesAt

/-- Networks that agree off some range actions agree at every one on another element. -/
theorem LinearNetwork.AgreesOff.agreesAt (h : AgreesOff rs n m)
    (helement : ∀ other ∈ rs, other.element ≠ r.element) : AgreesAt r n m := by
  unfold AgreesAt
  split
  · exact h.taps r.element fun other hother _ => helement other hother
  · exact h.setpoints r.element fun other hother _ => helement other hother

/-! ### Applying set-points -/

/-- A network accepts the taps of its table of a phase shifter. -/
theorem LinearNetwork.setTap?_eq_some_iff {element : String} {tap : Int} :
    n.setTap? element tap = some n' ↔ ∃ table, n.model.tapTables[element]? = some table ∧
      table.contains tap = true ∧ n' = { n with taps := n.taps.insert element tap } := by
  unfold setTap?
  cases n.model.tapTables[element]? with
  | none => simp
  | some table =>
    dsimp only
    constructor
    · intro h
      split at h
      · next hcontains => exact ⟨table, rfl, hcontains, (Option.some.inj h).symm⟩
      · cases h
    · rintro ⟨_, heq, hcontains, rfl⟩
      obtain rfl := Option.some.inj heq
      rw [if_pos hcontains]

variable [Scalar K]

namespace RangeAction

/-- Applying a set-point of a phase shifter writes the nearest tap, which the network must have. -/
theorem apply_eq_ok_iff_of_taps {taps : TapTable K} (htaps : r.taps? = some taps) :
    r.apply n x = .ok n' ↔ ∃ tap table, r.tapOf x = .ok tap ∧
      n.model.tapTables[r.element]? = some table ∧ table.contains tap = true ∧
        n' = { n with taps := n.taps.insert r.element tap } := by
  unfold apply
  rw [kind_of_taps htaps]
  cases htap : r.tapOf x with
  | error fault => simp [bind, Except.bind]
  | ok tap =>
    have hset : Network.setTap? n r.element tap = n.setTap? r.element tap := rfl
    simp only [bind, Except.bind, pure, Except.pure, hset]
    constructor
    · intro h
      split at h
      · next hchanged =>
        obtain rfl := Except.ok.inj h
        obtain ⟨table, hchanged⟩ := LinearNetwork.setTap?_eq_some_iff.mp hchanged
        exact ⟨tap, table, rfl, hchanged⟩
      · cases h
    · rintro ⟨_, table, heq, hchanged⟩
      obtain rfl := Except.ok.inj heq
      rw [LinearNetwork.setTap?_eq_some_iff.mpr ⟨table, hchanged⟩]

/-- Applying another set-point writes it, if the network has the element. -/
theorem apply_eq_ok_iff_of_no_taps (htaps : r.taps? = none) :
    r.apply n x = .ok n' ↔ n.setpoints.contains r.element = true ∧
      n' = { n with setpoints := n.setpoints.insert r.element x } := by
  unfold apply
  cases hkind : r.kind with
  | pst taps => simp [taps?, hkind] at htaps
  | hvdc | injection =>
    simp only [bind, Except.bind, pure, Except.pure, Network.setSetpoint?, Table.replace?]
    by_cases hcontains : n.setpoints.contains r.element
    · simp [hcontains, eq_comm]
    · simp [hcontains]

end RangeAction

/-- A network that has a set-point stays as it is when the set-point is applied. -/
theorem RangeAction.apply_eq_self_of_no_taps (htaps : r.taps? = none)
    (hpresent : n.setpoints[r.element]? = some x) : r.apply n x = .ok n := by
  refine (apply_eq_ok_iff_of_no_taps htaps).mpr ⟨?_, ?_⟩
  · rw [Std.ExtTreeMap.contains_eq_isSome_getElem?, hpresent]
    rfl
  · rw [Table.insert_eq_self hpresent]

/-- Applying an activation succeeds when its first range action does, and then the others do. -/
theorem Activation.applyAll_cons_eq_ok_iff {N : Type} [Network N K] {a : Activation K} {n n' : N} :
    a.applyAll (r :: rs) n = (n', .ok ()) ↔ ∃ x changed, a.get r.id = .ok x ∧
      r.apply n x = .ok changed ∧ a.applyAll rs changed = (n', .ok ()) := by
  rw [applyAll]
  cases hx : a.get r.id with
  | error fault => simp [bind, Except.bind]
  | ok x =>
    cases happly : r.apply n x with
    | error fault => simp [happly, bind, Except.bind]
    | ok changed => simp [happly, bind, Except.bind]

namespace LinearNetwork

/-- Applying a set-point keeps all off the element of the range action. -/
theorem agreesOff_of_apply (hr : r ∈ rs) (h : r.apply n x = .ok n') : AgreesOff rs n n' := by
  cases htaps : r.taps? with
  | some taps =>
    obtain ⟨tap, _, -, -, -, rfl⟩ := (RangeAction.apply_eq_ok_iff_of_taps htaps).mp h
    exact agreesOff_insert_tap hr (RangeAction.isPst_of_taps htaps) tap
  | none =>
    obtain ⟨hknown, rfl⟩ := (RangeAction.apply_eq_ok_iff_of_no_taps htaps).mp h
    exact agreesOff_insert_setpoint hr (RangeAction.isPst_of_no_taps htaps) hknown x

/-- Applying set-points keeps all off the elements of the range actions. -/
theorem agreesOff_of_applyAll {a : Activation K} {chosen : List (RangeAction K)}
    (hchosen : ∀ r ∈ chosen, r ∈ rs) (h : a.applyAll chosen n = (n', .ok ())) :
    AgreesOff rs n n' := by
  induction chosen generalizing n with
  | nil =>
    obtain ⟨rfl, -⟩ := Prod.mk.inj h
    exact .refl n
  | cons r rest ih =>
    obtain ⟨hr, hrest⟩ := List.forall_mem_cons.mp hchosen
    obtain ⟨x, changed, -, happly, hothers⟩ := Activation.applyAll_cons_eq_ok_iff.mp h
    exact (agreesOff_of_apply hr happly).trans (ih hrest hothers)

/-- A set-point that can be applied can be applied to a network that agrees off its element, and
then the networks agree there too. -/
theorem AgreesOff.apply (h : AgreesOff (r :: rs) n m) (happly : r.apply n x = .ok n') :
    ∃ m', r.apply m x = .ok m' ∧ AgreesOff rs n' m' := by
  cases htaps : r.taps? with
  | some taps =>
    obtain ⟨tap, table, htap, htable, hcontains, rfl⟩ :=
      (RangeAction.apply_eq_ok_iff_of_taps htaps).mp happly
    rw [h.model] at htable
    refine ⟨_, (RangeAction.apply_eq_ok_iff_of_taps htaps).mpr
      ⟨tap, table, htap, htable, hcontains, rfl⟩, h.insert_tap ?_ tap⟩
    rintro other (_ | ⟨_, hother⟩) hnot
    · exact absurd ⟨RangeAction.isPst_of_taps htaps, rfl⟩ hnot
    · exact hother
  | none =>
    obtain ⟨hknown, rfl⟩ := (RangeAction.apply_eq_ok_iff_of_no_taps htaps).mp happly
    rw [h.known] at hknown
    refine ⟨_, (RangeAction.apply_eq_ok_iff_of_no_taps htaps).mpr ⟨hknown, rfl⟩,
      h.insert_setpoint ?_ x⟩
    rintro other (_ | ⟨_, hother⟩) hnot
    · exact absurd ⟨RangeAction.isPst_of_no_taps htaps, rfl⟩ hnot
    · exact hother

/-- Applying set-points to networks that agree off the elements of the range actions leads to the
same network. -/
theorem AgreesOff.applyAll_eq {a : Activation K} (h : AgreesOff rs n m)
    (happly : a.applyAll rs n = (n', .ok ())) : a.applyAll rs m = (n', .ok ()) := by
  induction rs generalizing n m with
  | nil =>
    obtain rfl := h.eq
    exact happly
  | cons r rs ih =>
    obtain ⟨x, changed, hx, happlied, hothers⟩ := Activation.applyAll_cons_eq_ok_iff.mp happly
    obtain ⟨changed', happlied', hagrees⟩ := h.apply happlied
    exact Activation.applyAll_cons_eq_ok_iff.mpr
      ⟨x, changed', hx, happlied', ih hagrees hothers⟩

end LinearNetwork

end GridRelief
