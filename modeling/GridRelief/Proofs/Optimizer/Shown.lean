import GridRelief.Proofs.Optimizer.BestPoint

/-!
# Set-points that a network shows

The set-points that a result names are kept apart from the network. A network shows them once they
have been applied, if those of phase shifters are angles of taps: then the tap that is nearest to
such an angle has it. Rounded set-points are such, and so are those read off a network. So the
network shows the set-points of the best point after the rounds, except where nothing has been
applied and it did not show those of the start.

* `RangeAction.OnTap`: a set-point that a phase shifter can have.
* `LinearNetwork.Shows`: a network shows the set-point that an activation has.
* `LinearNetwork.shows_of_applyAll`: set-points that have been applied are shown.
* `LinearNetwork.eq_of_applyAll`: applying set-points that are shown changes nothing.
* `Optimizer.Rests.shows`, `Optimizer.Rests.computed`: what the rounds leave on the network.
-/

namespace GridRelief

variable {K σ : Type} {n n' : LinearNetwork K} {r : RangeAction K} {rs : List (RangeAction K)}
  {a : Activation K} {x : K}

/-! ### Angles of taps -/

namespace RangeAction

/-- A set-point that a phase shifter can have is the angle of a tap. -/
def OnTap (r : RangeAction K) (x : K) : Prop :=
  ∀ taps, r.taps? = some taps → ∃ tap : Int, taps[tap]? = some x

/-- No two taps of a phase shifter have the same angle. -/
def HasInjectiveTaps (r : RangeAction K) : Prop :=
  ∀ taps, r.taps? = some taps → ∀ (tap other : Int) angle,
    taps[tap]? = some angle → taps[other]? = some angle → tap = other

/-- A set-point that is read off a network is the angle of a tap. -/
theorem onTap_of_currentSetpoint (h : r.currentSetpoint n = .ok x) : r.OnTap x := by
  intro taps htaps
  obtain ⟨tap, -, htap⟩ := (currentSetpoint_eq_ok_iff_of_taps htaps).mp h
  exact ⟨tap, htap⟩

variable [ExactScalar K]

/-- A set-point that has been rounded is the angle of a tap. -/
theorem onTap_of_roundSetpoint {setpoint : K} (h : r.roundSetpoint setpoint = .ok x) :
    r.OnTap x := by
  intro taps htaps
  obtain ⟨tap, -, htap⟩ := exists_of_roundSetpoint htaps h
  exact ⟨tap, htap⟩

/-- The tap of an angle that some tap has is one that has it. -/
theorem getElem?_tapOf {taps : TapTable K} {tap : Int} (htaps : r.taps? = some taps)
    (hx : r.OnTap x) (h : r.tapOf x = .ok tap) : taps[tap]? = some x := by
  obtain ⟨other, hother⟩ := hx taps htaps
  obtain ⟨nearest, hnearest, hbest⟩ := exists_of_nearestTap (nearestTap_of_tapOf htaps h)
  have hclose := hbest _ (Std.ExtTreeMap.mem_toList_iff_getElem?_eq_some.mpr hother)
  rw [sub_self, abs_zero] at hclose
  obtain rfl := sub_eq_zero.mp (abs_nonpos_iff.mp hclose)
  exact Std.ExtTreeMap.mem_toList_iff_getElem?_eq_some.mp hnearest

/-- A set-point that has been applied is read back. -/
theorem currentSetpoint_of_apply (hx : r.OnTap x) (h : r.apply n x = .ok n') :
    r.currentSetpoint n' = .ok x := by
  cases htaps : r.taps? with
  | some taps =>
    obtain ⟨tap, table, htap, -, -, rfl⟩ := (apply_eq_ok_iff_of_taps htaps).mp h
    refine (currentSetpoint_eq_ok_iff_of_taps htaps).mpr ⟨tap, ?_, getElem?_tapOf htaps hx htap⟩
    exact Std.ExtTreeMap.getElem?_insert_self
  | none =>
    obtain ⟨-, rfl⟩ := (apply_eq_ok_iff_of_no_taps htaps).mp h
    exact (currentSetpoint_eq_ok_iff_of_no_taps htaps).mpr Std.ExtTreeMap.getElem?_insert_self

/-- Applying the set-point that is there changes nothing, if no two taps have the same angle. -/
theorem eq_of_apply (hr : r.HasInjectiveTaps) (hx : r.currentSetpoint n = .ok x)
    (h : r.apply n x = .ok n') : n' = n := by
  cases htaps : r.taps? with
  | some taps =>
    obtain ⟨present, hpresent, hangle⟩ := (currentSetpoint_eq_ok_iff_of_taps htaps).mp hx
    obtain ⟨tap, table, htap, -, -, rfl⟩ := (apply_eq_ok_iff_of_taps htaps).mp h
    obtain rfl := hr taps htaps tap present x
      (getElem?_tapOf htaps (onTap_of_currentSetpoint hx) htap) hangle
    rw [Table.insert_eq_self hpresent]
  | none =>
    obtain ⟨-, rfl⟩ := (apply_eq_ok_iff_of_no_taps htaps).mp h
    rw [Table.insert_eq_self ((currentSetpoint_eq_ok_iff_of_no_taps htaps).mp hx)]

end RangeAction

/-- The set-points of some range actions are known, and such as these can have. -/
def Activation.OnTaps (a : Activation K) (rs : List (RangeAction K)) : Prop :=
  ∀ r ∈ rs, ∃ x, a.get r.id = .ok x ∧ r.OnTap x

/-! ### Reading back -/

namespace LinearNetwork

/-- A network shows the set-point that an activation has for a range action. -/
def Shows (n : LinearNetwork K) (a : Activation K) (r : RangeAction K) : Prop :=
  ∃ x, a.get r.id = .ok x ∧ r.currentSetpoint n = .ok x

/-- A network shows what one shows that agrees with it at the range action. -/
theorem AgreesAt.shows (h : AgreesAt r n n') (hshows : n.Shows a r) : n'.Shows a r := by
  obtain ⟨x, hx, hcurrent⟩ := hshows
  exact ⟨x, hx, h.currentSetpoint_eq_ok_iff.mp hcurrent⟩

/-- Set-points that are shown are such as the range actions can have. -/
theorem onTaps_of_shows (h : ∀ r ∈ rs, n.Shows a r) : a.OnTaps rs := by
  intro r hr
  obtain ⟨x, hx, hcurrent⟩ := h r hr
  exact ⟨x, hx, RangeAction.onTap_of_currentSetpoint hcurrent⟩

variable [ExactScalar K]

/-- Set-points that have been applied to range actions on different elements are shown. -/
theorem shows_of_applyAll (helements : (rs.map RangeAction.element).Nodup) (ha : a.OnTaps rs)
    (h : a.applyAll rs n = (n', .ok ())) : ∀ r ∈ rs, n'.Shows a r := by
  induction rs generalizing n with
  | nil => simp
  | cons r rest ih =>
    rw [List.map_cons, List.nodup_cons] at helements
    obtain ⟨hfirst, hothers⟩ := helements
    obtain ⟨ha, hrest⟩ := List.forall_mem_cons.mp ha
    obtain ⟨x, changed, hx, happly, happlied⟩ := Activation.applyAll_cons_eq_ok_iff.mp h
    refine List.forall_mem_cons.mpr ⟨?_, ih hothers hrest happlied⟩
    -- The others have been applied after this one, and are on other elements.
    have hagrees : AgreesAt r changed n' := by
      refine (agreesOff_of_applyAll (fun _ h => h) happlied).agreesAt fun other hother heq => ?_
      exact hfirst (heq ▸ List.mem_map_of_mem hother)
    obtain ⟨_, hx', hontap⟩ := ha
    obtain rfl := Except.ok.inj (hx'.symm.trans hx)
    exact hagrees.shows ⟨_, hx, RangeAction.currentSetpoint_of_apply hontap happly⟩

/-- Applying set-points that are shown changes nothing. -/
theorem eq_of_applyAll (hinjective : ∀ r ∈ rs, r.HasInjectiveTaps)
    (hshows : ∀ r ∈ rs, n.Shows a r) (h : a.applyAll rs n = (n', .ok ())) : n' = n := by
  induction rs with
  | nil => exact (Prod.mk.inj h).1.symm
  | cons r rest ih =>
    obtain ⟨hr, hinjective⟩ := List.forall_mem_cons.mp hinjective
    obtain ⟨⟨x, hx, hcurrent⟩, hshows⟩ := List.forall_mem_cons.mp hshows
    obtain ⟨_, changed, hx', happly, happlied⟩ := Activation.applyAll_cons_eq_ok_iff.mp h
    obtain rfl := Except.ok.inj (hx.symm.trans hx')
    obtain rfl := RangeAction.eq_of_apply hr hcurrent happly
    exact ih hinjective hshows happlied

end LinearNetwork

/-! ### The rounds -/

namespace Optimizer

variable [ExactScalar K] {o : Optimizer K}

/-- The set-points that are chosen are such as the range actions can have. -/
theorem chooses_onTaps {N : Type} {services : Services N K σ}
    (hids : (o.rangeActions.map RangeAction.id).Nodup)
    (hbaseline : (Activation.ofReference o.formulation.baseline.setpoints).OnTaps o.rangeActions) :
    o.Chooses services (fun _ => True) fun a => a.OnTaps o.rangeActions := by
  refine ⟨by simp, by simp, by simp, by simp, fun p state a _ _ hrounded r hr => ?_⟩
  rcases LinearProblem.get_of_roundedActivation hids hrounded r hr with
    hkept | ⟨_, x, -, hx, hround⟩
  · obtain ⟨x, hx, hontap⟩ := hbaseline r hr
    rw [Activation.get_ofReference] at hx
    exact ⟨x, hkept.trans hx, hontap⟩
  · exact ⟨x, hx, RangeAction.onTap_of_roundSetpoint hround⟩

/-- From set-points that the range actions can have, the rounds come to such. -/
theorem onTaps_of_optimize {N : Type} [Network N K] {services : Services N K σ}
    (hids : (o.rangeActions.map RangeAction.id).Nodup)
    (hbaseline : (Activation.ofReference o.formulation.baseline.setpoints).OnTaps o.rangeActions)
    (hstart : o.start.activation.OnTaps o.rangeActions) {before after : Session N σ}
    {result : Optimized K} (h : Succeeds (o.optimize services) before result after) :
    result.point.activation.OnTaps o.rangeActions := by
  refine (chooses_onTaps hids hbaseline).optimize_induction
    (Q := fun point _ => point.activation.OnTaps o.rangeActions) ?_ hstart h
  intro _ reached _ hreached _
  exact hreached

namespace Rests

variable {services : Services (LinearNetwork K) K σ} {origin network : LinearNetwork K}
  {point : Linearization K}

/-- A network at a point shows a set-point of it, if that of the start was shown before. -/
theorem shows (h : o.Rests services origin point network)
    (helements : (o.rangeActions.map RangeAction.element).Nodup)
    (hpoint : point.activation.OnTaps o.rangeActions) (hr : r ∈ o.rangeActions)
    (horigin : origin.Shows o.start.activation r) : network.Shows point.activation r := by
  cases h with
  | start => exact horigin
  | back hback => exact LinearNetwork.shows_of_applyAll helements hpoint hback r hr
  | reached happly _ => exact LinearNetwork.shows_of_applyAll helements hpoint happly r hr

/-- A network at a point has the flows of it, if the set-points of the start were shown before and
the network had their flows. -/
theorem computed (h : o.Rests services origin point network)
    (hinjective : ∀ r ∈ o.rangeActions, r.HasInjectiveTaps)
    (horigin : ∀ r ∈ o.rangeActions, origin.Shows o.start.activation r)
    (hstart : ∃ state,
      (services.compute origin state).1 = ⟨o.start.flows, o.start.sensitivities⟩) :
    ∃ state, (services.compute network state).1 = ⟨point.flows, point.sensitivities⟩ := by
  cases h with
  | start => exact hstart
  | back hback =>
    obtain rfl := LinearNetwork.eq_of_applyAll hinjective horigin hback
    exact hstart
  | reached _ hcompute => exact ⟨_, hcompute⟩

end Rests

end Optimizer

end GridRelief
