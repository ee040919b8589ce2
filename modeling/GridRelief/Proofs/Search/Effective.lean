import GridRelief.Proofs.Compatibility
import GridRelief.Proofs.Search.Reported

/-!
# What is rejected for changing nothing

The last filter rejects a combination whose actions change nothing on a network on which the network
actions of the leaf have been applied. Their parts would change the network of the leaf too, unless
the range actions make a difference: the network that the filter looks at has them where they were
before any action. So what is rejected may change the element of a range action, if none of the
leaf's own network actions drives it, and nothing else.

* `LinearNetwork.IsClose`: two networks have the same switches and taps, and set-points that differ
  by no more than what counts as the same.
* `LinearNetwork.AgreesOff.foldlM`: the same changes of networks that agree off some range actions
  leave them so, off those that no change drives.
* `RelevanceFilter.ineffective_iff`: when a rejected combination has no effect on the network of the
  leaf either, and that this network stays as it is then.
* `OneShift.rejected_with_effect`: a combination that is rejected and has an effect.
-/

namespace GridRelief

/-- An action has no effect if no part of it has one. -/
theorem NetworkAction.hasImpact_eq_false_iff {K N : Type} [Scalar K] [Network N K]
    {a : NetworkAction K} {n : N} :
    a.hasImpact n = false ↔ ∀ part ∈ a.parts, part.hasImpact n = false := by
  simp [hasImpact]

/-! ### The same changes of networks that agree -/

namespace LinearNetwork

section Changes

variable {K : Type} {n m n' : LinearNetwork K} {rs rest : List (RangeAction K)}
  {part : ElementaryAction K} {parts : List (ElementaryAction K)} {r : RangeAction K}

/-- Networks that agree off some range actions accept the same changes. -/
theorem AgreesOff.accepts_eq (h : AgreesOff rs n m) : n.accepts part = m.accepts part := by
  cases part with
  | topology element connect => simp only [accepts, h.connected]
  | pstSetpoint element tap => simp only [accepts, h.model]
  | injectionSetpoint element setpoint => simp only [accepts, h.known element]

/-- After the same change, networks agree off the range actions that it does not drive. -/
theorem AgreesOff.write (h : AgreesOff rs n m) (hrest : ∀ r ∈ rs, ¬part.Drives r → r ∈ rest) :
    AgreesOff rest (n.write part) (m.write part) := by
  cases part with
  | topology element connect =>
    have hmore : AgreesOff rest n m := h.mono fun r hr => hrest r hr fun hdrives => hdrives
    exact { hmore with connected := by rw [LinearNetwork.write, LinearNetwork.write, h.connected] }
  | pstSetpoint element tap => exact h.insert_tap hrest tap
  | injectionSetpoint element setpoint => exact h.insert_setpoint hrest setpoint

/-- Changes that one network accepts are accepted by one that agrees off some range actions, and
leave the networks so, off those that none of the changes drives. -/
theorem AgreesOff.foldlM (h : AgreesOff rs n m)
    (hrest : ∀ r ∈ rs, (∀ part ∈ parts, ¬part.Drives r) → r ∈ rest)
    (hparts : parts.foldlM ElementaryAction.applyTo? n = some n') :
    ∃ m', parts.foldlM ElementaryAction.applyTo? m = some m' ∧ AgreesOff rest n' m' := by
  induction parts generalizing n m rs with
  | nil =>
    obtain rfl := Option.some.inj hparts
    exact ⟨m, rfl, h.mono fun r hr => hrest r hr (by simp)⟩
  | cons part parts ih =>
    rw [List.foldlM_cons] at hparts
    obtain ⟨changed, hchanged, hothers⟩ := Option.bind_eq_some_iff.mp hparts
    rw [applyTo?_eq] at hchanged
    split at hchanged
    · next haccepts =>
      obtain rfl := Option.some.inj hchanged
      have hwritten : AgreesOff (rs.filter fun r => !decide (part.Drives r)) (n.write part)
          (m.write part) := by
        apply h.write
        intro r hr hdrives
        simp [hr, hdrives]
      obtain ⟨m', hm', hagrees⟩ := ih hwritten (fun r hr hnone => by
        rw [List.mem_filter, Bool.not_eq_true', decide_eq_false_iff_not] at hr
        exact hrest r hr.1 (List.forall_mem_cons.mpr ⟨hr.2, hnone⟩)) hothers
      refine ⟨m', ?_, hagrees⟩
      rw [List.foldlM_cons, applyTo?_eq, ← h.accepts_eq, if_pos haccepts]
      exact hm'
    · cases hchanged

/-- A change has an effect on both networks or on neither, if it drives no range action off which
they agree. -/
theorem AgreesOff.hasImpact_eq [Scalar K] (h : AgreesOff rs n m)
    (hdrives : ∀ r ∈ rs, ¬part.Drives r) : part.hasImpact n = part.hasImpact m := by
  cases part with
  | topology element connect =>
    show (n.connected[element]? != some connect) = (m.connected[element]? != some connect)
    rw [h.connected]
  | pstSetpoint element tap =>
    have htap : n.taps[element]? = m.taps[element]? :=
      h.taps element fun r hr hpst heq => hdrives r hr ⟨hpst, heq.symm⟩
    show (n.taps[element]? != some tap) = (m.taps[element]? != some tap)
    rw [htap]
  | injectionSetpoint element setpoint =>
    have hsetpoint : n.setpoints[element]? = m.setpoints[element]? :=
      h.setpoints element fun r hr hpst heq => hdrives r hr ⟨hpst, heq.symm⟩
    simp only [ElementaryAction.hasImpact, Network.setpoint, hsetpoint]

/-- A change that drives a range action has an effect on both of two networks that have it at the
same set-point, or on neither. -/
theorem AgreesAt.hasImpact_eq [Scalar K] (h : AgreesAt r n m) (hdrives : part.Drives r) :
    part.hasImpact n = part.hasImpact m := by
  cases part with
  | topology element connect => exact absurd hdrives not_false
  | pstSetpoint element tap =>
    obtain ⟨hpst, rfl⟩ := hdrives
    rw [AgreesAt, if_pos hpst] at h
    show (n.taps[r.element]? != some tap) = (m.taps[r.element]? != some tap)
    rw [h]
  | injectionSetpoint element setpoint =>
    obtain ⟨hpst, rfl⟩ := hdrives
    rw [AgreesAt, if_neg (Bool.eq_false_iff.mp hpst)] at h
    simp only [ElementaryAction.hasImpact, Network.setpoint, h]

end Changes

/-! ### Networks that differ by what counts as the same -/

section Close

variable {K : Type} [ExactScalar K] {n m : LinearNetwork K}

/-- Two networks have the same switches, taps and elements with set-points, and no set-points that
differ by more than what counts as the same. -/
structure IsClose (n m : LinearNetwork K) : Prop where
  connected : m.connected = n.connected
  taps : m.taps = n.taps
  known : ∀ element : String, m.setpoints.contains element = n.setpoints.contains element
  setpoints : ∀ (element : String) (x y : K), n.setpoints[element]? = some x →
    m.setpoints[element]? = some y → |y - x| ≤ ElementaryAction.impactTolerance

theorem impactTolerance_nonneg : (0 : K) ≤ ElementaryAction.impactTolerance := by
  rw [ElementaryAction.impactTolerance, ExactScalar.ofDecimal_eq]
  positivity

namespace IsClose

theorem refl (n : LinearNetwork K) : n.IsClose n := by
  refine ⟨rfl, rfl, fun _ => rfl, fun element x y hx hy => ?_⟩
  obtain rfl := Option.some.inj (hx.symm.trans hy)
  rw [sub_self, abs_zero]
  exact impactTolerance_nonneg

/-- A change without effect on a network, made on one that is close to it, leaves them close. -/
theorem write {part : ElementaryAction K} (h : n.IsClose m) (himpact : part.hasImpact n = false) :
    n.IsClose (m.write part) := by
  cases part with
  | topology element connect =>
    have hconnected : n.connected[element]? = some connect := by
      simpa [ElementaryAction.hasImpact, Network.isConnected] using himpact
    refine ⟨?_, h.taps, h.known, h.setpoints⟩
    show m.connected.insert element connect = n.connected
    rw [h.connected, Table.insert_eq_self hconnected]
  | pstSetpoint element tap =>
    have htap : n.taps[element]? = some tap := by
      simpa [ElementaryAction.hasImpact, Network.tap] using himpact
    refine ⟨h.connected, ?_, h.known, h.setpoints⟩
    show m.taps.insert element tap = n.taps
    rw [h.taps, Table.insert_eq_self htap]
  | injectionSetpoint element setpoint =>
    cases hcurrent : n.setpoints[element]? with
    | none => simp [ElementaryAction.hasImpact, Network.setpoint, hcurrent] at himpact
    | some current =>
      have hnear : |current - setpoint| ≤ ElementaryAction.impactTolerance := by
        simpa [ElementaryAction.hasImpact, Network.setpoint, hcurrent, ExactScalar.abs_eq]
          using himpact
      refine ⟨h.connected, h.taps, fun other => ?_, fun other x y hx hy => ?_⟩
      · show (m.setpoints.insert element setpoint).contains other = _
        rw [Std.ExtTreeMap.contains_insert, h.known other]
        by_cases hsame : element = other
        · subst hsame
          simp [Std.ExtTreeMap.contains_eq_isSome_getElem?, hcurrent]
        · simp [hsame]
      · change (m.setpoints.insert element setpoint)[other]? = some y at hy
        rw [Std.ExtTreeMap.getElem?_insert] at hy
        split at hy
        · next hsame =>
          obtain rfl := Std.LawfulEqOrd.compare_eq_iff_eq.mp hsame
          obtain rfl := Option.some.inj hy
          obtain rfl := Option.some.inj (hcurrent.symm.trans hx)
          rwa [abs_sub_comm]
        · exact h.setpoints other x y hx hy

/-- Changes without effect leave networks close, also those that are made before one is refused. -/
theorem applyParts {parts : List (ElementaryAction K)} (h : n.IsClose m)
    (himpact : ∀ part ∈ parts, part.hasImpact n = false) :
    n.IsClose (NetworkAction.applyParts parts m).1 := by
  induction parts generalizing m with
  | nil => exact h
  | cons part rest ih =>
    obtain ⟨hpart, hrest⟩ := List.forall_mem_cons.mp himpact
    rw [NetworkAction.applyParts, applyTo?_eq]
    by_cases haccepts : m.accepts part = true
    · rw [if_pos haccepts]
      exact ih (h.write hpart) hrest
    · rw [if_neg haccepts]
      exact h

/-- Network actions without effect leave networks close. -/
theorem applyActions {actions : List (NetworkAction K)} (h : n.IsClose m)
    (himpact : ∀ a ∈ actions, a.hasImpact n = false) :
    n.IsClose (Leaf.applyActions actions m).1 := by
  induction actions generalizing m with
  | nil => exact h
  | cons action rest ih =>
    obtain ⟨haction, hrest⟩ := List.forall_mem_cons.mp himpact
    have hchanged : n.IsClose (action.apply m).1 :=
      h.applyParts (NetworkAction.hasImpact_eq_false_iff.mp haction)
    rw [Leaf.applyActions]
    split
    · next changed heq =>
      rw [heq] at hchanged
      exact ih hchanged hrest
    · next changed heq =>
      rw [heq] at hchanged
      exact hchanged

end IsClose

end Close

end LinearNetwork

/-! ### What the filter looks at -/

namespace RelevanceFilter

/-- Actions that a network accepts are applied by the replay as they are by a leaf. -/
theorem replay_eq {K N : Type} [Network N K] {set : ActionSet K} {n m : N}
    (h : Leaf.applyActions set.actions n = (m, .ok ())) : replay n set = m := by
  unfold replay
  generalize set.actions = actions at h
  induction actions generalizing n with
  | nil => exact (Prod.mk.inj h).1
  | cons action rest ih =>
    rw [Leaf.applyActions] at h
    split at h
    · next changed heq =>
      rw [List.foldl_cons, heq]
      exact ih h
    · cases (Prod.mk.inj h).2

/-- What is rejected has no effect where the filter looks. -/
theorem effective_eq_reject_iff {K N : Type} [Scalar K] [Network N K] {s : Situation N K}
    {below : LeafResult K} {c : Combination K} :
    (effective s).judge below c = .reject ↔
      ∀ a ∈ c.actions.actions, ∀ part ∈ a.parts,
        part.hasImpact (replay s.network below.applied) = false := by
  rw [effective, Filter.keeping, Verdict.of_eq_reject_iff, List.any_eq_false]
  simp only [Bool.not_eq_true, NetworkAction.hasImpact_eq_false_iff]

variable {K : Type} [ExactScalar K] {s : Situation (LinearNetwork K) K} {below : LeafResult K}
  {c : Combination K} {start : Activation K} {moved n : LinearNetwork K}

/-- The network that the filter looks at agrees with the one of a leaf off the range actions that
no network action of the leaf drives, and there the leaf has the set-points that it starts from. -/
theorem agreesOff_replay
    (hmoved : start.applyAll s.perimeter.rangeActions s.network = (moved, .ok ()))
    (happlied : Leaf.applyActions below.applied.actions moved = (n, .ok ())) :
    LinearNetwork.AgreesOff (s.perimeter.rangeActions.filter fun r => !below.applied.Drives r)
      n (replay s.network below.applied) := by
  have hsame : LinearNetwork.AgreesOff s.perimeter.rangeActions moved s.network :=
    (LinearNetwork.agreesOff_of_applyAll (fun r hr => hr) hmoved).symm
  have hrest : ∀ r ∈ s.perimeter.rangeActions,
      (∀ part ∈ below.applied.actions.flatMap NetworkAction.parts, ¬part.Drives r) →
        r ∈ s.perimeter.rangeActions.filter fun r => !below.applied.Drives r := by
    intro r hr hnone
    refine List.mem_filter.mpr ⟨hr, ?_⟩
    simp only [Bool.not_eq_true', decide_eq_false_iff_not]
    rintro ⟨a, ha, part, hpart, hdrives⟩
    exact hnone part (List.mem_flatMap.mpr ⟨a, ha, hpart⟩) hdrives
  obtain ⟨m, hm, hagrees⟩ := hsame.foldlM hrest (Leaf.applyActions_eq_iff.mp happlied)
  rwa [replay_eq (Leaf.applyActions_eq_iff.mpr hm)]

/-- A combination that is rejected for changing nothing, on top of a leaf that starts from some
set-points: its actions have no effect on the network of the leaf either just when they have none on
the range actions where the set-points have been applied, apart from those that the network actions
of the leaf drive. Then applying them leaves all switches and taps as they are, and changes no
set-point by more than what counts as the same. -/
theorem ineffective_iff (hreject : (effective s).judge below c = .reject)
    (hmoved : start.applyAll s.perimeter.rangeActions s.network = (moved, .ok ()))
    (happlied : Leaf.applyActions below.applied.actions moved = (n, .ok ())) :
    ((∀ a ∈ c.actions.actions, a.hasImpact n = false) ↔
      ∀ r ∈ s.perimeter.rangeActions, ¬below.applied.Drives r →
        ∀ a ∈ c.actions.actions, ∀ part ∈ a.parts, part.Drives r →
          part.hasImpact moved = false) ∧
    ((∀ a ∈ c.actions.actions, a.hasImpact n = false) →
      n.IsClose (Leaf.applyActions c.actions.actions n).1) := by
  rw [effective_eq_reject_iff] at hreject
  have hagrees := agreesOff_replay hmoved happlied
  -- where no network action of the leaf drives a range action, the leaf has its set-point
  have hstart : ∀ r, ¬below.applied.Drives r → LinearNetwork.AgreesAt r moved n := by
    intro r hr
    apply LinearNetwork.agreesAt_of_applyActions _ happlied
    exact fun a ha hdrives => hr ⟨a, ha, hdrives⟩
  refine ⟨⟨fun hnone r _ hfree a ha part hpart hdrives => ?_, fun hnone a ha => ?_⟩,
    (LinearNetwork.IsClose.refl n).applyActions⟩
  · rw [(hstart r hfree).hasImpact_eq hdrives]
    exact NetworkAction.hasImpact_eq_false_iff.mp (hnone a ha) part hpart
  · apply NetworkAction.hasImpact_eq_false_iff.mpr
    intro part hpart
    by_cases hfree : ∃ r ∈ s.perimeter.rangeActions, ¬below.applied.Drives r ∧ part.Drives r
    · obtain ⟨r, hr, hfree, hdrives⟩ := hfree
      rw [← (hstart r hfree).hasImpact_eq hdrives]
      exact hnone r hr hfree a ha part hpart hdrives
    · rw [hagrees.hasImpact_eq]
      · exact hreject a ha part hpart
      · intro r hr hdrives
        rw [List.mem_filter, Bool.not_eq_true', decide_eq_false_iff_not] at hr
        exact hfree ⟨r, hr.1, hr.2, hdrives⟩

end RelevanceFilter

/-! ### A set-point that is set again -/

namespace OneShift

/-- The leaf of a network action that sets the injection to -20 MW after it has been shifted to
-15 MW. Another one that sets it to almost the same value is rejected, and has no effect. -/
theorem ineffective_on_driven_element :
    let s := actingSearch (setUnit (-20))
    let nudge : Combination ℚ :=
      .single { id := "nudge", parts := [.injectionSetpoint "unit" (-200000001 / 10000000)] }
    ∃ leaf below moved n,
      s.Finishes (proposing [-15, 15, 497, 303]) leaf (.ok ()) ∧ leaf.result = .ok below ∧
      (RelevanceFilter.effective s.situation).judge below nudge = .reject ∧
      below.point.activation.applyAll s.situation.perimeter.rangeActions s.situation.network =
        (moved, .ok ()) ∧
      Leaf.applyActions below.applied.actions moved = (n, .ok ()) ∧
      n.setpoints.toList = [("unit", -20)] ∧
      n.IsClose (Leaf.applyActions nudge.actions.actions n).1 := by
  intro s nudge
  let movedOf (below : LeafResult ℚ) :=
    below.point.activation.applyAll s.situation.perimeter.rangeActions s.situation.network
  let appliedOf (below : LeafResult ℚ) :=
    Leaf.applyActions below.applied.actions (movedOf below).1
  obtain ⟨leaf, hleaf, hany⟩ := s.exists_finishes_of_any (proposing [-15, 15, 497, 303])
    (fun leaf => leaf.result.toOption.any fun below => below.applied.Drives shift &&
      (RelevanceFilter.effective s.situation).judge below nudge == .reject &&
      (movedOf below).2.isOk && (appliedOf below).2.isOk &&
      (appliedOf below).1.setpoints.toList == [("unit", -20)])
    turns () () (by decide +kernel)
  obtain ⟨below, hbelow, htest⟩ := exists_ok_of_any hany
  simp only [Bool.and_eq_true, beq_iff_eq, decide_eq_true_eq] at htest
  obtain ⟨⟨⟨⟨hdrives, hreject⟩, hmoved⟩, happlied⟩, hunit⟩ := htest
  have hmoved := eq_ok_of_isOk hmoved
  have happlied := eq_ok_of_isOk happlied
  obtain ⟨hiff, hclose⟩ := RelevanceFilter.ineffective_iff hreject hmoved happlied
  refine ⟨leaf, below, _, _, hleaf, hbelow, hreject, hmoved, happlied, hunit, ?_⟩
  apply hclose
  apply hiff.mpr
  intro r hr hfree
  obtain rfl : r = shift := List.mem_singleton.mp hr
  exact absurd hdrives hfree

/-- The root has shifted the injection to -15 MW. The network action that sets it back to zero
is rejected, as it would change nothing on the network before any action. -/
theorem rejected_with_effect :
    ¬ ∀ (s : Search (LinearNetwork ℚ) ℚ) (services : Services (LinearNetwork ℚ) ℚ Unit)
        (below : LeafResult ℚ) (c : Combination ℚ) (moved n : LinearNetwork ℚ),
      (s.root services ()).1.finalize.result? = some below →
      c ∈ s.bloom.offered s.situation.perimeter.networkActions →
      (RelevanceFilter.effective s.situation).judge below c = .reject →
      below.point.activation.applyAll s.situation.perimeter.rangeActions s.situation.network =
        (moved, .ok ()) →
      Leaf.applyActions below.applied.actions moved = (n, .ok ()) →
      n.IsClose (Leaf.applyActions c.actions.actions n).1 := by
  intro h
  let s := actingSearch (setUnit 0)
  let movedOf (below : LeafResult ℚ) :=
    below.point.activation.applyAll s.situation.perimeter.rangeActions s.situation.network
  let back : Combination ℚ := .single (setUnit 0)
  have htest : ((s.root (proposing [-15, 15, 497, 303]) ()).1.finalize.result?.any fun below =>
      (RelevanceFilter.effective s.situation).judge below back == .reject &&
      (movedOf below).2.isOk &&
      (Leaf.applyActions below.applied.actions (movedOf below).1).2.isOk &&
      (Leaf.applyActions below.applied.actions (movedOf below).1).1.setpoints["unit"]? ==
        some (-15) &&
      (Leaf.applyActions back.actions.actions (Leaf.applyActions below.applied.actions
        (movedOf below).1).1).1.setpoints["unit"]? == some 0) = true := by
    decide +kernel
  obtain ⟨below, hbelow, htest⟩ := Option.any_eq_true _ _ |>.mp htest
  simp only [Bool.and_eq_true, beq_iff_eq] at htest
  obtain ⟨⟨⟨⟨hreject, hmoved⟩, happlied⟩, hbefore⟩, hafter⟩ := htest
  have hoffered : back ∈ s.bloom.offered s.situation.perimeter.networkActions :=
    Bloom.mem_offered.mpr (.inr ⟨setUnit 0, List.mem_cons_self, rfl⟩)
  have hclose := h s _ below back _ _ hbelow hoffered hreject (eq_ok_of_isOk hmoved)
    (eq_ok_of_isOk happlied)
  have hnear := hclose.setpoints "unit" _ _ hbefore hafter
  exact absurd hnear (by decide +kernel)

end OneShift

end GridRelief
