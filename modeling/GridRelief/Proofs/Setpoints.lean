import Mathlib.Order.Bounds.Basic
import GridRelief.Proofs.Optimizer.Ranges
import GridRelief.Proofs.Optimizer.Shown

/-!
# Set-points that are applied and read back

A set-point that is applied to a network is read back from it: as it was, or for a phase shifter as
the angle of the nearest tap. Nothing else on the network changes, and applying what is read back
changes nothing more. A set-point that cannot be applied leaves the network as it is. Tables of taps
are arbitrary here: angles need not rise with the taps, there may be gaps between these, and several
may have one angle. Of several nearest taps the lowest is chosen.

* `RangeAction.IsNearest`: a tap is the lowest of those whose angles are nearest to an angle.
* `RangeAction.isNearest_of_tapOf`: the tap of an angle is.
* `RangeAction.exists_tapOf_iff_near`: the angles that have a tap.
* `RangeAction.applied_and_read_back`: applying, reading back and applying again.
-/

namespace GridRelief

variable {K : Type} [ExactScalar K] {n n' : LinearNetwork K} {r : RangeAction K} {x y : K}
  {taps : TapTable K} {tap : Int} {angle : K}

namespace RangeAction

/-! ### Nearest taps -/

/-- A tap has an angle, no tap has one that is nearer to another angle, and no lower tap has one
that is as near. -/
structure IsNearest (taps : TapTable K) (x : K) (tap : Int) (angle : K) : Prop where
  angle_eq : taps[tap]? = some angle
  le : ∀ (other : Int) a, taps[other]? = some a → |angle - x| ≤ |a - x|
  lt : ∀ (other : Int) a, taps[other]? = some a → other < tap → |angle - x| < |a - x|

/-- The tap of an angle is the lowest nearest one. -/
theorem isNearest_of_tapOf (htaps : r.taps? = some taps) (h : r.tapOf x = .ok tap) :
    ∃ angle, IsNearest taps x tap angle := by
  obtain ⟨before, angle, later, hentries, hbefore, hlater⟩ :=
    exists_append_of_nearestTap (nearestTap_of_tapOf htaps h)
  -- the entries are in the order of their taps
  have hsorted : (before ++ (tap, angle) :: later).Pairwise fun a b => compare a.1 b.1 = .lt :=
    hentries ▸ Std.ExtTreeMap.ordered_keys_toList
  have habove : ∀ entry ∈ later, tap < entry.1 := fun entry hentry =>
    compare_lt_iff_lt.mp ((List.pairwise_cons.mp (List.pairwise_append.mp hsorted).2.1).1 entry
      hentry)
  have hcases : ∀ (other : Int) a, taps[other]? = some a →
      (other, a) ∈ before ∨ (other = tap ∧ a = angle) ∨ (other, a) ∈ later := by
    intro other a ha
    rw [← Std.ExtTreeMap.mem_toList_iff_getElem?_eq_some, hentries] at ha
    simpa using ha
  refine ⟨angle, ?_, fun other a ha => ?_, fun other a ha hlt => ?_⟩
  · rw [← Std.ExtTreeMap.mem_toList_iff_getElem?_eq_some, hentries]
    simp
  · rcases hcases other a ha with hmem | ⟨-, rfl⟩ | hmem
    · exact (hbefore _ hmem).le
    · exact le_rfl
    · exact hlater _ hmem
  · rcases hcases other a ha with hmem | ⟨rfl, -⟩ | hmem
    · exact hbefore _ hmem
    · exact absurd hlt (lt_irrefl _)
    · exact absurd (habove _ hmem) hlt.not_gt

/-- No angle of a phase shifter is beyond infinity. -/
def HasFiniteAngles (r : RangeAction K) : Prop :=
  ∀ taps, r.taps? = some taps → ∀ (tap : Int) angle, taps[tap]? = some angle →
    -Scalar.infinity ≤ angle ∧ angle ≤ Scalar.infinity

/-- The angles of a table. -/
def angles (taps : TapTable K) : Set K := {angle | ∃ tap : Int, taps[tap]? = some angle}

/-- A table with taps has a least and a greatest angle, and its range reaches from one to the
other. -/
theorem isLeast_isGreatest_angleRange (hr : r.HasFiniteAngles) (htaps : r.taps? = some taps)
    (hsome : taps.toList ≠ []) : IsLeast (angles taps) (angleRange taps).1 ∧
      IsGreatest (angles taps) (angleRange taps).2 := by
  have hmem : ∀ a ∈ taps.toList.map Prod.snd, a ∈ angles taps := by
    intro a ha
    obtain ⟨entry, hentry, rfl⟩ := List.mem_map.mp ha
    exact ⟨entry.1, Std.ExtTreeMap.mem_toList_iff_getElem?_eq_some.mp hentry⟩
  obtain ⟨entry, hentry⟩ := List.exists_mem_of_ne_nil _ hsome
  have hangle := Std.ExtTreeMap.mem_toList_iff_getElem?_eq_some.mp hentry
  obtain ⟨hbelow, habove⟩ := hr taps htaps entry.1 entry.2 hangle
  obtain ⟨hlow, hhigh⟩ := angleRange_allows hangle
  refine ⟨⟨?_, fun a ⟨tap, ha⟩ => (angleRange_allows ha).1⟩,
    ⟨?_, fun a ⟨tap, ha⟩ => (angleRange_allows ha).2⟩⟩
  · have hchoice : ∀ a b : K, Scalar.min a b = a ∨ Scalar.min a b = b := fun a b =>
      ExactScalar.min_eq a b ▸ min_choice a b
    rcases List.mem_cons.mp (foldl_mem_cons hchoice Scalar.infinity _) with hfirst | hleast
    · exact ⟨entry.1, hangle.trans (congrArg some (habove.trans_eq hfirst.symm |>.antisymm hlow))⟩
    · exact hmem _ hleast
  · have hchoice : ∀ a b : K, Scalar.max a b = a ∨ Scalar.max a b = b := fun a b =>
      ExactScalar.max_eq a b ▸ max_choice a b
    rcases List.mem_cons.mp (foldl_mem_cons hchoice (-Scalar.infinity) _) with hfirst | hgreatest
    · exact ⟨entry.1, hangle.trans (congrArg some (hhigh.antisymm (hfirst.trans_le hbelow)))⟩
    · exact hmem _ hgreatest

/-- An angle has a tap if the table has one and the angle is not farther than a thousandth from the
interval between the least and the greatest angle. -/
theorem exists_tapOf_iff_near (hr : r.HasFiniteAngles) (htaps : r.taps? = some taps) :
    (∃ tap, r.tapOf x = .ok tap) ↔ ∃ low high, IsLeast (angles taps) low ∧
      IsGreatest (angles taps) high ∧ low - 1 / 1000 ≤ x ∧ x ≤ high + 1 / 1000 := by
  have htolerance : (tapTolerance : K) = 1 / 1000 := by
    unfold tapTolerance
    rw [ExactScalar.ofDecimal_eq]
    norm_num
  rw [exists_tapOf_iff htaps, htolerance]
  constructor
  · rintro ⟨hsome, hnear⟩
    obtain ⟨hleast, hgreatest⟩ := isLeast_isGreatest_angleRange hr htaps hsome
    exact ⟨_, _, hleast, hgreatest, hnear⟩
  · rintro ⟨low, high, hleast, hgreatest, hnear⟩
    obtain ⟨tap, htap⟩ := hleast.1
    have hsome : taps.toList ≠ [] :=
      List.ne_nil_of_mem (Std.ExtTreeMap.mem_toList_iff_getElem?_eq_some.mpr htap)
    obtain ⟨hleast', hgreatest'⟩ := isLeast_isGreatest_angleRange hr htaps hsome
    rw [hleast.unique hleast', hgreatest.unique hgreatest'] at hnear
    exact ⟨hsome, hnear⟩

/-- An angle of a table has a tap. -/
theorem exists_tapOf (htaps : r.taps? = some taps) (h : taps[tap]? = some angle) :
    ∃ other, r.tapOf angle = .ok other := by
  obtain ⟨hlow, hhigh⟩ := angleRange_allows h
  refine (exists_tapOf_iff htaps).mpr ⟨?_, ?_, ?_⟩
  · exact List.ne_nil_of_mem (Std.ExtTreeMap.mem_toList_iff_getElem?_eq_some.mpr h)
  · exact (sub_le_self _ tapTolerance_nonneg).trans hlow
  · exact hhigh.trans (le_add_of_nonneg_right tapTolerance_nonneg)

/-- Every tap of a table is found again from its angle, if no two have the same one. -/
theorem tapOf_of_angleOf (hr : r.HasInjectiveTaps) (h : r.angleOf tap = .ok angle) :
    r.tapOf angle = .ok tap := by
  unfold angleOf at h
  cases htaps : r.taps? with
  | none =>
    rw [htaps] at h
    cases h
  | some taps =>
    rw [htaps, Option.bind_some] at h
    cases hangle : taps[tap]? with
    | none =>
      rw [hangle] at h
      cases h
    | some a =>
      rw [hangle] at h
      obtain rfl := Except.ok.inj h
      obtain ⟨other, hother⟩ := exists_tapOf htaps hangle
      have hontap : r.OnTap a := fun taps' htaps' => by
        obtain rfl := Option.some.inj (htaps.symm.trans htaps')
        exact ⟨tap, hangle⟩
      rw [hother, hr taps htaps other tap a (getElem?_tapOf htaps hontap hother) hangle]

/-! ### Applying and reading back -/

/-- A set-point that is no angle is read back as it was applied. -/
theorem currentSetpoint_of_apply_of_no_taps (htaps : r.taps? = none) (h : r.apply n x = .ok n') :
    r.currentSetpoint n' = .ok x :=
  currentSetpoint_of_apply (fun taps htaps' => by rw [htaps] at htaps'; cases htaps') h

/-- An angle is read back as the angle of the lowest nearest tap, which is the one on the network
then. -/
theorem exists_isNearest_of_apply (htaps : r.taps? = some taps) (h : r.apply n x = .ok n') :
    ∃ tap angle, IsNearest taps x tap angle ∧ n'.taps[r.element]? = some tap ∧
      r.currentSetpoint n' = .ok angle := by
  obtain ⟨tap, table, htap, -, -, rfl⟩ := (apply_eq_ok_iff_of_taps htaps).mp h
  obtain ⟨angle, hnearest⟩ := isNearest_of_tapOf htaps htap
  have hwritten : (n.taps.insert r.element tap)[r.element]? = some tap :=
    Std.ExtTreeMap.getElem?_insert_self
  exact ⟨tap, angle, hnearest, hwritten,
    (currentSetpoint_eq_ok_iff_of_taps htaps).mpr ⟨tap, hwritten, hnearest.angle_eq⟩⟩

/-- What is read back can be applied, and that changes nothing more if no two taps have the same
angle. -/
theorem apply_currentSetpoint (hr : r.HasInjectiveTaps) (h : r.apply n x = .ok n')
    (hy : r.currentSetpoint n' = .ok y) : r.apply n' y = .ok n' := by
  obtain ⟨m, hm⟩ : ∃ m, r.apply n' y = .ok m := by
    cases htaps : r.taps? with
    | none =>
      have hpresent := (currentSetpoint_eq_ok_iff_of_no_taps htaps).mp hy
      exact ⟨n', apply_eq_self_of_no_taps htaps hpresent⟩
    | some taps =>
      obtain ⟨tap, table, -, htable, hcontains, rfl⟩ := (apply_eq_ok_iff_of_taps htaps).mp h
      obtain ⟨present, hpresent, hangle⟩ := (currentSetpoint_eq_ok_iff_of_taps htaps).mp hy
      obtain rfl : tap = present :=
        Option.some.inj (Std.ExtTreeMap.getElem?_insert_self.symm.trans hpresent)
      have hfound : r.tapOf y = .ok tap := by
        refine tapOf_of_angleOf hr ?_
        unfold angleOf
        rw [htaps, Option.bind_some, hangle]
      exact ⟨_, (apply_eq_ok_iff_of_taps htaps).mpr ⟨tap, table, hfound, htable, hcontains, rfl⟩⟩
  rw [hm, eq_of_apply hr hy hm]

/-- Applying a set-point changes at most the tap or the set-point of the element. -/
theorem unchanged_of_apply (h : r.apply n x = .ok n') :
    n'.model = n.model ∧ ∀ element,
      Network.isConnected n' element = Network.isConnected n element ∧
        (element ≠ r.element → Network.tap n' element = Network.tap n element ∧
          Network.setpoint n' element = Network.setpoint n element) := by
  have hagrees := LinearNetwork.agreesOff_of_apply (List.mem_singleton_self r) h
  refine ⟨hagrees.model.symm, fun element => ⟨?_, fun hne => ⟨?_, ?_⟩⟩⟩
  · exact congrArg (·[element]?) hagrees.connected.symm
  · exact (hagrees.taps element (by simp [hne.symm])).symm
  · exact (hagrees.setpoints element (by simp [hne.symm])).symm

/-- A set-point that has been applied is read back, a phase shifter showing the angle of the lowest
of the nearest taps. Nothing else has changed, and applying what is read back changes nothing more
if no two taps have the same angle. A set-point that cannot be applied leaves the network as it is.
An angle has a tap exactly when the table has one and the angle is not farther than a thousandth
from the interval between its least and its greatest angle, and every tap is the one of its angle
if no two have the same. -/
theorem applied_and_read_back (r : RangeAction K) (n : LinearNetwork K) (x : K) :
    (∀ n', r.apply n x = .ok n' →
      (r.taps? = none → r.currentSetpoint n' = .ok x) ∧
      (∀ taps, r.taps? = some taps → ∃ tap angle, IsNearest taps x tap angle ∧
        Network.tap n' r.element = some tap ∧ r.currentSetpoint n' = .ok angle) ∧
      (n'.model = n.model ∧ ∀ element,
        Network.isConnected n' element = Network.isConnected n element ∧
          (element ≠ r.element → Network.tap n' element = Network.tap n element ∧
            Network.setpoint n' element = Network.setpoint n element)) ∧
      (r.HasInjectiveTaps → ∀ y, r.currentSetpoint n' = .ok y → r.apply n' y = .ok n')) ∧
    (∀ fault, r.apply n x = .error fault → ∀ (a : Activation K) rest, a.get r.id = .ok x →
      a.applyAll (r :: rest) n = (n, .error fault)) ∧
    (r.HasFiniteAngles → ∀ taps, r.taps? = some taps →
      ((∃ tap, r.tapOf x = .ok tap) ↔ ∃ low high, IsLeast (angles taps) low ∧
        IsGreatest (angles taps) high ∧ low - 1 / 1000 ≤ x ∧ x ≤ high + 1 / 1000)) ∧
    (r.HasInjectiveTaps → ∀ tap angle, r.angleOf tap = .ok angle → r.tapOf angle = .ok tap) := by
  refine ⟨fun n' h => ⟨fun htaps => ?_, fun taps htaps => ?_, ?_, fun hr y hy => ?_⟩,
    fun fault h a rest hx => ?_, fun hr taps htaps => ?_, fun hr tap angle h => ?_⟩
  · exact currentSetpoint_of_apply_of_no_taps htaps h
  · exact exists_isNearest_of_apply htaps h
  · exact unchanged_of_apply h
  · exact apply_currentSetpoint hr h hy
  · rw [Activation.applyAll, hx]
    simp only [bind, Except.bind, h]
  · exact exists_tapOf_iff_near hr htaps
  · exact tapOf_of_angleOf hr h

end RangeAction

namespace NearestTaps

/-- The angles of three taps, of which the lowest has the greatest. -/
def angles : List (Int × ℚ) := [(-1, 3), (0, 0), (1, 2)]

/-- A phase shifter with these taps. -/
def shifter : RangeAction ℚ :=
  { id := "turn", element := "transformer", min := 0, max := 3, kind := .pst (.ofPairs angles) }

/-- A network with the phase shifter at its lowest tap. -/
def network : LinearNetwork ℚ := ({ id := "net" } : LinearNetwork ℚ).withPst shifter (-1)

theorem mem_angles {tap : Int} {angle : ℚ} (h : (TapTable.ofPairs angles)[tap]? = some angle) :
    (tap, angle) ∈ angles := by
  have hlist : (TapTable.ofPairs angles).toList = angles := by decide +kernel
  rw [← hlist]
  exact Std.ExtTreeMap.mem_toList_iff_getElem?_eq_some.mpr h

theorem hasInjectiveTaps_shifter : shifter.HasInjectiveTaps := by
  rintro _ ⟨⟩ tap other angle htap hother
  have hangles : ∀ entry ∈ angles, ∀ entry' ∈ angles, entry.2 = entry'.2 → entry.1 = entry'.1 := by
    decide +kernel
  exact hangles _ (mem_angles htap) _ (mem_angles hother) rfl

theorem hasFiniteAngles_shifter : shifter.HasFiniteAngles := by
  rintro _ ⟨⟩ tap angle h
  have hangles : ∀ entry ∈ angles, -Scalar.infinity ≤ entry.2 ∧ entry.2 ≤ Scalar.infinity := by
    decide +kernel
  exact hangles _ (mem_angles h)

theorem lower_of_two_applied :
    (∃ applied angle, shifter.apply network 1 = .ok applied ∧
      Network.tap applied "transformer" = some 0 ∧ shifter.currentSetpoint applied = .ok angle ∧
        shifter.apply applied angle = .ok applied ∧ shifter.tapOf angle = .ok 0) ∧
    ∃ low high, IsLeast (RangeAction.angles (.ofPairs angles)) low ∧
      IsGreatest (RangeAction.angles (.ofPairs angles)) high ∧ low - 1 / 1000 ≤ 1 ∧
        1 ≤ high + 1 / 1000 := by
  obtain ⟨happlied, -, hnear, hback⟩ := RangeAction.applied_and_read_back shifter network 1
  constructor
  · have hrun : (shifter.apply network 1).toOption.any
        (fun applied => decide (Network.tap applied "transformer" = some 0)) = true := by
      decide +kernel
    obtain ⟨applied, happly, htap⟩ := exists_ok_of_any hrun
    obtain ⟨-, hread, -, hagain⟩ := happlied applied happly
    obtain ⟨tap, angle, hnearest, hpresent, hcurrent⟩ := hread _ rfl
    obtain rfl : tap = 0 := Option.some.inj (hpresent.symm.trans (of_decide_eq_true htap))
    refine ⟨applied, angle, happly, of_decide_eq_true htap, hcurrent,
      hagain hasInjectiveTaps_shifter angle hcurrent, hback hasInjectiveTaps_shifter 0 angle ?_⟩
    unfold RangeAction.angleOf
    rw [show shifter.taps? = some (.ofPairs angles) from rfl, Option.bind_some, hnearest.angle_eq]
  · have hrun : (shifter.tapOf 1).toOption.any (fun _ => true) = true := by decide +kernel
    obtain ⟨tap, htap, -⟩ := exists_ok_of_any hrun
    exact (hnear hasFiniteAngles_shifter _ rfl).mp ⟨tap, htap⟩

end NearestTaps

end GridRelief
