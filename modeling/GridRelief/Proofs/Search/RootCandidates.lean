import GridRelief.Proofs.Search.Candidates
import GridRelief.Proofs.Search.Leaf
import GridRelief.Proofs.Search.TwoSwitches

/-!
# What is offered on top of the root

No network action is in use at the root, so without limits on use three filters are left that may
reject a combination: its actions may not be usable, none of them may change the network, or it may
count as tested. A single action counts as tested when it is the last one that is missing of a
combination named by the user. At the root that is so just if the user has named the action alone,
although it has not been tried then.

* `Combination.IsNamedAlone`: a single action that the user has named alone.
* `RelevanceFilter.notTested_eq_reject_iff`: at the root such actions count as tested.
* `Search.HasOneActionPerName`: a name stands for one action.
* `Search.passes_iff`: what all filters let pass at the root.
* `Search.offered_at_root_iff`: which usable actions are offered at the root.
-/

namespace GridRelief

variable {K N : Type} [Scalar K] [Network N K]

/-! ### Names of a combination -/

namespace Combination

variable {c : Combination K} {a : NetworkAction K}

omit [Scalar K]

theorem size_eq_one_iff : c.size = 1 ↔ ∃ id, c.ids = [id] := by
  rw [← length_ids, List.length_eq_one_iff]

theorem mem_ids {id : String} : id ∈ c.ids ↔ ∃ b ∈ c.actions.actions, b.id = id :=
  List.mem_map

theorem contains_iff : c.contains a = true ↔ a.id ∈ c.ids :=
  ActionSet.contains_iff.trans mem_ids.symm

@[simp] theorem ids_single (a : NetworkAction K) : (single a).ids = [a.id] := by
  rw [ids, ActionSet.ids, Bloom.actions_single]
  rfl

/-- A combination is a single action that the user has named alone. -/
def IsNamedAlone (predefined : List (Combination K)) (c : Combination K) : Prop :=
  c.size = 1 ∧ ∃ p ∈ predefined, p.isDetected = false ∧ p.ids = c.ids

end Combination

/-! ### What counts as tested -/

namespace RelevanceFilter

variable {leaf : LeafResult K}

omit [Scalar K] in
theorem isApplied_of_root (hroot : leaf.applied = ∅) (a : NetworkAction K) :
    leaf.isApplied a = false := by
  rw [LeafResult.isApplied, hroot, Bool.eq_false_iff, Ne, ActionSet.contains_iff]
  simp

omit [Scalar K] in
/-- At the root an action is the last one missing of a combination that has no other. -/
theorem lastMissing?_eq_some_iff (hroot : leaf.applied = ∅) {c : Combination K} {id : String} :
    lastMissing? leaf c = some id ↔ c.ids = [id] := by
  unfold lastMissing? Combination.ids ActionSet.ids
  simp only [isApplied_of_root hroot, Bool.not_false, List.filter_true]
  match c.actions.actions with
  | [] | [last] | _ :: _ :: _ => simp

omit [Scalar K] in
/-- At the root a combination counts as tested when it is a single action that the user has named
alone. -/
theorem notTested_eq_reject_iff (hroot : leaf.applied = ∅) {predefined : List (Combination K)}
    {c : Combination K} :
    (notTested predefined).judge leaf c = .reject ↔ c.IsNamedAlone predefined := by
  have htested : ∀ id, id ∈ (predefined.filter (!·.isDetected)).filterMap (lastMissing? leaf) ↔
      ∃ p ∈ predefined, p.isDetected = false ∧ p.ids = [id] := by
    intro id
    simp [lastMissing?_eq_some_iff hroot, and_assoc]
  simp only [notTested, Filter.keeping, Verdict.of_eq_reject_iff, Bool.or_eq_false_iff,
    bne_eq_false_iff_eq, List.all_eq_false, Bool.not_eq_true', Bool.not_eq_false,
    List.contains_iff_mem, htested]
  refine and_congr_right fun hsize => ?_
  obtain ⟨id, hids⟩ := Combination.size_eq_one_iff.mp hsize
  simp [hids]

end RelevanceFilter

/-! ### What passes all filters -/

namespace Search

/-- The network actions of the perimeter, and those of the combinations found before or named by the
user. -/
def knownActions (s : Search N K) : List (NetworkAction K) :=
  s.situation.perimeter.networkActions ++ s.predefined.flatMap (·.actions.actions)

/-- A name stands for one action. -/
def HasOneActionPerName (s : Search N K) : Prop :=
  ∀ a ∈ s.knownActions, ∀ b ∈ s.knownActions, a.id = b.id → a = b

variable {s : Search N K} {leaf : LeafResult K} {c d : Combination K}

/-- The action may be used with the overloads of a leaf. -/
def isUsableOn (s : Search N K) (leaf : LeafResult K) (a : NetworkAction K) : Bool :=
  let overloads := RelevanceFilter.overloaded s.situation.perimeter s.parameters.objective.unit
    leaf.point.flows
  RelevanceFilter.isUsable s.situation overloads a

omit [Network N K] in
/-- Filters for limits on use reject nothing when there are none. -/
theorem ne_reject_of_isEmpty (leaf : LeafResult K) (c : Combination K)
    (hlimits : s.parameters.limits.isEmpty = true) {f : Filter K}
    (hf : f ∈ [UsageFilter.maxRa s.parameters.limits.maxRa,
      UsageFilter.maxRaPerTso s.situation.perimeter s.parameters.limits.maxRaPerTso
        s.parameters.limits.maxTopoPerTso,
      UsageFilter.maxTso s.situation.perimeter s.parameters.limits.maxTso,
      UsageFilter.maxElementary s.situation.perimeter s.situation.setpoints
        s.parameters.limits.maxElementaryPerTso]) : f.judge leaf c ≠ .reject := by
  simp only [UsageLimits.isEmpty, Bool.and_eq_true, Option.isNone_iff_eq_none,
    Std.ExtTreeMap.isEmpty_iff] at hlimits
  obtain ⟨⟨⟨⟨⟨hmaxRa, hmaxTso⟩, hperTso⟩, htopo⟩, -⟩, helementary⟩ := hlimits
  simp only [hmaxRa, hmaxTso, hperTso, htopo, helementary, List.mem_cons, List.not_mem_nil,
    or_false] at hf
  rcases hf with rfl | rfl | rfl | rfl <;>
    simp [UsageFilter.maxRa, UsageFilter.maxRaPerTso, UsageFilter.maxTso,
      UsageFilter.maxElementary, UsageFilter.actionsWithin, UsageFilter.operatorsWithin,
      UsageFilter.within]

/-- Without limits on use, and wherever actions are, a combination passes all filters at the root if
it does not count as tested, all its actions may be used and some of them changes the network. -/
theorem passes_iff (hroot : leaf.applied = ∅) (hlimits : s.parameters.limits.isEmpty = true)
    (hfar : s.parameters.tree.skipFarActions = false) :
    (∀ f ∈ s.bloom.filters, f.judge leaf c ≠ .reject) ↔
      ¬c.IsNamedAlone s.predefined ∧
        (∀ a ∈ c.actions.actions, s.isUsableOn leaf a = true) ∧
        ∃ a ∈ c.actions.actions, a.hasImpact s.situation.network = true := by
  have hunused : RelevanceFilter.notApplied.judge leaf c ≠ .reject := by
    simp [RelevanceFilter.notApplied, Filter.keeping, RelevanceFilter.isApplied_of_root hroot]
  have hcompatible : RelevanceFilter.compatible.judge leaf c ≠ .reject := by
    simp [RelevanceFilter.compatible, Filter.keeping, hroot]
  have husable : (RelevanceFilter.usable s.situation s.parameters.objective.unit).judge leaf c ≠
      .reject ↔ ∀ a ∈ c.actions.actions, s.isUsableOn leaf a = true := by
    simp [RelevanceFilter.usable, Filter.keeping, isUsableOn]
  have heffective : (RelevanceFilter.effective s.situation).judge leaf c ≠ .reject ↔
      ∃ a ∈ c.actions.actions, a.hasImpact s.situation.network = true := by
    simp [RelevanceFilter.effective, Filter.keeping, RelevanceFilter.replay, hroot]
  rw [← RelevanceFilter.notTested_eq_reject_iff hroot, ← husable, ← heffective]
  constructor
  · intro h
    refine ⟨h _ ?_, h _ ?_, h _ ?_⟩ <;> simp [bloom, Bloom.ofParameters, Bloom.filtersOf]
  · rintro ⟨htested, husable, heffective⟩ f hf
    simp only [bloom, Bloom.ofParameters, Bloom.filtersOf, hfar, Bool.false_eq_true, if_false,
      List.append_nil, List.cons_append, List.nil_append, List.mem_cons, List.not_mem_nil,
      or_false] at hf
    rcases hf with rfl | rfl | rfl | rfl | rfl | rfl | rfl | rfl | rfl
    · exact hunused
    · exact htested
    · exact ne_reject_of_isEmpty leaf c hlimits (by simp)
    · exact ne_reject_of_isEmpty leaf c hlimits (by simp)
    · exact ne_reject_of_isEmpty leaf c hlimits (by simp)
    · exact ne_reject_of_isEmpty leaf c hlimits (by simp)
    · exact hcompatible
    · exact husable
    · exact heffective

/-! ### What is offered -/

omit [Scalar K] [Network N K] in
/-- What is offered at the root consists of known actions. -/
theorem mem_knownActions {b : Bloom K} (hb : b.predefined = s.predefined)
    (hc : c ∈ b.offered s.situation.perimeter.networkActions) {a : NetworkAction K}
    (ha : a ∈ c.actions.actions) : a ∈ s.knownActions := by
  rw [knownActions, List.mem_append, List.mem_flatMap]
  rcases Bloom.mem_offered.mp hc with ⟨hpredefined, -⟩ | ⟨d, hd, rfl⟩
  · exact .inr ⟨c, hb ▸ hpredefined, ha⟩
  · rw [Bloom.actions_single, List.mem_singleton] at ha
    exact .inl (ha ▸ hd)

omit [Scalar K] [Network N K] in
/-- When a name stands for one action, combinations of known actions with the same names have the
same actions. -/
theorem HasOneActionPerName.actions_eq (h : s.HasOneActionPerName)
    (hc : ∀ a ∈ c.actions.actions, a ∈ s.knownActions)
    (hd : ∀ a ∈ d.actions.actions, a ∈ s.knownActions) (hids : d.ids = c.ids) :
    d.actions.actions = c.actions.actions := by
  have hlength : d.actions.actions.length = c.actions.actions.length := by
    simpa [Combination.ids, ActionSet.ids] using congrArg List.length hids
  refine List.ext_getElem hlength fun i hi hi' => ?_
  refine h _ (hd _ (List.getElem_mem hi)) _ (hc _ (List.getElem_mem hi')) ?_
  have hid : d.ids[i]? = c.ids[i]? := by rw [hids]
  simpa [Combination.ids, ActionSet.ids, hi, hi'] using hid

section Root

variable (hroot : leaf.applied = ∅) (hlimits : s.parameters.limits.isEmpty = true)
  (hfar : s.parameters.tree.skipFarActions = false)
include hroot hlimits hfar

/-- An action of a candidate at the root has not been named alone by the user, or the candidate is a
larger combination, found before or named by the user. -/
theorem cases_of_mem_candidates {candidate : Candidate K} {a : NetworkAction K}
    (h : candidate ∈ s.bloom.candidates leaf s.situation.perimeter.networkActions)
    (ha : candidate.combination.contains a = true) :
    (∀ p ∈ s.predefined, p.ids = [a.id] → p.isDetected = true) ∨
      ∃ p ∈ s.predefined, 1 < p.size ∧ p.contains a = true ∧
        Bloom.isAtHand s.situation.perimeter.networkActions p = true ∧
        ∀ b ∈ p.actions.actions, s.isUsableOn leaf b = true := by
  obtain ⟨hoffered, hpasses⟩ := Bloom.offered_of_mem_candidates h
  obtain ⟨hnamed, husable, -⟩ := (passes_iff hroot hlimits hfar).mp hpasses
  have hid := Combination.contains_iff.mp ha
  by_cases hsize : candidate.combination.size = 1
  · left
    intro p hp hids
    by_contra hdetected
    obtain ⟨id, hsingle⟩ := Combination.size_eq_one_iff.mp hsize
    rw [hsingle, List.mem_singleton] at hid
    rw [hid, ← hsingle] at hids
    exact hnamed ⟨hsize, p, hp, Bool.eq_false_iff.mpr hdetected, hids⟩
  · right
    rcases Bloom.mem_offered.mp hoffered with ⟨hpredefined, hhand⟩ | ⟨d, -, hd⟩
    · refine ⟨_, hpredefined, ?_, ha, hhand, husable⟩
      have hpos := List.length_pos_of_mem hid
      rw [Combination.length_ids] at hpos
      omega
    · refine absurd (Combination.size_eq_one_iff.mpr ⟨d.id, ?_⟩) hsize
      rw [← hd, Combination.ids_single]

/-- What is offered at the root and passes all filters gives a candidate with the same actions. -/
theorem exists_candidate_of_offered (hnames : s.HasOneActionPerName)
    (hc : c ∈ s.bloom.offered s.situation.perimeter.networkActions)
    (hnamed : ¬c.IsNamedAlone s.predefined)
    (husable : ∀ a ∈ c.actions.actions, s.isUsableOn leaf a = true)
    (himpact : ∃ a ∈ c.actions.actions, a.hasImpact s.situation.network = true) :
    ∃ candidate ∈ s.bloom.candidates leaf s.situation.perimeter.networkActions,
      candidate.combination.ids = c.ids := by
  obtain ⟨d, hd, hids, hcandidate⟩ := Bloom.exists_mem_candidates leaf hc
  have hactions : d.actions.actions = c.actions.actions :=
    hnames.actions_eq (fun _ ha => mem_knownActions rfl hc ha)
      (fun _ ha => mem_knownActions rfl hd ha) hids
  have hsize : d.size = c.size := by
    rw [Combination.size, Combination.size, ActionSet.size_eq, ActionSet.size_eq, hactions]
  obtain ⟨candidate, hmem, heq⟩ := hcandidate <| (passes_iff hroot hlimits hfar).mpr <| by
    rw [Combination.IsNamedAlone, hsize, hids, hactions]
    exact ⟨hnamed, husable, himpact⟩
  exact ⟨candidate, hmem, by rw [heq, hids]⟩

end Root

/-- Without limits on use, and wherever actions are, a usable action that changes the network is
offered at the root just if the user has not named it alone, or if it belongs to a larger
combination, found before or named by the user, whose actions are all at hand and usable. The
combinations that are rejected as tested are the single actions that the user has named alone,
although nothing of them has been tried. -/
theorem offered_at_root_iff (s : Search N K) (leaf : LeafResult K) (hroot : leaf.applied = ∅)
    (hlimits : s.parameters.limits.isEmpty = true)
    (hfar : s.parameters.tree.skipFarActions = false) (hnames : s.HasOneActionPerName) :
    (∀ a ∈ s.situation.perimeter.networkActions, s.isUsableOn leaf a = true →
        a.hasImpact s.situation.network = true →
          ((∃ candidate ∈ s.bloom.candidates leaf s.situation.perimeter.networkActions,
              candidate.combination.contains a = true) ↔
            (∀ p ∈ s.predefined, p.ids = [a.id] → p.isDetected = true) ∨
              ∃ p ∈ s.predefined, 1 < p.size ∧ p.contains a = true ∧
                Bloom.isAtHand s.situation.perimeter.networkActions p = true ∧
                ∀ b ∈ p.actions.actions, s.isUsableOn leaf b = true)) ∧
      ∀ c : Combination K, (RelevanceFilter.notTested s.predefined).judge leaf c = .reject ↔
        c.IsNamedAlone s.predefined := by
  refine ⟨fun a ha husable himpact => ⟨?_, ?_⟩, fun c =>
    RelevanceFilter.notTested_eq_reject_iff hroot⟩
  · rintro ⟨candidate, hcandidate, hcontains⟩
    exact cases_of_mem_candidates hroot hlimits hfar hcandidate hcontains
  · intro h
    suffices hoffer : ∃ candidate ∈ s.bloom.candidates leaf s.situation.perimeter.networkActions,
        a.id ∈ candidate.combination.ids by
      obtain ⟨candidate, hcandidate, hid⟩ := hoffer
      exact ⟨candidate, hcandidate, Combination.contains_iff.mpr hid⟩
    have hknown : a ∈ s.knownActions := List.mem_append_left _ ha
    rcases h with hdetected | ⟨p, hp, hsize, hcontains, hhand, hall⟩
    · -- the action is offered alone
      obtain ⟨candidate, hcandidate, hids⟩ := exists_candidate_of_offered hroot hlimits hfar hnames
        (Bloom.mem_offered.mpr (.inr ⟨a, ha, rfl⟩)) (c := .single a)
        (by
          rintro ⟨-, p, hp, hnot, hids⟩
          rw [hdetected p hp (hids.trans (Combination.ids_single a))] at hnot
          cases hnot)
        (by simpa using husable) (by simpa using himpact)
      exact ⟨candidate, hcandidate, by simp [hids]⟩
    · -- the action is offered with others
      obtain ⟨b, hb, hid⟩ := Combination.mem_ids.mp (Combination.contains_iff.mp hcontains)
      obtain rfl : b = a := hnames b (List.mem_append_right _
        (List.mem_flatMap.mpr ⟨p, hp, hb⟩)) a hknown hid
      obtain ⟨candidate, hcandidate, hids⟩ := exists_candidate_of_offered hroot hlimits hfar hnames
        (Bloom.mem_offered.mpr (.inl ⟨hp, hhand⟩)) (fun h => absurd h.1 (by omega)) hall
        ⟨b, hb, himpact⟩
      exact ⟨candidate, hcandidate, hids ▸ Combination.mem_ids.mpr ⟨b, hb, rfl⟩⟩

/-- What the root of a search reaches uses no network action. -/
theorem applied_of_root {σ : Type} {services : Services N K σ} {state : σ}
    (h : (s.root services state).1.finalize.result? = some leaf) : leaf.applied = ∅ := by
  rw [Leaf.applied_of_result (Leaf.result?_finalize.mp h)]
  have hstart := Leaf.applied_evaluate services s.situation.objective (Leaf.root s.situation) state
  unfold root
  rcases hevaluate : (Leaf.root s.situation).evaluate services s.situation.objective state
    with ⟨found, after⟩
  rw [hevaluate] at hstart
  simp only [bind, StateT.bind, hevaluate]
  split
  · exact hstart
  · exact (Leaf.applied_optimize services s.situation s.parameters found after).trans hstart

end Search

namespace TwoSwitches

/-- The search on two switches with combinations that the user has named. -/
def namedSearch (named : List (List String)) : Search (LinearNetwork ℚ) ℚ :=
  { search (network 100 0 50) .minObjective 0 with
    predefined := named.map fun switches => .ofList (switches.map opening) .predefined }

/-- The first switch has been named alone and together with the second one, so it is offered. -/
theorem offered_at_root_with_other : ∃ leaf,
    (root (namedSearch [["first"], ["first", "second"]])).result? = some leaf ∧
      ∃ candidate ∈ (namedSearch [["first"], ["first", "second"]]).bloom.candidates leaf
        perimeter.networkActions, candidate.combination.contains (opening "first") = true := by
  have hsome : (root (namedSearch [["first"], ["first", "second"]])).result?.isSome = true := by
    decide +kernel
  obtain ⟨leaf, hleaf⟩ := Option.isSome_iff_exists.mp hsome
  have hknown : (namedSearch [["first"], ["first", "second"]]).knownActions =
      [opening "first", opening "second", opening "first", opening "first", opening "second"] := rfl
  have hnames : (namedSearch [["first"], ["first", "second"]]).HasOneActionPerName := by
    intro a ha b hb hid
    rw [hknown] at ha hb
    simp only [List.mem_cons, List.not_mem_nil, or_false] at ha hb
    rcases ha with rfl | rfl | rfl | rfl | rfl <;> rcases hb with rfl | rfl | rfl | rfl | rfl <;>
      first | rfl | exact absurd hid (by decide)
  refine ⟨leaf, hleaf, ?_⟩
  have hoffered := ((namedSearch [["first"], ["first", "second"]]).offered_at_root_iff leaf
    (Search.applied_of_root hleaf) (by decide +kernel) rfl hnames).1
    (opening "first") List.mem_cons_self rfl (by decide +kernel)
  refine hoffered.mpr (.inr ⟨.ofList [opening "first", opening "second"] .predefined,
    List.mem_cons_of_mem _ List.mem_cons_self, by decide +kernel, by decide +kernel,
    by decide +kernel, ?_⟩)
  intro b hb
  have hb : b ∈ [opening "first", opening "second"] := hb
  simp only [List.mem_cons, List.not_mem_nil, or_false] at hb
  rcases hb with rfl | rfl <;> rfl

/-- The first switch has been named alone. It is usable and changes the network, and nothing has
been tried at the root, but no candidate has it. -/
theorem not_offered_at_root_alone : ∃ leaf,
    (root (namedSearch [["first"]])).result? = some leaf ∧
      (namedSearch [["first"]]).parameters.limits.isEmpty = true ∧
      (namedSearch [["first"]]).parameters.tree.skipFarActions = false ∧
      opening "first" ∈ (namedSearch [["first"]]).situation.perimeter.networkActions ∧
      (namedSearch [["first"]]).isUsableOn leaf (opening "first") = true ∧
      (opening "first").hasImpact (namedSearch [["first"]]).situation.network = true ∧
      ¬∃ candidate ∈ (namedSearch [["first"]]).bloom.candidates leaf
        (namedSearch [["first"]]).situation.perimeter.networkActions,
          candidate.combination.contains (opening "first") = true := by
  have hnone : (root (namedSearch [["first"]])).result?.any (fun leaf =>
      !((namedSearch [["first"]]).bloom.candidates leaf
        (namedSearch [["first"]]).situation.perimeter.networkActions).any
          fun candidate => candidate.combination.contains (opening "first")) = true := by
    decide +kernel
  rw [Option.any_eq_true] at hnone
  obtain ⟨leaf, hleaf, hnone⟩ := hnone
  refine ⟨leaf, hleaf, by decide +kernel, rfl, List.mem_cons_self, rfl, by decide +kernel, ?_⟩
  simpa using hnone

end TwoSwitches

end GridRelief
