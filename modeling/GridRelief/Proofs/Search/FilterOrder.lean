import GridRelief.Proofs.Search.TwoSwitches
import GridRelief.Proofs.Search.Candidates

/-!
# Filters in any order

A filter looks at one candidate and at what the leaf reached, never at the other candidates, and of
a candidate it looks at the combination alone. So what a list of filters makes of a candidate has a
closed form in which the filters stand side by side: it passes if none of them rejects it, and its
range actions go back if they did before or if one of them asks for it.

* `Filter.through`: what a list of filters makes of a candidate; `Filter.applyAll_eq`.
* `Filter.through_perm`: the order of the filters does not matter.
* `Filter.JudgesAlone`: what a filter may do with candidates.
* `Bloom.candidates_of_perm`: the candidates of a leaf under the filters of a search in any order.
-/

namespace GridRelief

variable {K N : Type} [Scalar K]

namespace Filter

omit [Scalar K]

variable {filters others : List (Filter K)} {leaf : LeafResult K}

/-! ### What a list of filters makes of a candidate -/

/-- What a list of filters makes of a candidate. -/
def through (filters : List (Filter K)) (leaf : LeafResult K) (c : Candidate K) :
    Option (Candidate K) :=
  let verdicts := filters.map (·.judge leaf c.combination)
  if verdicts.contains .reject then none
  else
    some ⟨c.combination, c.dropsRangeActions || verdicts.contains .keepWithoutRangeActions⟩

@[simp] theorem through_nil (leaf : LeafResult K) (c : Candidate K) :
    through [] leaf c = some c := by
  simp [through]

/-- The first filter hands on what it does not reject. -/
theorem through_cons (f : Filter K) (filters : List (Filter K)) (leaf : LeafResult K)
    (c : Candidate K) :
    through (f :: filters) leaf c = (f.revise leaf c).bind (through filters leaf) := by
  unfold through revise
  cases hjudge : f.judge leaf c.combination <;> simp [hjudge]

/-- Filters one after the other make of every candidate what they make of it side by side. -/
theorem applyAll_eq (filters : List (Filter K)) (leaf : LeafResult K)
    (candidates : List (Candidate K)) :
    applyAll filters leaf candidates = candidates.filterMap (through filters leaf) := by
  induction filters generalizing candidates with
  | nil =>
    have hnil : through [] leaf = (some : Candidate K → _) := funext fun c => through_nil leaf c
    rw [hnil, List.filterMap_some]
    rfl
  | cons f filters ih =>
    have hcons : through (f :: filters) leaf =
        fun c => (f.revise leaf c).bind (through filters leaf) :=
      funext fun c => through_cons f filters leaf c
    rw [hcons, ← List.filterMap_filterMap, ← ih]
    rfl

/-- The order of the filters does not matter. -/
theorem through_perm (h : filters.Perm others) : through filters leaf = through others leaf := by
  funext c
  have hverdicts := h.map (·.judge leaf c.combination)
  simp only [through, hverdicts.contains_eq]

theorem applyAll_perm (h : filters.Perm others) (candidates : List (Candidate K)) :
    applyAll filters leaf candidates = applyAll others leaf candidates := by
  rw [applyAll_eq, applyAll_eq, through_perm h]

/-! ### What a single filter does -/

/-- What a filter may do with candidates: it judges each of them whatever the others are, adds none
and changes no combination, and range actions that go back stay back. -/
structure JudgesAlone (f : Filter K) (leaf : LeafResult K) : Prop where
  apart : ∀ candidates more : List (Candidate K),
    f.apply leaf (candidates ++ more) = f.apply leaf candidates ++ f.apply leaf more
  adds_none : ∀ candidates : List (Candidate K),
    ((f.apply leaf candidates).map (·.combination)).Sublist (candidates.map (·.combination))
  stays_back : ∀ c : Candidate K, ∀ d ∈ f.apply leaf [c],
    d.combination = c.combination ∧ (c.dropsRangeActions = true → d.dropsRangeActions = true)

theorem judgesAlone (f : Filter K) (leaf : LeafResult K) : f.JudgesAlone leaf := by
  have hstays : ∀ c d : Candidate K, f.revise leaf c = some d →
      d.combination = c.combination ∧
        (c.dropsRangeActions = true → d.dropsRangeActions = true) := by
    intro c d hrevise
    obtain ⟨hsame, -, hkeeps⟩ := revise_eq_some hrevise
    refine ⟨hsame, fun hdrops => ?_⟩
    by_contra hnot
    rw [(hkeeps (Bool.eq_false_iff.mpr hnot)).1] at hdrops
    cases hdrops
  refine ⟨fun candidates more => List.filterMap_append, fun candidates => ?_, fun c d hd => ?_⟩
  · induction candidates with
    | nil => exact List.Sublist.refl _
    | cons c candidates ih =>
      cases hrevise : f.revise leaf c with
      | none =>
        rw [apply, List.filterMap_cons_none hrevise]
        exact ih.cons _
      | some d =>
        rw [apply, List.filterMap_cons_some hrevise, List.map_cons, List.map_cons,
          (hstays c d hrevise).1]
        exact ih.cons_cons _
  · obtain ⟨e, he, hrevise⟩ := List.mem_filterMap.mp hd
    rw [List.mem_singleton] at he
    exact hstays c d (he ▸ hrevise)

end Filter

/-! ### The filters of a search -/

namespace Bloom

variable [Network N K]

/-- What passes the filters of a search has an action, and none of its actions is in use. -/
theorem actions_of_mem_candidates {s : Situation N K} {predefined : List (Combination K)}
    {p : Parameters K} {leaf : LeafResult K} {available : List (NetworkAction K)}
    {candidate : Candidate K}
    (h : candidate ∈ (ofParameters s predefined p).candidates leaf available) :
    candidate.combination.actions.actions ≠ [] ∧
      ∀ a ∈ candidate.combination.actions.actions,
        (∃ b ∈ available, b.id = a.id) ∧ leaf.isApplied a = false := by
  obtain ⟨hoffered, hpasses⟩ := offered_of_mem_candidates h
  refine ⟨fun hnil => ?_, fun a ha => ⟨exists_available_of_mem_offered hoffered ha, ?_⟩⟩
  · have heffective := hpasses (RelevanceFilter.effective s) (by simp [ofParameters, filtersOf])
    simp [RelevanceFilter.effective, Filter.keeping, hnil] at heffective
  · have hunused := hpasses RelevanceFilter.notApplied (by simp [ofParameters, filtersOf])
    simp only [RelevanceFilter.notApplied, Filter.keeping, Ne, Verdict.of_eq_reject_iff,
      Bool.not_eq_false, List.all_eq_true, Bool.not_eq_true'] at hunused
    exact hunused a ha

/-- Whatever a leaf reached and whatever actions are at hand, the filters of a search give the same
candidates in any order, and take back the range actions of the same ones. Each filter judges every
candidate by itself, adds none, changes no combination and lets range actions that go back stay
back. Every candidate of the leaf has an action; its actions are at hand, and none is in use. -/
theorem candidates_of_perm (s : Situation N K) (predefined : List (Combination K))
    (p : Parameters K) {filters : List (Filter K)}
    (h : filters.Perm (filtersOf s predefined p)) (leaf : LeafResult K) :
    (∀ candidates, Filter.applyAll filters leaf candidates =
        Filter.applyAll (filtersOf s predefined p) leaf candidates) ∧
      (∀ f ∈ filters, f.JudgesAlone leaf) ∧
      ∀ available : List (NetworkAction K),
        (⟨predefined, filters⟩ : Bloom K).candidates leaf available =
            (ofParameters s predefined p).candidates leaf available ∧
          ∀ candidate ∈ (⟨predefined, filters⟩ : Bloom K).candidates leaf available,
            candidate.combination.actions.actions ≠ [] ∧
              ∀ a ∈ candidate.combination.actions.actions,
                (∃ b ∈ available, b.id = a.id) ∧ leaf.isApplied a = false := by
  have hsame : ∀ available : List (NetworkAction K),
      (⟨predefined, filters⟩ : Bloom K).candidates leaf available =
        (ofParameters s predefined p).candidates leaf available :=
    fun available => Filter.applyAll_perm h _
  refine ⟨Filter.applyAll_perm h, fun f _ => f.judgesAlone leaf, fun available => ?_⟩
  refine ⟨hsame available, fun candidate hcandidate => ?_⟩
  rw [hsame available] at hcandidate
  exact actions_of_mem_candidates hcandidate

end Bloom

namespace TwoSwitches

/-- At the root of the search with limits on use the filters give two candidates also when the last
one of them comes first. -/
theorem candidates_of_reversed_filters : ∃ leaf,
    (root (limitedSearch { maxRa := some 1 })).result? = some leaf ∧
      (⟨(limitedSearch { maxRa := some 1 }).predefined,
          (limitedSearch { maxRa := some 1 }).bloom.filters.reverse⟩ : Bloom ℚ).candidates leaf
            [ownedOpening "first", ownedOpening "second"] =
        (limitedSearch { maxRa := some 1 }).bloom.candidates leaf
            [ownedOpening "first", ownedOpening "second"] ∧
      ((limitedSearch { maxRa := some 1 }).bloom.candidates leaf
        [ownedOpening "first", ownedOpening "second"]).length = 2 := by
  have htwo : (root (limitedSearch { maxRa := some 1 })).result?.any (fun leaf =>
      ((limitedSearch { maxRa := some 1 }).bloom.candidates leaf
        [ownedOpening "first", ownedOpening "second"]).length == 2) = true := by
    decide +kernel
  obtain ⟨leaf, hleaf, htwo⟩ := Option.any_eq_true _ _ |>.mp htwo
  refine ⟨leaf, hleaf, ?_, beq_iff_eq.mp htwo⟩
  exact ((Bloom.candidates_of_perm (limitedSearch { maxRa := some 1 }).situation _ _
    (List.reverse_perm _) leaf).2.2 _).1

end TwoSwitches

end GridRelief
