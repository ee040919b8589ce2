import GridRelief.Proofs.Actions
import GridRelief.Search.Depth

/-!
# What the candidates of a leaf have passed

Every candidate of a leaf has been kept by every filter. A candidate that does not take range
actions back has been kept without that condition, so the limits on use hold for it together with
the range actions in use.

* `Filter.mem_applyAll`: what passes a list of filters has passed each of them.
* `Candidate.byPriority_perm`: putting candidates in order keeps them.
* `Search.Tries`: what is known of the task of a candidate; `Search.tries_of_mem_tasks`.
* `Search.Tries.members_ssubset_union`: a candidate adds actions to those in use, and takes none
  away.
* `Search.Tries.size_le` and the facts after it: what the limits on use say of a candidate.
-/

namespace GridRelief

variable {K N σ : Type} [Scalar K]

/-! ### Verdicts -/

namespace Verdict

@[simp] theorem of_eq_reject_iff {kept dropped : Bool} :
    of kept dropped = .reject ↔ kept = false := by
  cases kept <;> cases dropped <;> simp [of]

@[simp] theorem of_eq_keep_iff {kept dropped : Bool} :
    of kept dropped = .keep ↔ kept = true ∧ dropped = false := by
  cases kept <;> cases dropped <;> simp [of]

end Verdict

/-! ### Filters one after the other -/

namespace Filter

omit [Scalar K]

variable {leaf : LeafResult K} {candidates : List (Candidate K)} {c : Candidate K}

/-- A filter keeps a candidate as it is, or takes its range actions back. -/
theorem revise_eq_some {f : Filter K} {d : Candidate K} (h : f.revise leaf c = some d) :
    d.combination = c.combination ∧ f.judge leaf c.combination ≠ .reject ∧
      (d.dropsRangeActions = false →
        c.dropsRangeActions = false ∧ f.judge leaf c.combination = .keep) := by
  unfold revise at h
  cases hjudge : f.judge leaf c.combination with
  | reject => simp [hjudge] at h
  | keep =>
    rw [hjudge] at h
    obtain rfl := Option.some.inj h
    exact ⟨rfl, by simp, fun hkeeps => ⟨hkeeps, rfl⟩⟩
  | keepWithoutRangeActions =>
    rw [hjudge] at h
    obtain rfl := Option.some.inj h
    refine ⟨rfl, by simp, fun hkeeps => ?_⟩
    simp at hkeeps

/-- What passes a list of filters has passed each of them. -/
theorem mem_applyAll {filters : List (Filter K)} (h : c ∈ applyAll filters leaf candidates) :
    ∃ d ∈ candidates, c.combination = d.combination ∧
      (∀ f ∈ filters, f.judge leaf c.combination ≠ .reject) ∧
      (c.dropsRangeActions = false → d.dropsRangeActions = false ∧
        ∀ f ∈ filters, f.judge leaf c.combination = .keep) := by
  induction filters generalizing candidates with
  | nil => exact ⟨c, h, rfl, by simp, fun hkeeps => ⟨hkeeps, by simp⟩⟩
  | cons f filters ih =>
    obtain ⟨d, hd, hsame, hrest, hkeep⟩ := ih h
    obtain ⟨e, he, hrevise⟩ := List.mem_filterMap.mp hd
    obtain ⟨hcombination, hfirst, hfirstKeep⟩ := revise_eq_some hrevise
    rw [← hcombination, ← hsame] at hfirst hfirstKeep
    refine ⟨e, he, hsame.trans hcombination, ?_, fun hkeeps => ?_⟩
    · intro g hg
      rcases List.mem_cons.mp hg with rfl | hg
      · exact hfirst
      · exact hrest g hg
    · obtain ⟨hd', hall⟩ := hkeep hkeeps
      obtain ⟨he', hthis⟩ := hfirstKeep hd'
      refine ⟨he', fun g hg => ?_⟩
      rcases List.mem_cons.mp hg with rfl | hg
      · exact hthis
      · exact hall g hg

/-- A filter that does not reject a candidate keeps its combination. -/
theorem exists_revise {f : Filter K} (h : f.judge leaf c.combination ≠ .reject) :
    ∃ d, f.revise leaf c = some d ∧ d.combination = c.combination := by
  unfold revise
  cases hjudge : f.judge leaf c.combination with
  | reject => exact absurd hjudge h
  | keep => exact ⟨c, rfl, rfl⟩
  | keepWithoutRangeActions => exact ⟨_, rfl, rfl⟩

/-- What no filter of a list rejects passes them. -/
theorem exists_mem_applyAll {filters : List (Filter K)} (hc : c ∈ candidates)
    (h : ∀ f ∈ filters, f.judge leaf c.combination ≠ .reject) :
    ∃ d ∈ applyAll filters leaf candidates, d.combination = c.combination := by
  induction filters generalizing candidates c with
  | nil => exact ⟨c, hc, rfl⟩
  | cons f filters ih =>
    obtain ⟨d, hrevise, heq⟩ := exists_revise (h f List.mem_cons_self)
    have hd : d ∈ f.apply leaf candidates := List.mem_filterMap.mpr ⟨c, hc, hrevise⟩
    obtain ⟨e, he, heq'⟩ := ih hd (heq ▸ fun g hg => h g (List.mem_cons_of_mem _ hg))
    exact ⟨e, he, heq'.trans heq⟩

end Filter

/-! ### The candidates of a list -/

namespace Candidate

omit [Scalar K]

variable {c : Candidate K} {candidates : List (Candidate K)}

/-- Combinations in the same place of the order have the same names. -/
theorem order_eq_eq_iff {a b : Combination K} : a.order b = .eq ↔ a.ids = b.ids :=
  Std.LawfulEqOrd.compare_eq_iff_eq

/-- What holds for the inserted candidate and for those of a list holds after the insertion, if it
still does where one candidate decides about the range actions of another. -/
theorem forall_mem_insertCandidate {P : Candidate K → Prop}
    (hsaid : ∀ d e, P d → P e → P { d with dropsRangeActions := e.dropsRangeActions })
    (hc : P c) (h : ∀ d ∈ candidates, P d) : ∀ d ∈ insertCandidate c candidates, P d := by
  induction candidates with
  | nil => exact List.forall_mem_singleton.mpr hc
  | cons first rest ih =>
    obtain ⟨hfirst, hrest⟩ := List.forall_mem_cons.mp h
    unfold insertCandidate
    split
    · exact List.forall_mem_cons.mpr ⟨hc, h⟩
    · exact List.forall_mem_cons.mpr ⟨hsaid first c hfirst hc, hrest⟩
    · exact List.forall_mem_cons.mpr ⟨hfirst, ih hrest⟩

/-- So it does once each set of actions is listed once. -/
theorem forall_mem_ofList {P : Candidate K → Prop}
    (hsaid : ∀ d e, P d → P e → P { d with dropsRangeActions := e.dropsRangeActions })
    (h : ∀ c ∈ candidates, P c) : ∀ c ∈ ofList candidates, P c := by
  suffices hfold : ∀ start : List (Candidate K), (∀ d ∈ start, P d) →
      ∀ c ∈ candidates.foldl (fun list c => insertCandidate c list) start, P c by
    exact hfold [] (by simp)
  induction candidates with
  | nil => exact fun start hstart => hstart
  | cons first rest ih =>
    obtain ⟨hfirst, hrest⟩ := List.forall_mem_cons.mp h
    exact fun start hstart => ih hrest _ (forall_mem_insertCandidate hsaid hfirst hstart)

/-- The names of an inserted candidate are there after the insertion, and so are those that were
there before. -/
theorem exists_mem_insertCandidate {e : Candidate K} (h : e ∈ c :: candidates) :
    ∃ d ∈ insertCandidate c candidates, d.combination.ids = e.combination.ids := by
  induction candidates with
  | nil => exact ⟨e, h, rfl⟩
  | cons first rest ih =>
    unfold insertCandidate
    split
    · exact ⟨e, h, rfl⟩
    · next heq =>
      rcases List.mem_cons.mp h with rfl | h
      · exact ⟨_, List.mem_cons_self, (order_eq_eq_iff.mp heq).symm⟩
      · rcases List.mem_cons.mp h with rfl | hrest
        · exact ⟨_, List.mem_cons_self, rfl⟩
        · exact ⟨e, List.mem_cons_of_mem _ hrest, rfl⟩
    · by_cases hfirst : e = first
      · subst hfirst
        exact ⟨e, List.mem_cons_self, rfl⟩
      · have hmem : e ∈ c :: rest := by simpa [hfirst] using h
        obtain ⟨d, hd, heq⟩ := ih hmem
        exact ⟨d, List.mem_cons_of_mem _ hd, heq⟩

theorem exists_mem_foldl_insertCandidate {start : List (Candidate K)} {e : Candidate K}
    (h : e ∈ start ++ candidates) :
    ∃ c ∈ candidates.foldl (fun list c => insertCandidate c list) start,
      c.combination.ids = e.combination.ids := by
  induction candidates generalizing start e with
  | nil => exact ⟨e, by simpa using h, rfl⟩
  | cons first rest ih =>
    by_cases hrest : e ∈ rest
    · exact ih (List.mem_append_right _ hrest)
    · have hmem : e ∈ first :: start := by
        simp only [List.mem_append, List.mem_cons, hrest, or_false] at h ⊢
        exact h.symm
      obtain ⟨d, hd, heq⟩ := exists_mem_insertCandidate hmem
      obtain ⟨c, hc, heq'⟩ := ih (List.mem_append_left _ hd)
      exact ⟨c, hc, heq'.trans heq⟩

/-- Every candidate of a list has the combination of one in the list. -/
theorem exists_of_mem_ofList (h : c ∈ ofList candidates) :
    ∃ e ∈ candidates, c.combination = e.combination := by
  refine forall_mem_ofList (P := fun c => ∃ e ∈ candidates, c.combination = e.combination) ?_ ?_ c h
  · exact fun _ _ hd _ => hd
  · exact fun e he => ⟨e, he, rfl⟩

/-- The names of every combination in a list are those of a candidate. -/
theorem exists_mem_ofList {e : Candidate K} (h : e ∈ candidates) :
    ∃ c ∈ ofList candidates, c.combination.ids = e.combination.ids :=
  exists_mem_foldl_insertCandidate (by simpa using h)

end Candidate

/-! ### What is offered -/

omit [Scalar K] in
/-- A combination has as many names as actions. -/
theorem Combination.length_ids (c : Combination K) : c.ids.length = c.size := by
  rw [ids, ActionSet.ids, List.length_map, ← ActionSet.size_eq]
  rfl

namespace Bloom

omit [Scalar K]

variable {b : Bloom K} {available : List (NetworkAction K)} {c : Combination K}

@[simp] theorem actions_single (a : NetworkAction K) :
    (Combination.single a).actions.actions = [a] :=
  ActionSet.actions_ofList_singleton a

theorem mem_offered : c ∈ b.offered available ↔
    (c ∈ b.predefined ∧ isAtHand available c = true) ∨ ∃ a ∈ available, .single a = c := by
  rw [offered, List.mem_append, List.mem_filter, List.mem_map]

theorem isAtHand_iff : isAtHand available c = true ↔
    ∀ a ∈ c.actions.actions, ∃ d ∈ available, d.id = a.id := by
  simp [isAtHand, Combination.ids, ActionSet.ids]

/-- The actions of a combination that is offered are among those at hand, by their names. -/
theorem exists_available_of_mem_offered (h : c ∈ b.offered available) {a : NetworkAction K}
    (ha : a ∈ c.actions.actions) : ∃ d ∈ available, d.id = a.id := by
  rcases mem_offered.mp h with ⟨-, hhand⟩ | ⟨d, hd, rfl⟩
  · exact isAtHand_iff.mp hhand a ha
  · rw [actions_single, List.mem_singleton] at ha
    exact ⟨d, hd, by rw [ha]⟩

/-- A candidate has a combination that is offered, and that no filter rejects. -/
theorem offered_of_mem_candidates {leaf : LeafResult K} {candidate : Candidate K}
    (h : candidate ∈ b.candidates leaf available) :
    candidate.combination ∈ b.offered available ∧
      ∀ f ∈ b.filters, f.judge leaf candidate.combination ≠ .reject := by
  obtain ⟨d, hd, heq, hpasses, -⟩ := Filter.mem_applyAll h
  obtain ⟨e, he, heq'⟩ := Candidate.exists_of_mem_ofList hd
  obtain ⟨c, hc, rfl⟩ := List.mem_map.mp he
  exact ⟨by rwa [heq, heq'], hpasses⟩

/-- Of the combinations with certain names that are offered, one is a candidate unless some filter
rejects it. -/
theorem exists_mem_candidates (leaf : LeafResult K) (h : c ∈ b.offered available) :
    ∃ d ∈ b.offered available, d.ids = c.ids ∧
      ((∀ f ∈ b.filters, f.judge leaf d ≠ .reject) →
        ∃ candidate ∈ b.candidates leaf available, candidate.combination = d) := by
  obtain ⟨d, hd, hids⟩ := Candidate.exists_mem_ofList
    (List.mem_map_of_mem (f := fun c => (⟨c, false⟩ : Candidate K)) h)
  obtain ⟨e, he, heq⟩ := Candidate.exists_of_mem_ofList hd
  obtain ⟨c', hc', rfl⟩ := List.mem_map.mp he
  exact ⟨d.combination, heq ▸ hc', hids, Filter.exists_mem_applyAll hd⟩

end Bloom

/-! ### The order of priority -/

namespace Candidate

omit [Scalar K]

/-- A candidate that is inserted joins the others. -/
theorem insertByPriority_perm (c : Candidate K) (list : List (Candidate K)) :
    (insertByPriority c list).Perm (c :: list) := by
  induction list with
  | nil => exact List.Perm.refl _
  | cons d rest ih =>
    unfold insertByPriority
    split
    · exact List.Perm.refl _
    · exact (ih.cons d).trans (List.Perm.swap c d rest)

/-- Putting candidates in order keeps all of them, and adds none. -/
theorem byPriority_perm (candidates : List (Candidate K)) :
    (byPriority candidates).Perm candidates := by
  unfold byPriority
  induction candidates with
  | nil => exact List.Perm.refl _
  | cons c candidates ih => exact (insertByPriority_perm c _).trans (ih.cons c)

@[simp] theorem mem_byPriority {candidates : List (Candidate K)} {c : Candidate K} :
    c ∈ byPriority candidates ↔ c ∈ candidates :=
  (byPriority_perm candidates).mem_iff

end Candidate

/-! ### Limits on use -/

namespace UsageFilter

theorem within_iff {limit : Option Nat} {n : Nat} :
    within limit n = true ↔ ∀ most, limit = some most → n ≤ most := by
  cases limit <;> simp [within]

/-- Within what is left of a limit. -/
theorem within_map_sub_iff {limit : Option Nat} {used n : Nat} :
    within (limit.map (· - used)) n = true ↔ ∀ most, limit = some most → n ≤ most - used := by
  cases limit <;> simp [within]

end UsageFilter

/-! ### The tasks of a depth -/

namespace Search

variable [Network N K]

section Filters

variable (s : Search N K)

theorem maxRa_mem_filters : UsageFilter.maxRa s.parameters.limits.maxRa ∈ s.bloom.filters := by
  simp [bloom, Bloom.ofParameters, Bloom.filtersOf]

theorem maxRaPerTso_mem_filters : UsageFilter.maxRaPerTso s.situation.perimeter
    s.parameters.limits.maxRaPerTso s.parameters.limits.maxTopoPerTso ∈ s.bloom.filters := by
  simp [bloom, Bloom.ofParameters, Bloom.filtersOf]

theorem maxTso_mem_filters :
    UsageFilter.maxTso s.situation.perimeter s.parameters.limits.maxTso ∈ s.bloom.filters := by
  simp [bloom, Bloom.ofParameters, Bloom.filtersOf]

end Filters

variable {s : Search N K} {epoch : Nat} {previous : FinalizedLeaf K} {task : Task K}
  {below : LeafResult K}

/-- What is known of the task of a candidate that is tried on top of what a leaf reached. -/
structure Tries (s : Search N K) (below : LeafResult K) (task : Task K) : Prop where
  result_eq : task.previous.result? = some below
  /-- No filter rejects the combination. -/
  passes : ∀ f ∈ s.bloom.filters, f.judge below task.candidate.combination ≠ .reject
  /-- If range actions stay where they are, every filter keeps it. -/
  keeps : task.candidate.dropsRangeActions = false →
    ∀ f ∈ s.bloom.filters, f.judge below task.candidate.combination = .keep

/-- A task of a candidate of what the previous leaf reached is tried on top of that. -/
theorem tries_of_mem_candidates {available : List (NetworkAction K)}
    (hresult : task.previous.result? = some below)
    (h : task.candidate ∈ s.bloom.candidates below available) : s.Tries below task := by
  obtain ⟨_, _, _, hpasses, hkeeps⟩ := Filter.mem_applyAll h
  exact ⟨hresult, hpasses, fun hstay => (hkeeps hstay).2⟩

/-- The tasks of a depth are tried on top of what the previous leaf reached. -/
theorem tries_of_mem_tasks (h : task ∈ s.tasks epoch previous) :
    task.epoch = epoch ∧ task.previous = previous ∧ ∃ below, s.Tries below task := by
  unfold tasks at h
  cases hresult : previous.result? with
  | none => simp [hresult] at h
  | some below =>
    rw [hresult] at h
    obtain ⟨candidate, hcandidate, rfl⟩ := List.mem_map.mp h
    rw [Candidate.mem_byPriority] at hcandidate
    exact ⟨rfl, rfl, below, tries_of_mem_candidates hresult hcandidate⟩

/-- The actions of a task are actions of the perimeter, by their names. -/
theorem exists_action_of_mem_tasks (h : task ∈ s.tasks epoch previous) {a : NetworkAction K}
    (ha : a ∈ task.candidate.combination.actions.actions) :
    ∃ b ∈ s.situation.perimeter.networkActions, b.id = a.id := by
  unfold tasks at h
  cases hresult : previous.result? with
  | none => simp [hresult] at h
  | some below =>
    rw [hresult] at h
    obtain ⟨candidate, hcandidate, rfl⟩ := List.mem_map.mp h
    rw [Candidate.mem_byPriority] at hcandidate
    exact Bloom.exists_available_of_mem_offered (Bloom.offered_of_mem_candidates hcandidate).1 ha

/-- A leaf that has no candidates gives no tasks. -/
theorem tasks_eq_nil {result : LeafResult K} (hresult : previous.result? = some result)
    (h : s.bloom.candidates result s.situation.perimeter.networkActions = []) :
    s.tasks epoch previous = [] := by
  unfold tasks
  rw [hresult]
  dsimp only
  rw [h]
  rfl

namespace Tries

variable (h : s.Tries below task)
include h

/-! #### What a candidate adds -/

/-- A candidate has an action. -/
theorem actions_ne_nil : task.candidate.combination.actions.actions ≠ [] := by
  have hpasses := h.passes (RelevanceFilter.effective s.situation)
    (by simp [bloom, Bloom.ofParameters, Bloom.filtersOf])
  intro hnil
  simp [RelevanceFilter.effective, Filter.keeping, hnil] at hpasses

/-- No action of a candidate is in use, nor is one of the same name. -/
theorem apart : below.applied.Apart task.candidate.combination.actions := by
  have hpasses := h.passes RelevanceFilter.notApplied
    (by simp [bloom, Bloom.ofParameters, Bloom.filtersOf])
  simp only [RelevanceFilter.notApplied, Filter.keeping, Ne, Verdict.of_eq_reject_iff,
    Bool.not_eq_false, List.all_eq_true, Bool.not_eq_true', LeafResult.isApplied] at hpasses
  exact hpasses

/-- A candidate adds actions to those in use, and takes none away. -/
theorem members_ssubset_union : below.applied.members ⊂
    (below.applied.union task.candidate.combination.actions).members :=
  ActionSet.members_ssubset_union h.actions_ne_nil h.apart

/-! #### Limits on network actions -/

theorem size_le {most : Nat} (hmost : s.parameters.limits.maxRa = some most) :
    task.candidate.combination.size + below.applied.size ≤ most := by
  have hpasses := h.passes _ s.maxRa_mem_filters
  simp only [UsageFilter.maxRa, Ne, Verdict.of_eq_reject_iff, Bool.not_eq_false,
    UsageFilter.within_iff] at hpasses
  exact hpasses most hmost

/-- The limits for an operator, which has no action in the candidate if it is none of its own. -/
theorem actionsWithin (operator : String) :
    UsageFilter.actionsWithin s.parameters.limits.maxRaPerTso s.parameters.limits.maxTopoPerTso
      below task.candidate.combination operator = true := by
  by_cases hoperator : operator ∈ task.candidate.combination.actions.operators
  · have hpasses := h.passes _ s.maxRaPerTso_mem_filters
    simp only [UsageFilter.maxRaPerTso, Ne, Verdict.of_eq_reject_iff, Bool.not_eq_false,
      List.all_eq_true] at hpasses
    exact hpasses operator (Std.ExtTreeSet.mem_toList.mpr hoperator)
  · simp [UsageFilter.actionsWithin, UsageFilter.within_iff, ActionSet.countOf_eq_zero hoperator]

theorem countOf_le {operator : String} {most : Nat}
    (hmost : s.parameters.limits.maxRaPerTso[operator]? = some most) :
    task.candidate.combination.actions.countOf operator ≤
      most - below.applied.countOf operator := by
  have hwithin := h.actionsWithin operator
  simp only [UsageFilter.actionsWithin, Bool.and_eq_true, UsageFilter.within_map_sub_iff]
    at hwithin
  exact hwithin.1 most hmost

theorem countOf_le_topo {operator : String} {most : Nat}
    (hmost : s.parameters.limits.maxTopoPerTso[operator]? = some most) :
    task.candidate.combination.actions.countOf operator ≤
      most - below.applied.countOf operator := by
  have hwithin := h.actionsWithin operator
  simp only [UsageFilter.actionsWithin, Bool.and_eq_true, UsageFilter.within_map_sub_iff]
    at hwithin
  exact hwithin.2 most hmost

theorem operators_size_le {most : Nat} (hmost : s.parameters.limits.maxTso = some most) :
    (NameSet.ofNames (task.candidate.combination.operators ++
      below.applied.operators.toList)).size ≤ most := by
  have hpasses := h.passes _ s.maxTso_mem_filters
  simp only [UsageFilter.maxTso, UsageFilter.operatorsWithin, Ne, Verdict.of_eq_reject_iff,
    Bool.not_eq_false, UsageFilter.within_iff] at hpasses
  exact hpasses most hmost

/-- The elementary actions of a candidate alone are within the limit for an operator. -/
theorem sizeOf_le {operator : String} {most : Nat}
    (hmost : s.parameters.limits.maxElementaryPerTso[operator]? = some most) :
    task.candidate.combination.actions.sizeOf operator ≤ most := by
  by_cases hoperator : operator ∈ task.candidate.combination.actions.operators
  · have hpasses := h.passes (UsageFilter.maxElementary s.situation.perimeter
        s.situation.setpoints s.parameters.limits.maxElementaryPerTso)
      (by simp [bloom, Bloom.ofParameters, Bloom.filtersOf])
    simp only [UsageFilter.maxElementary, Ne, Verdict.of_eq_reject_iff, Bool.not_eq_false,
      List.all_eq_true, UsageFilter.within_iff] at hpasses
    exact hpasses operator (Std.ExtTreeSet.mem_toList.mpr hoperator) most hmost
  · rw [ActionSet.sizeOf_eq_zero hoperator]
    exact Nat.zero_le _

end Tries

end Search

end GridRelief
