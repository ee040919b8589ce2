import Mathlib.Order.Bounds.Basic
import GridRelief.Proofs.Search.Criteria
import GridRelief.Proofs.Search.Arrivals

/-!
# The leaf of least cost

In a search for the least cost nothing reaches the stop criterion, so of the leaves handed in the
cheapest is kept that is an improvement on the leaf before.

* `Search.isLeast_cost_crewAfter`: the cost at the end of a depth is the least of the cost before
  and the costs of all improvements that have been handed in.
* `Search.leaf_crewAfter_unique_iff`: the leaf at the end of a depth does not depend on the turns
  exactly when no two different improvements have the least cost; of several ones the first to
  arrive is kept.
-/

namespace GridRelief

variable {K N σ : Type} [ExactScalar K]

/-! ### Keeping the cheaper leaf -/

/-- The cheaper one of the leaf that is kept and one that is handed in, if that is an improvement
on a previous leaf. -/
def Criteria.keepCheaper (criteria : Criteria K) (previous kept leaf : FinalizedLeaf K) :
    FinalizedLeaf K :=
  if criteria.isImprovement previous leaf && isCheaper leaf.cost? kept.cost? then leaf else kept

namespace Criteria

variable {criteria : Criteria K} {previous kept leaf : FinalizedLeaf K}

theorem keepCheaper_cases (criteria : Criteria K) (previous kept leaf : FinalizedLeaf K) :
    (criteria.isImprovement previous leaf = true ∧ leaf.cost < kept.cost ∧
        criteria.keepCheaper previous kept leaf = leaf) ∨
      ((criteria.isImprovement previous leaf = true → kept.cost ≤ leaf.cost) ∧
        criteria.keepCheaper previous kept leaf = kept) := by
  unfold keepCheaper
  by_cases h : (criteria.isImprovement previous leaf && isCheaper leaf.cost? kept.cost?) = true
  · obtain ⟨himprovement, hcheaper⟩ := Bool.and_eq_true_iff.mp h
    exact .inl ⟨himprovement, isCheaper_iff.mp hcheaper, if_pos h⟩
  · refine .inr ⟨fun himprovement => ?_, if_neg h⟩
    rw [himprovement, Bool.true_and, isCheaper_iff, not_lt] at h
    exact h

/-- What is kept is what was kept before or an improvement that was handed in. -/
theorem foldl_keepCheaper_mem (criteria : Criteria K) (previous kept : FinalizedLeaf K)
    (leaves : List (FinalizedLeaf K)) :
    leaves.foldl (criteria.keepCheaper previous) kept = kept ∨
      (leaves.foldl (criteria.keepCheaper previous) kept ∈ leaves ∧
        criteria.isImprovement previous (leaves.foldl (criteria.keepCheaper previous) kept) =
          true) := by
  induction leaves generalizing kept with
  | nil => exact .inl rfl
  | cons leaf leaves ih =>
    rw [List.foldl_cons]
    rcases ih (criteria.keepCheaper previous kept leaf) with hsame | ⟨hmem, himproved⟩
    · rw [hsame]
      rcases criteria.keepCheaper_cases previous kept leaf with ⟨himproved, -, hnew⟩ | ⟨-, hold⟩
      · rw [hnew]
        exact .inr ⟨List.mem_cons_self, himproved⟩
      · exact .inl hold
    · exact .inr ⟨List.mem_cons_of_mem _ hmem, himproved⟩

/-- What is kept never gets dearer. -/
theorem cost_foldl_keepCheaper_le (leaves : List (FinalizedLeaf K)) :
    (leaves.foldl (criteria.keepCheaper previous) kept).cost ≤ kept.cost := by
  induction leaves generalizing kept with
  | nil => exact le_rfl
  | cons leaf leaves ih =>
    refine ih.trans ?_
    rcases criteria.keepCheaper_cases previous kept leaf with ⟨-, hlt, hnew⟩ | ⟨-, hold⟩
    · rw [hnew]
      exact hlt.le
    · rw [hold]

/-- What is kept is not dearer than any improvement that was handed in. -/
theorem cost_foldl_keepCheaper_le_of_mem {leaves : List (FinalizedLeaf K)} (hmem : leaf ∈ leaves)
    (himproved : criteria.isImprovement previous leaf = true) :
    (leaves.foldl (criteria.keepCheaper previous) kept).cost ≤ leaf.cost := by
  induction leaves generalizing kept with
  | nil => simp at hmem
  | cons first leaves ih =>
    rcases List.mem_cons.mp hmem with rfl | hlater
    · refine (cost_foldl_keepCheaper_le leaves).trans ?_
      rcases criteria.keepCheaper_cases previous kept leaf with ⟨-, -, hnew⟩ | ⟨hle, hold⟩
      · rw [hnew]
      · rw [hold]
        exact hle himproved
    · exact ih hlater

/-- What is kept stays when no improvement that is handed in is cheaper. -/
theorem foldl_keepCheaper_eq_self {leaves : List (FinalizedLeaf K)}
    (h : ∀ leaf ∈ leaves, criteria.isImprovement previous leaf = true → kept.cost ≤ leaf.cost) :
    leaves.foldl (criteria.keepCheaper previous) kept = kept := by
  induction leaves with
  | nil => rfl
  | cons leaf leaves ih =>
    rw [List.foldl_cons]
    rcases criteria.keepCheaper_cases previous kept leaf with ⟨himproved, hlt, -⟩ | ⟨-, hold⟩
    · exact absurd (h leaf List.mem_cons_self himproved) hlt.not_ge
    · rw [hold]
      exact ih fun later hlater => h later (List.mem_cons_of_mem _ hlater)

end Criteria

/-! ### Hand-ins when nothing stops -/

section NeverStops

variable {criteria : Criteria K} (hnever : ∀ leaf, criteria.reachesStop leaf = false)
include hnever

/-- A hand-in to an open depth keeps the cheaper leaf and stops nothing. -/
theorem HandIn.leaf_accept {best : Best K} {h : HandIn K} (hstop : best.stop = none)
    (hopen : best.epoch = h.task.epoch) :
    (HandIn.accept criteria best h).leaf = criteria.keepCheaper h.task.previous best.leaf h.leaf ∧
      (HandIn.accept criteria best h).stop = none := by
  unfold HandIn.accept Best.submit Criteria.keepCheaper
  simp only [Best.isOpen, hopen, beq_self_eq_true, Bool.true_and, hnever, Best.isBeaten, hstop]
  split
  · exact ⟨rfl, rfl⟩
  · exact ⟨rfl, hstop⟩

/-- Of the leaves handed in to an open depth the cheapest improvement is kept. -/
theorem HandIn.leaf_foldl_accept (start best : Best K) {handIns : List (HandIn K)}
    (hfor : ∀ h ∈ handIns, h.IsFor start)
    (hstop : best.stop = none) (hepoch : best.epoch = start.epoch) :
    (handIns.foldl (HandIn.accept criteria) best).leaf =
      (handIns.map HandIn.leaf).foldl (criteria.keepCheaper start.leaf) best.leaf := by
  induction handIns generalizing best with
  | nil => rfl
  | cons h handIns ih =>
    obtain ⟨hopen, hprevious⟩ := hfor h List.mem_cons_self
    obtain ⟨hleaf, hnext⟩ := HandIn.leaf_accept hnever hstop (hepoch.trans hopen.symm)
    rw [List.foldl_cons, List.map_cons, List.foldl_cons, ← hprevious, ← hleaf, hprevious]
    exact ih _ (fun later hlater => hfor later (List.mem_cons_of_mem _ hlater)) hnext
      (Best.epoch_submit.trans hepoch)

end NeverStops

namespace Search

variable [Network N K] {s : Search N K} {services : Services N K σ}

/-! ### When no task is skipped -/

omit [Network N K] in
/-- A hand-in that does not reach the stop criterion leaves the stop combination as it is. -/
theorem stop_receive (hnever : ∀ leaf, s.criteria.reachesStop leaf = false) {task : Task K}
    {best : Best K} {phase : TaskPhase N K} (hstop : best.stop = none) :
    (s.receive task best phase).stop = none := by
  cases phase with
  | finished leaf =>
    simp only [receive, Best.submit, hnever]
    split <;> exact hstop
  | _ => exact hstop

/-- While nothing has stopped, a move is one of tasks that are never skipped. -/
theorem move_eq_unchecked (s : Search N K) (services : Services N K σ) {crew : Crew N K}
    (hstop : crew.best.stop = none) (i : Nat) (state : σ) :
    (crew.move (s.step services) i state).1 = (crew.move (s.uncheckedStep services) i state).1 := by
  cases hjob : crew.jobs[i]? with
  | none => rw [Crew.move_of_none hjob, Crew.move_of_none hjob]
  | some job =>
    obtain ⟨task, phase⟩ := job
    have hahead : crew.best.isAhead task.candidate.combination = true := by
      simp [Best.isAhead, hstop]
    rw [Crew.move_of_some hjob, Crew.move_of_some hjob, step_eq_uncheckedStep hahead]

/-- When nothing reaches the stop criterion, tasks do and hand in what they would if they were
never skipped. -/
theorem interleave_eq_unchecked (s : Search N K) (services : Services N K σ)
    (hnever : ∀ leaf, s.criteria.reachesStop leaf = false) (crew : Crew N K)
    (hstop : crew.best.stop = none) (turns : List (Turn σ)) :
    crew.interleave (s.step services) turns = crew.interleave (s.uncheckedStep services) turns ∧
      crew.handIns (s.step services) turns = crew.handIns (s.uncheckedStep services) turns := by
  induction turns generalizing crew with
  | nil => exact ⟨rfl, rfl⟩
  | cons turn turns ih =>
    have hmove := s.move_eq_unchecked services hstop turn.job turn.services
    have hnext : (crew.move (s.uncheckedStep services) turn.job turn.services).1.best.stop =
        none := by
      rcases best_move_cases (s.onlySubmits_uncheckedStep services) crew turn.job turn.services
        with h | ⟨task, phase, h⟩
      · rwa [h]
      · rw [h]
        exact stop_receive hnever hstop
    obtain ⟨hinterleave, hhandIns⟩ := ih _ hnext
    rw [Crew.interleave_cons, Crew.interleave_cons, Crew.handIns_cons, Crew.handIns_cons, hmove,
      hinterleave, hhandIns]
    exact ⟨rfl, rfl⟩

/-- When nothing reaches the stop criterion, the cheapest improvement is kept of what has been
handed in. -/
theorem leaf_crewAfter (services : Services N K σ)
    (hnever : ∀ leaf, s.criteria.reachesStop leaf = false) {start : Best K}
    (hstop : start.stop = none) (candidates : List (Candidate K)) (turns : List (Turn σ)) :
    (s.crewAfter services start candidates turns).best.leaf =
      (((Crew.setOut start candidates).handIns (s.step services) turns).map HandIn.leaf).foldl
        (s.criteria.keepCheaper start.leaf) start.leaf := by
  rw [crewAfter, Crew.best_interleave (s.onlySubmits_step services)]
  refine HandIn.leaf_foldl_accept hnever start start ?_ hstop rfl
  intro h hmem
  obtain ⟨candidate, -, htask⟩ := Crew.task_of_mem_handIns_setOut hmem
  exact ⟨congrArg Task.epoch htask, congrArg Task.previous htask⟩

/-- When nothing reaches the stop criterion and all tasks are done, each candidate has handed in
what it comes to, in the states in which it has found the services. -/
theorem filter_handIns_of_isDone (hnever : ∀ leaf, s.criteria.reachesStop leaf = false)
    {start : Best K} (hstop : start.stop = none) {candidates : List (Candidate K)}
    {turns : List (Turn σ)} (hdone : (s.crewAfter services start candidates turns).isDone = true)
    {i : Nat} {candidate : Candidate K} (hcandidate : candidates[i]? = some candidate) :
    ∃ a b, ((Crew.setOut start candidates).handIns (s.step services) turns).filter (·.job == i) =
      (s.attempt services (start.task candidate) a b).toList.map
        (⟨i, start.task candidate, ·⟩) := by
  obtain ⟨hinterleave, hhandIns⟩ :=
    s.interleave_eq_unchecked services hnever (Crew.setOut start candidates) hstop turns
  rw [crewAfter, hinterleave] at hdone
  rw [hhandIns]
  exact Crew.filter_handIns_setOut hcandidate hdone

/-- When nothing reaches the stop criterion, what is kept is the leaf before or an improvement that
has been handed in. -/
theorem leaf_crewAfter_cases (services : Services N K σ)
    (hnever : ∀ leaf, s.criteria.reachesStop leaf = false) {start : Best K}
    (hstop : start.stop = none) (candidates : List (Candidate K)) (turns : List (Turn σ)) :
    (s.crewAfter services start candidates turns).best.leaf = start.leaf ∨
      ∃ h ∈ (Crew.setOut start candidates).handIns (s.step services) turns,
        s.criteria.isImprovement start.leaf h.leaf = true ∧
          (s.crewAfter services start candidates turns).best.leaf = h.leaf := by
  have hfinal := leaf_crewAfter services hnever hstop candidates turns
  rcases s.criteria.foldl_keepCheaper_mem start.leaf start.leaf
    (((Crew.setOut start candidates).handIns (s.step services) turns).map HandIn.leaf)
    with hsame | ⟨hin, himproved⟩
  · exact .inl (hfinal.trans hsame)
  · rw [← hfinal] at hin himproved
    obtain ⟨h, hh, hleaf⟩ := List.mem_map.mp hin
    exact .inr ⟨h, hh, hleaf ▸ himproved, hleaf.symm⟩

/-! ### The least cost -/

/-- In a search for the least cost, the cost at the end of a depth is the least of the cost before
and the costs of all improvements that have been handed in, and the leaf is one of these. Each
candidate hands in what it comes to, in the states in which it has found the services. -/
theorem isLeast_cost_crewAfter (s : Search N K) (services : Services N K σ)
    (hmode : s.parameters.objective.stopCriterion = .minObjective)
    (hvirtual : s.situation.perimeter.isPurelyVirtual = false)
    (previous : FinalizedLeaf K) (depth epoch : Nat) (candidates : List (Candidate K))
    (turns : List (Turn σ)) :
    let start : Best K := { leaf := previous, depth, epoch }
    let crew := s.crewAfter services start candidates turns
    let handIns := (Crew.setOut start candidates).handIns (s.step services) turns
    crew.isDone = true →
      (∀ i candidate, candidates[i]? = some candidate → ∃ a b,
        handIns.filter (·.job == i) =
          (s.attempt services (start.task candidate) a b).toList.map
            (⟨i, start.task candidate, ·⟩)) ∧
      (∀ h ∈ handIns, h.job < candidates.length) ∧
      (crew.best.leaf = previous ∨
        ∃ h ∈ handIns, s.criteria.isImprovement previous h.leaf = true ∧
          crew.best.leaf = h.leaf) ∧
      IsLeast
        (insert previous.cost
          {cost | ∃ h ∈ handIns, s.criteria.isImprovement previous h.leaf = true ∧
            cost = h.leaf.cost})
        crew.best.leaf.cost := by
  intro start crew handIns hdone
  have hnever := reachesStop_eq_false hmode hvirtual
  have hfinal : crew.best.leaf = (handIns.map HandIn.leaf).foldl
      (s.criteria.keepCheaper previous) previous :=
    leaf_crewAfter services hnever rfl candidates turns
  have hmem : crew.best.leaf = previous ∨ ∃ h ∈ handIns,
      s.criteria.isImprovement previous h.leaf = true ∧ crew.best.leaf = h.leaf :=
    leaf_crewAfter_cases services hnever rfl candidates turns
  refine ⟨?_, ?_, hmem, ?_, ?_⟩
  · intro i candidate hcandidate
    exact filter_handIns_of_isDone hnever rfl hdone hcandidate
  · intro h hh
    obtain ⟨candidate, hcandidate, -⟩ := Crew.task_of_mem_handIns_setOut hh
    exact (List.getElem?_eq_some_iff.mp hcandidate).1
  · rcases hmem with hsame | ⟨h, hh, himproved, hleaf⟩
    · exact .inl (congrArg FinalizedLeaf.cost hsame)
    · exact .inr ⟨h, hh, himproved, congrArg FinalizedLeaf.cost hleaf⟩
  · rintro cost (rfl | ⟨h, hh, himproved, rfl⟩)
    · rw [hfinal]
      exact Criteria.cost_foldl_keepCheaper_le _
    · rw [hfinal]
      exact Criteria.cost_foldl_keepCheaper_le_of_mem (List.mem_map_of_mem hh) himproved

end Search

/-- The first of two switches takes more load off the line, so opening it is kept. -/
theorem TwoSwitches.isLeast_cost_of_different_effects :
    let s := search (network 100 0 60) .minObjective 0
    let start : Best ℚ := { leaf := root s }
    let turns := Turn.oneByOne () [1, 0]
    let crew := s.crewAfter services start [openFirst, openSecond] turns
    let handIns := (Crew.setOut start [openFirst, openSecond]).handIns (s.step services) turns
    IsLeast
      (insert (root s).cost
        {cost | ∃ h ∈ handIns, s.criteria.isImprovement (root s) h.leaf = true ∧
          cost = h.leaf.cost})
      crew.best.leaf.cost := by
  intro s start turns crew handIns
  have hdone : crew.isDone = true := by decide +kernel
  -- the run has been evaluated, and is not to be looked into again
  clear_value turns
  exact (s.isLeast_cost_crewAfter services rfl (by decide +kernel) (root s) 0 0
    [openFirst, openSecond] turns hdone).2.2.2

namespace Search

/-! ### Several leaves of least cost -/

variable [Network N K] {s : Search N K} {services : Services N K σ}

/-- A leaf that a candidate comes to and that no improvement is cheaper than. -/
structure Leads (s : Search N K) (previous : FinalizedLeaf K) (candidates : List (Candidate K))
    (outcome : Candidate K → Option (FinalizedLeaf K)) (leaf : FinalizedLeaf K) : Prop where
  exists_candidate : ∃ candidate ∈ candidates, outcome candidate = some leaf
  isImprovement : s.criteria.isImprovement previous leaf = true
  cost_le : ∀ candidate ∈ candidates, ∀ other, outcome candidate = some other →
    s.criteria.isImprovement previous other = true → leaf.cost ≤ other.cost

variable [Nonempty σ] {candidates : List (Candidate K)}
  {outcome : Candidate K → Option (FinalizedLeaf K)}

/-- At the end of a depth a leaf is kept that leads, or the leaf before if none does. -/
theorem leads_or_eq_of_isDone (hnever : ∀ leaf, s.criteria.reachesStop leaf = false)
    (start : Best K) (hstop : start.stop = none)
    (hsettled : ∀ c ∈ candidates, s.Settles services (start.task c) (outcome c))
    {turns : List (Turn σ)} (hdone : (s.crewAfter services start candidates turns).isDone = true) :
    s.Leads start.leaf candidates outcome
        (s.crewAfter services start candidates turns).best.leaf ∨
      ((s.crewAfter services start candidates turns).best.leaf = start.leaf ∧
        ∀ leaf, ¬ s.Leads start.leaf candidates outcome leaf) := by
  obtain ⟨handIns, hmem, hbest⟩ := exists_handIns hsettled hdone
  have hfinal := HandIn.leaf_foldl_accept hnever start start
    (fun h hh => (Crew.isSettled_of_settledHandIn? ((hmem h).mp hh)).toIsFor) hstop rfl
  rw [← hbest] at hfinal
  have hleast : ∀ candidate ∈ candidates, ∀ leaf, outcome candidate = some leaf →
      s.criteria.isImprovement start.leaf leaf = true →
        (s.crewAfter services start candidates turns).best.leaf.cost ≤ leaf.cost := by
    intro candidate hcandidate leaf hleaf himproved
    obtain ⟨i, -, hi⟩ := Crew.exists_settledHandIn? start hcandidate hleaf
    rw [hfinal]
    exact Criteria.cost_foldl_keepCheaper_le_of_mem
      (List.mem_map_of_mem ((hmem ⟨i, start.task candidate, leaf⟩).mpr hi)) himproved
  rcases s.criteria.foldl_keepCheaper_mem start.leaf start.leaf (handIns.map HandIn.leaf)
    with hsame | ⟨hin, himproved⟩
  · refine .inr ⟨hfinal.trans hsame, fun leaf hleads => ?_⟩
    obtain ⟨candidate, hcandidate, hleaf⟩ := hleads.exists_candidate
    have hle := hleast candidate hcandidate leaf hleaf hleads.isImprovement
    rw [hfinal, hsame] at hle
    exact (cost_lt_of_isImprovement hleads.isImprovement).not_ge hle
  · rw [← hfinal] at hin himproved
    obtain ⟨h, hh, hleaf⟩ := List.mem_map.mp hin
    have hsettledIn := Crew.isSettled_of_settledHandIn? ((hmem h).mp hh)
    exact .inl ⟨⟨_, hsettledIn.mem, hleaf ▸ hsettledIn.outcome_eq⟩, himproved, hleast⟩

/-- A leaf that leads is kept if it is the first to arrive. -/
theorem exists_turns_of_leads (hnever : ∀ leaf, s.criteria.reachesStop leaf = false)
    (start : Best K) (hstop : start.stop = none)
    (hsettled : ∀ c ∈ candidates, s.Settles services (start.task c) (outcome c))
    {leaf : FinalizedLeaf K} (hleads : s.Leads start.leaf candidates outcome leaf) :
    ∃ turns : List (Turn σ), (s.crewAfter services start candidates turns).isDone = true ∧
      (s.crewAfter services start candidates turns).best.leaf = leaf := by
  obtain ⟨candidate, hcandidate, houtcome⟩ := hleads.exists_candidate
  obtain ⟨i, hi, hhandIn⟩ := Crew.exists_settledHandIn? start hcandidate houtcome
  obtain ⟨turns, hdone, hbest⟩ := exists_turns hsettled
    (List.perm_cons_erase (List.mem_range.mpr hi)).symm
  refine ⟨turns, hdone, ?_⟩
  rw [hbest, HandIn.leaf_foldl_accept hnever start start ?_ hstop rfl]
  · rw [List.flatMap_cons, hhandIn, Option.toList_some, List.singleton_append, List.map_cons,
      List.foldl_cons]
    have hfirst : s.criteria.keepCheaper start.leaf start.leaf leaf = leaf := by
      rcases s.criteria.keepCheaper_cases start.leaf start.leaf leaf with ⟨-, -, hnew⟩ | ⟨hle, -⟩
      · exact hnew
      · exact absurd (hle hleads.isImprovement)
          (cost_lt_of_isImprovement hleads.isImprovement).not_ge
    rw [hfirst]
    refine Criteria.foldl_keepCheaper_eq_self fun other hother himproved => ?_
    obtain ⟨h, hh, rfl⟩ := List.mem_map.mp hother
    have hsettledIn := Crew.isSettled_of_mem_flatMap hh
    exact hleads.cost_le _ hsettledIn.mem h.leaf hsettledIn.outcome_eq himproved
  · exact fun h hh => (Crew.isSettled_of_mem_flatMap hh).toIsFor

/-- In a search for the least cost, the leaf at the end of a depth does not depend on the turns
exactly when no two different leaves lead. Of several ones the first to arrive is kept, and their
priority does not matter. -/
theorem leaf_crewAfter_unique_iff (s : Search N K) (services : Services N K σ)
    (hmode : s.parameters.objective.stopCriterion = .minObjective)
    (hvirtual : s.situation.perimeter.isPurelyVirtual = false)
    (previous : FinalizedLeaf K) (depth epoch : Nat) (candidates : List (Candidate K))
    (outcome : Candidate K → Option (FinalizedLeaf K)) :
    let start : Best K := { leaf := previous, depth, epoch }
    (∀ c ∈ candidates, s.Settles services (start.task c) (outcome c)) →
      ((∀ turns turns' : List (Turn σ),
        (s.crewAfter services start candidates turns).isDone = true →
        (s.crewAfter services start candidates turns').isDone = true →
          (s.crewAfter services start candidates turns).best.leaf =
            (s.crewAfter services start candidates turns').best.leaf) ↔
        ∀ leaf leaf', s.Leads previous candidates outcome leaf →
          s.Leads previous candidates outcome leaf' → leaf = leaf') := by
  intro start hsettled
  have hnever := reachesStop_eq_false hmode hvirtual
  constructor
  · intro hunique leaf leaf' hleads hleads'
    obtain ⟨turns, hdone, hleaf⟩ := exists_turns_of_leads hnever start rfl hsettled hleads
    obtain ⟨turns', hdone', hleaf'⟩ := exists_turns_of_leads hnever start rfl hsettled hleads'
    rw [← hleaf, ← hleaf']
    exact hunique turns turns' hdone hdone'
  · intro hunique turns turns' hdone hdone'
    rcases leads_or_eq_of_isDone hnever start rfl hsettled hdone with h | ⟨h, hnone⟩
    · rcases leads_or_eq_of_isDone hnever start rfl hsettled hdone' with
        h' | ⟨-, hnone'⟩
      · exact hunique _ _ h h'
      · exact absurd h (hnone' _)
    · rcases leads_or_eq_of_isDone hnever start rfl hsettled hdone' with h' | ⟨h', -⟩
      · exact absurd h' (hnone _)
      · exact h.trans h'.symm

end Search

namespace TwoSwitches

/-- When the two switches differ in their effects, the turns do not matter. -/
theorem leaf_unique_of_different_effects :
    let s := search (network 100 0 60) .minObjective 0
    ∀ turns turns' : List (Turn Unit), (crewAfter s turns).isDone = true →
      (crewAfter s turns').isDone = true →
        (crewAfter s turns).best.leaf = (crewAfter s turns').best.leaf := by
  intro s
  refine (s.leaf_crewAfter_unique_iff services rfl (by decide +kernel) (root s) 0 0
    [openFirst, openSecond] (outcome s) fun c _ => settles s c).mpr ?_
  have hcheaper : (outcome s openFirst).any (fun first =>
      s.criteria.isImprovement (root s) first && (outcome s openSecond).all fun second =>
        Criteria.isCheaper first.cost? second.cost?) = true := by
    decide +kernel
  obtain ⟨first, hfirst, hcheaper⟩ := (Option.any_eq_true ..).mp hcheaper
  obtain ⟨himproved, hcheaper⟩ := Bool.and_eq_true_iff.mp hcheaper
  have honly : ∀ leaf, s.Leads (root s) [openFirst, openSecond] (outcome s) leaf →
      leaf = first := by
    intro leaf hleads
    obtain ⟨candidate, hmem, hleaf⟩ := hleads.exists_candidate
    simp only [List.mem_cons, List.not_mem_nil, or_false] at hmem
    rcases hmem with rfl | rfl
    · exact Option.some.inj (hleaf.symm.trans hfirst)
    · -- the second leaf is dearer than the first one
      have hle := hleads.cost_le openFirst List.mem_cons_self first hfirst himproved
      have hlt := Criteria.isCheaper_iff.mp ((Option.all_eq_true ..).mp hcheaper leaf hleaf)
      exact absurd hlt hle.not_gt
  intro leaf leaf' hleads hleads'
  rw [honly leaf hleads, honly leaf' hleads']

/-- When they have the same effect, the leaf that arrives first is kept. -/
theorem leaf_depends_on_turns_of_same_effects :
    let s := search (network 100 0 100) .minObjective 0
    ¬ ∀ turns turns' : List (Turn Unit), (crewAfter s turns).isDone = true →
      (crewAfter s turns').isDone = true →
        (crewAfter s turns).best.leaf = (crewAfter s turns').best.leaf := by
  intro s h
  have hsame := h (Turn.oneByOne () [0, 1]) (Turn.oneByOne () [1, 0]) (by decide +kernel)
    (by decide +kernel)
  have hdiffer : (crewAfter s (Turn.oneByOne () [0, 1])).best.leaf.applied.ids ≠
      (crewAfter s (Turn.oneByOne () [1, 0])).best.leaf.applied.ids := by
    decide +kernel
  exact hdiffer (congrArg (·.applied.ids) hsame)

end TwoSwitches

end GridRelief
