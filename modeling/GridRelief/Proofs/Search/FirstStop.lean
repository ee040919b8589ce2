import Mathlib.Data.List.Pairwise
import GridRelief.Proofs.Search.Criteria
import GridRelief.Proofs.Search.Arrivals

/-!
# The first leaf that reaches the stop criterion

Of the improvements that reach the stop criterion the first one by priority should be kept,
whatever arrives first. Once it is kept it stays. When it arrives, what is kept may be a leaf that
does not reach the criterion, on account of a virtual cost; while nothing has reached it, a leaf
has to be cheaper to be accepted.

* `Search.exists_stopsFirst`: there is a first one.
* `Search.stopsFirst_kept_iff`: it is kept whatever the turns exactly when all improvements that do
  not reach the criterion cost more.
-/

namespace GridRelief

variable {K N σ : Type}

namespace Search

/-- A leaf that is an improvement and reaches the stop criterion. -/
structure Stops [Scalar K] (s : Search N K) (previous leaf : FinalizedLeaf K) : Prop where
  isImprovement : s.criteria.isImprovement previous leaf = true
  reachesStop : s.criteria.reachesStop leaf = true

/-- A candidate that comes to an improvement which reaches the stop criterion, before all other such
candidates by priority. -/
structure StopsFirst [Scalar K] (s : Search N K) (previous : FinalizedLeaf K)
    (candidates : List (Candidate K)) (outcome : Candidate K → Option (FinalizedLeaf K))
    (first : Candidate K) (leaf : FinalizedLeaf K) : Prop where
  mem : first ∈ candidates
  outcome_eq : outcome first = some leaf
  stops : s.Stops previous leaf
  priority_lt : ∀ c ∈ candidates, ∀ other, outcome c = some other → s.Stops previous other →
    c ≠ first → first.combination.priority c.combination = .lt

/-! ### The first one -/

/-- Of some candidates with a property one comes before or with all others. -/
theorem exists_first {P : Candidate K → Prop} {candidates : List (Candidate K)}
    (h : ∃ c ∈ candidates, P c) :
    ∃ first ∈ candidates, P first ∧ ∀ c ∈ candidates, P c →
      (first.combination.priority c.combination).isLE = true := by
  induction candidates with
  | nil => simp at h
  | cons head rest ih =>
    by_cases hrest : ∃ c ∈ rest, P c
    · obtain ⟨first, hmem, hfirst, hle⟩ := ih hrest
      by_cases hhead : P head ∧ (head.combination.priority first.combination).isLE = true
      · refine ⟨head, List.mem_cons_self, hhead.1, fun c hc hPc => ?_⟩
        rcases List.mem_cons.mp hc with rfl | hc
        · simp
        · exact Std.TransCmp.isLE_trans hhead.2 (hle c hc hPc)
      · refine ⟨first, List.mem_cons_of_mem _ hmem, hfirst, fun c hc hPc => ?_⟩
        rcases List.mem_cons.mp hc with rfl | hc
        · have hgt : c.combination.priority first.combination = .gt := by
            rw [← Ordering.isLE_eq_false]
            simpa [hPc] using hhead
          simp [Combination.priority_eq_gt_iff.mp hgt]
        · exact hle c hc hPc
    · obtain ⟨c, hc, hPc⟩ := h
      have hhead : c = head := by
        rcases List.mem_cons.mp hc with heq | hc
        · exact heq
        · exact absurd ⟨c, hc, hPc⟩ hrest
      subst hhead
      refine ⟨c, List.mem_cons_self, hPc, fun d hd hPd => ?_⟩
      rcases List.mem_cons.mp hd with rfl | hd
      · simp
      · exact absurd ⟨d, hd, hPd⟩ hrest

variable {previous leaf other : FinalizedLeaf K} {candidates : List (Candidate K)}
  {outcome : Candidate K → Option (FinalizedLeaf K)} {first : Candidate K}

/-- Of candidates that differ in priority, one is the first that reaches the stop criterion if any
does. -/
theorem exists_stopsFirst [Scalar K] {s : Search N K}
    (hdistinct : candidates.Pairwise fun c d => c.combination.priority d.combination ≠ .eq)
    (h : ∃ c ∈ candidates, ∃ leaf, outcome c = some leaf ∧ s.Stops previous leaf) :
    ∃ first leaf, s.StopsFirst previous candidates outcome first leaf := by
  obtain ⟨first, hmem, ⟨leaf, hleaf, hstops⟩, hle⟩ := exists_first h
  refine ⟨first, leaf, hmem, hleaf, hstops, fun c hc other hother hstops' hne => ?_⟩
  have : Std.Symm fun c d : Candidate K => c.combination.priority d.combination ≠ .eq :=
    ⟨fun _ _ hcd heq => hcd (Std.OrientedCmp.eq_symm heq)⟩
  have hpriority := hdistinct.forall hmem hc hne.symm
  have hle := hle c hc ⟨other, hother, hstops'⟩
  cases hcompare : first.combination.priority c.combination with
  | lt => rfl
  | eq => exact absurd hcompare hpriority
  | gt => rw [hcompare] at hle; cases hle

end Search

/-! ### What is kept while leaves arrive -/

section Arrivals

variable [ExactScalar K] {s : Search N K} {start best : Best K} {candidates : List (Candidate K)}
  {outcome : Candidate K → Option (FinalizedLeaf K)} {first : Candidate K}
  {leaf other : FinalizedLeaf K}

/-- The leaf of a combination that has reached the stop criterion is kept. -/
structure Best.Keeps (best : Best K) (first : Candidate K) (leaf : FinalizedLeaf K) : Prop where
  stop_eq : best.stop = some first.combination
  leaf_eq : best.leaf = leaf

/-- The leaf of a combination that is still to arrive would be accepted. -/
structure Best.AwaitsIn (best : Best K) (epoch : Nat) (first : Candidate K)
    (leaf : FinalizedLeaf K) : Prop where
  epoch_eq : best.epoch = epoch
  isAhead : best.isAhead first.combination = true
  cost_lt : best.stop = none → leaf.cost < best.leaf.cost

/-- What arrives for the first candidate that reaches the stop criterion is its leaf. -/
theorem Search.StopsFirst.leaf_eq_of_isSettled
    (hfirst : s.StopsFirst start.leaf candidates outcome first leaf) {h : HandIn K}
    (hsettled : h.IsSettled start candidates outcome) (hcandidate : h.task.candidate = first) :
    h.leaf = leaf := by
  have houtcome := hsettled.outcome_eq
  rw [hcandidate, hfirst.outcome_eq] at houtcome
  exact (Option.some.inj houtcome).symm

/-- Once the first leaf that reaches the stop criterion is kept, it stays. -/
theorem Search.StopsFirst.keeps_accept
    (hfirst : s.StopsFirst start.leaf candidates outcome first leaf) {h : HandIn K}
    (hsettled : h.IsSettled start candidates outcome)
    (hkeeps : best.Keeps first leaf) : (HandIn.accept s.criteria best h).Keeps first leaf := by
  rcases Best.submit_cases s.criteria h.task.epoch h.task.previous h.leaf
    h.task.candidate.combination best with ⟨himproved, hbeaten, -⟩ | ⟨-, hsame⟩
  · -- it would give way only to one that comes before it
    simp only [Best.isBeaten, hkeeps.stop_eq, Bool.and_eq_true] at hbeaten
    obtain ⟨hstops, hahead⟩ := hbeaten
    have hbefore : h.task.candidate.combination.priority first.combination = .lt := by
      simpa [Best.isAhead, hkeeps.stop_eq] using hahead
    rw [hsettled.previous_eq] at himproved
    by_cases hsame : h.task.candidate = first
    · rw [hsame, Combination.priority_self] at hbefore
      cases hbefore
    · have hafter := hfirst.priority_lt _ hsettled.mem _ hsettled.outcome_eq
        ⟨himproved, hstops⟩ hsame
      rw [← Combination.priority_eq_gt_iff, hbefore] at hafter
      cases hafter
  · unfold HandIn.accept
    rwa [hsame]

/-- While improvements that do not reach the stop criterion cost more than the first leaf that
does, it is accepted when it arrives, and is awaited until then. -/
theorem Search.StopsFirst.awaits_accept
    (hfirst : s.StopsFirst start.leaf candidates outcome first leaf)
    (hdear : ∀ c ∈ candidates, ∀ other, outcome c = some other →
      s.criteria.isImprovement start.leaf other = true → s.criteria.reachesStop other = false →
        leaf.cost < other.cost)
    {h : HandIn K} (hsettled : h.IsSettled start candidates outcome)
    (hawaits : best.AwaitsIn start.epoch first leaf) :
    (HandIn.accept s.criteria best h).Keeps first leaf ∨
      h.task.candidate ≠ first ∧
        (HandIn.accept s.criteria best h).AwaitsIn start.epoch first leaf := by
  unfold HandIn.accept
  rcases Best.submit_cases s.criteria h.task.epoch h.task.previous h.leaf
    h.task.candidate.combination best with ⟨himproved, hbeaten, haccepted⟩ | ⟨hrejected, hsame⟩
  · rw [haccepted]
    rw [hsettled.previous_eq] at himproved
    by_cases hcandidate : h.task.candidate = first
    · rw [hcandidate, hfirst.leaf_eq_of_isSettled hsettled hcandidate,
        if_pos hfirst.stops.reachesStop]
      exact .inl ⟨rfl, rfl⟩
    · refine .inr ⟨hcandidate, ⟨hawaits.epoch_eq, ?_, ?_⟩⟩
      · cases hstops : s.criteria.reachesStop h.leaf with
        | false => simpa [Best.isAhead] using hawaits.isAhead
        | true =>
          have hlt := hfirst.priority_lt _ hsettled.mem _ hsettled.outcome_eq
            ⟨himproved, hstops⟩ hcandidate
          simp [Best.isAhead, hlt]
      · intro hnone
        cases hstops : s.criteria.reachesStop h.leaf with
        | false => exact hdear _ hsettled.mem _ hsettled.outcome_eq himproved hstops
        | true => simp [hstops] at hnone
  · rw [hsame]
    refine .inr ⟨fun hcandidate => ?_, hawaits⟩
    -- the first leaf is not rejected
    have hleaf := hfirst.leaf_eq_of_isSettled hsettled hcandidate
    have hbeaten := hrejected (by simp [Best.isOpen, hawaits.epoch_eq, hsettled.epoch_eq])
      (by rw [hsettled.previous_eq, hleaf]; exact hfirst.stops.isImprovement)
    rw [hcandidate, hleaf, hfirst.stops.reachesStop] at hbeaten
    unfold Best.isBeaten at hbeaten
    cases hstop : best.stop with
    | none =>
      rw [hstop] at hbeaten
      exact absurd (Criteria.isCheaper_iff.mpr (hawaits.cost_lt hstop)) (by simp [hbeaten])
    | some stop => simp [hstop, hawaits.isAhead] at hbeaten

/-- Once the first leaf that reaches the stop criterion is kept, it stays to the end. -/
theorem Search.StopsFirst.keeps_foldl
    (hfirst : s.StopsFirst start.leaf candidates outcome first leaf) {handIns : List (HandIn K)}
    (hsettled : ∀ h ∈ handIns, h.IsSettled start candidates outcome)
    (hkeeps : best.Keeps first leaf) :
    (handIns.foldl (HandIn.accept s.criteria) best).Keeps first leaf := by
  induction handIns generalizing best with
  | nil => exact hkeeps
  | cons h handIns ih =>
    obtain ⟨hhead, hrest⟩ := List.forall_mem_cons.mp hsettled
    exact ih hrest (hfirst.keeps_accept hhead hkeeps)

/-- If it is awaited and arrives, it is kept at the end. -/
theorem Search.StopsFirst.keeps_foldl_of_awaits
    (hfirst : s.StopsFirst start.leaf candidates outcome first leaf)
    (hdear : ∀ c ∈ candidates, ∀ other, outcome c = some other →
      s.criteria.isImprovement start.leaf other = true → s.criteria.reachesStop other = false →
        leaf.cost < other.cost)
    {handIns : List (HandIn K)}
    (hsettled : ∀ h ∈ handIns, h.IsSettled start candidates outcome)
    (harrives : ∃ h ∈ handIns, h.task.candidate = first)
    (hawaits : best.AwaitsIn start.epoch first leaf) :
    (handIns.foldl (HandIn.accept s.criteria) best).Keeps first leaf := by
  induction handIns generalizing best with
  | nil => simp at harrives
  | cons h handIns ih =>
    obtain ⟨hhead, hrest⟩ := List.forall_mem_cons.mp hsettled
    rw [List.foldl_cons]
    rcases hfirst.awaits_accept hdear hhead hawaits with hkeeps | ⟨hne, hstill⟩
    · exact hfirst.keeps_foldl hrest hkeeps
    · refine ih hrest ?_ hstill
      obtain ⟨arriving, hmem, heq⟩ := harrives
      rcases List.mem_cons.mp hmem with rfl | hmem
      · exact absurd heq hne
      · exact ⟨arriving, hmem, heq⟩

/-- While nothing has reached the stop criterion, a leaf that is not cheaper is rejected. -/
theorem HandIn.accept_eq_self {h : HandIn K} (hstop : best.stop = none)
    (hdear : ¬ h.leaf.cost < best.leaf.cost) : HandIn.accept s.criteria best h = best := by
  have hcheaper : Criteria.isCheaper h.leaf.cost? best.leaf.cost? = false := by
    rwa [← Bool.not_eq_true, Criteria.isCheaper_iff]
  simp [HandIn.accept, Best.submit, Best.isBeaten, hstop, hcheaper]

/-- Hand-ins that would each be rejected change nothing. -/
theorem HandIn.foldl_accept_eq_self {handIns : List (HandIn K)}
    (h : ∀ h ∈ handIns, HandIn.accept s.criteria best h = best) :
    handIns.foldl (HandIn.accept s.criteria) best = best := by
  induction handIns with
  | nil => rfl
  | cons head handIns ih =>
    obtain ⟨hhead, hrest⟩ := List.forall_mem_cons.mp h
    rw [List.foldl_cons, hhead]
    exact ih hrest

/-- A leaf that is not kept and does not arrive is not kept at the end. -/
theorem HandIn.leaf_foldl_accept_ne {handIns : List (HandIn K)} (hne : best.leaf ≠ leaf)
    (h : ∀ h ∈ handIns, h.leaf ≠ leaf) :
    (handIns.foldl (HandIn.accept s.criteria) best).leaf ≠ leaf := by
  induction handIns generalizing best with
  | nil => exact hne
  | cons head handIns ih =>
    obtain ⟨hhead, hrest⟩ := List.forall_mem_cons.mp h
    refine ih ?_ hrest
    unfold HandIn.accept
    rcases Best.submit_cases s.criteria head.task.epoch head.task.previous head.leaf
      head.task.candidate.combination best with ⟨-, -, haccepted⟩ | ⟨-, hsame⟩
    · rw [haccepted]
      exact hhead
    · rwa [hsame]

end Arrivals

/-! ### The leaf at the end of a depth -/

namespace Search

variable [ExactScalar K] [Network N K] {s : Search N K} {services : Services N K σ}
  {candidates : List (Candidate K)}
  {outcome : Candidate K → Option (FinalizedLeaf K)} {first : Candidate K}
  {leaf other : FinalizedLeaf K}

/-- If all improvements that do not reach the stop criterion cost more, the first leaf that does is
kept at the end of a depth. -/
theorem StopsFirst.leaf_eq_of_isDone [Nonempty σ] (start : Best K)
    (hfirst : s.StopsFirst start.leaf candidates outcome first leaf) (hstop : start.stop = none)
    (hdear : ∀ c ∈ candidates, ∀ other, outcome c = some other →
      s.criteria.isImprovement start.leaf other = true → s.criteria.reachesStop other = false →
        leaf.cost < other.cost)
    (hsettled : ∀ c ∈ candidates, s.Settles services (start.task c) (outcome c))
    {turns : List (Turn σ)} (hdone : (s.crewAfter services start candidates turns).isDone = true) :
    (s.crewAfter services start candidates turns).best.leaf = leaf := by
  obtain ⟨handIns, hmem, hbest⟩ := exists_handIns hsettled hdone
  obtain ⟨i, -, hi⟩ := Crew.exists_settledHandIn? start hfirst.mem hfirst.outcome_eq
  have hawaits : start.AwaitsIn start.epoch first leaf :=
    ⟨rfl, by simp [Best.isAhead, hstop],
      fun _ => cost_lt_of_isImprovement hfirst.stops.isImprovement⟩
  rw [hbest]
  exact (hfirst.keeps_foldl_of_awaits hdear
    (fun h hh => Crew.isSettled_of_settledHandIn? ((hmem h).mp hh))
    ⟨⟨i, start.task first, leaf⟩, (hmem _).mpr hi, rfl⟩ hawaits).leaf_eq

/-- If an improvement that does not reach the stop criterion does not cost more, the first leaf that
does is not always kept: it is not if the other one arrives before all that reach it. -/
theorem StopsFirst.exists_turns_leaf_ne [Nonempty σ] (start : Best K)
    (hfirst : s.StopsFirst start.leaf candidates outcome first leaf) (hstop : start.stop = none)
    (hsettled : ∀ c ∈ candidates, s.Settles services (start.task c) (outcome c))
    {c : Candidate K} (hc : c ∈ candidates) (hother : outcome c = some other)
    (himproved : s.criteria.isImprovement start.leaf other = true)
    (hgoesOn : s.criteria.reachesStop other = false) (hcheap : ¬ leaf.cost < other.cost) :
    ∃ turns : List (Turn σ), (s.crewAfter services start candidates turns).isDone = true ∧
      (s.crewAfter services start candidates turns).best.leaf ≠ leaf := by
  classical
  obtain ⟨i, hi, hhandIn⟩ := Crew.exists_settledHandIn? start hc hother
  -- the other leaf arrives first, then whatever is the same as the leaf in question
  let same (j : Nat) : Bool :=
    (Crew.settledHandIn? start candidates outcome j).any fun h => decide (h.leaf = leaf)
  let rest := (List.range candidates.length).erase i
  have horder : (i :: (rest.filter same ++ rest.filter (!same ·))).Perm
      (List.range candidates.length) :=
    ((List.filter_append_perm same rest).cons i).trans
      (List.perm_cons_erase (List.mem_range.mpr hi)).symm
  obtain ⟨turns, hdone, hbest⟩ := exists_turns hsettled horder
  refine ⟨turns, hdone, ?_⟩
  rw [hbest, List.flatMap_cons, List.flatMap_append, List.foldl_append, List.foldl_append, hhandIn,
    Option.toList_some, List.foldl_cons, List.foldl_nil]
  have hkept : HandIn.accept s.criteria start ⟨i, start.task c, other⟩ =
      { start with leaf := other, depth := start.epoch + 1 } := by
    have hcheaper := Criteria.isCheaper_iff.mpr (cost_lt_of_isImprovement himproved)
    simp [HandIn.accept, Best.submit, Best.task, Best.isOpen, Best.isBeaten, himproved, hgoesOn,
      hstop, hcheaper]
  have hsameIgnored :
      ((rest.filter same).flatMap fun j =>
        (Crew.settledHandIn? start candidates outcome j).toList).foldl (HandIn.accept s.criteria)
          { start with leaf := other, depth := start.epoch + 1 } =
        { start with leaf := other, depth := start.epoch + 1 } := by
    refine HandIn.foldl_accept_eq_self fun h hmem => HandIn.accept_eq_self hstop ?_
    obtain ⟨j, hj, hh⟩ := List.mem_flatMap.mp hmem
    have hleaf : h.leaf = leaf := by
      simpa [same, Option.mem_toList.mp hh] using (List.mem_filter.mp hj).2
    rwa [hleaf]
  rw [hkept, hsameIgnored]
  refine HandIn.leaf_foldl_accept_ne ?_ ?_
  · rintro rfl
    simp [hfirst.stops.reachesStop] at hgoesOn
  · intro h hmem
    obtain ⟨j, hj, hh⟩ := List.mem_flatMap.mp hmem
    rintro rfl
    simp [same, Option.mem_toList.mp hh] at hj

/-- When some improvement reaches the stop criterion, the first one by priority that does is kept
whatever the turns exactly when all improvements that do not reach it cost more. -/
theorem stopsFirst_kept_iff [Nonempty σ] (s : Search N K) (services : Services N K σ)
    (previous : FinalizedLeaf K) (depth epoch : Nat) (candidates : List (Candidate K))
    (outcome : Candidate K → Option (FinalizedLeaf K)) :
    let start : Best K := { leaf := previous, depth, epoch }
    (∀ c ∈ candidates, s.Settles services (start.task c) (outcome c)) →
    (candidates.Pairwise fun c d => c.combination.priority d.combination ≠ .eq) →
    (∃ c ∈ candidates, ∃ leaf, outcome c = some leaf ∧ s.Stops previous leaf) →
      ∃ first leaf, s.StopsFirst previous candidates outcome first leaf ∧
        ((∀ turns : List (Turn σ),
          (s.crewAfter services start candidates turns).isDone = true →
            (s.crewAfter services start candidates turns).best.leaf = leaf) ↔
          ∀ c ∈ candidates, ∀ other, outcome c = some other →
            s.criteria.isImprovement previous other = true →
              s.criteria.reachesStop other = false → leaf.cost < other.cost) := by
  intro start hsettled hdistinct hstops
  obtain ⟨first, leaf, hfirst⟩ := exists_stopsFirst hdistinct hstops
  refine ⟨first, leaf, hfirst, ?_, ?_⟩
  · intro hkept c hc other hother himproved hgoesOn
    by_contra hcheap
    obtain ⟨turns, hdone, hne⟩ := hfirst.exists_turns_leaf_ne start rfl hsettled hc hother
      himproved hgoesOn hcheap
    exact hne (hkept turns hdone)
  · intro hdear turns hdone
    exact hfirst.leaf_eq_of_isDone start rfl hdear hsettled hdone

end Search

namespace TwoSwitches

/-- When each of two switches reaches the target, the first one is kept whatever the turns. -/
theorem stopsFirst_kept_of_both_stop :
    let s := search (network 200 0 60) .atTarget (-350)
    ∃ first leaf, s.StopsFirst (root s) [openFirst, openSecond] (outcome s) first leaf ∧
      ∀ turns : List (Turn Unit), (crewAfter s turns).isDone = true →
        (crewAfter s turns).best.leaf = leaf := by
  intro s
  have hboth : ∀ c ∈ [openFirst, openSecond], (outcome s c).any (fun leaf =>
      s.criteria.isImprovement (root s) leaf && s.criteria.reachesStop leaf) = true := by
    decide +kernel
  obtain ⟨leaf, hleaf, hstops⟩ :=
    (Option.any_eq_true ..).mp (hboth openFirst List.mem_cons_self)
  obtain ⟨himproved, hreaches⟩ := Bool.and_eq_true_iff.mp hstops
  obtain ⟨first, leaf, hfirst, hkept⟩ := s.stopsFirst_kept_iff services (root s) 0 0
    [openFirst, openSecond] (outcome s) (fun c _ => settles s c) (by decide +kernel)
    ⟨openFirst, List.mem_cons_self, leaf, hleaf, himproved, hreaches⟩
  refine ⟨first, leaf, hfirst, hkept.mpr fun c hc other hother _ hgoesOn => ?_⟩
  obtain ⟨other', hother', hstops'⟩ := (Option.any_eq_true ..).mp (hboth c hc)
  obtain rfl := Option.some.inj (hother.symm.trans hother')
  simp [hgoesOn] at hstops'

/-- When opening the first switch is cheaper but has a virtual cost, so that only the second one
reaches the target, the second one is not kept if it arrives last. -/
theorem stopsFirst_not_kept_of_virtual_cost :
    let s := search (network 200 15 60) .atTarget (-350)
    ¬ ∀ first leaf, s.StopsFirst (root s) [openFirst, openSecond] (outcome s) first leaf →
      ∀ turns : List (Turn Unit), (crewAfter s turns).isDone = true →
        (crewAfter s turns).best.leaf = leaf := by
  intro s hkept
  have hsecond : (outcome s openSecond).any (fun leaf =>
      s.criteria.isImprovement (root s) leaf && s.criteria.reachesStop leaf &&
        decide (leaf.applied.ids ≠
          (crewAfter s (Turn.oneByOne () [0, 1])).best.leaf.applied.ids)) = true := by
    decide +kernel
  have hfirst : (outcome s openFirst).all (fun leaf => !s.criteria.reachesStop leaf) = true := by
    decide +kernel
  obtain ⟨leaf, hleaf, hstops⟩ := (Option.any_eq_true ..).mp hsecond
  simp only [Bool.and_eq_true, decide_eq_true_eq] at hstops
  refine hstops.2 (congrArg (·.applied.ids) (hkept openSecond leaf
    ⟨by simp, hleaf, ⟨hstops.1.1, hstops.1.2⟩, ?_⟩ (Turn.oneByOne () [0, 1])
    (by decide +kernel)).symm)
  intro c hc other hother hother' hne
  -- the first switch does not reach the target
  simp only [List.mem_cons, List.not_mem_nil, or_false, hne] at hc
  subst hc
  have hgoesOn := (Option.all_eq_true ..).mp hfirst other hother
  simp [hother'.reachesStop] at hgoesOn

end TwoSwitches

end GridRelief
