import GridRelief.Proofs.Search.SkipChecks
import GridRelief.Proofs.Search.HandIns

/-!
# Orders of arrival

When outcomes are settled, what comes of a depth is what comes of the outcomes in some order of
arrival, although tasks may be skipped. Every order is possible, since jobs may work one after the
other.

* `Search.exists_handIns`: there is an order of arrival.
* `Search.exists_turns`: every order of arrival is possible.
-/

namespace GridRelief.Search

variable {K N σ : Type} [Scalar K] [Network N K]

variable {s : Search N K} {services : Services N K σ} {best : Best K}
  {candidates : List (Candidate K)} {outcome : Candidate K → Option (FinalizedLeaf K)}

/-- Tasks that are done share what comes of the settled outcomes in some order. -/
theorem exists_handIns [Nonempty σ]
    (hsettled : ∀ c ∈ candidates, s.Settles services (best.task c) (outcome c))
    {turns : List (Turn σ)}
    (hdone : (s.crewAfter services best candidates turns).isDone = true) :
    ∃ handIns : List (HandIn K),
      (∀ h, h ∈ handIns ↔ Crew.settledHandIn? best candidates outcome h.job = some h) ∧
        (s.crewAfter services best candidates turns).best =
          handIns.foldl (HandIn.accept s.criteria) best := by
  obtain ⟨state⟩ := ‹Nonempty σ›
  -- tasks that are never skipped may need further turns, which change nothing here
  let order := List.range candidates.length
  have hlast : (s.crewAfter services best candidates turns).interleave (s.step services)
      (Turn.oneByOne state order) = s.crewAfter services best candidates turns :=
    Crew.interleave_of_isDone (fun _ _ _ => rfl) hdone _
  have hunchecked : ((Crew.setOut best candidates).interleave (s.uncheckedStep services)
      (turns ++ Turn.oneByOne state order)).isDone = true := by
    refine Crew.isDone_interleave (s.descends_uncheckedStep services) fun i hi => ?_
    rw [List.countP_append]
    refine Nat.le_trans (Turn.le_countP_oneByOne ?_) (Nat.le_add_left ..)
    simpa [order] using hi
  refine ⟨_, Crew.mem_handIns_setOut_iff hsettled hunchecked, ?_⟩
  rw [← hlast, crewAfter, ← Crew.interleave_append,
    ((shadows_setOut hsettled).interleave rfl).best_eq]
  exact Crew.best_interleave (s.onlySubmits_uncheckedStep services) _

/-- Jobs that work one after the other share what comes of the settled outcomes in that order. -/
theorem exists_turns [Nonempty σ]
    (hsettled : ∀ c ∈ candidates, s.Settles services (best.task c) (outcome c))
    {order : List Nat} (horder : order.Perm (List.range candidates.length)) :
    ∃ turns : List (Turn σ), (s.crewAfter services best candidates turns).isDone = true ∧
      (s.crewAfter services best candidates turns).best =
        (order.flatMap fun i =>
          (Crew.settledHandIn? best candidates outcome i).toList).foldl
            (HandIn.accept s.criteria) best := by
  obtain ⟨state⟩ := ‹Nonempty σ›
  refine ⟨Turn.oneByOne state order, ?_, ?_⟩
  · refine Crew.isDone_interleave_oneByOne (s.descends_step services) state fun i hi => ?_
    rw [horder.mem_iff, List.mem_range]
    simpa using hi
  · have hqueued : ∀ i ∈ order, ∃ candidate, candidates[i]? = some candidate ∧
        (Crew.setOut best candidates : Crew N K).jobs[i]? =
          some ⟨best.task candidate, .queued⟩ := by
      intro i hi
      have hlt := List.mem_range.mp (horder.mem_iff.mp hi)
      have hcandidate := List.getElem?_eq_getElem hlt
      exact ⟨_, hcandidate, Crew.getElem?_setOut_of_some best hcandidate⟩
    rw [crewAfter, ((shadows_setOut hsettled).interleave rfl).best_eq,
      Crew.best_interleave (s.onlySubmits_uncheckedStep services)]
    rw [Crew.handIns_oneByOne hsettled state (horder.nodup_iff.mpr List.nodup_range) hqueued
      (beq_self_eq_true _)]
    rfl

end GridRelief.Search
