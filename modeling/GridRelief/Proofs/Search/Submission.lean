import GridRelief.Proofs.Search.Priority
import GridRelief.Search.Depth

/-!
# Handing in leaves

What a single hand-in may change of what tasks share. The combination that has reached the stop
criterion only ever gives way to one that comes before it (`Best.submit_stop`). So a combination
that is not ahead of it stays behind (`Best.isAhead_submit_eq_false`), and what is handed in for it
has no effect (`Best.submit_of_isAhead_eq_false`).
-/

namespace GridRelief

variable {K : Type} [Scalar K]

namespace Best

variable {criteria : Criteria K} {epoch : Nat} {previous leaf : FinalizedLeaf K}
  {c d : Combination K} {best : Best K}

/-- A leaf that is handed in is accepted, or changes nothing. -/
theorem submit_cases (criteria : Criteria K) (epoch : Nat) (previous leaf : FinalizedLeaf K)
    (c : Combination K) (best : Best K) :
    (criteria.isImprovement previous leaf = true ∧
        best.isBeaten c leaf (criteria.reachesStop leaf) = true ∧
        best.submit criteria epoch previous c leaf =
          { best with
            leaf, depth := epoch + 1
            stop := if criteria.reachesStop leaf then some c else best.stop }) ∨
      ((best.isOpen epoch = true → criteria.isImprovement previous leaf = true →
          best.isBeaten c leaf (criteria.reachesStop leaf) = false) ∧
        best.submit criteria epoch previous c leaf = best) := by
  unfold submit
  dsimp only
  split
  · next h =>
    simp only [Bool.and_eq_true] at h
    exact .inl ⟨h.1.2, h.2, rfl⟩
  · next h =>
    refine .inr ⟨fun hopen himproved => ?_, rfl⟩
    simpa [hopen, himproved] using h

/-- A hand-in never closes the depth. -/
@[simp] theorem epoch_submit :
    (best.submit criteria epoch previous c leaf).epoch = best.epoch := by
  unfold submit
  dsimp only
  split <;> rfl

/-- The stop combination stays, unless a leaf that reaches the stop criterion is handed in for one
that is ahead of it. -/
theorem submit_stop (criteria : Criteria K) (epoch : Nat) (previous leaf : FinalizedLeaf K)
    (c : Combination K) (best : Best K) :
    (best.submit criteria epoch previous c leaf).stop = best.stop ∨
      (best.submit criteria epoch previous c leaf).stop = some c ∧ best.isAhead c = true := by
  rcases submit_cases criteria epoch previous leaf c best with ⟨-, hbeaten, heq⟩ | ⟨-, heq⟩
  · rw [heq]
    cases hstops : criteria.reachesStop leaf with
    | false => exact .inl rfl
    | true =>
      refine .inr ⟨rfl, ?_⟩
      cases hstop : best.stop with
      | none => simp [isAhead, hstop]
      | some stop => simpa [isBeaten, hstop, hstops] using hbeaten
  · rw [heq]
    exact .inl rfl

omit [Scalar K] in
/-- A combination that is outranked is not ahead. -/
theorem isAhead_eq_false_of_isOutranked (h : best.isOutranked c = true) :
    best.isAhead c = false := by
  cases hstop : best.stop with
  | none => simp [isOutranked, hstop] at h
  | some stop =>
    have hgt : c.priority stop = .gt := by simpa [isOutranked, hstop] using h
    simp [isAhead, hstop, hgt]

/-- What is handed in for a combination that is not ahead has no effect. -/
theorem submit_of_isAhead_eq_false (h : best.isAhead c = false) :
    best.submit criteria epoch previous c leaf = best := by
  have hbeaten : best.isBeaten c leaf (criteria.reachesStop leaf) = false := by
    unfold isBeaten
    cases hstop : best.stop with
    | none => simp [isAhead, hstop] at h
    | some stop => simp [h]
  simp [submit, hbeaten]

/-- A combination that is not ahead stays so, whatever is handed in. -/
theorem isAhead_submit_eq_false (h : best.isAhead c = false) :
    (best.submit criteria epoch previous d leaf).isAhead c = false := by
  rcases submit_stop criteria epoch previous leaf d best with hstop | ⟨hstop, hahead⟩
  · unfold isAhead at h ⊢
    rwa [hstop]
  · cases hold : best.stop with
    | none => simp [isAhead, hold] at h
    | some stop =>
      have hd : d.priority stop = .lt := by simpa [isAhead, hold] using hahead
      have hc : c.priority stop ≠ .lt := by simpa [isAhead, hold] using h
      simp only [isAhead, hstop, Option.all_some, beq_eq_false_iff_ne]
      intro hcd
      exact hc (Combination.priority_lt_trans hcd hd)

end Best

end GridRelief
