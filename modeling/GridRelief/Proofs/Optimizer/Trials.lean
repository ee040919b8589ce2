import GridRelief.Proofs.Optimizer.Rounds

/-!
# Rounds in two halves

A round first tries: it solves its problem, moves to the set-points of the solution and computes
the flows there. Then it concludes: it compares the cost of the point that it has reached with that
of the best one, and moves back if the point is not better. Taken apart like this, it can be said
which points the rounds have evaluated.

* `Trial K`: what the first half of a round has come to.
* `Optimizer.round_eq`: a round tries and then concludes.
* `Optimizer.leaves_of_trial`: what trying does to the network.
* `Optimizer.evaluated`: the points whose flows have been computed on the way.
* `Optimizer.rounds_induction`: what holds of a run of the rounds, by what each round has come to.
-/

namespace GridRelief

variable {K N σ : Type}

/-- What a round has come to before it compares costs. -/
inductive Trial (K : Type) where
  /-- The problem has not been solved. -/
  | unsolved (status : SolveStatus)
  /-- The set-points are those of the round before. -/
  | unchanged
  /-- The flows at new set-points could not be computed. -/
  | uncomputed
  /-- The flows at new set-points are known. -/
  | reached (problem : LinearProblem K) (point : Linearization K)

/-- The point whose flows a trial has computed. -/
def Trial.point? : Trial K → Option (Linearization K)
  | .reached _ point => some point
  | .unsolved _ | .unchanged | .uncomputed => none

/-- The best point that a round leaves. -/
def Optimizer.RoundEnd.best : Optimizer.RoundEnd K → Optimized K
  | .stop result => result
  | .next progress => progress.best

variable [Scalar K] [Network N K]

namespace Optimizer

/-! ### The two halves -/

/-- The first half of a round. -/
def trial (o : Optimizer K) (services : Services N K σ) (progress : Progress K) :
    Working N K σ (Trial K) := do
  let problem ← Working.solve services progress.problem
  if problem.status ≠ .optimal then return .unsolved problem.status
  else
    let (problem, activation) ← o.choose services problem
    if ← ofExcept (activation.differs progress.previous o.rangeActions) then
      Working.moveTo o.rangeActions activation
      let outcome ← Working.compute services
      if outcome.status = .failure then return .uncomputed
      else return .reached problem ⟨outcome.flows, outcome.sensitivities, activation⟩
    else return .unchanged

/-- The second half of a round. -/
def conclude (o : Optimizer K) (iteration : Nat) (best : Optimized K) :
    Trial K → Working N K σ (RoundEnd K)
  | .unsolved status =>
    return .stop { best with status := if iteration = 1 then .ofSolve status else .feasible }
  | .unchanged => return .stop best
  | .uncomputed => do
    Working.moveTo o.rangeActions best.point.activation
    return .stop { best with status := .computationFailed }
  | .reached problem point => o.compare problem best (.ofPoint o.objective point iteration)

/-- The best point before a round, which counts the round. -/
def counted (progress : Progress K) (iteration : Nat) : Optimized K :=
  { progress.best with iterations := iteration }

/-- A round tries and then concludes. -/
theorem round_eq (o : Optimizer K) (services : Services N K σ) (iteration : Nat)
    (progress : Progress K) : o.round services iteration progress =
      o.trial services progress >>= o.conclude iteration (counted progress iteration) := by
  unfold round trial
  rw [bind_assoc]
  refine bind_congr fun problem => ?_
  split
  · rw [pure_bind]
    rfl
  rw [bind_assoc]
  refine bind_congr fun (problem, activation) => ?_
  rw [bind_assoc]
  refine bind_congr fun differs => ?_
  cases differs with
  | false =>
    rw [if_neg Bool.false_ne_true, if_neg Bool.false_ne_true, pure_bind]
    rfl
  | true =>
    rw [if_pos rfl, if_pos rfl, bind_assoc]
    unfold visit
    refine bind_congr fun _ => ?_
    rw [bind_assoc]
    refine bind_congr fun outcome => ?_
    split
    · rw [pure_bind]
      rfl
    · rw [pure_bind]
      rfl

/-! ### The network -/

omit [Network N K] in
/-- Solving and rounding leave the network alone. -/
theorem network_of_choose {o : Optimizer K} {services : Services N K σ} {s t : Session N σ}
    {problem : LinearProblem K} {answer : LinearProblem K × Activation K}
    (h : Succeeds (o.choose services problem) s answer t) : t.network = s.network := by
  unfold choose at h
  rw [succeeds_bind_iff] at h
  obtain ⟨activation, _, hrounded, h⟩ := h
  obtain ⟨-, rfl⟩ := succeeds_ofExcept_iff.mp hrounded
  split at h
  · unfold refine at h
    simp only [succeeds_bind_iff, succeeds_ofExcept_iff, Working.succeeds_solve_iff] at h
    obtain ⟨_, _, ⟨-, rfl⟩, _, _, ⟨-, rfl⟩, h⟩ := h
    split at h
    · simp only [succeeds_bind_iff, succeeds_ofExcept_iff, succeeds_pure_iff] at h
      obtain ⟨_, _, ⟨-, rfl⟩, -, rfl⟩ := h
      rfl
    · obtain ⟨-, rfl⟩ := succeeds_pure_iff.mp h
      rfl
  · obtain ⟨-, rfl⟩ := succeeds_pure_iff.mp h
    rfl

end Optimizer

/-- What a trial does to the network: it moves only to set-points that differ from those of the
round before, and the flows of the point that it reaches are those on the network that it leaves. -/
def Trial.Leaves (services : Services N K σ) (rangeActions : List (RangeAction K))
    (before after : N) : Trial K → Prop
  | .unsolved _ | .unchanged => after = before
  | .uncomputed => ∃ a : Activation K, a.applyAll rangeActions before = (after, .ok ())
  | .reached _ point => point.activation.applyAll rangeActions before = (after, .ok ()) ∧
      ∃ state, (services.compute after state).1 = ⟨point.flows, point.sensitivities⟩

namespace Optimizer

theorem leaves_of_trial {o : Optimizer K} {services : Services N K σ} {s t : Session N σ}
    {progress : Progress K} {trial : Trial K}
    (h : Succeeds (o.trial services progress) s trial t) :
    trial.Leaves services o.rangeActions s.network t.network := by
  unfold Optimizer.trial at h
  rw [succeeds_bind_iff] at h
  obtain ⟨problem, _, hsolve, h⟩ := h
  obtain ⟨-, rfl⟩ := Working.succeeds_solve_iff.mp hsolve
  split at h
  · obtain ⟨rfl, rfl⟩ := succeeds_pure_iff.mp h
    rfl
  rw [succeeds_bind_iff] at h
  obtain ⟨⟨_, activation⟩, chosen, hchoose, h⟩ := h
  have hnetwork := network_of_choose hchoose
  simp only [succeeds_bind_iff, succeeds_ofExcept_iff] at h
  obtain ⟨_, _, ⟨-, rfl⟩, h⟩ := h
  split at h
  · simp only [succeeds_bind_iff, Working.succeeds_moveTo_iff, Working.succeeds_compute_iff] at h
    obtain ⟨-, moved, ⟨hmoved, -⟩, outcome, _, ⟨houtcome, rfl⟩, h⟩ := h
    rw [hnetwork] at hmoved
    split at h
    · obtain ⟨rfl, rfl⟩ := succeeds_pure_iff.mp h
      exact ⟨activation, hmoved⟩
    · obtain ⟨rfl, rfl⟩ := succeeds_pure_iff.mp h
      exact ⟨hmoved, moved.services, houtcome.symm⟩
  · obtain ⟨rfl, rfl⟩ := succeeds_pure_iff.mp h
    exact hnetwork

/-! ### The points on the way -/

/-- The points whose flows at most so many further rounds compute, in order. -/
def evaluatedFrom (o : Optimizer K) (services : Services N K σ) :
    Nat → Nat → Progress K → Session N σ → List (Linearization K)
  | 0, _, _, _ => []
  | left + 1, iteration, progress, session =>
    match (o.trial services progress).run session with
    | (.error _, _) => []
    | (.ok trial, middle) =>
      trial.point?.toList ++
        match (o.conclude iteration (counted progress iteration) trial).run middle with
        | (.ok (.next further), after) =>
          o.evaluatedFrom services left (iteration + 1) further after
        | (.ok (.stop _), _) | (.error _, _) => []

/-- The points whose flows an optimisation computes, in order. -/
def evaluated (o : Optimizer K) (services : Services N K σ) (session : Session N σ) :
    List (Linearization K) :=
  match o.firstProblem with
  | .error _ => []
  | .ok problem =>
    o.evaluatedFrom services o.formulation.parameters.optimizer.maxIterations 1
      ⟨problem, .ofPoint o.objective o.start 0, o.start.activation⟩ session

variable {o : Optimizer K} {services : Services N K σ} {s middle after t : Session N σ}
  {left iteration : Nat} {progress further : Progress K} {trial : Trial K} {result : Optimized K}

/-- The last round has evaluated what its trial has reached. -/
theorem evaluatedFrom_of_stop (htrial : Succeeds (o.trial services progress) s trial middle)
    (hconclude : Succeeds (o.conclude iteration (counted progress iteration) trial) middle
      (.stop result) after) :
    o.evaluatedFrom services (left + 1) iteration progress s = trial.point?.toList := by
  unfold Succeeds at htrial hconclude
  rw [evaluatedFrom, htrial]
  simp only [hconclude, List.append_nil]

/-- A round that is followed by others has evaluated what its trial has reached, and the others
come after it. -/
theorem evaluatedFrom_of_next (htrial : Succeeds (o.trial services progress) s trial middle)
    (hconclude : Succeeds (o.conclude iteration (counted progress iteration) trial) middle
      (.next further) after) :
    o.evaluatedFrom services (left + 1) iteration progress s = trial.point?.toList ++
      o.evaluatedFrom services left (iteration + 1) further after := by
  unfold Succeeds at htrial hconclude
  rw [evaluatedFrom, htrial]
  simp only [hconclude]

/-- What holds at the limit of rounds and after the last round, and holds before a round if it holds
after it, holds before all rounds that lead to a result. -/
theorem rounds_induction {P : Nat → Nat → Progress K → Session N σ → Prop}
    (hlimit : ∀ iteration progress,
      { progress.best with status := .iterationLimit } = result → P 0 iteration progress t)
    (hstop : ∀ {left iteration progress s trial middle},
      Succeeds (o.trial services progress) s trial middle →
        Succeeds (o.conclude iteration (counted progress iteration) trial) middle (.stop result) t →
          P (left + 1) iteration progress s)
    (hnext : ∀ {left iteration progress s trial middle further after},
      Succeeds (o.trial services progress) s trial middle →
        Succeeds (o.conclude iteration (counted progress iteration) trial) middle (.next further)
          after → P left (iteration + 1) further after → P (left + 1) iteration progress s)
    (h : Succeeds (o.rounds services left iteration progress) s result t) :
    P left iteration progress s := by
  induction left generalizing iteration progress s with
  | zero =>
    unfold rounds at h
    obtain ⟨hresult, rfl⟩ := succeeds_pure_iff.mp h
    exact hlimit iteration progress hresult
  | succ left ih =>
    unfold rounds at h
    rw [round_eq] at h
    simp only [succeeds_bind_iff] at h
    obtain ⟨roundEnd, after, ⟨trial, middle, htrial, hconclude⟩, hrest⟩ := h
    cases roundEnd with
    | stop last =>
      obtain ⟨rfl, rfl⟩ := succeeds_pure_iff.mp hrest
      exact hstop htrial hconclude
    | next further => exact hnext htrial hconclude (ih hrest)

end Optimizer

end GridRelief
