import GridRelief.Optimizer
import GridRelief.Proofs.Work

/-!
# What the rounds keep

The result of the rounds is the point that they start from or one that a round has reached at
set-points read off a solved problem, and that costs less than the best point before it. So a
property of points is one of the result, if the start has it and it is handed on to such points.

* `Optimizer.compare_cases`: what comparing a point with the best one comes to.
* `Optimizer.Chooses`: what is known of the problems of the rounds and of the set-points chosen.
* `Optimizer.Chooses.optimize_induction`: what the start has and such points inherit, the result
  has.
-/

namespace GridRelief

variable {K N σ : Type} [Scalar K] [Network N K] {services : Services N K σ}

/-! ### Steps of work -/

namespace Working

variable {s t : Session N σ}

omit [Network N K] in
theorem succeeds_solve_iff {p q : LinearProblem K} :
    Succeeds (solve services p) s q t ↔
      q = (p.solve services.solve s.services).1 ∧
        t = { s with services := (p.solve services.solve s.services).2 } := by
  unfold Succeeds
  constructor
  · intro h
    obtain ⟨hanswer, hstate⟩ := Prod.mk.inj h
    exact ⟨(Except.ok.inj hanswer).symm, hstate.symm⟩
  · rintro ⟨rfl, rfl⟩
    rfl

omit [Scalar K] [Network N K] in
theorem succeeds_compute_iff {outcome : Outcome K} :
    Succeeds (compute services) s outcome t ↔
      outcome = (services.compute s.network s.services).1 ∧
        t = { s with services := (services.compute s.network s.services).2 } := by
  unfold Succeeds
  constructor
  · intro h
    obtain ⟨hanswer, hstate⟩ := Prod.mk.inj h
    exact ⟨(Except.ok.inj hanswer).symm, hstate.symm⟩
  · rintro ⟨rfl, rfl⟩
    rfl

theorem succeeds_moveTo_iff {rangeActions : List (RangeAction K)} {activation : Activation K}
    {u : Unit} :
    Succeeds (moveTo rangeActions activation : Working N K σ Unit) s u t ↔
      activation.applyAll rangeActions s.network = (t.network, .ok ()) ∧
        t.services = s.services := by
  unfold Succeeds
  constructor
  · intro h
    obtain ⟨hanswer, rfl⟩ := Prod.mk.inj h
    exact ⟨Prod.ext rfl hanswer, rfl⟩
  · rintro ⟨hnetwork, hstate⟩
    show (_, _) = _
    rw [hnetwork, ← hstate]

end Working

namespace Optimizer

variable {o : Optimizer K} {s t : Session N σ} {P : LinearProblem K → Prop}
  {A : Activation K → Prop} {Q : Linearization K → Cost K → Prop}

/-- Writing by all parts that gives a problem has succeeded. -/
theorem succeeds_of_write {step : Part K → Writing K Unit} {p q : LinearProblem K}
    (h : o.write step p = .ok q) : Succeeds (o.formulation.parts.forM step) p ⟨⟩ q := by
  unfold write at h
  unfold Succeeds
  split at h
  · next heq => rw [heq, Except.ok.inj h]
  · cases h

/-- What a comparison comes to: either a cheaper point is the best one from now on, or the best one
stays and the network moves back to it. If there is another round, the problem has been linearised
anew. -/
theorem compare_cases {p : LinearProblem K} {best reached : Optimized K} {roundEnd : RoundEnd K}
    (h : Succeeds (o.compare p best reached : Working N K σ (RoundEnd K)) s roundEnd t) :
    (reached.cost.total < best.cost.total ∧ t = s ∧ ∃ q, o.nextProblem reached p = .ok q ∧
      roundEnd = .next ⟨q, reached, reached.point.activation⟩) ∨
    (¬reached.cost.total < best.cost.total ∧
      (∃ u, Succeeds (Working.moveTo o.rangeActions best.point.activation) s u t) ∧
        (roundEnd = .stop best ∨ ∃ q, o.nextProblem reached p = .ok q ∧
          roundEnd = .next ⟨q, best, reached.point.activation⟩)) := by
  unfold compare at h
  dsimp only at h
  split at h
  · next hcheaper =>
    simp only [succeeds_bind_iff, succeeds_ofExcept_iff, succeeds_pure_iff] at h
    obtain ⟨q, _, ⟨hq, rfl⟩, rfl, rfl⟩ := h
    exact .inl ⟨hcheaper, rfl, q, hq, rfl⟩
  · next hdearer =>
    obtain ⟨u, _, hmove, h⟩ := succeeds_bind_iff.mp h
    split at h
    · simp only [succeeds_bind_iff, succeeds_ofExcept_iff, succeeds_pure_iff] at h
      obtain ⟨q, _, ⟨hq, rfl⟩, rfl, rfl⟩ := h
      exact .inr ⟨hdearer, ⟨u, hmove⟩, .inr ⟨q, hq, rfl⟩⟩
    · obtain ⟨rfl, rfl⟩ := succeeds_pure_iff.mp h
      exact .inr ⟨hdearer, ⟨u, hmove⟩, .inl rfl⟩

/-- A round ends with a result that has a property, or with a problem and a best point that do. -/
def RoundEnd.Has (P : LinearProblem K → Prop) (Q : Linearization K → Cost K → Prop) :
    RoundEnd K → Prop
  | .stop result => Q result.point result.cost
  | .next progress => P progress.problem ∧ Q progress.best.point progress.best.cost

/-- What writing and solving keep of the problems of the rounds, and what the set-points have that
are read off a solved problem. -/
structure Chooses (o : Optimizer K) (services : Services N K σ) (P : LinearProblem K → Prop)
    (A : Activation K → Prop) : Prop where
  first : ∀ p, o.firstProblem = .ok p → P p
  adjust : ∀ activation p q, P p → o.write (·.adjust activation) p = .ok q → P q
  next : ∀ reached p q, P p → o.nextProblem reached p = .ok q → P q
  solve : ∀ p state, P p → P (p.solve services.solve state).1
  rounded : ∀ p state activation, P p → (p.solve services.solve state).1.status = .optimal →
    o.rounded (p.solve services.solve state).1 = .ok activation → A activation

namespace Chooses

variable (h : o.Chooses services P A)
include h

omit [Network N K] in
/-- After a second solve the set-points are those of one of two solved problems. -/
theorem choose {p q : LinearProblem K} {state : σ} {activation : Activation K} (hp : P p)
    (hstatus : (p.solve services.solve state).1.status = .optimal)
    (hchoose : Succeeds (o.choose services (p.solve services.solve state).1) s (q, activation) t) :
    P q ∧ A activation := by
  unfold Optimizer.choose at hchoose
  rw [succeeds_bind_iff] at hchoose
  obtain ⟨first, _, hfirst, hrest⟩ := hchoose
  rw [succeeds_ofExcept_iff] at hfirst
  obtain ⟨hfirst, rfl⟩ := hfirst
  have hsolved := h.solve p state hp
  have hactivation := h.rounded p state first hp hstatus hfirst
  split at hrest
  · unfold Optimizer.refine at hrest
    simp only [succeeds_bind_iff, succeeds_ofExcept_iff, Working.succeeds_solve_iff] at hrest
    obtain ⟨adjusted, _, ⟨hadjusted, rfl⟩, _, _, ⟨rfl, rfl⟩, hrest⟩ := hrest
    have hP := h.adjust first _ adjusted hsolved hadjusted
    split at hrest
    · next hoptimal =>
      simp only [succeeds_bind_iff, succeeds_ofExcept_iff, succeeds_pure_iff] at hrest
      obtain ⟨second, _, ⟨hsecond, rfl⟩, heq, rfl⟩ := hrest
      obtain ⟨rfl, rfl⟩ := Prod.mk.inj heq
      exact ⟨h.solve _ _ hP, h.rounded _ _ _ hP hoptimal hsecond⟩
    · rw [succeeds_pure_iff] at hrest
      obtain ⟨heq, rfl⟩ := hrest
      obtain ⟨rfl, rfl⟩ := Prod.mk.inj heq
      exact ⟨h.solve _ _ hP, hactivation⟩
  · rw [succeeds_pure_iff] at hrest
    obtain ⟨heq, rfl⟩ := hrest
    obtain ⟨rfl, rfl⟩ := Prod.mk.inj heq
    exact ⟨hsolved, hactivation⟩

variable (hstep : ∀ best reached : Optimized K, Q best.point best.cost →
  A reached.point.activation → reached.cost.total < best.cost.total →
    Q reached.point reached.cost)
include hstep

/-- Comparing a point that has been reached with the best one leaves one that has the property. -/
theorem compare {p : LinearProblem K} {best reached : Optimized K} {roundEnd : RoundEnd K}
    (hp : P p) (hbest : Q best.point best.cost) (hreached : A reached.point.activation)
    (hcompare : Succeeds (o.compare p best reached : Working N K σ (RoundEnd K))
      s roundEnd t) : roundEnd.Has P Q := by
  rcases compare_cases hcompare with ⟨hcheaper, -, q, hq, rfl⟩ | ⟨-, -, rfl | ⟨q, hq, rfl⟩⟩
  · exact ⟨h.next reached p q hp hq, hstep best reached hbest hreached hcheaper⟩
  · exact hbest
  · exact ⟨h.next reached p q hp hq, hbest⟩

theorem visit {iteration : Nat} {p : LinearProblem K} {best : Optimized K}
    {activation : Activation K} {roundEnd : RoundEnd K} (hp : P p)
    (hbest : Q best.point best.cost) (hactivation : A activation)
    (hvisit : Succeeds (o.visit services iteration p best activation) s roundEnd t) :
    roundEnd.Has P Q := by
  unfold Optimizer.visit at hvisit
  simp only [succeeds_bind_iff] at hvisit
  obtain ⟨_, _, -, outcome, _, -, hrest⟩ := hvisit
  split at hrest
  · rw [succeeds_bind_iff] at hrest
    obtain ⟨_, _, -, hpure⟩ := hrest
    rw [succeeds_pure_iff] at hpure
    obtain ⟨rfl, rfl⟩ := hpure
    exact hbest
  · exact h.compare hstep hp hbest hactivation hrest

theorem round {iteration : Nat} {progress : Progress K} {roundEnd : RoundEnd K}
    (hp : P progress.problem) (hbest : Q progress.best.point progress.best.cost)
    (hround : Succeeds (o.round services iteration progress) s roundEnd t) :
    roundEnd.Has P Q := by
  unfold Optimizer.round at hround
  rw [succeeds_bind_iff] at hround
  obtain ⟨solved, _, hsolve, hrest⟩ := hround
  rw [Working.succeeds_solve_iff] at hsolve
  obtain ⟨rfl, rfl⟩ := hsolve
  dsimp only at hrest
  split at hrest
  · rw [succeeds_pure_iff] at hrest
    obtain ⟨rfl, rfl⟩ := hrest
    exact hbest
  · next hstatus =>
    rw [succeeds_bind_iff] at hrest
    obtain ⟨⟨chosen, activation⟩, _, hchoose, hrest⟩ := hrest
    obtain ⟨hchosen, hactivation⟩ := h.choose hp (Classical.not_not.mp hstatus) hchoose
    simp only [succeeds_bind_iff, succeeds_ofExcept_iff] at hrest
    obtain ⟨differs, _, ⟨-, rfl⟩, hrest⟩ := hrest
    split at hrest
    · refine h.visit hstep hchosen ?_ hactivation hrest
      exact hbest
    · rw [succeeds_pure_iff] at hrest
      obtain ⟨rfl, rfl⟩ := hrest
      exact hbest

/-- By induction on the number of rounds that are left, they end with a point that has the
property. -/
theorem rounds {left iteration : Nat} {progress : Progress K} {result : Optimized K}
    (hp : P progress.problem) (hbest : Q progress.best.point progress.best.cost)
    (hrounds : Succeeds (o.rounds services left iteration progress) s result t) :
    Q result.point result.cost := by
  induction left generalizing iteration progress s with
  | zero =>
    unfold Optimizer.rounds at hrounds
    rw [succeeds_pure_iff] at hrounds
    obtain ⟨rfl, rfl⟩ := hrounds
    exact hbest
  | succ left ih =>
    unfold Optimizer.rounds at hrounds
    rw [succeeds_bind_iff] at hrounds
    obtain ⟨roundEnd, _, hround, hrest⟩ := hrounds
    have hend := h.round hstep hp hbest hround
    cases roundEnd with
    | stop last =>
      rw [succeeds_pure_iff] at hrest
      obtain ⟨rfl, rfl⟩ := hrest
      exact hend
    | next progress => exact ih hend.1 hend.2 hrest

/-- A property that the start has, and that a point inherits which has been reached at chosen
set-points and costs less, is one of the result. -/
theorem optimize_induction {result : Optimized K}
    (hstart : Q o.start (Optimized.ofPoint o.objective o.start 0).cost)
    (hoptimize : Succeeds (o.optimize services) s result t) : Q result.point result.cost := by
  unfold Optimizer.optimize at hoptimize
  simp only [succeeds_bind_iff, succeeds_ofExcept_iff] at hoptimize
  obtain ⟨problem, _, ⟨hproblem, rfl⟩, hrounds⟩ := hoptimize
  exact h.rounds hstep (h.first problem hproblem) hstart hrounds

end Chooses

end Optimizer

end GridRelief
