import GridRelief.Proofs.Optimizer.BestPoint

/-!
# Two runs of the rounds

Let the rounds run twice, from networks that agree off the elements of the range actions, with
services that answer the same question in the same way. The rounds look at a network only after they
have moved all range actions to set-points of their own choice, and then the two networks are the
same. So both runs take the same course and have the same result.

* `Working.Alike`: two runs of one piece of work, with one rule for each way of composing work.
* `Optimizer.alike_round`, `Optimizer.alike_rounds`: two runs of a round, and of all of them.
* `Optimizer.result_eq`: two runs have the same result.
-/

namespace GridRelief

variable {K N σ α β : Type}

/-! ### Two runs of the same work -/

/-- Two runs of the same work that both succeed, from networks in a relation: they have the same
answer and leave networks in a relation. The services may be in any states. -/
structure Working.Alike (R S : N → N → Prop) (work : Working N K σ α) : Prop where
  same : ∀ {s s' t t' : Session N σ} {a a' : α}, R s.network s'.network →
    Succeeds work s a t → Succeeds work s' a' t' → a = a' ∧ S t.network t'.network

namespace Working.Alike

variable {R S T : N → N → Prop} {services : Services N K σ}

/-- Work that is alike from networks in a relation is so from fewer of them, and leaves more of
them. -/
theorem mono {work : Working N K σ α} {R' S' : N → N → Prop} (h : Alike R S work)
    (hbefore : ∀ n m, R' n m → R n m) (hafter : ∀ n m, S n m → S' n m) : Alike R' S' work := by
  refine ⟨fun hR hrun hrun' => ?_⟩
  obtain ⟨hanswer, hS⟩ := h.same (hbefore _ _ hR) hrun hrun'
  exact ⟨hanswer, hafter _ _ hS⟩

theorem pure (a : α) : Alike R R (pure a : Working N K σ α) := by
  refine ⟨fun hR hrun hrun' => ?_⟩
  obtain ⟨rfl, rfl⟩ := succeeds_pure_iff.mp hrun
  obtain ⟨rfl, rfl⟩ := succeeds_pure_iff.mp hrun'
  exact ⟨rfl, hR⟩

theorem ofExcept (answer : Except (Fault K) α) :
    Alike R R (ofExcept answer : Working N K σ α) := by
  refine ⟨fun hR hrun hrun' => ?_⟩
  obtain ⟨rfl, rfl⟩ := succeeds_ofExcept_iff.mp hrun
  obtain ⟨hsame, rfl⟩ := succeeds_ofExcept_iff.mp hrun'
  exact ⟨Except.ok.inj hsame, hR⟩

/-- Work in two steps is alike if both steps are. -/
theorem bind {first : Working N K σ α} {second : α → Working N K σ β} (h : Alike R S first)
    (hsecond : ∀ a, Alike S T (second a)) : Alike R T (first >>= second) := by
  refine ⟨fun hR hrun hrun' => ?_⟩
  obtain ⟨a, middle, hfirst, hrest⟩ := succeeds_bind_iff.mp hrun
  obtain ⟨a', middle', hfirst', hrest'⟩ := succeeds_bind_iff.mp hrun'
  obtain ⟨rfl, hS⟩ := h.same hR hfirst hfirst'
  exact (hsecond a).same hS hrest hrest'

variable [Scalar K]

/-- Two solves of a problem have the same answer, if the solver answers a model always in the same
way. -/
theorem solve {answerTo : Model K → Answer K}
    (hsolve : ∀ model state, (services.solve model state).1 = answerTo model)
    (p : LinearProblem K) : Alike R R (solve services p) := by
  refine ⟨fun {s s' _ _ _ _} hR hrun hrun' => ?_⟩
  obtain ⟨rfl, rfl⟩ := succeeds_solve_iff.mp hrun
  obtain ⟨rfl, rfl⟩ := succeeds_solve_iff.mp hrun'
  refine ⟨?_, hR⟩
  unfold LinearProblem.solve
  cases p.toModel with
  | error status => rfl
  | ok model =>
    show p.record (services.solve model s.services).1 =
      p.record (services.solve model s'.services).1
    rw [hsolve, hsolve]

omit [Scalar K] in
/-- Two computations on the same network have the same outcome, if that depends on the network
alone. -/
theorem compute {outcomeOn : N → Outcome K}
    (hcompute : ∀ network state, (services.compute network state).1 = outcomeOn network) :
    Alike Eq Eq (compute services) := by
  refine ⟨fun hsame hrun hrun' => ?_⟩
  obtain ⟨rfl, rfl⟩ := succeeds_compute_iff.mp hrun
  obtain ⟨rfl, rfl⟩ := succeeds_compute_iff.mp hrun'
  refine ⟨?_, hsame⟩
  rw [hcompute, hcompute, hsame]

/-- Moving range actions leads to the same network from all that agree off their elements. -/
theorem moveTo (rs : List (RangeAction K)) (a : Activation K) :
    Alike (LinearNetwork.AgreesOff rs) Eq (moveTo rs a : Working (LinearNetwork K) K σ Unit) := by
  refine ⟨fun hagrees hrun hrun' => ?_⟩
  have hmoved := hagrees.applyAll_eq (succeeds_moveTo_iff.mp hrun).1
  exact ⟨rfl, (Prod.mk.inj (hmoved.symm.trans (succeeds_moveTo_iff.mp hrun').1)).1⟩

/-- The same move of range actions on the same network. -/
theorem moveBack (rs : List (RangeAction K)) (a : Activation K) :
    Alike Eq Eq (Working.moveTo rs a : Working (LinearNetwork K) K σ Unit) :=
  (moveTo rs a).mono (fun n _ hsame => hsame ▸ .refl n) fun _ _ hsame => hsame

end Working.Alike

/-! ### Two runs of the rounds -/

namespace Optimizer

open Working

variable [Scalar K] {o : Optimizer K}

section Services

variable {services : Services (LinearNetwork K) K σ} {outcomeOn : LinearNetwork K → Outcome K}
  {answerTo : Model K → Answer K}

/-- Two runs of choosing set-points, which leaves the network alone. -/
theorem alike_choose {R : LinearNetwork K → LinearNetwork K → Prop}
    (hsolve : ∀ model state, (services.solve model state).1 = answerTo model)
    (p : LinearProblem K) : Alike R R (o.choose services p) := by
  unfold choose
  refine (Alike.ofExcept _).bind fun activation => ?_
  split
  · unfold refine
    refine (Alike.ofExcept _).bind fun adjusted => (Alike.solve hsolve adjusted).bind fun q => ?_
    split
    · exact (Alike.ofExcept _).bind fun _ => .pure _
    · exact .pure _
  · exact .pure _

/-- Two comparisons of the same points on the same network. -/
theorem alike_compare (p : LinearProblem K) (best reached : Optimized K) :
    Alike Eq Eq (o.compare p best reached : Working (LinearNetwork K) K σ (RoundEnd K)) := by
  unfold compare
  dsimp only
  split
  · exact (Alike.ofExcept _).bind fun _ => .pure _
  · refine (Alike.moveBack _ _).bind fun _ => ?_
    split
    · exact (Alike.ofExcept _).bind fun _ => .pure _
    · exact .pure _

variable (hcompute : ∀ network state, (services.compute network state).1 = outcomeOn network)
include hcompute

/-- Two visits of the same set-points, from networks that agree off the range actions. -/
theorem alike_visit (iteration : Nat) (p : LinearProblem K) (best : Optimized K)
    (activation : Activation K) :
    Alike (LinearNetwork.AgreesOff o.rangeActions) Eq
      (o.visit services iteration p best activation) := by
  unfold visit
  refine (Alike.moveTo _ _).bind fun _ => (Alike.compute hcompute).bind fun outcome => ?_
  split
  · exact (Alike.moveBack _ _).bind fun _ => .pure _
  · exact alike_compare _ _ _

variable (hsolve : ∀ model state, (services.solve model state).1 = answerTo model)
include hsolve

/-- Two runs of a round, from networks that agree off the range actions. -/
theorem alike_round (iteration : Nat) (progress : Progress K) :
    Alike (LinearNetwork.AgreesOff o.rangeActions) (LinearNetwork.AgreesOff o.rangeActions)
      (o.round services iteration progress) := by
  unfold round
  refine (Alike.solve hsolve _).bind fun problem => ?_
  dsimp only
  split
  · exact .pure _
  · refine (alike_choose hsolve problem).bind fun (problem, activation) => ?_
    refine (Alike.ofExcept _).bind fun differs => ?_
    split
    · apply (alike_visit hcompute _ _ _ _).mono (fun _ _ hagrees => hagrees)
      exact fun n _ hsame => hsame ▸ .refl n
    · exact .pure _

/-- Two runs of the rounds, by induction on the number of those that are left. -/
theorem alike_rounds (left iteration : Nat) (progress : Progress K) :
    Alike (LinearNetwork.AgreesOff o.rangeActions) (LinearNetwork.AgreesOff o.rangeActions)
      (o.rounds services left iteration progress) := by
  induction left generalizing iteration progress with
  | zero => exact .pure _
  | succ left ih =>
    unfold rounds
    refine (alike_round hcompute hsolve iteration progress).bind fun roundEnd => ?_
    cases roundEnd with
    | stop result => exact .pure _
    | next progress => exact ih _ progress

/-- Two optimisations from the same point, on networks that agree off the range actions, have the
same result. -/
theorem result_eq {s s' t t' : Session (LinearNetwork K) σ} {result result' : Optimized K}
    (hagrees : s.network.AgreesOff o.rangeActions s'.network)
    (h : Succeeds (o.optimize services) s result t)
    (h' : Succeeds (o.optimize services) s' result' t') : result = result' := by
  have halike : Alike (LinearNetwork.AgreesOff o.rangeActions)
      (LinearNetwork.AgreesOff o.rangeActions) (o.optimize services) :=
    (Alike.ofExcept _).bind fun _ => alike_rounds hcompute hsolve _ _ _
  exact (halike.same hagrees h h').1

end Services

end Optimizer

end GridRelief
