import GridRelief.Proofs.Optimizer.TwoRuns
import GridRelief.Proofs.Search.Reported

/-!
# Optimising a leaf again

Before a leaf that has been optimised is optimised again, its range actions go back to the
set-points that it started from. That need not give back the network of the first run: a network
action may have driven the element of a range action after the leaf's set-points had been applied.
But the two networks agree off the elements of the range actions, whatever the first run has done,
and the rounds see no more of them. So the second run has the result of the first one.

* `LeafPhase.outcome?`: the flows that a leaf is optimised from.
* `Leaf.exists_optimizeFrom`: on which network a leaf is optimised.
* `Leaf.result_optimize_again`: a second run has the result of the first one.
-/

namespace GridRelief

variable {K N σ : Type} [Scalar K]

/-- The flows that a leaf is optimised from. -/
def LeafPhase.outcome? : LeafPhase K → Option (Outcome K)
  | .evaluated outcome _ | .optimized outcome _ => some outcome
  | .created | .failed => none

namespace Leaf

section AnyNetwork

variable [Network N K] {services : Services N K σ} {s : Situation N K} {p : Parameters K}
  {leaf later : Leaf N K} {state : σ} {outcome : Outcome K}

/-- A leaf without range actions stays as it is when it is optimised. -/
theorem optimizeFrom_of_isEmpty (h : s.perimeter.rangeActions.isEmpty = true) :
    (leaf.optimizeFrom services s p outcome state).1 = (leaf, .ok ()) := by
  unfold optimizeFrom
  rw [if_pos h]
  rfl

/-- An optimisation of a leaf that ends without a fault has given the leaf new results. -/
theorem exists_optimized (hsome : s.perimeter.rangeActions.isEmpty = false)
    (h : (leaf.optimizeFrom services s p outcome state).1 = (later, .ok ())) :
    ∃ result session,
      Succeeds ((leaf.optimizer s p outcome).optimize services) ⟨leaf.network, state⟩ result
        session ∧
      later = { leaf with network := session.network, phase := .optimized outcome result } := by
  unfold optimizeFrom at h
  rw [if_neg (Bool.eq_false_iff.mp hsome)] at h
  rcases hrun : ExceptT.run ((leaf.optimizer s p outcome).optimize services) ⟨leaf.network, state⟩
    with ⟨answer, session⟩
  simp only [bind, StateT.bind, get, getThe, MonadStateOf.get, StateT.get, pure, hrun] at h
  cases answer with
  | ok result => exact ⟨result, session, hrun, (Prod.mk.inj h).1.symm⟩
  | error fault => cases (Prod.mk.inj h).2

/-- When a leaf is optimised without a fault, it is so from the flows that it has, and on the
network that it has, or on the one with the set-points that it started from if it has been optimised
before. -/
theorem exists_optimizeFrom (h : (leaf.optimize services s p state).1 = (later, .ok ())) :
    ∃ outcome network, leaf.phase.outcome? = some outcome ∧
      (leaf.status = .optimized →
        leaf.start.applyAll s.perimeter.rangeActions leaf.network = (network, .ok ())) ∧
      (({ leaf with network } : Leaf N K).optimizeFrom services s p outcome state).1 =
        (later, .ok ()) := by
  unfold optimize at h
  cases hphase : leaf.phase with
  | created =>
    rw [hphase] at h
    cases (Prod.mk.inj h).2
  | failed =>
    rw [hphase] at h
    cases (Prod.mk.inj h).2
  | evaluated outcome cost =>
    rw [hphase] at h
    refine ⟨outcome, leaf.network, rfl, fun hstatus => ?_, ?_⟩
    · rw [status, hphase] at hstatus
      cases hstatus
    · rw [← hphase]
      exact h
  | optimized outcome result =>
    rw [hphase] at h
    dsimp only at h
    rcases hback : leaf.start.applyAll s.perimeter.rangeActions leaf.network with ⟨network, moved⟩
    rw [hback] at h
    cases moved with
    | ok _ => exact ⟨outcome, network, rfl, fun _ => rfl, h⟩
    | error fault => cases (Prod.mk.inj h).2

end AnyNetwork

/-- Optimising a leaf twice without a fault, whatever it stands for and whatever has been done to it
before. If flows depend on the network alone, and a solver's answer on the model alone, the second
run has the result and the status of the first one. -/
theorem result_optimize_again {services : Services (LinearNetwork K) K σ}
    {outcomeOn : LinearNetwork K → Outcome K} {answerTo : Model K → Answer K}
    (hcompute : ∀ network state, (services.compute network state).1 = outcomeOn network)
    (hsolve : ∀ model state, (services.solve model state).1 = answerTo model)
    {s : Situation (LinearNetwork K) K} {p : Parameters K}
    {leaf first second : Leaf (LinearNetwork K) K} {before between : σ}
    (hfirst : (leaf.optimize services s p before).1 = (first, .ok ()))
    (hsecond : (first.optimize services s p between).1 = (second, .ok ())) :
    second.result = first.result ∧ second.status = first.status := by
  obtain ⟨outcome, start, -, -, hfirst⟩ := exists_optimizeFrom hfirst
  obtain ⟨outcome', again, houtcome, hback, hsecond⟩ := exists_optimizeFrom hsecond
  by_cases hempty : s.perimeter.rangeActions.isEmpty = true
  · rw [optimizeFrom_of_isEmpty hempty] at hsecond
    obtain ⟨rfl, -⟩ := Prod.mk.inj hsecond
    exact ⟨rfl, rfl⟩
  · rw [Bool.not_eq_true] at hempty
    obtain ⟨result, session, hrun, rfl⟩ := exists_optimized hempty hfirst
    obtain ⟨result', session', hrun', rfl⟩ := exists_optimized hempty hsecond
    obtain rfl := Option.some.inj houtcome
    -- the networks at the start of both runs agree off the range actions
    have haway : start.AgreesOff s.perimeter.rangeActions session.network :=
      (Optimizer.rests_of_optimize hrun).agreesOff
    have hagain : session.network.AgreesOff s.perimeter.rangeActions again :=
      LinearNetwork.agreesOff_of_applyAll (fun r hr => hr) (hback rfl)
    have hsame : result = result' := by
      apply Optimizer.result_eq hcompute hsolve _ hrun hrun'
      exact haway.trans hagain
    rw [hsame]
    exact ⟨rfl, rfl⟩

end Leaf

/-! ### A shift whose element has been set -/

namespace OneShift

/-- The leaf of a network action that sets the injection to 10 MW: the first run starts there, the
second one at the set-point before any action, and both come to a shift of -15 MW. -/
theorem result_again_of_driven_element :
    let s := actingSearch (setUnit 10)
    let services := proposing [-15, 15, 499, 301]
    ∃ leaf first second : Leaf (LinearNetwork ℚ) ℚ,
      leaf.applied.Drives shift ∧ leaf.network.setpoints.toList = [("unit", 10)] ∧
      (leaf.optimize services s.situation s.parameters ()).1 = (first, .ok ()) ∧
      first.network.setpoints.toList = [("unit", -15)] ∧
      (first.optimize services s.situation s.parameters ()).1 = (second, .ok ()) ∧
      second.result = first.result ∧ second.status = first.status := by
  intro s services
  let evaluated (built : Leaf (LinearNetwork ℚ) ℚ) :=
    (built.evaluate services s.situation.objective ()).1
  let run (leaf : Leaf (LinearNetwork ℚ) ℚ) :=
    (leaf.optimize services s.situation s.parameters ()).1
  have hany : ((Leaf.child s.situation.network ∅ (.single (setUnit 10))
      s.situation.unmoved).2.toOption.any fun built =>
        (evaluated built).applied.Drives shift &&
        (evaluated built).network.setpoints.toList == [("unit", 10)] &&
        (run (evaluated built)).2.isOk &&
        (run (evaluated built)).1.network.setpoints.toList == [("unit", -15)] &&
        (run (run (evaluated built)).1).2.isOk) = true := by
    decide +kernel
  obtain ⟨built, -, htest⟩ := exists_ok_of_any hany
  simp only [Bool.and_eq_true, beq_iff_eq, decide_eq_true_eq] at htest
  obtain ⟨⟨⟨⟨hdrives, hset⟩, hfirst⟩, hshifted⟩, hsecond⟩ := htest
  have hcompute : ∀ network state, (services.compute network state).1 = computer.compute network :=
    fun _ _ => rfl
  have hsolve : ∀ model state, (services.solve model state).1 =
      if model.IsMetBy [-15, 15, 499, 301] then .solved [-15, 15, 499, 301] else .failed :=
    fun _ _ => rfl
  have hfirst := eq_ok_of_isOk hfirst
  have hsecond := eq_ok_of_isOk hsecond
  exact ⟨evaluated built, (run (evaluated built)).1, (run (run (evaluated built)).1).1, hdrives,
    hset, hfirst, hshifted, hsecond, Leaf.result_optimize_again hcompute hsolve hfirst hsecond⟩

end OneShift

end GridRelief
