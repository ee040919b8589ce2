import GridRelief.Proofs.Optimizer.Moves
import GridRelief.Proofs.Search.Reoptimized

/-!
# Leaves whose optimisation has failed

An optimisation of a leaf that ends with a fault leaves the leaf as it is but for its network. The
results that the leaf still reports are those of the network before, and there range actions may
have been moved since: they are applied one after the other, and when one is refused those before it
stay where they have been moved. Nothing has been moved when the fault comes before the first round
has chosen its set-points.

* `Leaf.atStart`: the network that the rounds start on.
* `Leaf.firstMove?`: the set-points that the first round moves to.
* `Leaf.optimize_of_error`: what a failed optimisation leaves, and where the network is then.
-/

namespace GridRelief

variable {K N σ : Type} [Scalar K] [Network N K]

namespace Leaf

/-- The network that the rounds start on. A leaf that has been optimised first goes back to the
set-points that it started from. -/
def atStart (leaf : Leaf N K) (rs : List (RangeAction K)) : N × Except (Fault K) Unit :=
  if leaf.status = .optimized then leaf.start.applyAll rs leaf.network else (leaf.network, .ok ())

/-- The set-points that the first round moves to, if it comes to that. -/
def firstMove? (services : Services N K σ) (s : Situation N K) (p : Parameters K) (leaf : Leaf N K)
    (state : σ) : Option (Activation K) :=
  match leaf.phase.outcome?, leaf.atStart s.perimeter.rangeActions with
  | some outcome, (network, .ok _) =>
    (leaf.optimizer s p outcome).firstMove? services ⟨network, state⟩
  | _, _ => none

variable {services : Services N K σ} {s : Situation N K} {p : Parameters K} {leaf after : Leaf N K}
  {state : σ} {outcome : Outcome K} {fault : Fault K}

theorem moves_atStart (leaf : Leaf N K) (rs : List (RangeAction K)) :
    RangeAction.Moves rs leaf.network (leaf.atStart rs).1 := by
  unfold atStart
  split
  · exact leaf.start.moves_applyAll (fun _ hr => hr) leaf.network
  · exact .refl

/-- A failed optimisation from known flows leaves all but the network as it is. -/
theorem optimizeFrom_of_error
    (h : (leaf.optimizeFrom services s p outcome state).1 = (after, .error fault)) :
    after = { leaf with
      network := (((leaf.optimizer s p outcome).optimize services).run
        ⟨leaf.network, state⟩).2.network } := by
  unfold optimizeFrom at h
  split at h
  · cases (Prod.mk.inj h).2
  · rcases hrun : ExceptT.run ((leaf.optimizer s p outcome).optimize services) ⟨leaf.network, state⟩
      with ⟨answer, session⟩
    simp only [bind, StateT.bind, get, getThe, MonadStateOf.get, StateT.get, pure, hrun] at h
    cases answer with
    | ok result => cases (Prod.mk.inj h).2
    | error _ => exact (Prod.mk.inj h).1.symm

/-- A failed optimisation either has not got to the rounds, or has failed in them, on the network
that they start on. -/
theorem exists_network_of_error (h : (leaf.optimize services s p state).1 = (after, .error fault)) :
    ∃ network, after = { leaf with network } ∧
      (network = (leaf.atStart s.perimeter.rangeActions).1 ∧
          leaf.firstMove? services s p state = none ∨
        ∃ outcome n, leaf.phase.outcome? = some outcome ∧
          leaf.atStart s.perimeter.rangeActions = (n, .ok ()) ∧
          network =
            (((leaf.optimizer s p outcome).optimize services).run ⟨n, state⟩).2.network) := by
  unfold optimize at h
  unfold firstMove? atStart status
  cases hphase : leaf.phase with
  | created =>
    rw [hphase] at h
    exact ⟨leaf.network, hphase ▸ (Prod.mk.inj h).1.symm, .inl ⟨rfl, rfl⟩⟩
  | failed =>
    rw [hphase] at h
    exact ⟨leaf.network, hphase ▸ (Prod.mk.inj h).1.symm, .inl ⟨rfl, rfl⟩⟩
  | evaluated outcome cost =>
    rw [hphase] at h
    refine ⟨_, ?_, .inr ⟨outcome, leaf.network, rfl, rfl, rfl⟩⟩
    exact hphase ▸ optimizeFrom_of_error h
  | optimized outcome result =>
    rw [hphase] at h
    simp only [LeafPhase.status, if_true, LeafPhase.outcome?]
    dsimp only at h
    rcases hback : leaf.start.applyAll s.perimeter.rangeActions leaf.network with ⟨n, fault' | _⟩
    · rw [hback] at h
      exact ⟨n, (Prod.mk.inj h).1.symm, .inl ⟨rfl, rfl⟩⟩
    · rw [hback] at h
      exact ⟨_, optimizeFrom_of_error h, .inr ⟨outcome, n, rfl, rfl, rfl⟩⟩

/-- An optimisation that ends with a fault leaves the leaf's status and its results as they are.
What it does to the network is moving range actions. If it fails before its first round moves any,
the network of a leaf that is optimised for the first time is left as it is too. -/
theorem optimize_of_error (h : (leaf.optimize services s p state).1 = (after, .error fault)) :
    after = { leaf with network := after.network } ∧
      after.status = leaf.status ∧ after.result = leaf.result ∧
      RangeAction.Moves s.perimeter.rangeActions leaf.network after.network ∧
      (leaf.status ≠ .optimized → leaf.firstMove? services s p state = none →
        after.network = leaf.network) ∧
      Optimizer.MovesFirst s.perimeter.rangeActions (leaf.atStart s.perimeter.rangeActions).1
        (leaf.firstMove? services s p state) after.network := by
  have hstart : leaf.status ≠ .optimized →
      (leaf.atStart s.perimeter.rangeActions).1 = leaf.network := fun hstatus => by
    rw [atStart, if_neg hstatus]
  have hmoves := leaf.moves_atStart s.perimeter.rangeActions
  obtain ⟨network, rfl, ⟨rfl, hnone⟩ | ⟨outcome, n, houtcome, hback, rfl⟩⟩ :=
    exists_network_of_error h
  · rw [hnone]
    exact ⟨rfl, rfl, rfl, hmoves, fun hstatus _ => hstart hstatus, rfl⟩
  · have hfirst : leaf.firstMove? services s p state =
        (leaf.optimizer s p outcome).firstMove? services ⟨n, state⟩ := by
      rw [firstMove?, houtcome, hback]
    have hrounds := (leaf.optimizer s p outcome).movesFirst_optimize services ⟨n, state⟩
    rw [← hfirst] at hrounds
    rw [hback] at hstart hmoves ⊢
    refine ⟨rfl, rfl, rfl, ?_, fun hstatus hnone => ?_, hrounds⟩
    · exact hmoves.trans ((leaf.optimizer s p outcome).roams_optimize services ⟨n, state⟩)
    · rw [hnone] at hrounds
      exact hrounds.trans (hstart hstatus)

end Leaf

/-! ### A phase shifter with fewer taps on the network -/

namespace OneShift

/-- A phase shifter with a table of three taps. -/
def turn : RangeAction ℚ :=
  { id := "turn", element := "coil", kind := .pst (.ofPairs [(0, 0), (1, 1), (2, 2)])
    min := 0, max := 2 }

/-- The grid with the phase shifter, of which the network only knows the neutral tap. Each degree
takes 10 MW off the line. -/
def narrowGrid : LinearNetwork ℚ :=
  network 0
    |>.withPst { turn with kind := .pst (.ofPairs [(0, 0)]) } 0
    |>.withSensitivity "coil" "line" (-10)

/-- The optimisation of the injection and of the phase shifter. -/
def turning : Situation (LinearNetwork ℚ) ℚ :=
  let perimeter : Perimeter ℚ := .ofLists .preventive [TwoSwitches.line] [] [shift, turn]
  { (search 0 {}).situation with
    network := narrowGrid
    perimeter
    outcome := (LinearComputer.mk perimeter.cnecs perimeter.rangeActions []).compute narrowGrid
    setpoints := ⟨.ofPairs [("shift", 0), ("turn", 0)]⟩ }

/-- Services that propose to shift the injection to -15 MW and the phase shifter to its last tap. -/
def proposingBoth : Services (LinearNetwork ℚ) ℚ Unit := proposing [-15, 15, 2, 2, 477, 323]

/-- The root once its flows are known. -/
def evaluatedRoot : Leaf (LinearNetwork ℚ) ℚ :=
  ((Leaf.root turning).evaluate proposingBoth turning.objective ()).1

/-- The optimisation of the root moves the injection, and then the phase shifter refuses its tap. -/
theorem refused_tap : ∃ after fault,
    (evaluatedRoot.optimize proposingBoth turning (search 0 {}).parameters ()).1 =
      (after, .error fault) ∧
    evaluatedRoot.network.setpoints.toList = [("unit", 0)] ∧
    after.network.setpoints.toList = [("unit", -15)] := by
  rcases hrun : (evaluatedRoot.optimize proposingBoth turning (search 0 {}).parameters ()).1
    with ⟨after, answer⟩
  have htest : (let failed := (evaluatedRoot.optimize proposingBoth turning
        (search 0 {}).parameters ()).1
      failed.2.isOk == false && failed.1.network.setpoints.toList == [("unit", -15)]) = true := by
    decide +kernel
  rw [hrun, Bool.and_eq_true, beq_iff_eq, beq_iff_eq] at htest
  cases answer with
  | ok _ => cases (htest.1 : true = false)
  | error fault => exact ⟨after, fault, rfl, by decide +kernel, htest.2⟩

/-- When the tap is refused, the root still is as it was evaluated, but its injection has been
moved. -/
theorem results_kept_by_refused_tap : ∃ after fault,
    (evaluatedRoot.optimize proposingBoth turning (search 0 {}).parameters ()).1 =
      (after, .error fault) ∧
    after.status = .evaluated ∧ after.result = evaluatedRoot.result ∧
    RangeAction.Moves [shift, turn] evaluatedRoot.network after.network ∧
    after.network.setpoints.toList = [("unit", -15)] := by
  obtain ⟨after, fault, hfailed, -, hmoved⟩ := refused_tap
  obtain ⟨-, hstatus, hresult, hmoves, -⟩ := Leaf.optimize_of_error hfailed
  exact ⟨after, fault, hfailed, hstatus.trans (by decide +kernel), hresult, hmoves, hmoved⟩

/-- So a failed optimisation need not leave the network of an evaluated leaf as it is. -/
theorem network_moved_by_refused_tap :
    ¬ ∀ (s : Situation (LinearNetwork ℚ) ℚ) (services : Services (LinearNetwork ℚ) ℚ Unit)
        (p : Parameters ℚ) (leaf after : Leaf (LinearNetwork ℚ) ℚ) (fault : Fault ℚ) (state : Unit),
      (leaf.optimize services s p state).1 = (after, .error fault) →
        after.status = leaf.status ∧ after.result = leaf.result ∧
          after.network = leaf.network := by
  intro h
  obtain ⟨after, fault, hfailed, hbefore, hafter⟩ := refused_tap
  obtain ⟨-, -, hnetwork⟩ := h _ _ _ _ _ _ _ hfailed
  rw [hnetwork, hbefore] at hafter
  exact absurd hafter (by decide +kernel)

end OneShift

end GridRelief
