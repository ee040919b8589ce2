import GridRelief.Proofs.Work
import GridRelief.Search.Depth

/-!
# The life of a leaf

What building, evaluating and optimising may make of a leaf, whatever the services answer.

* `Search.phase_build`: a leaf that has just been built has not been evaluated.
* `Leaf.status_evaluate`: evaluating it leaves it evaluated or failed.
* `Leaf.finalize_optimize_cases`: optimising it gives it new results or leaves its results as they
  are.
* `Leaf.applied_evaluate`, `Leaf.applied_optimize`: neither changes its network actions.
* `Leaf.HasSetpoints`: the set-points of a leaf have a property, which evaluating keeps.
* `Search.exists_moved_of_build`: how a leaf is built.
-/

namespace GridRelief

variable {K N σ : Type} [Scalar K] [Network N K]

namespace Leaf

variable {leaf : Leaf N K}

omit [Scalar K] in
/-- The leaf of a combination has not been evaluated. -/
theorem phase_child {network : N} {parent : ActionSet K} {combination : Combination K}
    {start : Activation K} (h : (child network parent combination start).2 = .ok leaf) :
    leaf.phase = .created := by
  unfold child at h
  dsimp only at h
  generalize applyActions (parent.union combination.actions).actions network = applied at h
  obtain ⟨network, result⟩ := applied
  cases result with
  | ok _ =>
    obtain rfl := Except.ok.inj h
    rfl
  | error fault => cases h

section Evaluate

variable (services : Services N K σ) (objective : Objective K)

omit [Scalar K] [Network N K]

/-- Evaluating a leaf that has just been built computes the flows on its network. -/
theorem evaluate_of_created (h : leaf.phase = .created) (state : σ) :
    (leaf.evaluate services objective state).1 =
      { leaf with
        phase := if (services.compute leaf.network state).1.status = .failure then .failed
          else leaf.phaseOf objective (services.compute leaf.network state).1 } := by
  unfold evaluate
  rw [h]
  rfl

/-- Evaluating an evaluated leaf computes its cost anew. -/
theorem evaluate_of_evaluated {outcome : Outcome K} {cost : Option (Cost K)}
    (h : leaf.phase = .evaluated outcome cost) (state : σ) :
    (leaf.evaluate services objective state).1 =
      { leaf with phase := leaf.phaseOf objective outcome } := by
  unfold evaluate
  rw [h]
  rfl

/-- Evaluating a leaf that has just been built leaves it evaluated or failed. -/
theorem status_evaluate (h : leaf.phase = .created) (state : σ) :
    (leaf.evaluate services objective state).1.status = .failed ∨
      (leaf.evaluate services objective state).1.status = .evaluated := by
  rw [evaluate_of_created services objective h]
  unfold status
  dsimp only
  split
  · exact .inl rfl
  · exact .inr rfl

/-- An evaluated leaf that has not failed has results. -/
theorem exists_result_evaluate (state : σ)
    (h : (leaf.evaluate services objective state).1.status ≠ .failed) :
    ∃ result, (leaf.evaluate services objective state).1.result = .ok result := by
  cases hphase : leaf.phase with
  | created =>
    rw [evaluate_of_created services objective hphase] at h ⊢
    by_cases hfailure : (services.compute leaf.network state).1.status = .failure
    · rw [if_pos hfailure] at h
      exact absurd rfl h
    · rw [if_neg hfailure]
      exact ⟨_, rfl⟩
  | evaluated outcome cost =>
    rw [evaluate_of_evaluated services objective hphase]
    exact ⟨_, rfl⟩
  | optimized outcome optimized =>
    have hsame : (leaf.evaluate services objective state).1 = leaf := by
      rw [evaluate, hphase]
      rfl
    rw [hsame, result, hphase]
    exact ⟨_, rfl⟩
  | failed =>
    have hsame : (leaf.evaluate services objective state).1 = leaf := by
      rw [evaluate, hphase]
      rfl
    rw [hsame, status, hphase] at h
    exact absurd rfl h

end Evaluate

/-- How optimising from known flows ends: there is nothing to optimise, there are new results, or a
fault has come up, after which the network may have been moved. -/
theorem optimizeFrom_eq (services : Services N K σ) (s : Situation N K) (p : Parameters K)
    (outcome : Outcome K) (leaf : Leaf N K) (state : σ) :
    (leaf.optimizeFrom services s p outcome state).1 = (leaf, .ok ()) ∨
      (∃ result session,
        Succeeds ((leaf.optimizer s p outcome).optimize services) ⟨leaf.network, state⟩ result
          session ∧
        (leaf.optimizeFrom services s p outcome state).1 =
          ({ leaf with network := session.network, phase := .optimized outcome result },
            .ok ())) ∨
      ∃ network fault,
        (leaf.optimizeFrom services s p outcome state).1 =
          ({ leaf with network }, .error fault) := by
  unfold optimizeFrom
  split
  · exact .inl rfl
  · right
    rcases h : ExceptT.run ((leaf.optimizer s p outcome).optimize services) ⟨leaf.network, state⟩
      with ⟨result, session⟩
    simp only [bind, StateT.bind, get, getThe, MonadStateOf.get, StateT.get, pure, h]
    cases result with
    | ok optimized => exact .inl ⟨optimized, session, h, rfl⟩
    | error fault => exact .inr ⟨session.network, fault, rfl⟩

/-- Optimising from known flows gives a leaf new results, or leaves all but its network as it is. -/
theorem optimizeFrom_cases (services : Services N K σ) (s : Situation N K) (p : Parameters K)
    (outcome : Outcome K) (leaf : Leaf N K) (state : σ) :
    (∃ result session,
        Succeeds ((leaf.optimizer s p outcome).optimize services) ⟨leaf.network, state⟩ result
          session ∧
        (leaf.optimizeFrom services s p outcome state).1.1 =
          { leaf with network := session.network, phase := .optimized outcome result }) ∨
      ∃ network, (leaf.optimizeFrom services s p outcome state).1.1 = { leaf with network } := by
  rcases optimizeFrom_eq services s p outcome leaf state with
    heq | ⟨result, session, hresult, heq⟩ | ⟨network, fault, heq⟩
  · exact .inr ⟨leaf.network, congrArg Prod.fst heq⟩
  · exact .inl ⟨result, session, hresult, congrArg Prod.fst heq⟩
  · exact .inr ⟨network, congrArg Prod.fst heq⟩

/-- Optimising an evaluated leaf gives it new results or leaves its results as they are. -/
theorem finalize_optimize_cases (services : Services N K σ) (s : Situation N K)
    (p : Parameters K) (h : leaf.status = .evaluated) (state : σ) :
    (leaf.optimize services s p state).1.1.finalize.status = .optimized ∨
      (leaf.optimize services s p state).1.1.finalize = leaf.finalize := by
  unfold optimize
  cases hphase : leaf.phase with
  | evaluated outcome cost =>
    change (leaf.optimizeFrom services s p outcome state).1.1.finalize.status = .optimized ∨
      (leaf.optimizeFrom services s p outcome state).1.1.finalize = leaf.finalize
    rcases optimizeFrom_cases services s p outcome leaf state with
      ⟨_, _, -, heq⟩ | ⟨_, heq⟩
    · exact .inl (by rw [heq]; rfl)
    · exact .inr (by rw [heq]; rfl)
  | _ => simp [status, hphase, LeafPhase.status] at h

theorem exists_result_optimizeFrom (services : Services N K σ) (s : Situation N K)
    (p : Parameters K) (outcome : Outcome K) {leaf : Leaf N K}
    (h : ∃ result, leaf.result = .ok result) (state : σ) :
    ∃ result, (leaf.optimizeFrom services s p outcome state).1.1.result = .ok result := by
  rcases optimizeFrom_cases services s p outcome leaf state with ⟨_, _, -, heq⟩ | ⟨_, heq⟩
  · rw [heq]
    exact ⟨_, rfl⟩
  · rw [heq]
    exact h

/-- Optimising a leaf that has results leaves it with results. -/
theorem exists_result_optimize (services : Services N K σ) (s : Situation N K)
    (p : Parameters K) {leaf : Leaf N K} (h : ∃ result, leaf.result = .ok result) (state : σ) :
    ∃ result, (leaf.optimize services s p state).1.1.result = .ok result := by
  unfold optimize
  cases hphase : leaf.phase with
  | created | failed => exact h
  | evaluated outcome cost => exact exists_result_optimizeFrom services s p outcome h state
  | optimized outcome optimized =>
    dsimp only
    rcases leaf.start.applyAll s.perimeter.rangeActions leaf.network with ⟨network, moved⟩
    have hback : ∃ result, Leaf.result { leaf with
        network, phase := .optimized outcome optimized } = .ok result := ⟨_, rfl⟩
    cases moved with
    | ok _ => exact exists_result_optimizeFrom services s p outcome hback state
    | error fault => exact hback

/-! ### Network actions -/

omit [Scalar K] [Network N K] in
/-- Evaluating a leaf does not change its network actions. -/
@[simp] theorem applied_evaluate (services : Services N K σ) (objective : Objective K)
    (leaf : Leaf N K) (state : σ) :
    (leaf.evaluate services objective state).1.applied = leaf.applied := by
  unfold evaluate
  cases leaf.phase <;> rfl

theorem applied_optimizeFrom (services : Services N K σ) (s : Situation N K) (p : Parameters K)
    (outcome : Outcome K) (leaf : Leaf N K) (state : σ) :
    (leaf.optimizeFrom services s p outcome state).1.1.applied = leaf.applied := by
  rcases optimizeFrom_cases services s p outcome leaf state with
    ⟨_, _, -, heq⟩ | ⟨_, heq⟩ <;>
    rw [heq]

/-- Optimising a leaf does not change its network actions. -/
@[simp] theorem applied_optimize (services : Services N K σ) (s : Situation N K)
    (p : Parameters K) (leaf : Leaf N K) (state : σ) :
    (leaf.optimize services s p state).1.1.applied = leaf.applied := by
  unfold optimize
  cases leaf.phase with
  | created | failed => rfl
  | evaluated outcome cost => exact applied_optimizeFrom services s p outcome leaf state
  | optimized outcome result =>
    dsimp only
    rcases leaf.start.applyAll s.perimeter.rangeActions leaf.network with ⟨network, moved⟩
    cases moved with
    | ok _ => exact applied_optimizeFrom services s p outcome _ state
    | error fault => rfl

/-! ### Results -/

omit [Scalar K] [Network N K] in
/-- The results of a leaf name its network actions. -/
theorem applied_of_result {result : LeafResult K} (h : leaf.result = .ok result) :
    result.applied = leaf.applied := by
  unfold Leaf.result at h
  split at h
  · obtain rfl := Except.ok.inj h
    rfl
  · cases h
  · obtain rfl := Except.ok.inj h
    rfl
  · cases h
  · cases h

omit [Scalar K] [Network N K] in
theorem result?_finalize {result : LeafResult K} :
    leaf.finalize.result? = some result ↔ leaf.result = .ok result := by
  unfold finalize
  cases leaf.result <;> simp [Except.toOption]

/-! ### Set-points -/

/-- The set-points that a leaf starts from, and those that have been found, have a property. -/
structure HasSetpoints (A : Activation K → Prop) (leaf : Leaf N K) : Prop where
  start : A leaf.start
  optimized : ∀ outcome result, leaf.phase = .optimized outcome result → A result.point.activation

namespace HasSetpoints

variable {A : Activation K → Prop}

omit [Scalar K] [Network N K] in
/-- The set-points that such a leaf names have the property. -/
theorem result (h : leaf.HasSetpoints A) {result : LeafResult K}
    (hresult : leaf.result = .ok result) : A result.point.activation := by
  unfold Leaf.result at hresult
  split at hresult
  · obtain rfl := Except.ok.inj hresult
    exact h.start
  · cases hresult
  · next hphase =>
    obtain rfl := Except.ok.inj hresult
    exact h.optimized _ _ hphase
  · cases hresult
  · cases hresult

omit [Scalar K] [Network N K] in
/-- Evaluating a leaf does not change its set-points. -/
theorem evaluate (h : leaf.HasSetpoints A) (services : Services N K σ) (objective : Objective K)
    (state : σ) : (leaf.evaluate services objective state).1.HasSetpoints A := by
  cases hphase : leaf.phase with
  | created =>
    rw [evaluate_of_created services objective hphase]
    refine ⟨h.start, fun outcome result heq => ?_⟩
    dsimp only at heq
    split at heq <;> cases heq
  | evaluated outcome cost =>
    rw [evaluate_of_evaluated services objective hphase]
    refine ⟨h.start, fun outcome result heq => ?_⟩
    cases heq
  | optimized outcome result =>
    unfold Leaf.evaluate
    rw [hphase]
    exact h
  | failed =>
    unfold Leaf.evaluate
    rw [hphase]
    exact h

variable {services : Services N K σ} {s : Situation N K} {p : Parameters K}

theorem optimizeFrom (h : leaf.HasSetpoints A) {outcome : Outcome K}
    (hfound : ∀ before result after,
      Succeeds ((leaf.optimizer s p outcome).optimize services) before result after →
        A result.point.activation) (state : σ) :
    (leaf.optimizeFrom services s p outcome state).1.1.HasSetpoints A := by
  rcases optimizeFrom_cases services s p outcome leaf state with
    ⟨result, session, hresult, heq⟩ | ⟨network, heq⟩
  · rw [heq]
    refine ⟨h.start, fun _ _ hphase => ?_⟩
    obtain ⟨rfl, rfl⟩ := LeafPhase.optimized.inj hphase
    exact hfound _ _ _ hresult
  · rw [heq]
    exact ⟨h.start, h.optimized⟩

/-- Optimising a leaf keeps a property of set-points that all set-points have which it may find. -/
theorem optimize (h : leaf.HasSetpoints A)
    (hfound : ∀ outcome before result after,
      Succeeds ((leaf.optimizer s p outcome).optimize services) before result after →
        A result.point.activation) (state : σ) :
    (leaf.optimize services s p state).1.1.HasSetpoints A := by
  unfold Leaf.optimize
  cases hphase : leaf.phase with
  | created | failed => exact h
  | evaluated outcome cost => exact h.optimizeFrom (hfound outcome) state
  | optimized outcome result =>
    dsimp only
    rcases leaf.start.applyAll s.perimeter.rangeActions leaf.network with ⟨network, moved⟩
    have hback : HasSetpoints A { leaf with network, phase := .optimized outcome result } :=
      ⟨h.start, fun _ _ heq => h.optimized _ _ (hphase.trans heq)⟩
    cases moved with
    | ok _ => exact hback.optimizeFrom (hfound outcome) state
    | error fault => exact hback

end HasSetpoints

end Leaf

namespace Search

variable {s : Search N K} {task : Task K} {leaf : Leaf N K}

/-- A leaf is built by applying the set-points that it starts from to the network before any action,
and then its network actions. -/
theorem exists_moved_of_build (h : s.build task = .ok leaf) : ∃ moved,
    s.startOf task = .ok leaf.start ∧
      leaf.start.applyAll s.situation.perimeter.rangeActions s.situation.network =
        (moved, .ok ()) ∧
      leaf.applied = task.previous.applied.union task.candidate.combination.actions ∧
      Leaf.applyActions leaf.applied.actions moved = (leaf.network, .ok ()) ∧
      leaf.phase = .created := by
  unfold build at h
  cases hstart : s.startOf task with
  | error fault => simp [hstart, bind, Except.bind] at h
  | ok start =>
    rcases hmoved : start.applyAll s.situation.perimeter.rangeActions s.situation.network
      with ⟨moved, answer⟩
    cases answer with
    | error fault => simp [hstart, hmoved, bind, Except.bind] at h
    | ok _ =>
      simp only [hstart, hmoved, bind, Except.bind, Leaf.child] at h
      rcases hactions : Leaf.applyActions (task.previous.applied.union
        task.candidate.combination.actions).actions moved with ⟨network, answer⟩
      rw [hactions] at h
      cases answer with
      | error fault => cases h
      | ok _ =>
        obtain rfl := Except.ok.inj h
        exact ⟨moved, rfl, hmoved, rfl, hactions, rfl⟩

/-- A leaf that has just been built has not been evaluated. -/
theorem phase_build (h : s.build task = .ok leaf) : leaf.phase = .created := by
  obtain ⟨moved, -, -, -, -, hphase⟩ := exists_moved_of_build h
  exact hphase

/-- The network actions and set-points of a leaf that has just been built. -/
theorem exists_start_of_build (h : s.build task = .ok leaf) :
    ∃ start, s.startOf task = .ok start ∧ leaf.start = start ∧
      leaf.applied = task.previous.applied.union task.candidate.combination.actions := by
  obtain ⟨moved, hstart, -, happlied, -⟩ := exists_moved_of_build h
  exact ⟨leaf.start, hstart, rfl, happlied⟩

omit [Network N K] in
/-- What a leaf is handed in as reaches the stop criterion when the leaf does. -/
@[simp] theorem reachesStop_finalize :
    s.criteria.reachesStop leaf.finalize = s.stopsAt leaf := by
  unfold Criteria.reachesStop stopsAt Leaf.finalize
  cases leaf.result <;> rfl

end Search

end GridRelief
