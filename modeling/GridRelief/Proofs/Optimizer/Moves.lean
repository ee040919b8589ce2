import Mathlib.Logic.Relation
import GridRelief.Proofs.Optimizer.Rounds

/-!
# What an optimisation does to the network

Whether or not it ends with a fault, an optimisation changes the network only by moving range
actions, one at a time. Nothing is moved before the first round has chosen its set-points, and then
the network first moves to these.

* `RangeAction.Moves`: a network is reached by moving range actions.
* `Working.Roams`: work that does no more to the network, with one rule for each way of composing
  work.
* `Optimizer.roams_optimize`: an optimisation does no more.
* `Optimizer.round_eq_pick`: a round picks set-points and then visits them.
* `Optimizer.firstMove?`: the set-points that the first round moves to.
* `Optimizer.movesFirst_optimize`: an optimisation starts from what they make of the network, and
  leaves it alone if there are none.
-/

namespace GridRelief

variable {K N σ α β : Type} [Scalar K] [Network N K]

/-! ### Moves -/

/-- A network is reached from another one by moving some of these range actions, one after the
other, to set-points that the network accepts. -/
def RangeAction.Moves (rs : List (RangeAction K)) : N → N → Prop :=
  Relation.ReflTransGen fun n m => ∃ r ∈ rs, ∃ setpoint, r.apply n setpoint = .ok m

/-- Applying set-points moves range actions, as far as it gets. -/
theorem Activation.moves_applyAll (a : Activation K) {rs : List (RangeAction K)}
    {some : List (RangeAction K)} (hsome : some ⊆ rs) (n : N) :
    RangeAction.Moves rs n (a.applyAll some n).1 := by
  induction some generalizing n with
  | nil => exact .refl
  | cons r rest ih =>
    obtain ⟨hr, hrest⟩ := List.cons_subset.mp hsome
    unfold applyAll
    split
    · next changed hchanged =>
      cases hsetpoint : a.get r.id with
      | error fault =>
        rw [hsetpoint] at hchanged
        cases hchanged
      | ok setpoint =>
        rw [hsetpoint] at hchanged
        exact .head ⟨r, hr, setpoint, hchanged⟩ (ih hrest changed)
    · exact .refl

/-! ### Work that moves range actions only -/

theorem Working.run_moveTo (rs : List (RangeAction K)) (a : Activation K) (s : Session N σ) :
    ExceptT.run (moveTo rs a : Working N K σ Unit) s =
      ((a.applyAll rs s.network).2, { s with network := (a.applyAll rs s.network).1 }) := rfl

/-- Work that does nothing to the network but move range actions, whether or not it fails. -/
def Working.Roams (rs : List (RangeAction K)) (work : Working N K σ α) : Prop :=
  ∀ s : Session N σ, RangeAction.Moves rs s.network (work.run s).2.network

namespace Working.Roams

variable {rs : List (RangeAction K)} {first : Working N K σ α} {second : α → Working N K σ β}

/-- What the network has been moved to after a first step, it is moved on from. -/
theorem moves_bind {n : N} {s : Session N σ} (h : RangeAction.Moves rs n (first.run s).2.network)
    (hsecond : ∀ a, Roams rs (second a)) :
    RangeAction.Moves rs n ((first >>= second).run s).2.network := by
  rw [run_bind]
  rcases hfirst : first.run s with ⟨answer, r⟩
  rw [hfirst] at h
  cases answer with
  | ok a => exact h.trans (hsecond a r)
  | error fault => exact h

theorem bind (h : Roams rs first) (hsecond : ∀ a, Roams rs (second a)) :
    Roams rs (first >>= second) := fun s => moves_bind (h s) hsecond

theorem pure (a : α) : Roams rs (pure a : Working N K σ α) := fun _ => .refl

theorem ofExcept (answer : Except (Fault K) α) : Roams rs (ofExcept answer : Working N K σ α) := by
  cases answer <;> exact fun _ => .refl

theorem solve (services : Services N K σ) (p : LinearProblem K) :
    Roams rs (solve services p) := fun _ => .refl

theorem compute (services : Services N K σ) : Roams rs (compute services) := fun _ => .refl

theorem moveTo (a : Activation K) : Roams rs (moveTo rs a : Working N K σ Unit) := fun s =>
  a.moves_applyAll (fun _ hr => hr) s.network

/-- Work is allowed to move more range actions than it does. -/
theorem mono {rs' : List (RangeAction K)} (hsub : rs ⊆ rs') (h : Roams rs first) :
    Roams rs' first := fun s =>
  Relation.ReflTransGen.mono (fun _ _ ⟨r, hr, hstep⟩ => ⟨r, hsub hr, hstep⟩) _ _ (h s)

/-- Work that moves no range actions leaves the network alone. -/
theorem network_eq (h : Roams [] first) (s : Session N σ) :
    (first.run s).2.network = s.network := by
  obtain heq | ⟨_, -, r, hr, -⟩ := (h s).cases_tail
  · exact heq
  · cases hr

end Working.Roams

/-! ### Optimisations -/

namespace Optimizer

variable (o : Optimizer K) (services : Services N K σ)

theorem roams_choose (p : LinearProblem K) :
    Working.Roams [] (o.choose services p : Working N K σ _) := by
  refine .bind (.ofExcept _) fun activation => ?_
  split
  · refine .bind (.ofExcept _) fun adjusted => .bind (.solve services adjusted) fun solved => ?_
    split
    · exact .bind (.ofExcept _) fun _ => .pure _
    · exact .pure _
  · exact .pure _

theorem roams_compare (p : LinearProblem K) (best reached : Optimized K) :
    Working.Roams o.rangeActions (o.compare p best reached : Working N K σ (RoundEnd K)) := by
  unfold compare
  dsimp only
  split
  · exact .bind (.ofExcept _) fun _ => .pure _
  · refine .bind (.moveTo _) fun _ => ?_
    split
    · exact .bind (.ofExcept _) fun _ => .pure _
    · exact .pure _

/-- What follows in a round once its set-points have been applied. -/
def settle (iteration : Nat) (problem : LinearProblem K) (best : Optimized K)
    (activation : Activation K) : Working N K σ (RoundEnd K) := do
  let outcome ← Working.compute services
  if outcome.status = .failure then
    Working.moveTo o.rangeActions best.point.activation
    return .stop { best with status := .computationFailed }
  else
    o.compare problem best (.ofPoint o.objective ⟨outcome.flows, outcome.sensitivities, activation⟩
      iteration)

theorem roams_settle (iteration : Nat) (p : LinearProblem K) (best : Optimized K)
    (activation : Activation K) :
    Working.Roams o.rangeActions (o.settle services iteration p best activation) := by
  refine .bind (.compute services) fun outcome => ?_
  split
  · exact .bind (.moveTo _) fun _ => .pure _
  · exact o.roams_compare p best _

/-- What a round does before it moves anything: it ends the rounds, or chooses the set-points to
visit. -/
def pick (iteration : Nat) (progress : Progress K) :
    Working N K σ (Optimized K ⊕ LinearProblem K × Activation K) := do
  let problem ← Working.solve services progress.problem
  let best := { progress.best with iterations := iteration }
  if problem.status ≠ .optimal then
    let status := if iteration = 1 then .ofSolve problem.status else .feasible
    return .inl { best with status }
  else
    let chosen ← o.choose services problem
    if ← ofExcept (chosen.2.differs progress.previous o.rangeActions) then return .inr chosen
    else return .inl best

theorem roams_pick (iteration : Nat) (progress : Progress K) :
    Working.Roams [] (o.pick services iteration progress) := by
  refine .bind (.solve services _) fun solved => ?_
  dsimp only
  split
  · exact .pure _
  · refine .bind (o.roams_choose services solved) fun _ => .bind (.ofExcept _) fun _ => ?_
    split <;> exact .pure _

/-- A round picks set-points and then visits them. -/
theorem round_eq_pick (iteration : Nat) (progress : Progress K) :
    o.round services iteration progress = (do
      match ← o.pick services iteration progress with
      | .inl last => return .stop last
      | .inr (problem, activation) =>
        o.visit services iteration problem { progress.best with iterations := iteration }
          activation) := by
  unfold round pick
  rw [bind_assoc]
  congr
  funext solved
  dsimp only
  split
  · rw [pure_bind]
  · rw [bind_assoc]
    congr
    funext chosen
    rw [bind_assoc]
    congr
    funext differs
    cases differs <;> rfl

theorem roams_visit (iteration : Nat) (p : LinearProblem K) (best : Optimized K)
    (activation : Activation K) :
    Working.Roams o.rangeActions (o.visit services iteration p best activation) :=
  .bind (.moveTo _) fun _ => o.roams_settle services iteration p best activation

theorem roams_round (iteration : Nat) (progress : Progress K) :
    Working.Roams o.rangeActions (o.round services iteration progress) := by
  rw [round_eq_pick]
  refine .bind ((o.roams_pick services iteration progress).mono (List.nil_subset _))
    fun picked => ?_
  split
  · exact .pure _
  · exact o.roams_visit services iteration _ _ _

/-- By induction on the number of rounds that are left, they move range actions only. -/
theorem roams_rounds (left iteration : Nat) (progress : Progress K) :
    Working.Roams o.rangeActions (o.rounds services left iteration progress) := by
  induction left generalizing iteration progress with
  | zero => exact .pure _
  | succ left ih =>
    refine .bind (o.roams_round services iteration progress) fun roundEnd => ?_
    split
    · exact .pure _
    · exact ih (iteration + 1) _

theorem roams_optimize : Working.Roams o.rangeActions (o.optimize services) :=
  .bind (.ofExcept _) fun _ => o.roams_rounds services _ _ _

/-! ### The first move -/

/-- The set-points that a round has picked to visit. -/
def visited? :
    Except (Fault K) (Optimized K ⊕ LinearProblem K × Activation K) → Option (Activation K)
  | .ok (.inr chosen) => some chosen.2
  | .ok (.inl _) | .error _ => none

/-- The set-points that the first round moves to, if it comes to that. -/
def firstMove? (s : Session N σ) : Option (Activation K) :=
  match o.firstProblem, o.formulation.parameters.optimizer.maxIterations with
  | .ok problem, _ + 1 =>
    let progress := ⟨problem, Optimized.ofPoint o.objective o.start 0, o.start.activation⟩
    visited? ((o.pick services 1 progress).run s).1
  | .ok _, 0 | .error _, _ => none

/-- What has become of a network once the set-points to be visited first have been applied to it:
range actions have been moved on from there, or one has been refused and nothing more has been done.
Without such set-points nothing has been moved. -/
def MovesFirst (rs : List (RangeAction K)) (n : N) : Option (Activation K) → N → Prop
  | none, m => m = n
  | some activation, m =>
    match activation.applyAll rs n with
    | (moved, .ok _) => RangeAction.Moves rs moved m
    | (moved, .error _) => m = moved

theorem movesFirst_rounds (left iteration : Nat) (progress : Progress K) (s : Session N σ) :
    MovesFirst o.rangeActions s.network (visited? ((o.pick services iteration progress).run s).1)
      ((o.rounds services (left + 1) iteration progress).run s).2.network := by
  have hstill := (o.roams_pick services iteration progress).network_eq s
  unfold rounds
  rw [round_eq_pick, bind_assoc, run_bind]
  rcases hpick : (o.pick services iteration progress).run s with ⟨picked, t⟩
  rw [hpick] at hstill
  rcases picked with fault | last | ⟨problem, activation⟩
  · exact hstill
  · exact hstill
  · unfold visited? MovesFirst visit
    dsimp only at hstill ⊢
    rw [← hstill, bind_assoc, run_bind, Working.run_moveTo]
    rcases activation.applyAll o.rangeActions t.network with ⟨moved, fault | _⟩
    · rfl
    · -- what follows the first move, in this round and in later ones, moves range actions only
      refine Working.Roams.moves_bind ?_ fun roundEnd => ?_
      · exact o.roams_settle services iteration problem _ activation ⟨moved, t.services⟩
      · split
        · exact .pure _
        · exact o.roams_rounds services left (iteration + 1) _

/-- If the first round moves nothing, the network stays; otherwise it is moved on from what the
first set-points have made of it. -/
theorem movesFirst_optimize (s : Session N σ) :
    MovesFirst o.rangeActions s.network (o.firstMove? services s)
      ((o.optimize services).run s).2.network := by
  unfold firstMove? optimize
  cases hfirst : o.firstProblem with
  | error fault => rfl
  | ok problem =>
    cases o.formulation.parameters.optimizer.maxIterations with
    | zero => rfl
    | succ left => exact o.movesFirst_rounds services left 1 _ s

end Optimizer

end GridRelief
