import Mathlib.Data.List.Induction
import GridRelief.Proofs.Search.Leaf
import GridRelief.Proofs.Search.TwoSwitches

/-!
# Leaves under any calls

A search evaluates a leaf and then optimises it. A leaf may be evaluated and optimised in any other
order and any number of times, with any objectives, parameters and services, and still goes through
its life in one direction: it is evaluated once, and once it has failed or has been optimised it
stays so.

* `LifeStep`: what a call may do to a leaf.
* `Watched.Lives`: what every step of a life keeps.
* `LeafCall N K σ`: a call that evaluates or optimises a leaf.
* `Leaf.after`: a leaf after some calls, with the number of computations its evaluation has made.
* `Leaf.IsNew`: the root of a situation, or a leaf that has just been built.
* `Leaf.life_cycle`: the life of a leaf under any calls.
-/

namespace GridRelief

variable {K N σ : Type}

/-! ### Steps of a life -/

/-- A leaf, and how many computations its evaluation has made. -/
structure Watched (N K : Type) where
  leaf : Leaf N K
  computations : Nat := 0

/-- The moves of a leaf's status. -/
inductive LeafStatus.Moves : LeafStatus → LeafStatus → Prop
  | evaluated : Moves .created .evaluated
  | failed : Moves .created .failed
  | optimized : Moves .evaluated .optimized

/-- What a call may do to a leaf. -/
inductive LifeStep (w next : Watched N K) : Bool → Prop
  /-- A new leaf is evaluated, by one computation. -/
  | computed (hphase : w.leaf.phase = .created) (hcount : next.computations = w.computations + 1)
      (hnext : next.leaf.phase = .failed ∨
        ∃ outcome cost, next.leaf.phase = .evaluated outcome (some cost)) : LifeStep w next true
  /-- An evaluated leaf gets a cost, without a computation. -/
  | priced {outcome : Outcome K} {cost : Option (Cost K)} {price : Cost K}
      (hphase : w.leaf.phase = .evaluated outcome cost)
      (hcount : next.computations = w.computations)
      (hnext : next.leaf.phase = .evaluated outcome (some price)) : LifeStep w next true
  /-- A leaf is optimised. -/
  | optimized {outcome : Outcome K} {result : Optimized K}
      (hstatus : w.leaf.status = .evaluated ∨ w.leaf.status = .optimized)
      (hcount : next.computations = w.computations)
      (hnext : next.leaf.phase = .optimized outcome result) : LifeStep w next false
  /-- A leaf stays as it is; if the call was to evaluate it, it has failed or has been optimised. -/
  | kept {evaluates : Bool} (hcount : next.computations = w.computations)
      (hnext : next.leaf.phase = w.leaf.phase)
      (hover : evaluates = true → w.leaf.status = .optimized ∨ w.leaf.status = .failed) :
      LifeStep w next evaluates

/-- What every call keeps: only a leaf that is no longer new has been evaluated by a computation,
and an evaluated leaf has a cost if some call has asked for one. -/
structure Watched.Lives (w : Watched N K) (asked : Bool) : Prop where
  computations : w.computations ≤ if w.leaf.status = .created then 0 else 1
  cost : ∀ outcome cost, w.leaf.phase = .evaluated outcome cost → cost.isSome = asked

namespace LifeStep

variable {w next : Watched N K} {evaluates asked : Bool}

/-- The status of a leaf stays or makes one of its moves. -/
theorem status (h : LifeStep w next evaluates) :
    next.leaf.status = w.leaf.status ∨ w.leaf.status.Moves next.leaf.status := by
  unfold Leaf.status
  cases h with
  | computed hphase _ hnext =>
    right
    rw [hphase]
    rcases hnext with hnext | ⟨_, _, hnext⟩
    · rw [hnext]
      exact .failed
    · rw [hnext]
      exact .evaluated
  | priced hphase _ hnext =>
    left
    rw [hphase, hnext]
    rfl
  | optimized hstatus _ hnext =>
    rw [hnext]
    unfold Leaf.status at hstatus
    rcases hstatus with hstatus | hstatus
    · rw [hstatus]
      exact .inr .optimized
    · rw [hstatus]
      exact .inl rfl
  | kept _ hnext _ => exact .inl (congrArg LeafPhase.status hnext)

/-- Only the evaluation of a new leaf computes flows. -/
theorem created_of_lt (h : LifeStep w next evaluates) (hlt : w.computations < next.computations) :
    w.leaf.status = .created ∧ evaluates = true := by
  cases h with
  | computed hphase _ _ => exact ⟨congrArg LeafPhase.status hphase, rfl⟩
  | priced _ hcount _ | optimized _ hcount _ | kept hcount _ _ => omega

theorem lives (h : LifeStep w next evaluates) (hw : w.Lives asked) :
    next.Lives (asked || evaluates) := by
  have hcomputations := hw.computations
  unfold Leaf.status at hcomputations
  constructor
  · unfold Leaf.status
    cases h with
    | computed hphase hcount hnext =>
      rw [hphase] at hcomputations
      rw [hcount]
      rcases hnext with hnext | ⟨_, _, hnext⟩
      · simpa [hnext, LeafPhase.status] using hcomputations
      · simpa [hnext, LeafPhase.status] using hcomputations
    | priced hphase hcount hnext =>
      rw [hphase] at hcomputations
      rw [hcount, hnext]
      exact hcomputations
    | optimized hstatus hcount hnext =>
      rw [hcount, hnext]
      refine hcomputations.trans ?_
      split <;> simp [LeafPhase.status]
    | kept hcount hnext _ => rwa [hcount, hnext]
  · intro outcome cost hphase'
    cases h with
    | computed hphase hcount hnext =>
      rcases hnext with hnext | ⟨_, _, hnext⟩
      · rw [hnext] at hphase'
        cases hphase'
      · rw [hnext] at hphase'
        obtain ⟨-, rfl⟩ := LeafPhase.evaluated.inj hphase'
        simp
    | priced hphase hcount hnext =>
      rw [hnext] at hphase'
      obtain ⟨-, rfl⟩ := LeafPhase.evaluated.inj hphase'
      simp
    | optimized hstatus hcount hnext =>
      rw [hnext] at hphase'
      cases hphase'
    | kept hcount hnext hover =>
      rw [hnext] at hphase'
      have hasked := hw.cost outcome cost hphase'
      cases evaluates with
      | false => rw [hasked, Bool.or_false]
      | true =>
        have hstatus := hover rfl
        rw [Leaf.status, hphase'] at hstatus
        simp [LeafPhase.status] at hstatus

end LifeStep

/-- A leaf has results if it has been optimised, or if it has been evaluated and some call has asked
for a cost. -/
theorem Watched.Lives.result_iff {w : Watched N K} {asked : Bool} (h : w.Lives asked) :
    (∃ result, w.leaf.result = .ok result) ↔
      w.leaf.status = .optimized ∨ w.leaf.status = .evaluated ∧ asked = true := by
  unfold Leaf.result Leaf.status
  cases hphase : w.leaf.phase with
  | created => simp [LeafPhase.status]
  | failed => simp [LeafPhase.status]
  | optimized outcome result => simp [LeafPhase.status]
  | evaluated outcome cost =>
    rw [← h.cost outcome cost hphase]
    cases cost <;> simp [LeafPhase.status]

variable [Scalar K] [Network N K]

/-! ### Calls -/

/-- Services that count the computations they make. -/
def Services.counting (services : Services N K σ) : Services N K (σ × Nat) where
  compute network state :=
    let (outcome, after) := services.compute network state.1
    (outcome, (after, state.2 + 1))
  solve model state :=
    let (answer, after) := services.solve model state.1
    (answer, (after, state.2))
  clock state := services.clock state.1
  processors := services.processors

/-- A call on a leaf. Every call may come with services of its own, found in some state. -/
inductive LeafCall (N K σ : Type) where
  /-- Evaluate the leaf. -/
  | evaluate (services : Services N K σ) (objective : Objective K) (state : σ)
  /-- Optimise the set-points of the leaf. -/
  | optimize (services : Services N K σ) (situation : Situation N K) (parameters : Parameters K)
      (state : σ)

namespace LeafCall

/-- Whether a call evaluates. -/
def evaluates : LeafCall N K σ → Bool
  | .evaluate .. => true
  | .optimize .. => false

/-- What a call makes of a leaf; computations are counted while the leaf is evaluated. -/
def run (call : LeafCall N K σ) (w : Watched N K) : Watched N K :=
  match call with
  | .evaluate services objective state =>
    let (leaf, after) := w.leaf.evaluate services.counting objective (state, w.computations)
    ⟨leaf, after.2⟩
  | .optimize services situation parameters state =>
    { w with leaf := (w.leaf.optimize services situation parameters state).1.1 }

end LeafCall

/-- A leaf after some calls. -/
def Leaf.after (leaf : Leaf N K) (calls : List (LeafCall N K σ)) : Watched N K :=
  calls.foldl (fun w call => call.run w) { leaf }

/-- The root of a situation, or a leaf that has just been built. -/
inductive Leaf.IsNew : Leaf N K → Prop
  | root (s : Situation N K) : (Leaf.root s).IsNew
  | child {network : N} {parent : ActionSet K} {combination : Combination K} {start : Activation K}
      {leaf : Leaf N K} (h : (Leaf.child network parent combination start).2 = .ok leaf) :
      leaf.IsNew

namespace LeafCall

variable (services : Services N K σ) (state : σ) (w : Watched N K)

/-- What evaluating may do to a leaf. -/
theorem lifeStep_evaluate (objective : Objective K) :
    LifeStep w ((evaluate services objective state).run w) true := by
  rcases w with ⟨⟨network, applied, start, phase⟩, count⟩
  cases phase with
  | created =>
    rcases hcompute : services.compute network state with ⟨outcome, after⟩
    have hrun : (evaluate services objective state).run
        ⟨⟨network, applied, start, .created⟩, count⟩ =
        ⟨⟨network, applied, start, if outcome.status = .failure then .failed else
          Leaf.phaseOf ⟨network, applied, start, .created⟩ objective outcome⟩, count + 1⟩ := by
      simp only [run, Leaf.evaluate, Services.counting, bind, StateT.bind, hcompute]
      rfl
    rw [hrun]
    refine .computed rfl rfl ?_
    dsimp only
    split
    · exact .inl rfl
    · exact .inr ⟨outcome, _, rfl⟩
  | evaluated outcome cost => exact .priced rfl rfl rfl
  | optimized outcome result => exact .kept rfl rfl fun _ => .inl rfl
  | failed => exact .kept rfl rfl fun _ => .inr rfl

/-- What optimising may do to a leaf. -/
theorem lifeStep_optimize (situation : Situation N K) (parameters : Parameters K) :
    LifeStep w ((optimize services situation parameters state).run w) false := by
  have hfrom : ∀ (leaf : Leaf N K) outcome, leaf.phase = w.leaf.phase →
      (w.leaf.status = .evaluated ∨ w.leaf.status = .optimized) →
      LifeStep w
        { w with leaf := (leaf.optimizeFrom services situation parameters outcome state).1.1 }
        false := by
    intro leaf outcome hphase hstatus
    rcases Leaf.optimizeFrom_cases services situation parameters outcome leaf state with
      ⟨result, session, -, heq⟩ | ⟨network, heq⟩
    · rw [heq]
      exact .optimized hstatus rfl rfl
    · rw [heq]
      exact .kept rfl hphase (by simp)
  rcases w with ⟨⟨network, applied, start, phase⟩, count⟩
  cases phase with
  | created | failed => exact .kept rfl rfl (by simp)
  | evaluated outcome cost => exact hfrom _ outcome rfl (.inl rfl)
  | optimized outcome result =>
    unfold run Leaf.optimize
    dsimp only
    rcases start.applyAll situation.perimeter.rangeActions network with ⟨network, moved⟩
    cases moved with
    | ok _ => exact hfrom _ outcome rfl (.inr rfl)
    | error fault => exact .kept rfl rfl (by simp)

theorem lifeStep_run (call : LeafCall N K σ) : LifeStep w (call.run w) call.evaluates := by
  cases call with
  | evaluate services objective state => exact lifeStep_evaluate services state w objective
  | optimize services situation parameters state =>
    exact lifeStep_optimize services state w situation parameters

end LeafCall

/-! ### All calls -/

namespace Leaf

variable {leaf : Leaf N K}

theorem after_concat (leaf : Leaf N K) (calls : List (LeafCall N K σ)) (call : LeafCall N K σ) :
    leaf.after (calls ++ [call]) = call.run (leaf.after calls) := by
  unfold after
  rw [List.foldl_append]
  rfl

omit [Scalar K] in
/-- A new leaf has no cost, and no computation has been made for it. -/
theorem IsNew.lives (h : leaf.IsNew) : Watched.Lives { leaf } false := by
  refine ⟨Nat.zero_le _, fun outcome cost hphase => ?_⟩
  cases h with
  | root s =>
    unfold Leaf.root at hphase
    dsimp only at hphase
    split at hphase
    · cases hphase
    · obtain ⟨-, rfl⟩ := LeafPhase.evaluated.inj hphase
      rfl
  | child hchild =>
    rw [phase_child hchild] at hphase
    cases hphase

/-- By induction on the calls, from the last one back: every call keeps what lives. -/
theorem IsNew.lives_after (h : leaf.IsNew) (calls : List (LeafCall N K σ)) :
    (leaf.after calls).Lives (calls.any LeafCall.evaluates) := by
  induction calls using List.reverseRecOn with
  | nil => exact h.lives
  | append_singleton calls call ih =>
    rw [after_concat, List.any_append, List.any_cons, List.any_nil, Bool.or_false]
    exact (call.lifeStep_run _).lives ih

/-- A leaf that has not been evaluated, or has failed, is not optimised: that is refused, and
changes neither the leaf nor the services. -/
theorem optimize_refused (services : Services N K σ) (situation : Situation N K)
    (parameters : Parameters K) (state : σ)
    (h : leaf.status = .created ∨ leaf.status = .failed) :
    ∃ fault, leaf.optimize services situation parameters state = ((leaf, .error fault), state) := by
  unfold Leaf.optimize
  unfold Leaf.status at h
  cases hphase : leaf.phase with
  | created => exact ⟨_, rfl⟩
  | failed => exact ⟨_, rfl⟩
  | evaluated outcome cost => simp [hphase, LeafPhase.status] at h
  | optimized outcome result => simp [hphase, LeafPhase.status] at h

/-- Under any calls, the status of a leaf stays or makes one of its moves, so a leaf that has failed
or has been optimised stays so. Its evaluation makes one computation at most, when it is new.
Optimising it is refused without a change as long as it is new and after it has failed. It has
results if it has been optimised, or if it has been evaluated and a call has asked for its cost. -/
theorem life_cycle (hnew : leaf.IsNew) (calls : List (LeafCall N K σ)) (call : LeafCall N K σ) :
    let now := leaf.after calls
    let next := leaf.after (calls ++ [call])
    (next.leaf.status = now.leaf.status ∨ now.leaf.status.Moves next.leaf.status) ∧
      now.computations ≤ 1 ∧
      (now.computations < next.computations →
        now.leaf.status = .created ∧ call.evaluates = true) ∧
      (∀ (services : Services N K σ) situation parameters state,
        now.leaf.status = .created ∨ now.leaf.status = .failed → ∃ fault,
          now.leaf.optimize services situation parameters state =
            ((now.leaf, .error fault), state)) ∧
      ((∃ result, now.leaf.result = .ok result) ↔ now.leaf.status = .optimized ∨
        now.leaf.status = .evaluated ∧ calls.any LeafCall.evaluates = true) := by
  intro now next
  have hstep : LifeStep now next call.evaluates := by
    show LifeStep now (leaf.after (calls ++ [call])) call.evaluates
    rw [after_concat]
    exact call.lifeStep_run now
  have hlives := hnew.lives_after calls
  refine ⟨hstep.status, ?_, hstep.created_of_lt, ?_, hlives.result_iff⟩
  · refine hlives.computations.trans ?_
    split <;> simp
  · intro services situation parameters state hstatus
    exact optimize_refused services situation parameters state hstatus

end Leaf

namespace TwoSwitches

/-- A call that asks for the cost of a leaf. -/
def evaluation : LeafCall (LinearNetwork ℚ) ℚ Unit :=
  .evaluate services (situation (network 100 0 50)).objective ()

/-- A call that asks for the best set-points on a leaf. -/
def optimization : LeafCall (LinearNetwork ℚ) ℚ Unit :=
  .optimize services (situation (network 100 0 50)) Parameters.default ()

/-- The leaf that opens the second switch: optimising it at once is refused, and however often it is
evaluated afterwards, its flows are computed once. -/
theorem life_of_opening : ∃ leaf : Leaf (LinearNetwork ℚ) ℚ, leaf.IsNew ∧
    (leaf.after [optimization]).leaf.status = .created ∧
    let now := leaf.after [optimization, evaluation, evaluation]
    (now.leaf.status = .evaluated ∧ now.computations = 1) ∧ now.computations ≤ 1 ∧
      ∃ result, now.leaf.result = .ok result := by
  have hlife : ((Leaf.child (network 100 0 50) ∅ openSecond.combination {}).2.toOption.any
      fun leaf => (leaf.after [optimization]).leaf.status = .created &&
        (leaf.after [optimization, evaluation, evaluation]).leaf.status = .evaluated &&
        (leaf.after [optimization, evaluation, evaluation]).computations == 1) = true := by
    decide +kernel
  rw [Option.any_eq_true] at hlife
  obtain ⟨leaf, hleaf, hlife⟩ := hlife
  simp only [Bool.and_eq_true, decide_eq_true_eq, beq_iff_eq] at hlife
  have hnew : leaf.IsNew := by
    cases hchild : (Leaf.child (network 100 0 50) ∅ openSecond.combination {}).2 with
    | error fault =>
      rw [hchild] at hleaf
      cases hleaf
    | ok built =>
      rw [hchild] at hleaf
      obtain rfl := Option.some.inj hleaf
      exact .child hchild
  obtain ⟨-, hcount, -, -, hresult⟩ :=
    Leaf.life_cycle hnew [optimization, evaluation, evaluation] optimization
  exact ⟨leaf, hnew, hlife.1.1, ⟨hlife.1.2, hlife.2⟩, hcount,
    hresult.mpr (.inr ⟨hlife.1.2, rfl⟩)⟩

end TwoSwitches

end GridRelief
