import GridRelief.Proofs.Optimizer.Shown
import GridRelief.Proofs.Search.Finished

/-!
# Set-points that leaves report

A leaf keeps the set-points that it reports apart from its network, and three things write to the
network one after the other: the set-points that the leaf starts from, its network actions, and the
optimisation. A network action may drive what a range action moves. Where none does, the network of
a leaf that is finalized shows the set-points that the leaf reports; if none does anywhere, the
flows that it reports are those on its network.

* `ElementaryAction.Drives`: an action sets what a range action moves.
* `LinearNetwork.agreesAt_of_applyActions`: network actions keep the set-points that they do not
  drive.
* `Leaf.IsAtStart`: what building a leaf establishes and evaluating keeps.
* `Search.IsRegular`: a search whose set-points can be read back.
* `Search.reports_of_finishes`: what a finalized leaf reports, beside what its network has.
-/

namespace GridRelief

variable {K N σ : Type}

/-! ### Network actions and range actions -/

/-- An elementary action sets what a range action moves: the tap of a phase shifter, or the
set-point of another element. -/
def ElementaryAction.Drives (part : ElementaryAction K) (r : RangeAction K) : Prop :=
  match part with
  | .topology _ _ => False
  | .pstSetpoint element _ => r.isPst = true ∧ element = r.element
  | .injectionSetpoint element _ => r.isPst = false ∧ element = r.element

/-- A part of a network action sets what a range action moves. -/
def NetworkAction.Drives (action : NetworkAction K) (r : RangeAction K) : Prop :=
  ∃ part ∈ action.parts, part.Drives r

/-- A network action of a set sets what a range action moves. -/
def ActionSet.Drives (set : ActionSet K) (r : RangeAction K) : Prop :=
  ∃ action ∈ set.actions, action.Drives r

instance (part : ElementaryAction K) (r : RangeAction K) : Decidable (part.Drives r) :=
  match part with
  | .topology _ _ => inferInstanceAs (Decidable False)
  | .pstSetpoint element _ => inferInstanceAs (Decidable (r.isPst = true ∧ element = r.element))
  | .injectionSetpoint element _ =>
    inferInstanceAs (Decidable (r.isPst = false ∧ element = r.element))

instance (action : NetworkAction K) (r : RangeAction K) : Decidable (action.Drives r) :=
  inferInstanceAs (Decidable (∃ part ∈ action.parts, part.Drives r))

instance (set : ActionSet K) (r : RangeAction K) : Decidable (set.Drives r) :=
  inferInstanceAs (Decidable (∃ action ∈ set.actions, action.Drives r))

namespace LinearNetwork

variable {n n' : LinearNetwork K} {r : RangeAction K}

/-- An elementary action keeps what it does not drive. -/
theorem agreesAt_of_applyTo {part : ElementaryAction K} (hr : ¬part.Drives r)
    (h : part.applyTo? n = some n') : AgreesAt r n n' := by
  unfold AgreesAt
  cases part with
  | topology element connect =>
    obtain ⟨table, -, rfl⟩ := Option.map_eq_some_iff.mp h
    split <;> rfl
  | pstSetpoint element tap =>
    obtain ⟨table, -, -, rfl⟩ := setTap?_eq_some_iff.mp h
    split
    · next hpst => exact (Table.getElem?_insert_of_ne fun heq => hr ⟨hpst, heq⟩).symm
    · rfl
  | injectionSetpoint element setpoint =>
    obtain ⟨table, htable, rfl⟩ := Option.map_eq_some_iff.mp h
    obtain ⟨-, rfl⟩ := Table.replace?_eq_some_iff.mp htable
    split
    · rfl
    · next hpst =>
      apply Eq.symm
      apply Table.getElem?_insert_of_ne
      exact fun heq => hr ⟨Bool.eq_false_iff.mpr hpst, heq⟩

theorem agreesAt_of_applyParts {parts : List (ElementaryAction K)}
    (hr : ∀ part ∈ parts, ¬part.Drives r)
    (h : NetworkAction.applyParts parts n = (n', true)) : AgreesAt r n n' := by
  induction parts generalizing n with
  | nil =>
    obtain ⟨rfl, -⟩ := Prod.mk.inj h
    exact .refl r n
  | cons part rest ih =>
    obtain ⟨hpart, hrest⟩ := List.forall_mem_cons.mp hr
    rw [NetworkAction.applyParts] at h
    split at h
    · next changed hchanged => exact (agreesAt_of_applyTo hpart hchanged).trans (ih hrest h)
    · cases h

/-- Network actions keep what they do not drive. -/
theorem agreesAt_of_applyActions {actions : List (NetworkAction K)}
    (hr : ∀ action ∈ actions, ¬action.Drives r)
    (h : Leaf.applyActions actions n = (n', .ok ())) : AgreesAt r n n' := by
  induction actions generalizing n with
  | nil =>
    obtain ⟨rfl, -⟩ := Prod.mk.inj h
    exact .refl r n
  | cons action rest ih =>
    obtain ⟨haction, hrest⟩ := List.forall_mem_cons.mp hr
    rw [Leaf.applyActions] at h
    split at h
    · next changed hchanged =>
      have hparts : ∀ part ∈ action.parts, ¬part.Drives r :=
        fun part hpart hdrives => haction ⟨part, hpart, hdrives⟩
      exact (agreesAt_of_applyParts hparts hchanged).trans (ih hrest h)
    · cases h

end LinearNetwork

/-! ### Situations -/

/-- A situation has been read off its network. -/
def Situation.IsRead [Scalar K] [Network N K] (situation : Situation N K)
    (services : Services N K σ) : Prop :=
  ∃ before after, Succeeds (Situation.read services situation.network situation.perimeter
    situation.objective situation.borders situation.detected) before situation after

/-- The set-points that are read are those that the network shows, each under the name of its range
action. -/
theorem LinearNetwork.shows_of_ofNetwork [Scalar K] {n : LinearNetwork K}
    {rs : List (RangeAction K)} {setpoints : Setpoints K} (hids : (rs.map RangeAction.id).Nodup)
    (h : Setpoints.ofNetwork n rs = .ok setpoints) :
    ∀ r ∈ rs, n.Shows (.ofReference setpoints) r := by
  have hentries : ∀ (rs : List (RangeAction K)) entries,
      rs.mapM (fun r => do return (r.id, ← r.currentSetpoint n)) = Except.ok entries →
        entries.map Prod.fst = rs.map RangeAction.id ∧
          ∀ r ∈ rs, ∃ x, (r.id, x) ∈ entries ∧ r.currentSetpoint n = .ok x := by
    intro rs
    induction rs with
    | nil =>
      rintro entries h
      obtain rfl := Except.ok.inj h
      simp
    | cons r rs ih =>
      intro entries h
      rw [List.mapM_cons] at h
      cases hx : r.currentSetpoint n with
      | error fault =>
        rw [hx] at h
        cases h
      | ok x =>
        rw [hx] at h
        cases hrest : rs.mapM (fun r => do return (r.id, ← r.currentSetpoint n)) with
        | error fault =>
          rw [hrest] at h
          cases h
        | ok rest =>
          rw [hrest] at h
          obtain rfl := Except.ok.inj h
          obtain ⟨hnames, hread⟩ := ih rest hrest
          refine ⟨by simp [hnames], List.forall_mem_cons.mpr ⟨⟨x, by simp, hx⟩, ?_⟩⟩
          intro other hother
          obtain ⟨y, hy, hcurrent⟩ := hread other hother
          exact ⟨y, List.mem_cons_of_mem _ hy, hcurrent⟩
  unfold Setpoints.ofNetwork at h
  cases hread : rs.mapM (fun r => do return (r.id, ← r.currentSetpoint n)) with
  | error fault =>
    rw [hread] at h
    cases h
  | ok entries =>
    rw [hread] at h
    obtain rfl := Except.ok.inj h
    obtain ⟨hnames, hread⟩ := hentries rs entries hread
    intro r hr
    obtain ⟨x, hx, hcurrent⟩ := hread r hr
    refine ⟨x, ?_, hcurrent⟩
    rw [Activation.get_ofReference, Setpoints.get_eq_ok_iff]
    exact Table.getElem?_ofPairs (hnames ▸ hids) hx

namespace Situation.IsRead

variable [Scalar K] {situation : Situation (LinearNetwork K) K}
  {services : Services (LinearNetwork K) K σ} (h : situation.IsRead services)
include h

/-- The set-points and the flows of a situation that has been read are those of its network. -/
theorem eq : Setpoints.ofNetwork situation.network situation.perimeter.rangeActions =
      .ok situation.setpoints ∧
    ∃ state, (services.compute situation.network state).1 = situation.outcome := by
  obtain ⟨before, after, hread⟩ := h
  unfold Situation.read at hread
  simp only [succeeds_bind_iff, succeeds_ofExcept_iff, succeeds_pure_iff] at hread
  obtain ⟨setpoints, _, ⟨hsetpoints, rfl⟩, outcome, _, hcompute, heq, -⟩ := hread
  have houtcome : (services.compute situation.network before).1 = outcome :=
    Except.ok.inj (Prod.mk.inj hcompute).1
  constructor
  · rw [hsetpoints, ← heq]
  · refine ⟨before, houtcome.trans ?_⟩
    rw [← heq]

/-- The network of a situation that has been read shows its set-points. -/
theorem shows (hids : (situation.perimeter.rangeActions.map RangeAction.id).Nodup) :
    ∀ r ∈ situation.perimeter.rangeActions, situation.network.Shows situation.unmoved r :=
  LinearNetwork.shows_of_ofNetwork hids h.eq.1

end Situation.IsRead

/-! ### Leaves -/

/-- What a leaf reports, beside what its network has: the set-points that none of its network
actions drives, and the flows if they drive none. -/
structure Leaf.Reports (services : Services (LinearNetwork K) K σ) (rs : List (RangeAction K))
    (leaf : Leaf (LinearNetwork K) K) (point : Linearization K) : Prop where
  shows : ∀ r ∈ rs, ¬leaf.applied.Drives r → leaf.network.Shows point.activation r
  computed : (∀ r ∈ rs, ¬leaf.applied.Drives r) →
    ∃ state, (services.compute leaf.network state).1 = ⟨point.flows, point.sensitivities⟩

/-- A leaf whose optimisation has not ended. Its network shows the set-points that it starts from
where none of its network actions drives them, and its flows are those on the network. -/
structure Leaf.IsAtStart (services : Services (LinearNetwork K) K σ) (rs : List (RangeAction K))
    (leaf : Leaf (LinearNetwork K) K) : Prop where
  status : leaf.status ≠ .optimized
  onTaps : leaf.start.OnTaps rs
  shows : ∀ r ∈ rs, ¬leaf.applied.Drives r → leaf.network.Shows leaf.start r
  computed : ∀ outcome cost, leaf.phase = .evaluated outcome cost →
    ∃ state, (services.compute leaf.network state).1 = outcome

namespace Leaf.IsAtStart

variable {services : Services (LinearNetwork K) K σ} {rs : List (RangeAction K)}
  {leaf : Leaf (LinearNetwork K) K} {result : LeafResult K}

/-- What such a leaf reports is what its network has. -/
theorem reports (h : leaf.IsAtStart services rs) (hresult : leaf.result = .ok result) :
    leaf.Reports services rs result.point := by
  unfold Leaf.result at hresult
  split at hresult
  · next outcome cost hphase =>
    obtain rfl := Except.ok.inj hresult
    exact ⟨h.shows, fun _ => h.computed outcome _ hphase⟩
  · cases hresult
  · next hphase =>
    have hstatus : leaf.status = .optimized := congrArg LeafPhase.status hphase
    exact absurd hstatus h.status
  · cases hresult
  · cases hresult

/-- Evaluating a leaf leaves its network and its set-points alone. -/
theorem evaluate (h : leaf.IsAtStart services rs) (objective : Objective K) (state : σ) :
    (leaf.evaluate services objective state).1.IsAtStart services rs := by
  cases hphase : leaf.phase with
  | created =>
    rw [evaluate_of_created services objective hphase]
    by_cases hfailed : (services.compute leaf.network state).1.status = .failure
    · rw [if_pos hfailed]
      exact ⟨nofun, h.onTaps, h.shows, nofun⟩
    · rw [if_neg hfailed]
      refine ⟨nofun, h.onTaps, h.shows, fun outcome cost heq => ?_⟩
      obtain ⟨rfl, -⟩ := LeafPhase.evaluated.inj heq
      exact ⟨state, rfl⟩
  | evaluated outcome cost =>
    rw [evaluate_of_evaluated services objective hphase]
    refine ⟨nofun, h.onTaps, h.shows, fun other price heq => ?_⟩
    obtain ⟨rfl, -⟩ := LeafPhase.evaluated.inj heq
    exact h.computed outcome cost hphase
  | optimized outcome result =>
    have hstatus : leaf.status = .optimized := congrArg LeafPhase.status hphase
    exact absurd hstatus h.status
  | failed =>
    unfold Leaf.evaluate
    rw [hphase]
    exact h

end Leaf.IsAtStart

variable [ExactScalar K]

/-- A search on a situation that has been read, whose range actions have names and elements of their
own, and whose phase shifters have no two taps at one angle. -/
structure Search.IsRegular (s : Search (LinearNetwork K) K)
    (services : Services (LinearNetwork K) K σ) : Prop where
  read : s.situation.IsRead services
  ids : (s.situation.perimeter.rangeActions.map RangeAction.id).Nodup
  elements : (s.situation.perimeter.rangeActions.map RangeAction.element).Nodup
  injective : ∀ r ∈ s.situation.perimeter.rangeActions, r.HasInjectiveTaps

section Finalized

variable {s : Search (LinearNetwork K) K} {services : Services (LinearNetwork K) K σ}
  {leaf : Leaf (LinearNetwork K) K} {result : LeafResult K} (hs : s.IsRegular services)
include hs

namespace Search.IsRegular

/-- The set-points before any action are such as the range actions can have. -/
theorem onTaps_unmoved : s.situation.unmoved.OnTaps s.situation.perimeter.rangeActions :=
  LinearNetwork.onTaps_of_shows (hs.read.shows hs.ids)

/-- The set-points that an optimisation finds are such as the range actions can have. -/
theorem onTaps_of_optimize (hstart : leaf.start.OnTaps s.situation.perimeter.rangeActions)
    {outcome : Outcome K} {before after : Session (LinearNetwork K) σ} {result : Optimized K}
    (h : Succeeds ((leaf.optimizer s.situation s.parameters outcome).optimize services) before
      result after) : result.point.activation.OnTaps s.situation.perimeter.rangeActions :=
  Optimizer.onTaps_of_optimize (o := leaf.optimizer s.situation s.parameters outcome) hs.ids
    hs.onTaps_unmoved hstart h

/-- A leaf on top of one with such set-points starts from such set-points. -/
theorem onTaps_of_build {parent : Leaf (LinearNetwork K) K} {task : Task K} {depth : Nat}
    (hparent : parent.HasSetpoints fun a => a.OnTaps s.situation.perimeter.rangeActions)
    (htask : task ∈ s.tasks depth parent.finalize) (hbuild : s.build task = .ok leaf) :
    leaf.start.OnTaps s.situation.perimeter.rangeActions := by
  obtain ⟨_, hstart, -⟩ := exists_moved_of_build hbuild
  unfold startOf at hstart
  split at hstart
  · rw [← Except.ok.inj hstart]
    exact hs.onTaps_unmoved
  · obtain ⟨-, hprevious, below, htries⟩ := tries_of_mem_tasks htask
    have hresult := htries.result_eq
    unfold FinalizedLeaf.result at hstart
    rw [hresult] at hstart
    rw [← Except.ok.inj hstart]
    rw [hprevious, Leaf.result?_finalize] at hresult
    exact hparent.result hresult

/-- All set-points of leaves are such as the range actions can have. -/
theorem inherits : s.Inherits services fun _ leaf =>
    leaf.HasSetpoints fun a => a.OnTaps s.situation.perimeter.rangeActions := by
  constructor
  · refine ⟨hs.onTaps_unmoved, fun outcome result hphase => ?_⟩
    change (if _ then LeafPhase.failed else LeafPhase.evaluated _ _) = _ at hphase
    split at hphase <;> cases hphase
  · intro depth parent leaf task hparent htask hbuild
    refine ⟨hs.onTaps_of_build hparent htask hbuild, fun outcome result hphase => ?_⟩
    rw [phase_build hbuild] at hphase
    cases hphase
  · intro depth leaf state hleaf
    exact hleaf.evaluate services s.situation.objective state
  · intro depth leaf state hleaf
    apply hleaf.optimize
    intro outcome before result after hfound
    exact hs.onTaps_of_optimize hleaf.start hfound

/-- The root is at its start. -/
theorem isAtStart_root :
    (Leaf.root s.situation).IsAtStart services s.situation.perimeter.rangeActions := by
  refine ⟨?_, hs.onTaps_unmoved, fun r hr _ => hs.read.shows hs.ids r hr, ?_⟩
  · unfold Leaf.status Leaf.root
    dsimp only
    split <;> nofun
  · intro outcome cost hphase
    change (if _ then LeafPhase.failed else LeafPhase.evaluated _ _) = _ at hphase
    split at hphase
    · cases hphase
    · obtain ⟨rfl, -⟩ := LeafPhase.evaluated.inj hphase
      exact hs.read.eq.2

/-- A leaf that has just been built is at its start: its network actions have been applied after
its set-points, and keep those that they do not drive. -/
theorem isAtStart_of_build {task : Task K} (hbuild : s.build task = .ok leaf)
    (hstart : leaf.start.OnTaps s.situation.perimeter.rangeActions) :
    leaf.IsAtStart services s.situation.perimeter.rangeActions := by
  obtain ⟨moved, -, hmoved, -, hactions, hphase⟩ := exists_moved_of_build hbuild
  refine ⟨?_, hstart, fun r hr hdrives => ?_, fun outcome cost hevaluated => ?_⟩
  · unfold Leaf.status
    rw [hphase]
    nofun
  · have hkept : ∀ action ∈ leaf.applied.actions, ¬action.Drives r :=
      fun action haction hdriven => hdrives ⟨action, haction, hdriven⟩
    apply (LinearNetwork.agreesAt_of_applyActions hkept hactions).shows
    exact LinearNetwork.shows_of_applyAll hs.elements hstart hmoved r hr
  · rw [hphase] at hevaluated
    cases hevaluated

end Search.IsRegular

namespace Leaf.IsAtStart

variable (h : leaf.IsAtStart services s.situation.perimeter.rangeActions)
include h

/-- After an optimisation that has ended without a fault, a leaf reports what its network has. -/
theorem reports_of_optimizeFrom {outcome : Outcome K} {cost : Option (Cost K)} {state : σ}
    (hphase : leaf.phase = .evaluated outcome cost)
    (hanswer : (leaf.optimizeFrom services s.situation s.parameters outcome state).1.2 = .ok ())
    (hresult : (leaf.optimizeFrom services s.situation s.parameters outcome state).1.1.result =
      .ok result) :
    (leaf.optimizeFrom services s.situation s.parameters outcome state).1.1.Reports services
      s.situation.perimeter.rangeActions result.point := by
  rcases Leaf.optimizeFrom_eq services s.situation s.parameters outcome leaf state with
    heq | ⟨found, session, hfound, heq⟩ | ⟨network, fault, heq⟩
  · rw [heq] at hresult ⊢
    exact h.reports hresult
  · rw [heq] at hresult ⊢
    obtain rfl := Except.ok.inj hresult
    have hrests := Optimizer.rests_of_optimize hfound
    constructor
    · intro r hr hdrives
      have honTaps := hs.onTaps_of_optimize h.onTaps hfound
      exact hrests.shows hs.elements honTaps hr (h.shows r hr hdrives)
    · intro hnone
      apply hrests.computed hs.injective
      · intro r hr
        exact h.shows r hr (hnone r hr)
      · exact h.computed outcome cost hphase
  · rw [heq] at hanswer
    cases hanswer

theorem reports_of_optimize {state : σ}
    (hanswer : (leaf.optimize services s.situation s.parameters state).1.2 = .ok ())
    (hresult : (leaf.optimize services s.situation s.parameters state).1.1.result = .ok result) :
    (leaf.optimize services s.situation s.parameters state).1.1.Reports services
      s.situation.perimeter.rangeActions result.point := by
  have hstatus := h.status
  unfold Leaf.status at hstatus
  unfold Leaf.optimize at hanswer hresult ⊢
  cases hphase : leaf.phase with
  | created =>
    rw [hphase] at hanswer
    cases hanswer
  | failed =>
    rw [hphase] at hanswer
    cases hanswer
  | evaluated outcome cost =>
    rw [hphase] at hanswer hresult
    exact h.reports_of_optimizeFrom hs hphase hanswer hresult
  | optimized outcome found =>
    rw [hphase] at hstatus
    exact absurd rfl hstatus

end Leaf.IsAtStart

/-- A leaf that the next step of a task finalizes reports what its network has. -/
theorem TaskPhase.Holds.reports {phase : TaskPhase (LinearNetwork K) K} {now : σ}
    {R : FinalizedLeaf K → Prop}
    (h : phase.Holds (Leaf.IsAtStart services s.situation.perimeter.rangeActions) R)
    (hleaf : phase.finishing? s services now = some (leaf, .ok ()))
    (hresult : leaf.result = .ok result) :
    leaf.Reports services s.situation.perimeter.rangeActions result.point := by
  cases phase with
  | confirmed built =>
    obtain ⟨rfl, -⟩ := Prod.mk.inj (Option.some.inj hleaf)
    exact (Leaf.IsAtStart.evaluate h s.situation.objective now).reports hresult
  | evaluated built =>
    obtain ⟨rfl, -⟩ := Prod.mk.inj (Option.some.inj hleaf)
    exact Leaf.IsAtStart.reports h hresult
  | cleared built =>
    obtain ⟨rfl, hanswer⟩ := Prod.ext_iff.mp (Option.some.inj hleaf)
    exact Leaf.IsAtStart.reports_of_optimize hs h hanswer hresult
  | queued | opened | admitted | built _ | finished _ | done => cases hleaf

/-- The root reports what its network has. -/
theorem Search.IsRegular.reports_root {state : σ}
    (hanswer : (s.finishingRoot services state).1.2 = .ok ())
    (hresult : (s.finishingRoot services state).1.1.result = .ok result) :
    (s.finishingRoot services state).1.1.Reports services s.situation.perimeter.rangeActions
      result.point := by
  have hstart := hs.isAtStart_root.evaluate s.situation.objective state
  unfold finishingRoot at hanswer hresult ⊢
  rcases hevaluate : (Leaf.root s.situation).evaluate services s.situation.objective state
    with ⟨root, after⟩
  rw [hevaluate] at hstart
  simp only [bind, StateT.bind, hevaluate] at hanswer hresult ⊢
  by_cases hends : (root.status = .failed || s.stopsAt root) = true
  · rw [if_pos hends] at hresult ⊢
    exact hstart.reports hresult
  · rw [if_neg hends] at hanswer hresult ⊢
    exact hstart.reports_of_optimize hs hanswer hresult

end Finalized

/-- When a leaf is finalized whose optimisation has not ended with a fault, its network shows the
set-point that the leaf reports for every range action that none of its network actions drives. If
they drive none, the flows that it reports are those on its network. -/
theorem Search.reports_of_finishes {s : Search (LinearNetwork K) K}
    {services : Services (LinearNetwork K) K σ} {leaf : Leaf (LinearNetwork K) K}
    {result : LeafResult K} (hs : s.IsRegular services) (h : s.Finishes services leaf (.ok ()))
    (hresult : leaf.result = .ok result) :
    (∀ r ∈ s.situation.perimeter.rangeActions, ¬leaf.applied.Drives r →
      ∃ x, result.point.activation.get r.id = .ok x ∧ r.currentSetpoint leaf.network = .ok x) ∧
    ((∀ r ∈ s.situation.perimeter.rangeActions, ¬leaf.applied.Drives r) → ∃ state,
      (services.compute leaf.network state).1 =
        ⟨result.point.flows, result.point.sensitivities⟩) := by
  suffices hreports : leaf.Reports services s.situation.perimeter.rangeActions result.point by
    exact ⟨hreports.shows, hreports.computed⟩
  generalize hanswer : (.ok () : Except (Fault K) Unit) = answer at h
  cases h with
  | root state => exact hs.reports_root hanswer.symm hresult
  | task hcrew hjob hleaf =>
    subst hanswer
    obtain ⟨parent, hparent, htask⟩ := ((hs.inherits.tendsAll hcrew).jobs _ hjob).parent
    refine TaskPhase.Holds.reports hs (hcrew.holds_of_build hjob ?_ ?_) hleaf hresult
    · intro built hbuild
      exact hs.isAtStart_of_build hbuild (hs.onTaps_of_build hparent htask hbuild)
    · intro built state hbuilt
      exact hbuilt.evaluate s.situation.objective state

/-! ### An action beside a shift -/

namespace OneShift

/-- The search from a set-point of zero with a network action, on the grid with a switch whose
opening takes 100 MW off the line. -/
def actingSearch (action : NetworkAction ℚ) : Search (LinearNetwork ℚ) ℚ :=
  let grid := network 0
    |>.withSwitchable "switch"
    |>.withOpeningEffect "switch" "line" (-100)
  { search 0 {} with
    situation.network := grid
    situation.outcome := computer.compute grid
    situation.perimeter := .ofLists .preventive [TwoSwitches.line] [action] [shift] }

/-- The network action that sets the injection to a value. -/
def setUnit (setpoint : ℚ) : NetworkAction ℚ :=
  { id := "set-unit", parts := [.injectionSetpoint "unit" setpoint] }

/-- The turns of one depth that bring its only task to the step that optimises its leaf. -/
def turns : List (List (Turn Unit)) := [List.replicate 6 ⟨0, ()⟩]

theorem isRegular_actingSearch (action : NetworkAction ℚ) (values : List ℚ) :
    (actingSearch action).IsRegular (proposing values) := by
  refine ⟨⟨(), (), rfl⟩, List.nodup_singleton _, List.nodup_singleton _, ?_⟩
  intro r hr taps htaps
  obtain rfl : r = shift := List.mem_singleton.mp hr
  cases htaps

/-- When the switch is open and the injection has been shifted, the leaf reports what its network
has. -/
theorem reports_of_open_switch :
    let s := actingSearch (TwoSwitches.opening "switch")
    let services := proposing [-15, 15, 397, 403]
    ∃ leaf result, s.Finishes services leaf (.ok ()) ∧ leaf.result = .ok result ∧
      result.cost.total = -403 ∧ ¬leaf.applied.Drives shift ∧
      (∃ x, result.point.activation.get "shift" = .ok x ∧
        shift.currentSetpoint leaf.network = .ok x) ∧
      ∃ state, (services.compute leaf.network state).1 =
        ⟨result.point.flows, result.point.sensitivities⟩ := by
  intro s services
  obtain ⟨leaf, hleaf, htest⟩ := s.exists_finishes_of_any services
    (fun leaf => !leaf.applied.Drives shift &&
      leaf.result.toOption.any fun result => result.cost.total == -403)
    turns () () (by decide +kernel)
  simp only [Bool.and_eq_true, Bool.not_eq_true', decide_eq_false_iff_not] at htest
  obtain ⟨hdrives, hany⟩ := htest
  obtain ⟨result, hresult, hcost⟩ := exists_ok_of_any hany
  obtain ⟨hshows, hcomputed⟩ := s.reports_of_finishes (isRegular_actingSearch _ _) hleaf hresult
  refine ⟨leaf, result, hleaf, hresult, beq_iff_eq.mp hcost, hdrives, ?_, ?_⟩
  · exact hshows shift List.mem_cons_self hdrives
  · apply hcomputed
    intro r hr
    obtain rfl : r = shift := List.mem_singleton.mp hr
    exact hdrives

/-- A network action that sets the injection after it has been shifted: the leaf reports a set-point
of -15 MW, and its network has one of -20 MW. -/
theorem setpoint_driven_away :
    ¬ ∀ (s : Search (LinearNetwork ℚ) ℚ) (services : Services (LinearNetwork ℚ) ℚ Unit) leaf result,
      s.IsRegular services → s.Finishes services leaf (.ok ()) → leaf.result = .ok result →
        ∀ r ∈ s.situation.perimeter.rangeActions, ∃ x,
          result.point.activation.get r.id = .ok x ∧ r.currentSetpoint leaf.network = .ok x := by
  intro h
  obtain ⟨leaf, hleaf, htest⟩ := (actingSearch (setUnit (-20))).exists_finishes_of_any
    (proposing [-15, 15, 497, 303])
    (fun leaf => (shift.currentSetpoint leaf.network).toOption == some (-20) &&
      leaf.result.toOption.any fun result =>
        (result.point.activation.get "shift").toOption == some (-15))
    turns () () (by decide +kernel)
  obtain ⟨hunit, hany⟩ := Bool.and_eq_true_iff.mp htest
  obtain ⟨result, hresult, hshift⟩ := exists_ok_of_any hany
  obtain ⟨x, hx, hcurrent⟩ := h _ _ leaf result (isRegular_actingSearch _ _) hleaf hresult shift
    List.mem_cons_self
  rw [show result.point.activation.get "shift" = .ok x from hx, beq_iff_eq] at hshift
  rw [hcurrent, beq_iff_eq] at hunit
  have hsame : (-15 : ℚ) = -20 := Option.some.inj (hshift.symm.trans hunit)
  exact absurd hsame (by decide)

end OneShift

end GridRelief
