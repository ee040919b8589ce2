import GridRelief.Proofs.Formulation.Coverage

/-!
# The problems of a formulation

The problem of a formulation is written once by all parts. Later it is adapted to linearisations
and to rounded set-points and solved, any number of times and in any order. What it holds can be
read off the lists all the way, and what has been written in any case is there all the way.

* `Formulation.Written`: the problems of a formulation.
* `Formulation.Complete`: what each of them holds; `Formulation.Written.complete`.
-/

namespace GridRelief

open LinearProblem Writing

variable {K : Type} [Scalar K]

namespace Formulation

/-- The problems that a formulation is written into: by all parts, and adapted and solved any
number of times. -/
inductive Written (f : Formulation K) : LinearProblem K → Prop
  | fill {point : Linearization K} {u : PUnit} {p : LinearProblem K}
    (h : Succeeds (f.parts.forM (·.fill point)) (.empty f.parameters.optimizer.solver) u p) :
    Written f p
  | refresh {point : Linearization K} {iteration : Nat} {u : PUnit} {p q : LinearProblem K}
    (hp : Written f p) (h : Succeeds (f.parts.forM (·.refresh point iteration)) p u q) :
    Written f q
  | adjust {activation : Activation K} {u : PUnit} {p q : LinearProblem K} (hp : Written f p)
    (h : Succeeds (f.parts.forM (·.adjust activation)) p u q) : Written f q
  | solve {p : LinearProblem K} (hp : Written f p) (solution : Option (List K))
    (status : SolveStatus) : Written f { p with solution, status }

/-- A problem holds nothing but what is listed, and the rows of flows and, unless margins are
relative, the rows and the price of the smallest margin. -/
structure Complete (f : Formulation K) (p : LinearProblem K) : Prop where
  obeys : f.contents.Obeys p p
  flows : ∀ c ∈ f.perimeter.cnecs, ∃ i, p.NamesRow i (.flow c.id)
  margins : f.parameters.objective.kind.isRelative = false →
    ∀ c ∈ f.perimeter.optimizedCnecs, ∀ side, (c.threshold? side).isSome = true →
      ∃ i, p.NamesRow i (.minimumMargin c.id side)
  price : f.parameters.objective.kind.isRelative = false →
    p.objective.Carries p f.Price .minimumMargin
  solver_eq : p.solver = f.parameters.optimizer.solver

variable {f : Formulation K} {p q last : LinearProblem K} {u : PUnit} {point : Linearization K}

/-! ### Writing -/

/-- Set-points and flows come first, and the smallest margin is in between the other parts. -/
theorem exists_parts_margin (f : Formulation K) : ∃ before after,
    f.parts = f.movement.part :: (before ++ (if f.parameters.objective.kind.isRelative then
      f.relativeMargin else f.absoluteMargin) :: after) := by
  unfold parts
  simp only [List.append_assoc, List.singleton_append]
  exact ⟨_, _, rfl⟩

theorem covers_fill (last : LinearProblem K) {parts : List (Part K)}
    (h : ∀ part ∈ parts, part ∈ f.parts) :
    f.contents.Covers last True (parts.forM (·.fill point)) fun _ => True :=
  .repeated fun part hpart => (covers_of_mem_parts (h part hpart)).fill point

/-- Writing the smallest margin ends with its price. -/
theorem carries_of_absoluteMargin_fill (h : Succeeds (f.absoluteMargin.fill point) p u q)
    (hlast : q.Extends (fun _ => True) last) :
    q.objective.Carries last f.Price .minimumMargin := by
  unfold absoluteMargin Margin.absolutePart Margin.writeAbsoluteRows at h
  simp only [succeeds_bind_iff] at h
  obtain ⟨margin, s, hmargin, _, t, hrows, hprice⟩ := h
  have hsq : s.Extends (fun _ => True) q :=
    (Margin.extends_writeRows hrows).trans (extends_setObjective hprice)
  have hnames := (namesVariable_of_addVariable hmargin).of_extends (hsq.trans hlast)
  rw [Writing.setObjective, succeeds_modify_iff] at hprice
  rw [← hprice]
  exact LinearForm.carries_set hnames .margin

/-- Once all parts are written, the problem is complete. -/
theorem complete_of_fill
    (h : Succeeds (f.parts.forM (·.fill point)) (.empty f.parameters.optimizer.solver) u p) :
    f.Complete p := by
  obtain ⟨-, hall⟩ := covers_fill p (fun _ => id) _ u p h
  have hedits := (hall (.refl p) trivial).1
  obtain ⟨before, after, hparts⟩ := f.exists_parts_margin
  have hmem : ∀ part, part ∈ before ∨ part ∈ after → part ∈ f.parts := by
    intro part hpart
    rw [hparts, List.mem_cons, List.mem_append, List.mem_cons]
    tauto
  rw [hparts, succeeds_forM_cons_iff] at h
  obtain ⟨a, hmovement, h⟩ := h
  obtain ⟨b, hbefore, h⟩ := succeeds_forM_append_iff.mp h
  obtain ⟨c, hmargin, hafter⟩ := succeeds_forM_cons_iff.mp h
  obtain ⟨hab, -⟩ := covers_fill p (fun part hpart => hmem part (.inl hpart)) a _ b hbefore
  obtain ⟨hcp, hlater⟩ := covers_fill p (fun part hpart => hmem part (.inr hpart)) c _ p hafter
  have hbp : b.Extends (fun _ => True) p := by
    refine Extends.trans ?_ hcp
    split at hmargin
    · exact Margin.relativePart_extends.fill hmargin
    · exact Margin.absolutePart_extends.fill hmargin
  refine ⟨hedits.obeys (.refl p) (Contents.obeys_empty _), ?_, fun hkind => ?_, fun hkind => ?_,
    hedits.solver_eq⟩
  · exact ((covers_movement_fill _ _ a hmovement).2 (hab.trans hbp) trivial).2
  · rw [hkind] at hmargin
    exact ((covers_absoluteMargin_fill hkind b _ c hmargin).2 hcp trivial).2
  · rw [hkind] at hmargin
    exact (hlater (.refl p) trivial).1.carries (carries_of_absoluteMargin_fill hmargin hcp)

/-! ### Later changes -/

/-- Work that keeps to the lists leaves a complete problem complete. -/
theorem Complete.of_covers {work : Writing K PUnit} (hp : f.Complete p)
    (hwork : f.contents.Covers q True work fun _ => True) (h : Succeeds work p u q) :
    f.Complete q := by
  obtain ⟨hgrows, hall⟩ := hwork p u q h
  have hedits := (hall (.refl q) trivial).1
  refine ⟨hedits.obeys (.refl q) (hp.obeys.of_extends hgrows), fun c hc => ?_,
    fun hkind c hc side hside => ?_, fun hkind => ?_, hedits.solver_eq.trans hp.solver_eq⟩
  · obtain ⟨i, hi⟩ := hp.flows c hc
    exact ⟨i, hi.of_extends hgrows⟩
  · obtain ⟨i, hi⟩ := hp.margins hkind c hc side hside
    exact ⟨i, hi.of_extends hgrows⟩
  · exact hedits.carries ((hp.price hkind).of_extends hgrows)

/-- A solve changes neither variables nor rows. -/
theorem Complete.solve (hp : f.Complete p) (solution : Option (List K)) (status : SolveStatus) :
    f.Complete { p with solution, status } := by
  have hgrows : p.Extends (fun _ => True) { p with solution, status } := .of_eq rfl rfl
  have hobeys := hp.obeys.of_extends hgrows
  exact ⟨⟨hobeys.columns, hobeys.nodup, hobeys.rows, hobeys.objective⟩, hp.flows, hp.margins,
    fun hkind => (hp.price hkind).of_extends hgrows, hp.solver_eq⟩

/-- By induction on its history, every problem of a formulation is complete. -/
theorem Written.complete (h : f.Written p) : f.Complete p := by
  induction h with
  | fill h => exact complete_of_fill h
  | refresh _ h ih =>
    exact ih.of_covers (.repeated fun part hpart => (covers_of_mem_parts hpart).refresh _ _) h
  | adjust _ h ih =>
    exact ih.of_covers (.repeated fun part hpart => (covers_of_mem_parts hpart).adjust _) h
  | solve _ solution status ih => exact ih.solve solution status

end Formulation

end GridRelief
