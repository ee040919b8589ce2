import GridRelief.Proofs.Actions
import GridRelief.Proofs.Compatibility
import GridRelief.Proofs.Work

/-!
# Actions applied at once

A leaf applies its network actions from scratch, those of the leaf below it and those of a
combination together in the order of their names. On a linear network that comes to the same as
applying the combination on top of the actions below. A linear network accepts a change whatever
other changes have been made, changes of different elements commute, and a change made twice is made
once. So an action of the combination may be moved past all actions below that come after it, and
where it is one of them, it makes no difference the second time.

* `LinearNetwork.applyActions_eq_iff`: when actions are accepted, and what they write then.
* `LinearNetwork.writeAll_comm`, `LinearNetwork.writeAll_self`: compatible changes in another order,
  and twice.
* `LinearNetwork.writeAll_filter`: changes of two kinds, one after the other or mixed.
* `ActionSet.listsBoth_union`: what a union lists, where the sets share names.
* `Leaf.applied_at_once_iff`: actions of two sets, one after the other or in the order of all names.
-/

namespace GridRelief

/-! ### Changes of a linear network -/

namespace LinearNetwork

section Changes

variable {K : Type} {n m : LinearNetwork K} {a b : ElementaryAction K}
  {parts others : List (ElementaryAction K)}

/-- The linear network with some changes. -/
def writeAll (n : LinearNetwork K) (parts : List (ElementaryAction K)) : LinearNetwork K :=
  parts.foldl write n

theorem writeAll_cons : n.writeAll (a :: parts) = (n.write a).writeAll parts :=
  rfl

theorem writeAll_append : n.writeAll (parts ++ others) = (n.writeAll parts).writeAll others :=
  List.foldl_append

/-- A change that is accepted does not change what is accepted. -/
theorem accepts_write_of_accepts (ha : n.accepts a = true) :
    (n.write a).accepts b = n.accepts b := by
  by_cases hne : a.element = b.element
  · cases a <;> cases b <;> simp_all [write, accepts, ElementaryAction.element]
  · exact accepts_write hne

/-- Changes are made if all of them are accepted. -/
theorem foldlM_applyTo?_eq_some_iff :
    parts.foldlM ElementaryAction.applyTo? n = some m ↔
      (∀ part ∈ parts, n.accepts part = true) ∧ n.writeAll parts = m := by
  induction parts generalizing n with
  | nil => simp [writeAll]
  | cons part parts ih =>
    rw [List.foldlM_cons, applyTo?_eq, List.forall_mem_cons, writeAll_cons]
    by_cases haccepts : n.accepts part = true
    · rw [if_pos haccepts]
      show parts.foldlM _ (n.write part) = some m ↔ _
      rw [ih]
      simp only [accepts_write_of_accepts haccepts, haccepts, true_and]
    · simp [haccepts]

/-- Network actions are applied if all their parts are accepted. -/
theorem applyActions_eq_iff [Scalar K] {actions : List (NetworkAction K)} :
    Leaf.applyActions actions n = (m, .ok ()) ↔
      (∀ a ∈ actions, ∀ part ∈ a.parts, n.accepts part = true) ∧
        n.writeAll (actions.flatMap NetworkAction.parts) = m := by
  rw [Leaf.applyActions_eq_iff, foldlM_applyTo?_eq_some_iff]
  simp only [List.forall_mem_flatMap]

/-- What is accepted stays so. -/
theorem accepts_writeAll (h : ∀ part ∈ parts, n.accepts part = true) :
    (n.writeAll parts).accepts b = n.accepts b := by
  induction parts generalizing n with
  | nil => rfl
  | cons part parts ih =>
    obtain ⟨hpart, hparts⟩ := List.forall_mem_cons.mp h
    rw [writeAll_cons, ih, accepts_write_of_accepts hpart]
    intro other hother
    rw [accepts_write_of_accepts hpart]
    exact hparts other hother

/-! ### Compatible changes -/

/-- A change made twice is made once. -/
theorem write_self : (n.write a).write a = n.write a := by
  cases a <;> simp [write, Table.insert_eq_self]

/-- A change commutes with compatible ones. -/
theorem writeAll_write_comm (h : ∀ b ∈ others, a.element ≠ b.element ∨ a = b) :
    (n.write a).writeAll others = (n.writeAll others).write a := by
  induction others generalizing n with
  | nil => rfl
  | cons b others ih =>
    obtain ⟨hb, hothers⟩ := List.forall_mem_cons.mp h
    rw [writeAll_cons, writeAll_cons, ← ih hothers]
    rcases hb with hne | rfl
    · rw [write_comm hne]
    · rfl

/-- Changes commute with compatible ones. -/
theorem writeAll_comm (h : ∀ a ∈ parts, ∀ b ∈ others, a.element ≠ b.element ∨ a = b) :
    (n.writeAll parts).writeAll others = (n.writeAll others).writeAll parts := by
  induction parts generalizing n with
  | nil => rfl
  | cons a parts ih =>
    obtain ⟨ha, hparts⟩ := List.forall_mem_cons.mp h
    rw [writeAll_cons, writeAll_cons, ih hparts, writeAll_write_comm ha]

/-- Compatible changes made twice are made once. -/
theorem writeAll_self (h : ∀ a ∈ parts, ∀ b ∈ parts, a.element ≠ b.element ∨ a = b) :
    (n.writeAll parts).writeAll parts = n.writeAll parts := by
  induction parts generalizing n with
  | nil => rfl
  | cons a parts ih =>
    have hrest : ∀ b ∈ parts, ∀ c ∈ parts, b.element ≠ c.element ∨ b = c := fun b hb c hc =>
      h b (List.mem_cons_of_mem _ hb) c (List.mem_cons_of_mem _ hc)
    have ha : ∀ b ∈ parts, a.element ≠ b.element ∨ a = b := fun b hb =>
      h a List.mem_cons_self b (List.mem_cons_of_mem _ hb)
    rw [writeAll_cons, writeAll_cons, ← writeAll_write_comm ha, write_self, ih hrest]

end Changes

/-! ### Actions of two kinds -/

variable {K : Type} [ExactScalar K] {n m : LinearNetwork K}

/-- The changes of actions of two kinds, each of the second compatible with each of the first: those
of the first kind and then those of the second may be made in the order in which they are listed
together. -/
theorem writeAll_filter (order : List (NetworkAction K)) (p q : NetworkAction K → Bool)
    (hcover : ∀ a ∈ order, p a = true ∨ q a = true)
    (h : ∀ c ∈ order, q c = true → ∀ a ∈ order, p a = true → c.isCompatible a = true) :
    n.writeAll (order.flatMap NetworkAction.parts) =
      (n.writeAll ((order.filter p).flatMap NetworkAction.parts)).writeAll
        ((order.filter q).flatMap NetworkAction.parts) := by
  induction order generalizing n with
  | nil => rfl
  | cons z order ih =>
    obtain ⟨hz, hrest⟩ := List.forall_mem_cons.mp hcover
    have hothers : ∀ c ∈ order, q c = true → ∀ a ∈ order, p a = true → c.isCompatible a = true :=
      fun c hc hq a ha => h c (List.mem_cons_of_mem _ hc) hq a (List.mem_cons_of_mem _ ha)
    -- an action of the second kind may be moved past those of the first kind that come after it
    have hpast : ∀ k : LinearNetwork K, q z = true →
        (k.writeAll z.parts).writeAll ((order.filter p).flatMap NetworkAction.parts) =
          (k.writeAll ((order.filter p).flatMap NetworkAction.parts)).writeAll z.parts := by
      intro k hq
      apply writeAll_comm
      intro part hpart other hother
      obtain ⟨a, ha, hother⟩ := List.mem_flatMap.mp hother
      obtain ⟨ha, hp⟩ := List.mem_filter.mp ha
      have hcompatible := h z List.mem_cons_self hq a (List.mem_cons_of_mem _ ha) hp
      exact NetworkAction.isCompatible_iff.mp hcompatible part hpart other hother
    rw [List.flatMap_cons, writeAll_append, ih hrest hothers]
    by_cases hp : p z = true <;> by_cases hq : q z = true
    · -- an action of both kinds makes no difference the second time
      have hself := h z List.mem_cons_self hq z List.mem_cons_self hp
      rw [List.filter_cons_of_pos hp, List.filter_cons_of_pos hq, List.flatMap_cons,
        List.flatMap_cons, writeAll_append, writeAll_append, ← hpast _ hq,
        writeAll_self (NetworkAction.isCompatible_iff.mp hself)]
    · rw [List.filter_cons_of_pos hp, List.filter_cons_of_neg hq, List.flatMap_cons,
        writeAll_append]
    · rw [List.filter_cons_of_neg hp, List.filter_cons_of_pos hq, List.flatMap_cons,
        writeAll_append, hpast n hq]
    · exact absurd hz (by simp [hp, hq])

end LinearNetwork

/-! ### Two sets of actions -/

namespace ActionSet

variable {K : Type} {first second : ActionSet K}

/-- The actions of a set are in the order of their names. -/
theorem pairwise_actions (set : ActionSet K) :
    set.actions.Pairwise fun a b => (compare a.id b.id).isLE = true := by
  unfold actions
  rw [List.pairwise_map]
  refine (Std.ExtTreeMap.ordered_keys_toList (t := set.table)).imp_of_mem ?_
  rintro ⟨id, a⟩ ⟨other, b⟩ ha hb hlt
  have hid := set.named id a (Std.ExtTreeMap.mem_toList_iff_getElem?_eq_some.mp ha)
  have hother := set.named other b (Std.ExtTreeMap.mem_toList_iff_getElem?_eq_some.mp hb)
  show (compare a.id b.id).isLE = true
  rw [hid, hother, hlt]
  rfl

/-- A list of the actions of two sets, each once, in the order of their names. -/
structure ListsBoth (first second : ActionSet K) (order : List (NetworkAction K)) : Prop where
  sorted : order.Pairwise fun a b => (compare a.id b.id).isLE = true
  nodup : order.Nodup
  mem_iff : ∀ a, a ∈ order ↔ a ∈ first.actions ∨ a ∈ second.actions

/-- The actions of the first set that have no namesake in the second one. -/
def without (first second : ActionSet K) : ActionSet K :=
  ofList (first.actions.filter fun a => !second.contains a.id)

theorem mem_actions_without {a : NetworkAction K} :
    a ∈ (first.without second).actions ↔ a ∈ first.actions ∧ second.contains a.id = false := by
  unfold without ofList
  rw [mem_actions_foldl_insert, actions_empty, List.mem_filter, Bool.not_eq_true']
  · simp
  · intro b hb c hc hid
    exact eq_of_id_eq (List.mem_filter.mp hb).1 (List.mem_filter.mp hc).1 hid

/-- The union of two sets lists the actions of the second one and those of the first one that none
of them takes the place of. -/
theorem listsBoth_union (first second : ActionSet K) :
    (first.without second).ListsBoth second (first.union second).actions := by
  refine ⟨pairwise_actions _, nodup_actions _, fun a => ?_⟩
  rw [mem_actions_union, mem_actions_without, or_comm]

/-- The union of two sets lists the actions of both, if those of one name are the same. -/
theorem listsBoth_union_of_eq
    (hids : ∀ a ∈ first.actions, ∀ c ∈ second.actions, a.id = c.id → a = c) :
    first.ListsBoth second (first.union second).actions := by
  refine ⟨pairwise_actions _, nodup_actions _, fun a => ?_⟩
  rw [(listsBoth_union first second).mem_iff, mem_actions_without]
  constructor
  · rintro (⟨hfirst, -⟩ | hsecond)
    · exact .inl hfirst
    · exact .inr hsecond
  · rintro (hfirst | hsecond)
    · by_cases hcontains : second.contains a.id = true
      · obtain ⟨c, hc, hid⟩ := contains_iff.mp hcontains
        rw [hids a hfirst c hc hid.symm]
        exact .inr hc
      · exact .inl ⟨hfirst, Bool.eq_false_iff.mpr hcontains⟩
    · exact .inr hsecond

/-- Those of the listed actions that are in a set are its actions as it lists them. -/
theorem filter_eq_actions {set : ActionSet K} {order : List (NetworkAction K)}
    {p : NetworkAction K → Bool}
    (hsorted : order.Pairwise fun a b => (compare a.id b.id).isLE = true) (hnodup : order.Nodup)
    (hp : ∀ a, p a = true ↔ a ∈ set.actions) (hmem : ∀ a ∈ set.actions, a ∈ order) :
    order.filter p = set.actions := by
  have hfilter : ∀ a, a ∈ order.filter p ↔ a ∈ set.actions := by
    intro a
    rw [List.mem_filter, hp]
    exact ⟨And.right, fun ha => ⟨hmem a ha, ha⟩⟩
  refine List.Perm.eq_of_pairwise ?_ (hsorted.filter p) (pairwise_actions set) ?_
  · intro a b ha hb hle hge
    apply eq_of_id_eq ((hfilter a).mp ha) hb
    exact Std.LawfulEqOrd.compare_eq_iff_eq.mp (Std.OrientedCmp.isLE_antisymm hle hge)
  · rw [List.perm_ext_iff_of_nodup (hnodup.filter p) (nodup_actions set)]
    exact hfilter

end ActionSet

namespace Leaf

variable {K : Type} [ExactScalar K] {n m : LinearNetwork K} {first second : ActionSet K}

/-- Actions of two sets, in the order of all names, come to the same as those of the first set and
then those of the second one, if each of the second is compatible with each of the first. -/
theorem applyActions_listsBoth_iff (h : ∀ c ∈ second.actions, ∀ a ∈ first.actions,
    c.isCompatible a = true) {order : List (NetworkAction K)}
    (horder : first.ListsBoth second order) :
    applyActions order n = (m, .ok ()) ↔ ∃ k, applyActions first.actions n = (k, .ok ()) ∧
      applyActions second.actions k = (m, .ok ()) := by
  classical
  have hfirst : order.filter (fun a => decide (a ∈ first.actions)) = first.actions :=
    ActionSet.filter_eq_actions horder.sorted horder.nodup (fun a => decide_eq_true_iff)
      fun a ha => (horder.mem_iff a).mpr (.inl ha)
  have hsecond : order.filter (fun a => decide (a ∈ second.actions)) = second.actions :=
    ActionSet.filter_eq_actions horder.sorted horder.nodup (fun a => decide_eq_true_iff)
      fun a ha => (horder.mem_iff a).mpr (.inr ha)
  have hwritten := n.writeAll_filter order (fun a => decide (a ∈ first.actions))
    (fun a => decide (a ∈ second.actions)) (by simpa using fun a ha => (horder.mem_iff a).mp ha)
    (by simpa using fun c _ hc a _ ha => h c hc a ha)
  rw [hfirst, hsecond] at hwritten
  simp only [LinearNetwork.applyActions_eq_iff]
  -- the second set finds accepted what it would without the first one
  have hsame : (∀ a ∈ first.actions, ∀ part ∈ a.parts, n.accepts part = true) → ∀ part,
      (n.writeAll (first.actions.flatMap NetworkAction.parts)).accepts part = n.accepts part := by
    intro haccepts part
    apply LinearNetwork.accepts_writeAll
    rwa [List.forall_mem_flatMap]
  constructor
  · rintro ⟨haccepts, rfl⟩
    have hbelow : ∀ a ∈ first.actions, ∀ part ∈ a.parts, n.accepts part = true := fun a ha =>
      haccepts a ((horder.mem_iff a).mpr (.inl ha))
    refine ⟨_, ⟨hbelow, rfl⟩, fun a ha part hpart => ?_, hwritten.symm⟩
    rw [hsame hbelow]
    exact haccepts a ((horder.mem_iff a).mpr (.inr ha)) part hpart
  · rintro ⟨_, ⟨hbelow, rfl⟩, hothers, rfl⟩
    refine ⟨fun a ha part hpart => ?_, hwritten⟩
    rcases (horder.mem_iff a).mp ha with hfirst | hsecond
    · exact hbelow a hfirst part hpart
    · rw [← hsame hbelow]
      exact hothers a hsecond part hpart

omit [ExactScalar K] in
/-- The leaf on top of another one is there if all actions are applied, and has the network that
they lead to. -/
theorem exists_child_iff {below : ActionSet K} {c : Combination K} {start : Activation K} :
    (∃ leaf, child n below c start = (m, .ok leaf) ∧ leaf.network = m) ↔
      applyActions (below.union c.actions).actions n = (m, .ok ()) := by
  unfold child
  rcases hfound : applyActions (below.union c.actions).actions n with ⟨k, answer⟩
  simp only [hfound]
  cases answer with
  | ok _ =>
    constructor
    · rintro ⟨leaf, hleaf, -⟩
      rw [(Prod.mk.inj hleaf).1]
    · intro hk
      obtain ⟨rfl, -⟩ := Prod.mk.inj hk
      exact ⟨_, rfl, rfl⟩
  | error fault =>
    constructor
    · rintro ⟨leaf, hleaf, -⟩
      cases (Prod.mk.inj hleaf).2
    · intro hk
      cases (Prod.mk.inj hk).2

/-- When each action of a combination is compatible with each action below, applying all of them to
a linear network in the order of their names succeeds if and only if applying the actions below does
and then the combination, and leads to the same network. It is so for every list of the actions of
both in that order, and for the leaf of both, if different ones do not share a name. Where different
ones do, the one of the combination stays: the leaf is what the actions below that have no namesake
in the combination lead to, and then the combination. -/
theorem applied_at_once_iff {below : ActionSet K} {c : Combination K}
    (h : ∀ b ∈ c.actions.actions, ∀ a ∈ below.actions, b.isCompatible a = true)
    (n : LinearNetwork K) :
    (∀ order, below.ListsBoth c.actions order → ∀ m, applyActions order n = (m, .ok ()) ↔
      ∃ k, applyActions below.actions n = (k, .ok ()) ∧
        applyActions c.actions.actions k = (m, .ok ())) ∧
    ((∀ a ∈ below.actions, ∀ b ∈ c.actions.actions, a.id = b.id → a = b) → ∀ start m,
      (∃ leaf, child n below c start = (m, .ok leaf) ∧ leaf.network = m) ↔
        ∃ k, applyActions below.actions n = (k, .ok ()) ∧
          applyActions c.actions.actions k = (m, .ok ())) ∧
    ∀ start m, (∃ leaf, child n below c start = (m, .ok leaf) ∧ leaf.network = m) ↔
      ∃ k, applyActions (below.without c.actions).actions n = (k, .ok ()) ∧
        applyActions c.actions.actions k = (m, .ok ()) := by
  have hwithout : ∀ b ∈ c.actions.actions, ∀ a ∈ (below.without c.actions).actions,
      b.isCompatible a = true := fun b hb a ha => h b hb a (ActionSet.mem_actions_without.mp ha).1
  refine ⟨fun order horder m => applyActions_listsBoth_iff h horder, fun hids start m => ?_,
    fun start m => ?_⟩
  · rw [exists_child_iff]
    exact applyActions_listsBoth_iff h (ActionSet.listsBoth_union_of_eq hids)
  · rw [exists_child_iff]
    exact applyActions_listsBoth_iff hwithout (ActionSet.listsBoth_union below c.actions)

end Leaf

/-! ### Names that interleave -/

namespace Interleaved

/-- A grid with two switches and an injection. -/
def grid : LinearNetwork ℚ :=
  ({ id := "grid" } : LinearNetwork ℚ)
    |>.withSwitchable "first"
    |>.withSwitchable "second"
    |>.withInjection "unit" 0

/-- Open the first switch. -/
def openFirst : NetworkAction ℚ := { id := "a", parts := [.topology "first" false] }

/-- Open the first switch and set the injection, first to one value and then to another. -/
def openAndSet : NetworkAction ℚ :=
  { id := "m", parts := [.topology "first" false, .injectionSetpoint "unit" 5,
      .injectionSetpoint "unit" 7] }

/-- Open the second switch. -/
def openSecond : NetworkAction ℚ := { id := "z", parts := [.topology "second" false] }

/-- The actions below. -/
def below : ActionSet ℚ := .ofList [openAndSet, openSecond]

/-- The actions on top of them: one comes before them, the other is one of them. -/
def onTop : Combination ℚ := .ofList [openFirst, openSecond] .predefined

theorem eq_of_id_eq_across :
    ∀ a ∈ below.actions, ∀ b ∈ onTop.actions.actions, a.id = b.id → a = b := by
  intro a ha b hb hid
  have hbelow : a = openSecond ∨ a ∈ (ActionSet.ofList [openAndSet]).actions ∧ _ :=
    ActionSet.mem_actions_insert.mp ha
  have honTop : b = openSecond ∨ b ∈ (ActionSet.ofList [openFirst]).actions ∧ _ :=
    ActionSet.mem_actions_insert.mp hb
  rw [ActionSet.actions_ofList_singleton, List.mem_singleton] at hbelow honTop
  rcases hbelow with rfl | ⟨rfl, -⟩ <;> rcases honTop with rfl | ⟨rfl, -⟩
  · rfl
  · exact absurd hid (by decide)
  · exact absurd hid (by decide)
  · exact absurd hid (by decide)

/-- Each action on top is compatible with each one below, though one of those is not compatible with
itself. -/
theorem applied_at_once_interleaved :
    (∀ b ∈ onTop.actions.actions, ∀ a ∈ below.actions, b.isCompatible a = true) ∧
      ¬below.IsCompatible ∧
      ∃ m leaf, Leaf.child grid below onTop (.ofReference ⟨∅⟩) = (m, .ok leaf) ∧
        leaf.network = m ∧ (below.union onTop.actions).ids = ["a", "m", "z"] ∧
        m.setpoints.toList = [("unit", 7)] ∧
        m.connected.toList = [("first", false), ("second", false)] := by
  have hcompatible : ∀ b ∈ onTop.actions.actions, ∀ a ∈ below.actions,
      b.isCompatible a = true := by decide +kernel
  have htest : (Leaf.applyActions below.actions grid).2.isOk &&
      (Leaf.applyActions onTop.actions.actions (Leaf.applyActions below.actions grid).1).2.isOk &&
      (Leaf.applyActions onTop.actions.actions
        (Leaf.applyActions below.actions grid).1).1.setpoints.toList == [("unit", 7)] &&
      (Leaf.applyActions onTop.actions.actions
        (Leaf.applyActions below.actions grid).1).1.connected.toList ==
          [("first", false), ("second", false)] := by
    decide +kernel
  simp only [Bool.and_eq_true, beq_iff_eq] at htest
  obtain ⟨⟨⟨hbelow, honTop⟩, hunit⟩, hswitches⟩ := htest
  obtain ⟨leaf, hleaf, hnetwork⟩ :=
    ((Leaf.applied_at_once_iff hcompatible grid).2.1 eq_of_id_eq_across (.ofReference ⟨∅⟩) _).mpr
      ⟨_, eq_ok_of_isOk hbelow, eq_ok_of_isOk honTop⟩
  exact ⟨hcompatible, by decide +kernel, _, leaf, hleaf, hnetwork, by decide +kernel, hunit,
    hswitches⟩

end Interleaved

end GridRelief
