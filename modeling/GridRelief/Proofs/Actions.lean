import Mathlib.Algebra.Order.BigOperators.Group.List
import Mathlib.Algebra.Order.Monoid.Canonical.Defs
import Mathlib.Algebra.Order.Ring.Nat
import Mathlib.Data.Set.BooleanAlgebra
import Mathlib.Order.CompletePartialOrder
import GridRelief.Action.NetworkAction
import GridRelief.Proofs.Tables

/-!
# Sets of actions

A set of actions lists none twice. So the union of two sets that have no names in common has as
many actions as both together, and the same holds of the actions of an operator and of their
elementary actions.

* `ActionSet.mem_actions_union`: the actions of a union.
* `ActionSet.Apart`: sets that have no names in common.
* `ActionSet.actions_union_perm`: their union has the actions of both, from which
  `ActionSet.size_union`, `ActionSet.countOf_union` and `ActionSet.sizeOf_union` follow.
* `ActionSet.members_ssubset_union`: it has more than one set if the other one has any.
-/

namespace GridRelief

/-! ### Elementary actions -/

namespace NetworkAction

variable {K : Type} {first second : List (NetworkAction K)}

theorem totalSize_eq_sum (actions : List (NetworkAction K)) :
    totalSize actions = (actions.map size).sum := by
  induction actions with
  | nil => rfl
  | cons a actions ih =>
    rw [List.map_cons, List.sum_cons, ← ih]
    rfl

@[simp] theorem totalSize_append :
    totalSize (first ++ second) = totalSize first + totalSize second := by
  simp [totalSize_eq_sum]

theorem totalSize_perm (h : first.Perm second) : totalSize first = totalSize second := by
  rw [totalSize_eq_sum, totalSize_eq_sum, (h.map size).sum_eq]

end NetworkAction

/-! ### Sets of actions -/

namespace ActionSet

variable {K : Type} {first second set : ActionSet K} {a : NetworkAction K}

theorem mem_actions : a ∈ set.actions ↔ set.table[a.id]? = some a := by
  unfold actions
  rw [List.mem_map]
  constructor
  · rintro ⟨⟨id, b⟩, hentry, rfl⟩
    have hget := Std.ExtTreeMap.mem_toList_iff_getElem?_eq_some.mp hentry
    rwa [set.named id b hget]
  · intro hget
    exact ⟨(a.id, a), Std.ExtTreeMap.mem_toList_iff_getElem?_eq_some.mpr hget, rfl⟩

/-- Actions of a set with the same name are the same. -/
theorem eq_of_id_eq {b : NetworkAction K} (ha : a ∈ set.actions) (hb : b ∈ set.actions)
    (h : a.id = b.id) : a = b := by
  rw [mem_actions] at ha hb
  rw [h, hb] at ha
  exact (Option.some.inj ha).symm

/-- Sets with the same actions are the same. -/
theorem ext_actions (h : first.actions = second.actions) : first = second := by
  have hget : ∀ (left right : ActionSet K), left.actions = right.actions →
      ∀ (id : String) (a : NetworkAction K), left.table[id]? = some a →
        right.table[id]? = some a := by
    intro left right hsame id a ha
    obtain rfl := left.named id a ha
    exact mem_actions.mp (hsame ▸ mem_actions.mpr ha)
  have htable : first.table = second.table := by
    refine Std.ExtTreeMap.ext_getElem? fun id => Option.ext fun a => ?_
    exact ⟨hget first second h id a, hget second first h.symm id a⟩
  cases first
  cases second
  cases htable
  rfl

theorem contains_iff {id : String} :
    set.contains id = true ↔ ∃ b ∈ set.actions, b.id = id := by
  unfold contains
  rw [Std.ExtTreeMap.contains_eq_isSome_getElem?, Option.isSome_iff_exists]
  constructor
  · rintro ⟨b, hb⟩
    have hid := set.named id b hb
    exact ⟨b, mem_actions.mpr (hid ▸ hb), hid⟩
  · rintro ⟨b, hb, rfl⟩
    exact ⟨b, mem_actions.mp hb⟩

/-- A set lists no action twice. -/
theorem nodup_actions (set : ActionSet K) : set.actions.Nodup := by
  unfold actions
  refine List.Nodup.map_on ?_ ?_
  · rintro ⟨id, b⟩ hb ⟨id', b'⟩ hb' (rfl : b = b')
    have hid := set.named id b (Std.ExtTreeMap.mem_toList_iff_getElem?_eq_some.mp hb)
    have hid' := set.named id' b (Std.ExtTreeMap.mem_toList_iff_getElem?_eq_some.mp hb')
    rw [← hid, ← hid']
  · refine (Std.ExtTreeMap.distinct_keys_toList (t := set.table)).imp ?_
    rintro a b hne rfl
    exact hne Std.ReflOrd.compare_self

theorem size_eq (set : ActionSet K) : set.size = set.actions.length := by
  rw [size, actions, List.length_map, Std.ExtTreeMap.length_toList]

/-- A set lists no name twice. -/
theorem nodup_ids (set : ActionSet K) : set.ids.Nodup :=
  (nodup_actions set).map_on fun _ ha _ hb hid => eq_of_id_eq ha hb hid

/-- A set has no more actions than there are names for them. -/
theorem size_le_of_names {names : NameSet} (h : ∀ a ∈ set.actions, a.id ∈ names) :
    set.size ≤ names.size := by
  rw [size_eq, ← List.length_map (f := NetworkAction.id), ← Std.ExtTreeSet.length_toList]
  refine (List.Nodup.subperm (nodup_ids set) ?_).length_le
  intro id hid
  obtain ⟨a, ha, rfl⟩ := List.mem_map.mp hid
  exact Std.ExtTreeSet.mem_toList.mpr (h a ha)

theorem mem_operators {operator : String} :
    operator ∈ set.operators ↔ ∃ b ∈ set.actions, b.operator = some operator := by
  rw [operators, NameSet.mem_ofNames, List.mem_filterMap]

/-- An operator that is none of a set has no actions in it. -/
theorem filter_belongsTo_eq_nil {operator : String} (h : operator ∉ set.operators) :
    set.actions.filter (·.belongsTo operator) = [] := by
  rw [List.filter_eq_nil_iff]
  intro b hb hbelongs
  exact h (mem_operators.mpr ⟨b, hb, beq_iff_eq.mp hbelongs⟩)

theorem countOf_eq_zero {operator : String} (h : operator ∉ set.operators) :
    set.countOf operator = 0 := by
  rw [countOf, filter_belongsTo_eq_nil h, List.length_nil]

theorem sizeOf_eq_zero {operator : String} (h : operator ∉ set.operators) :
    set.sizeOf operator = 0 := by
  rw [sizeOf, filter_belongsTo_eq_nil h]
  rfl

/-! ### Unions -/

theorem mem_actions_insert {b : NetworkAction K} :
    a ∈ (set.insert b).actions ↔ a = b ∨ (a ∈ set.actions ∧ a.id ≠ b.id) := by
  rw [mem_actions, mem_actions, insert, Std.ExtTreeMap.getElem?_insert]
  split
  · next same =>
    have hid := Std.LawfulEqCmp.eq_of_compare same
    constructor
    · intro h
      exact .inl (Option.some.inj h).symm
    · rintro (rfl | ⟨-, hne⟩)
      · rfl
      · exact absurd hid.symm hne
  · next hne =>
    have hid : a.id ≠ b.id := by
      intro h
      exact hne (h ▸ Std.ReflOrd.compare_self)
    constructor
    · intro h
      exact .inr ⟨h, hid⟩
    · rintro (rfl | ⟨h, -⟩)
      · exact absurd rfl hid
      · exact h

@[simp] theorem actions_empty : (∅ : ActionSet K).actions = [] := by
  rw [List.eq_nil_iff_forall_not_mem]
  intro b hb
  rw [mem_actions] at hb
  have hnone : (∅ : ActionSet K).table[b.id]? = none := Std.ExtTreeMap.getElem?_empty
  rw [hnone] at hb
  cases hb

/-- The set of one action. -/
@[simp] theorem actions_ofList_singleton (a : NetworkAction K) : (ofList [a]).actions = [a] := by
  refine List.perm_singleton.mp ?_
  rw [List.perm_ext_iff_of_nodup (nodup_actions _) (List.nodup_singleton a)]
  intro b
  change b ∈ ((∅ : ActionSet K).insert a).actions ↔ _
  simp [mem_actions_insert]

theorem mem_actions_foldl_insert {actions : List (NetworkAction K)} {start : ActionSet K}
    (hids : ∀ b ∈ actions, ∀ c ∈ actions, b.id = c.id → b = c) :
    a ∈ (actions.foldl insert start).actions ↔
      a ∈ actions ∨ (a ∈ start.actions ∧ ∀ b ∈ actions, b.id ≠ a.id) := by
  induction actions generalizing start with
  | nil => simp
  | cons b actions ih =>
    have hrest : ∀ c ∈ actions, ∀ d ∈ actions, c.id = d.id → c = d := fun c hc d hd =>
      hids c (List.mem_cons_of_mem _ hc) d (List.mem_cons_of_mem _ hd)
    rw [List.foldl_cons, ih hrest, mem_actions_insert]
    constructor
    · rintro (hmem | ⟨rfl | ⟨hstart, hne⟩, hother⟩)
      · exact .inl (List.mem_cons_of_mem _ hmem)
      · exact .inl List.mem_cons_self
      · refine .inr ⟨hstart, fun c hc => ?_⟩
        rcases List.mem_cons.mp hc with rfl | hc
        · exact hne.symm
        · exact hother c hc
    · rintro (hmem | ⟨hstart, hother⟩)
      · rcases List.mem_cons.mp hmem with rfl | hmem
        · by_cases hlater : a ∈ actions
          · exact .inl hlater
          · refine .inr ⟨.inl rfl, fun c hc hid => hlater ?_⟩
            rwa [← hids c (List.mem_cons_of_mem _ hc) a List.mem_cons_self hid]
        · exact .inl hmem
      · refine .inr ⟨.inr ⟨hstart, ?_⟩, fun c hc => hother c (List.mem_cons_of_mem _ hc)⟩
        exact fun hid => hother b List.mem_cons_self hid.symm

/-- The actions of a union are those of the second set, and those of the first one that none of
them takes the place of. -/
theorem mem_actions_union : a ∈ (first.union second).actions ↔
    a ∈ second.actions ∨ (a ∈ first.actions ∧ second.contains a.id = false) := by
  unfold union
  rw [mem_actions_foldl_insert fun b hb c hc => eq_of_id_eq hb hc]
  refine or_congr_right (and_congr_right fun _ => ?_)
  rw [Bool.eq_false_iff, Ne, contains_iff]
  constructor
  · rintro h ⟨b, hb, hid⟩
    exact h b hb hid
  · intro h b hb hid
    exact h ⟨b, hb, hid⟩

/-- No action of the second set has a namesake in the first one. -/
def Apart (first second : ActionSet K) : Prop :=
  ∀ a ∈ second.actions, first.contains a.id = false

theorem Apart.id_ne {b : NetworkAction K} (h : first.Apart second) (ha : a ∈ first.actions)
    (hb : b ∈ second.actions) : a.id ≠ b.id := by
  intro hid
  have hcontains : first.contains b.id = true := contains_iff.mpr ⟨a, ha, hid⟩
  rw [h b hb] at hcontains
  exact Bool.false_ne_true hcontains

/-- The union of sets that have no names in common has the actions of both. -/
theorem actions_union_perm (h : first.Apart second) :
    (first.union second).actions.Perm (first.actions ++ second.actions) := by
  have hnodup : (first.actions ++ second.actions).Nodup := by
    refine List.Nodup.append (nodup_actions first) (nodup_actions second) ?_
    intro a ha hb
    exact h.id_ne ha hb rfl
  rw [List.perm_ext_iff_of_nodup (nodup_actions _) hnodup]
  intro a
  rw [mem_actions_union, List.mem_append]
  constructor
  · rintro (hsecond | ⟨hfirst, -⟩)
    · exact .inr hsecond
    · exact .inl hfirst
  · rintro (hfirst | hsecond)
    · refine .inr ⟨hfirst, ?_⟩
      rw [Bool.eq_false_iff, Ne, contains_iff]
      rintro ⟨b, hb, hid⟩
      exact h.id_ne hfirst hb hid.symm
    · exact .inl hsecond

theorem size_union (h : first.Apart second) :
    (first.union second).size = first.size + second.size := by
  rw [size_eq, size_eq, size_eq, ← List.length_append]
  exact (actions_union_perm h).length_eq

theorem countOf_union (h : first.Apart second) (operator : String) :
    (first.union second).countOf operator = first.countOf operator + second.countOf operator := by
  unfold countOf
  rw [← List.length_append, ← List.filter_append]
  exact ((actions_union_perm h).filter _).length_eq

theorem sizeOf_union (h : first.Apart second) (operator : String) :
    (first.union second).sizeOf operator = first.sizeOf operator + second.sizeOf operator := by
  unfold sizeOf
  rw [← NetworkAction.totalSize_append, ← List.filter_append]
  exact NetworkAction.totalSize_perm ((actions_union_perm h).filter _)

theorem mem_operators_union {operator : String} (h : operator ∈ (first.union second).operators) :
    operator ∈ first.operators ∨ operator ∈ second.operators := by
  obtain ⟨a, ha, hoperator⟩ := mem_operators.mp h
  rcases mem_actions_union.mp ha with hsecond | ⟨hfirst, -⟩
  · exact .inr (mem_operators.mpr ⟨a, hsecond, hoperator⟩)
  · exact .inl (mem_operators.mpr ⟨a, hfirst, hoperator⟩)

/-! ### Inclusion -/

/-- The actions of a set. -/
def members (set : ActionSet K) : Set (NetworkAction K) := {a | a ∈ set.actions}

/-- A union has more actions than the first set, if the second one has some, and none that the
first one has a namesake of. -/
theorem members_ssubset_union (hsecond : second.actions ≠ []) (h : first.Apart second) :
    first.members ⊂ (first.union second).members := by
  rw [Set.ssubset_iff_of_subset]
  · obtain ⟨a, ha⟩ := List.exists_mem_of_ne_nil _ hsecond
    refine ⟨a, mem_actions_union.mpr (.inl ha), fun hfirst => ?_⟩
    exact h.id_ne hfirst ha rfl
  · intro a ha
    refine (actions_union_perm h).mem_iff.mpr ?_
    exact List.mem_append_left _ ha

end ActionSet

end GridRelief
