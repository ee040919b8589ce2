import GridRelief.Proofs.Exact
import GridRelief.Proofs.LinearNetwork
import GridRelief.Search.Leaf

/-!
# Compatible actions in any order

Two elementary actions are compatible if they change different elements or are the same change. On
a network where changes of different elements may be made in either order, compatible actions
lead to one network in whatever order they are applied. Linear networks are such.

* `NetworkAction.isCompatible_comm`: compatibility is mutual.
* `LinearNetwork.isOrderly`: changes of different elements of a linear network commute.
* `Leaf.applyActions_perm`: compatible network actions may be applied in any order.
-/

namespace GridRelief

variable {K N : Type}

/-! ### Compatibility -/

section Compatibility

variable [ExactScalar K]

/-- Elementary actions are found to be the same if they are. -/
theorem ElementaryAction.beq_iff {a b : ElementaryAction K} : (a == b) = true ↔ a = b := by
  cases a <;> cases b <;>
    simp [BEq.beq, instBEqElementaryAction.beq, ← ExactScalar.beq_iff (K := K)]

/-- Compatible elementary actions change different elements, unless they are the same. -/
theorem ElementaryAction.isCompatible_iff {a b : ElementaryAction K} :
    a.isCompatible b = true ↔ a.element ≠ b.element ∨ a = b := by
  rw [isCompatible, Bool.or_eq_true, bne_iff_ne, beq_iff]

/-- Network actions are compatible if their parts are. -/
theorem NetworkAction.isCompatible_iff {a b : NetworkAction K} :
    a.isCompatible b = true ↔
      ∀ part ∈ a.parts, ∀ other ∈ b.parts, part.element ≠ other.element ∨ part = other := by
  simp only [isCompatible, List.all_eq_true, ElementaryAction.isCompatible_iff]

/-- Compatibility is mutual. -/
theorem NetworkAction.isCompatible_comm {a b : NetworkAction K} :
    a.isCompatible b = b.isCompatible a := by
  rw [Bool.eq_iff_iff, isCompatible_iff, isCompatible_iff]
  constructor
  · intro h part hpart other hother
    exact (h other hother part hpart).imp Ne.symm Eq.symm
  · intro h part hpart other hother
    exact (h other hother part hpart).imp Ne.symm Eq.symm

end Compatibility

/-- The actions of a set are compatible with each other and with themselves. -/
def ActionSet.IsCompatible [Scalar K] (set : ActionSet K) : Prop :=
  ∀ a ∈ set.actions, ∀ b ∈ set.actions, a.isCompatible b = true

instance [Scalar K] : DecidablePred (ActionSet.IsCompatible (K := K)) := fun set =>
  inferInstanceAs (Decidable (∀ a ∈ set.actions, ∀ b ∈ set.actions, a.isCompatible b = true))

/-! ### Networks on which changes commute -/

/-- Changes of different elements may be made in either order. -/
def Network.IsOrderly (N : Type) {K : Type} [Network N K] : Prop :=
  ∀ (n : N) (a b : ElementaryAction K), a.element ≠ b.element →
    (a.applyTo? n).bind (fun m => b.applyTo? m) = (b.applyTo? n).bind fun m => a.applyTo? m

/-- Entries of different identifiers may be written in either order. -/
theorem Table.insert_comm {V : Type} {table : Table V} {key other : String} {x y : V}
    (h : key ≠ other) :
    (table.insert key x).insert other y = (table.insert other y).insert key x := by
  refine Std.ExtTreeMap.ext_getElem? fun id => ?_
  simp only [Std.ExtTreeMap.getElem?_insert, Std.LawfulEqOrd.compare_eq_iff_eq]
  split <;> split <;> simp_all

namespace LinearNetwork

variable {n : LinearNetwork K} {a b : ElementaryAction K}

/-- Whether a linear network has the element of a change, or the tap. -/
def accepts (n : LinearNetwork K) : ElementaryAction K → Bool
  | .topology element _ => n.connected.contains element
  | .pstSetpoint element tap => n.model.tapTables[element]?.any (·.contains tap)
  | .injectionSetpoint element _ => n.setpoints.contains element

/-- The linear network with a change. -/
def write (n : LinearNetwork K) : ElementaryAction K → LinearNetwork K
  | .topology element connect => { n with connected := n.connected.insert element connect }
  | .pstSetpoint element tap => { n with taps := n.taps.insert element tap }
  | .injectionSetpoint element setpoint =>
    { n with setpoints := n.setpoints.insert element setpoint }

theorem applyTo?_eq (n : LinearNetwork K) (a : ElementaryAction K) :
    a.applyTo? n = if n.accepts a then some (n.write a) else none := by
  cases a with
  | topology element connect =>
    by_cases h : element ∈ n.connected <;>
      simp [ElementaryAction.applyTo?, Network.setConnected?, Table.replace?, accepts, write, h]
  | pstSetpoint element tap =>
    cases h : n.model.tapTables[element]? <;>
      simp [ElementaryAction.applyTo?, Network.setTap?, setTap?, accepts, write, h]
  | injectionSetpoint element setpoint =>
    by_cases h : element ∈ n.setpoints <;>
      simp [ElementaryAction.applyTo?, Network.setSetpoint?, Table.replace?, accepts, write, h]

/-- Whether a change is accepted does not depend on changes of other elements. -/
theorem accepts_write (h : a.element ≠ b.element) : (n.write a).accepts b = n.accepts b := by
  cases a <;> cases b <;> simp_all [write, accepts, ElementaryAction.element]

/-- Changes of different elements may be written in either order. -/
theorem write_comm (h : a.element ≠ b.element) : (n.write a).write b = (n.write b).write a := by
  cases a <;> cases b <;> try rfl
  -- what is left are two changes of one table
  all_goals
    simp only [ElementaryAction.element] at h
    simp only [write]
    rw [Table.insert_comm h]

/-- On a linear network changes of different elements may be made in either order. -/
theorem isOrderly : Network.IsOrderly (LinearNetwork K) := by
  intro n a b hne
  simp only [applyTo?_eq]
  by_cases ha : n.accepts a = true <;> by_cases hb : n.accepts b = true <;>
    simp [ha, hb, accepts_write hne, accepts_write hne.symm, write_comm hne]

end LinearNetwork

/-! ### Any order -/

variable [Network N K]

/-- Applying the parts of an action is applying them one after the other, as long as none is
refused. -/
theorem NetworkAction.applyParts_eq_iff {parts : List (ElementaryAction K)} {n m : N} :
    applyParts parts n = (m, true) ↔ parts.foldlM ElementaryAction.applyTo? n = some m := by
  induction parts generalizing n with
  | nil => simp [applyParts]
  | cons part rest ih =>
    rw [applyParts, List.foldlM_cons]
    cases hpart : part.applyTo? n with
    | none => simp
    | some changed => simpa using ih

/-- Applying network actions is applying their parts one after the other, as long as none is
refused. -/
theorem Leaf.applyActions_eq_iff [Scalar K] {actions : List (NetworkAction K)} {n m : N} :
    applyActions actions n = (m, .ok ()) ↔
      (actions.flatMap NetworkAction.parts).foldlM ElementaryAction.applyTo? n = some m := by
  induction actions generalizing n with
  | nil => simp [applyActions]
  | cons action rest ih =>
    rw [applyActions, List.flatMap_cons, List.foldlM_append]
    rcases happly : action.apply n with ⟨changed, accepted⟩
    cases accepted with
    | true =>
      have hparts := NetworkAction.applyParts_eq_iff.mp happly
      rw [hparts]
      simpa using ih
    | false =>
      cases hparts : action.parts.foldlM ElementaryAction.applyTo? n with
      | none => simp
      | some m =>
        have hsame := happly.symm.trans (NetworkAction.applyParts_eq_iff.mpr hparts)
        simp at hsame

/-- Compatible changes may be made in any order. -/
theorem Network.IsOrderly.foldlM_perm (horderly : IsOrderly N)
    {parts others : List (ElementaryAction K)} (hperm : parts.Perm others)
    (h : ∀ a ∈ parts, ∀ b ∈ parts, a.element ≠ b.element ∨ a = b) (n : N) :
    parts.foldlM ElementaryAction.applyTo? n = others.foldlM ElementaryAction.applyTo? n := by
  induction hperm generalizing n with
  | nil => rfl
  | cons part _ ih =>
    rw [List.foldlM_cons, List.foldlM_cons]
    congr 1
    funext changed
    refine ih (fun a ha b hb => ?_) changed
    exact h a (List.mem_cons_of_mem _ ha) b (List.mem_cons_of_mem _ hb)
  | swap first second rest =>
    rcases h first (by simp) second (by simp) with hne | rfl
    · have hswap := horderly n second first hne.symm
      simp only [List.foldlM_cons, ← Option.bind_eq_bind] at hswap ⊢
      rw [← bind_assoc, ← bind_assoc, hswap]
    · rfl
  | trans hfirst _ ihfirst ihsecond =>
    rw [ihfirst h, ihsecond fun a ha b hb => h a (hfirst.mem_iff.mpr ha) b (hfirst.mem_iff.mpr hb)]

/-- Network actions that are compatible with each other and with themselves may be applied in any
order, if a network accepts them. -/
theorem Leaf.applyActions_perm [ExactScalar K] (horderly : Network.IsOrderly N)
    {actions order : List (NetworkAction K)}
    (h : ∀ a ∈ actions, ∀ b ∈ actions, a.isCompatible b = true) (hperm : order.Perm actions)
    {n : N} (haccepted : (applyActions actions n).2 = .ok ()) :
    applyActions order n = applyActions actions n := by
  have hsame : applyActions actions n = ((applyActions actions n).1, .ok ()) :=
    Prod.ext rfl haccepted
  have hparts := applyActions_eq_iff.mp hsame
  rw [hsame, applyActions_eq_iff, ← hparts]
  refine (horderly.foldlM_perm (hperm.flatMap_right _).symm ?_ n).symm
  intro part hpart other hother
  obtain ⟨a, ha, hpart⟩ := List.mem_flatMap.mp hpart
  obtain ⟨b, hb, hother⟩ := List.mem_flatMap.mp hother
  exact NetworkAction.isCompatible_iff.mp (h a ha b hb) part hpart other hother

end GridRelief
