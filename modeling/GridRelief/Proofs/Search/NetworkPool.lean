import Mathlib.Data.List.Perm.Basic
import Mathlib.Logic.Function.Basic
import GridRelief.Search.NetworkPool

/-!
# Copies of a pool

Any number of tasks may use one pool. Each leases copies, changes those that it has leased and ends
its leases, and what the tasks do is interleaved in some order. A checkout that finds no free copy
waits: nothing happens then, and it is tried again later.

Whether two leases share a copy is a question about places and not about what stands there. In a
stock every copy has its place: free copies and leases are lists of places, and a lease that ends
gives its place up for a new one. No two of the places are the same, so a stock read place by place
is the pool.

* `PoolEvent`, `NetworkPool.after`: what is done with a pool, and the pool after it.
* `Stock`: a pool whose copies have places.
* `Stock.IsOrderly`: every copy is in a place of its own, and the free ones are copies of the base.
* `Stock.pool_after`: a stock, read place by place, is the pool after the same events.
* `NetworkPool.conserved`: copies are neither lost nor shared nor handed on as they were left.
-/

namespace GridRelief

variable {N : Type}

/-! ### Events -/

/-- What is done with a pool. Leases are named by their numbers. -/
inductive PoolEvent (N : Type) where
  /-- A copy is leased, if one is free. -/
  | checkout
  /-- The copy of a lease that has not ended becomes another network. -/
  | change (number : Nat) (network : N)
  /-- A lease ends, unless it has ended. -/
  | release (number : Nat)

namespace NetworkPool

/-- A pool after an event. -/
def handle (p : NetworkPool N) : PoolEvent N → NetworkPool N
  | .checkout => p.checkout?.getD p
  | .change number network => p.change number network
  | .release number => p.release number

/-- A pool after some events. -/
def after (p : NetworkPool N) (events : List (PoolEvent N)) : NetworkPool N :=
  events.foldl handle p

end NetworkPool

/-! ### Places -/

/-- Copies of a network, each in its place. -/
structure Stock (N : Type) where
  base : N
  size : Nat
  /-- The network in each place. -/
  contents : Nat → N
  /-- The number of places that have been used. -/
  used : Nat
  /-- The places of the copies that are not leased. -/
  free : List Nat
  /-- The place of each lease that has not ended, by number. -/
  leases : List (Option Nat)

namespace Stock

variable {s : Stock N} {number other place : Nat}

/-- A stock of so many copies of a network, and of one copy at least. -/
def ofNetwork (base : N) (size : Nat) : Stock N where
  base
  size := max size 1
  contents := fun _ => base
  used := max size 1
  free := List.range (max size 1)
  leases := []

/-- The places of the leases that have not ended. -/
def live (s : Stock N) : List Nat := s.leases.filterMap fun lease => lease

/-- The place of a lease that has not ended. -/
def lease? (s : Stock N) (number : Nat) : Option Nat := (s.leases[number]?).join

/-- Lease the copy in the first free place, if there is one. -/
def checkout (s : Stock N) : Stock N :=
  match s.free with
  | [] => s
  | place :: rest => { s with free := rest, leases := s.leases ++ [some place] }

/-- Change what stands in the place of a lease that has not ended. -/
def change (s : Stock N) (number : Nat) (network : N) : Stock N :=
  match s.lease? number with
  | none => s
  | some place => { s with contents := Function.update s.contents place network }

/-- End a lease that has not ended, and make a fresh copy in a place that has not been used. -/
def release (s : Stock N) (number : Nat) : Stock N :=
  match s.lease? number with
  | none => s
  | some _ =>
    { s with
      contents := Function.update s.contents s.used s.base
      used := s.used + 1
      free := s.used :: s.free
      leases := s.leases.set number none }

/-- A stock after an event. -/
def handle (s : Stock N) : PoolEvent N → Stock N
  | .checkout => s.checkout
  | .change number network => s.change number network
  | .release number => s.release number

/-- A stock after some events. -/
def after (s : Stock N) (events : List (PoolEvent N)) : Stock N := events.foldl handle s

/-- A stock read place by place. -/
def pool (s : Stock N) : NetworkPool N where
  base := s.base
  size := s.size
  free := s.free.map s.contents
  leases := s.leases.map (Option.map s.contents)

/-! ### Order -/

/-- Every copy, free or leased, has a place of its own, there are as many as there should be, and
the free ones are copies of the base. -/
structure IsOrderly (s : Stock N) : Prop where
  nodup : (s.free ++ s.live).Nodup
  used : ∀ place ∈ s.free ++ s.live, place < s.used
  length : (s.free ++ s.live).length = s.size
  fresh : ∀ place ∈ s.free, s.contents place = s.base

theorem isOrderly_ofNetwork (base : N) (size : Nat) : (ofNetwork base size).IsOrderly where
  nodup := by simpa [ofNetwork, live] using List.nodup_range
  used := by simp [ofNetwork, live]
  length := by simp [ofNetwork, live]
  fresh := fun _ _ => rfl

/-- A lease has one place, and ending it gives up that place and no other. -/
theorem live_perm (h : s.lease? number = some place) :
    s.live.Perm (place :: (s.leases.set number none).filterMap fun lease => lease) := by
  have hperm : ∀ (xs : List (Option Nat)) number, xs[number]? = some (some place) →
      (xs.filterMap fun lease => lease).Perm
        (place :: (xs.set number none).filterMap fun lease => lease) := by
    intro xs
    induction xs with
    | nil => exact nofun
    | cons x xs ih =>
      intro number h
      cases number with
      | zero =>
        obtain rfl := Option.some.inj h
        rfl
      | succ number =>
        cases x with
        | none => exact ih number h
        | some first => exact ((ih number h).cons first).trans (.swap place first _)
  exact hperm s.leases number (Option.join_eq_some_iff.mp h)

theorem mem_live (h : s.lease? number = some place) : place ∈ s.live :=
  (live_perm h).mem_iff.mpr List.mem_cons_self

namespace IsOrderly

variable (hs : s.IsOrderly)
include hs

/-- A copy that is leased is not free. -/
theorem notMem_free (h : s.lease? number = some place) : place ∉ s.free := fun hfree =>
  (List.nodup_append.mp hs.nodup).2.2 place hfree place (mem_live h) rfl

/-- The place of a lease is not among those of the other leases. -/
theorem notMem_others (h : s.lease? number = some place) :
    place ∉ (s.leases.set number none).filterMap fun lease => lease :=
  (List.nodup_cons.mp ((live_perm h).nodup_iff.mp (List.nodup_append.mp hs.nodup).2.1)).1

/-- No two leases share a copy. -/
theorem eq_of_lease (h : s.lease? number = some place) (hother : s.lease? other = some place) :
    number = other := by
  by_contra hne
  refine hs.notMem_others h (List.mem_filterMap.mpr ⟨some place, ?_, rfl⟩)
  refine List.mem_of_getElem? (i := other) ?_
  rw [List.getElem?_set_ne hne]
  exact Option.join_eq_some_iff.mp hother

/-- A lease takes a place from the free ones. -/
theorem checkout : s.checkout.IsOrderly := by
  unfold Stock.checkout
  cases hfree : s.free with
  | nil => exact hs
  | cons place rest =>
    have hperm : (rest ++ (s.leases ++ [some place]).filterMap fun lease => lease).Perm
        (s.free ++ s.live) := by
      rw [hfree, List.filterMap_append, ← List.append_assoc]
      exact List.perm_append_singleton place _
    constructor
    · exact hperm.nodup_iff.mpr hs.nodup
    · exact fun other hother => hs.used other (hperm.mem_iff.mp hother)
    · exact hperm.length_eq.trans hs.length
    · exact fun other hother => hs.fresh other (hfree ▸ List.mem_cons_of_mem place hother)

/-- What is done in the place of a lease is not seen in a free one. -/
theorem change (number : Nat) (network : N) : (s.change number network).IsOrderly := by
  unfold Stock.change
  cases hlease : s.lease? number with
  | none => exact hs
  | some place =>
    refine ⟨hs.nodup, hs.used, hs.length, fun other hother => ?_⟩
    have hne : other ≠ place := fun heq => hs.notMem_free hlease (heq ▸ hother)
    exact (Function.update_of_ne hne _ _).trans (hs.fresh other hother)

/-- The new place takes the place of the one that is given up. -/
theorem release (number : Nat) : (s.release number).IsOrderly := by
  unfold Stock.release
  cases hlease : s.lease? number with
  | none => exact hs
  | some place =>
    have hperm : (s.free ++ s.live).Perm
        (place :: (s.free ++ (s.leases.set number none).filterMap fun lease => lease)) :=
      ((live_perm hlease).append_left s.free).trans List.perm_middle
    have hrest : ∀ other ∈ s.free ++ (s.leases.set number none).filterMap fun lease => lease,
        other < s.used := fun other hother =>
      hs.used other (hperm.mem_iff.mpr (List.mem_cons_of_mem place hother))
    constructor
    · refine List.nodup_cons.mpr ⟨fun hmem => ?_, ?_⟩
      · exact Nat.lt_irrefl _ (hrest s.used hmem)
      · exact (List.nodup_cons.mp (hperm.nodup_iff.mp hs.nodup)).2
    · intro other hother
      rcases List.mem_cons.mp hother with rfl | hother
      · exact Nat.lt_succ_self _
      · exact Nat.lt_succ_of_lt (hrest other hother)
    · exact hperm.length_eq.symm.trans hs.length
    · intro other hother
      rcases List.mem_cons.mp hother with rfl | hother
      · exact Function.update_self _ _ _
      · have hne : other ≠ s.used := Nat.ne_of_lt (hs.used other (List.mem_append_left _ hother))
        exact (Function.update_of_ne hne _ _).trans (hs.fresh other hother)

theorem handle (event : PoolEvent N) : (s.handle event).IsOrderly :=
  match event with
  | .checkout => hs.checkout
  | .change number network => hs.change number network
  | .release number => hs.release number

end IsOrderly

/-! ### Reading a stock -/

theorem lease?_pool : s.pool.lease? number = (s.lease? number).map s.contents := by
  unfold NetworkPool.lease? pool lease?
  rw [List.getElem?_map]
  cases s.leases[number]? <;> rfl

theorem pool_checkout : s.checkout.pool = s.pool.handle .checkout := by
  unfold checkout NetworkPool.handle NetworkPool.checkout? pool
  cases hfree : s.free <;> simp [hfree]

/-- What is done in a place is not seen in others. -/
theorem map_update {places : List Nat} (h : place ∉ places) (contents : Nat → N) (network : N) :
    places.map (Function.update contents place network) = places.map contents :=
  List.map_congr_left fun _ hother => Function.update_of_ne (ne_of_mem_of_not_mem hother h) _ _

/-- What is done in a place is not seen by leases of others. -/
theorem map_leases_update {leases : List (Option Nat)}
    (h : place ∉ leases.filterMap fun lease => lease) (contents : Nat → N) (network : N) :
    leases.map (Option.map (Function.update contents place network)) =
      leases.map (Option.map contents) := by
  refine List.map_congr_left fun lease hlease => ?_
  cases lease with
  | none => rfl
  | some other =>
    have hmem : other ∈ leases.filterMap fun lease => lease :=
      List.mem_filterMap.mpr ⟨some other, hlease, rfl⟩
    exact congrArg some (Function.update_of_ne (ne_of_mem_of_not_mem hmem h) _ _)

namespace IsOrderly

variable (hs : s.IsOrderly)
include hs

/-- A change is seen by the lease that makes it, and by no other. -/
theorem pool_change (number : Nat) (network : N) :
    (s.change number network).pool = s.pool.handle (.change number network) := by
  unfold Stock.change NetworkPool.handle NetworkPool.change
  dsimp only
  rw [lease?_pool]
  cases hlease : s.lease? number with
  | none => rfl
  | some place =>
    have hself : (s.leases.set number none).set number (some place) = s.leases := by
      obtain ⟨hlt, heq⟩ := List.getElem?_eq_some_iff.mp (Option.join_eq_some_iff.mp hlease)
      rw [List.set_set, ← heq, List.set_getElem_self hlt]
    have hleases : s.leases.map (Option.map (Function.update s.contents place network)) =
        (s.leases.map (Option.map s.contents)).set number (some network) := by
      conv_lhs => rw [← hself]
      rw [List.map_set, map_leases_update (hs.notMem_others hlease), List.map_set, List.set_set,
        Option.map_some, Function.update_self]
    rw [Option.map_some, Option.isSome_some, if_pos rfl]
    unfold pool
    dsimp only
    rw [map_update (hs.notMem_free hlease), hleases]

/-- A place that is new is seen by nobody else. -/
theorem pool_release (number : Nat) :
    (s.release number).pool = s.pool.handle (.release number) := by
  unfold Stock.release NetworkPool.handle NetworkPool.release
  dsimp only
  rw [lease?_pool]
  cases hlease : s.lease? number with
  | none => rfl
  | some place =>
    have hnew : s.used ∉ s.free ++ s.live := fun hmem => Nat.lt_irrefl _ (hs.used _ hmem)
    rw [List.mem_append, not_or] at hnew
    rw [Option.map_some, Option.isSome_some, if_pos rfl]
    unfold pool
    dsimp only
    rw [List.map_cons, map_update hnew.1, Function.update_self, List.map_set,
      map_leases_update hnew.2, Option.map_none]

theorem pool_handle (event : PoolEvent N) : (s.handle event).pool = s.pool.handle event :=
  match event with
  | .checkout => pool_checkout
  | .change number network => hs.pool_change number network
  | .release number => hs.pool_release number

/-! ### Runs -/

/-- A stock stays in order, and what is read of it are the copies of the pool. -/
theorem after (events : List (PoolEvent N)) :
    (s.after events).IsOrderly ∧ (s.after events).pool = s.pool.after events := by
  induction events generalizing s with
  | nil => exact ⟨hs, rfl⟩
  | cons event events ih =>
    obtain ⟨horderly, hpool⟩ := ih (hs.handle event)
    rw [hs.pool_handle] at hpool
    exact ⟨horderly, hpool⟩

end IsOrderly

theorem pool_ofNetwork (base : N) (size : Nat) :
    (ofNetwork base size).pool = .ofNetwork base size := by
  simp [ofNetwork, pool, NetworkPool.ofNetwork, List.map_const']

theorem live_pool : s.pool.live = s.live.map s.contents := by
  unfold NetworkPool.live pool live
  rw [List.filterMap_map, List.map_filterMap]
  rfl

end Stock

namespace NetworkPool

variable {p q : NetworkPool N} {base : N}

/-- No event changes the base and the number of copies. -/
theorem base_size_handle (p : NetworkPool N) (event : PoolEvent N) :
    (p.handle event).base = p.base ∧ (p.handle event).size = p.size := by
  cases event with
  | checkout =>
    unfold handle checkout?
    dsimp only
    split <;> exact ⟨rfl, rfl⟩
  | change number network =>
    unfold handle change
    dsimp only
    split <;> exact ⟨rfl, rfl⟩
  | release number =>
    unfold handle release
    dsimp only
    split <;> exact ⟨rfl, rfl⟩

theorem base_size_after (p : NetworkPool N) (events : List (PoolEvent N)) :
    (p.after events).base = p.base ∧ (p.after events).size = p.size := by
  induction events generalizing p with
  | nil => exact ⟨rfl, rfl⟩
  | cons event events ih =>
    obtain ⟨hbase, hsize⟩ := ih (p.handle event)
    obtain ⟨hbase', hsize'⟩ := p.base_size_handle event
    exact ⟨hbase.trans hbase', hsize.trans hsize'⟩

/-- A copy can be leased exactly when one is free. -/
theorem isSome_checkout?_iff : p.checkout?.isSome ↔ 0 < p.available := by
  unfold checkout? available
  cases p.free <;> simp

/-- The copy of a new lease was free, and the other leases keep theirs. -/
theorem lease?_of_checkout? (h : p.checkout? = some q) :
    (∃ copy ∈ p.free, q.lease? p.leases.length = some copy) ∧ q.available + 1 = p.available ∧
      ∀ number < p.leases.length, q.lease? number = p.lease? number := by
  unfold checkout? at h
  unfold available lease?
  cases hfree : p.free with
  | nil =>
    rw [hfree] at h
    cases h
  | cons copy rest =>
    rw [hfree] at h
    obtain rfl := Option.some.inj h
    refine ⟨⟨copy, List.mem_cons_self, ?_⟩, rfl, fun number hnumber => ?_⟩
    · rw [List.getElem?_concat_length]
      rfl
    · rw [List.getElem?_append_left hnumber]

/-- Only a lease with a number that has been given can be one that has not ended. -/
theorem lt_of_lease? {number : Nat} (h : (p.lease? number).isSome) : number < p.leases.length := by
  by_contra hle
  unfold lease? at h
  rw [List.getElem?_eq_none (Nat.le_of_not_lt hle)] at h
  cases h

/-- A change ends no lease and begins none. -/
theorem isSome_lease?_change (p : NetworkPool N) (number other : Nat) (network : N) :
    ((p.change number network).lease? other).isSome = (p.lease? other).isSome := by
  unfold change
  split
  · next hlive =>
    have hlt := lt_of_lease? hlive
    by_cases hne : number = other
    · subst hne
      unfold lease? at hlive ⊢
      rw [hlive, List.getElem?_set_self hlt]
      rfl
    · unfold lease?
      rw [List.getElem?_set_ne hne]
  · rfl

theorem available_change (p : NetworkPool N) (number : Nat) (network : N) :
    (p.change number network).available = p.available := by
  unfold change
  split <;> rfl

/-- When a lease ends, one copy more is free, and the other leases keep theirs. -/
theorem lease?_release {number : Nat} (h : (p.lease? number).isSome) :
    (p.release number).available = p.available + 1 ∧
      ∀ other, number ≠ other → (p.release number).lease? other = p.lease? other := by
  unfold release
  rw [if_pos h]
  refine ⟨rfl, fun other hne => ?_⟩
  unfold lease?
  rw [List.getElem?_set_ne hne]

/-- Copies are neither lost nor shared, and none is handed on as it was left. Whatever is done with
a pool in whatever order, its free copies and its leases that have not ended are together as many as
it has copies, and these are one at least. A copy can be leased exactly when one is free, and it is
a copy of the base then. And each copy stands in a place of its own, no two leases in one. -/
theorem conserved (base : N) (requested : Nat) (events : List (PoolEvent N)) :
    let p := (ofNetwork base requested).after events
    let s := (Stock.ofNetwork base requested).after events
    p.available + p.live.length = p.size ∧ p.size = max requested 1 ∧ 1 ≤ p.size ∧
    (p.checkout?.isSome ↔ 0 < p.available) ∧
    (∀ q, p.checkout? = some q →
      q.lease? p.leases.length = some base ∧ q.available + 1 = p.available ∧
        ∀ number < p.leases.length, q.lease? number = p.lease? number) ∧
    s.pool = p ∧ (s.free ++ s.live).Nodup ∧
    ∀ number other place, s.lease? number = some place → s.lease? other = some place →
      number = other := by
  intro p s
  obtain ⟨hs, hpool⟩ := (Stock.isOrderly_ofNetwork base requested).after events
  rw [Stock.pool_ofNetwork] at hpool
  change s.IsOrderly at hs
  change s.pool = p at hpool
  obtain ⟨hbase, hsize⟩ := (ofNetwork base requested).base_size_after events
  change p.base = base at hbase
  change p.size = max requested 1 at hsize
  rw [← hpool] at hbase hsize ⊢
  change s.base = base at hbase
  change s.size = max requested 1 at hsize
  have hcopies : s.pool.available + s.pool.live.length = s.size := by
    rw [Stock.live_pool, List.length_map, ← hs.length, List.length_append]
    exact congrArg (· + s.live.length) (List.length_map _)
  have hone : 1 ≤ s.size := hsize ▸ Nat.le_max_right requested 1
  refine ⟨hcopies, hsize, hone, isSome_checkout?_iff, fun q hq => ?_, rfl, hs.nodup,
    fun number other place => hs.eq_of_lease⟩
  obtain ⟨⟨copy, hcopy, hlease⟩, hrest⟩ := lease?_of_checkout? hq
  obtain ⟨place, hplace, rfl⟩ := List.mem_map.mp hcopy
  rw [hs.fresh place hplace, hbase] at hlease
  exact ⟨hlease, hrest⟩

-- What a task leaves in its copy is not what the next one gets.
example : ((ofNetwork 7 1).after [.checkout, .change 0 9, .release 0, .checkout]).leases =
    [none, some 7] := by decide

end NetworkPool

end GridRelief
