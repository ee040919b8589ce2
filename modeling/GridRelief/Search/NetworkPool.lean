/-!
# Pools of networks

The leaves of a depth share a fixed number of copies of one network. A copy is leased to one leaf
at a time, which may change it. A leased copy never comes back: when the lease ends, a fresh copy
of the base takes its place, so that every lease starts from the base.

## Main definitions

* `NetworkPool N`: the copies that are free and the leases.
* `NetworkPool.checkout?`, `NetworkPool.change`, `NetworkPool.release`: the life of a lease.
-/

namespace GridRelief

variable {N : Type}

/-- Copies of a network, free or leased. -/
structure NetworkPool (N : Type) where
  base : N
  /-- The number of copies. -/
  size : Nat
  /-- The copies that are not leased. -/
  free : List N
  /-- The leased copy of each lease that has not ended, by number. -/
  leases : List (Option N)

namespace NetworkPool

/-- A pool of so many copies of a network, and of one copy at least. -/
def ofNetwork (base : N) (size : Nat) : NetworkPool N where
  base
  size := max size 1
  free := List.replicate (max size 1) base
  leases := []

/-- The number of free copies. -/
def available (p : NetworkPool N) : Nat := p.free.length

/-- The copies of the leases that have not ended. -/
def live (p : NetworkPool N) : List N := p.leases.filterMap fun lease => lease

/-- The copy of a lease that has not ended. -/
def lease? (p : NetworkPool N) (number : Nat) : Option N := (p.leases[number]?).join

/-- Lease a copy, if one is free; leases are numbered in order. -/
def checkout? (p : NetworkPool N) : Option (NetworkPool N) :=
  match p.free with
  | [] => none
  | copy :: rest => some { p with free := rest, leases := p.leases ++ [some copy] }

/-- Change the copy of a lease that has not ended. -/
def change (p : NetworkPool N) (number : Nat) (network : N) : NetworkPool N :=
  if (p.lease? number).isSome then { p with leases := p.leases.set number (some network) } else p

/-- End a lease that has not ended, and make a fresh copy free. -/
def release (p : NetworkPool N) (number : Nat) : NetworkPool N :=
  if (p.lease? number).isSome then
    { p with free := p.base :: p.free, leases := p.leases.set number none }
  else p

end NetworkPool

end GridRelief
