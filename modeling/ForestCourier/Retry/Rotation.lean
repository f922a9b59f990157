/-!
The output host that requests go to when the server places documents. A host that fails is blocked,
and the next host round the list that is not blocked takes over; once all are blocked, all are free
again and the turn goes to the next one.
-/

namespace ForestCourier

structure HostRotation where
  hosts : List String
  blocked : List Nat
  index : Nat
  index_lt : index < hosts.length
deriving DecidableEq

namespace HostRotation

def new (hosts : List String) (start : Nat) : Option HostRotation :=
  if h : 0 < hosts.length then some ⟨hosts, [], start % hosts.length, Nat.mod_lt _ h⟩ else none

def size (r : HostRotation) : Nat := r.hosts.length

def current (r : HostRotation) : String := r.hosts.get ⟨r.index, r.index_lt⟩

/-- The position `step + 1` places on. -/
def ahead (r : HostRotation) (step : Nat) : Nat := (r.index + step + 1) % r.size

/-- How many positions to pass over, if one is free once the current one is blocked. -/
def freeStep? (r : HostRotation) : Option Nat :=
  (List.range r.size).find? fun s => !(r.index :: r.blocked).contains (r.ahead s)

def fail (r : HostRotation) : HostRotation :=
  ⟨r.hosts, if r.freeStep?.isSome then r.index :: r.blocked else [], r.ahead (r.freeStep?.getD 0),
    Nat.mod_lt _ (Nat.lt_of_le_of_lt (Nat.zero_le _) r.index_lt)⟩

end HostRotation

end ForestCourier
