import ForestCourier.Forest.Basic

/-!
The place in a replica list that requests go to. It starts at the replica on the host that serves
the forest, and every step goes on by one round the list.
-/

namespace ForestCourier

structure ReplicaCursor where
  replicas : List Replica
  position : Nat
  position_lt : position < replicas.length
deriving DecidableEq

namespace ReplicaCursor

/-- No cursor stands in an empty list. A list without the host is entered at its start. -/
def new (replicas : List Replica) (host : String) : Option ReplicaCursor :=
  if h : 0 < replicas.length then
    let start := (replicas.findIdx? (fun r => r.host == host)).getD 0
    some ⟨replicas, start % replicas.length, Nat.mod_lt _ h⟩
  else none

def size (c : ReplicaCursor) : Nat := c.replicas.length

def current (c : ReplicaCursor) : Replica := c.replicas.get ⟨c.position, c.position_lt⟩

def advance (c : ReplicaCursor) : ReplicaCursor :=
  ⟨c.replicas, (c.position + 1) % c.replicas.length,
    Nat.mod_lt _ (Nat.lt_of_le_of_lt (Nat.zero_le _) c.position_lt)⟩

theorem replicas_advance (c : ReplicaCursor) : c.advance.replicas = c.replicas := rfl

theorem position_advance (c : ReplicaCursor) : c.advance.position = (c.position + 1) % c.size := rfl

end ReplicaCursor

end ForestCourier
