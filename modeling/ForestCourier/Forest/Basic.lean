/-!
Forests, the units a database is stored in. A forest is served by one host and may have replicas on
others; its replica list names every place it can be reached at, its own included.
-/

namespace ForestCourier

structure ForestId where
  text : String
deriving DecidableEq

namespace ForestId

/-- Servers name forests by number or by text; a number is kept as its decimal digits. -/
def ofNat (n : Nat) : ForestId := ⟨toString n⟩

end ForestId

structure Replica where
  forest : ForestId
  host : String
deriving DecidableEq

structure Forest where
  id : ForestId
  host : String
  updatable : Bool
  replicas : List Replica
  documents : UInt64
deriving DecidableEq

end ForestCourier
