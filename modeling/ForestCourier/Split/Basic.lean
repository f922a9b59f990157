import ForestCourier.Fault
import ForestCourier.Forest.Basic

/-!
Splits, the ranges of records that are read one at a time. Records of a forest are counted from one;
a split names its first and, if it is known, its last one. The last split of a forest reads to the
end of the forest even so, since records may have come after the count was taken. If only some hosts
are allowed, forest `i` is read through the host at `i`, and its replica `j` through the host at
`i + j`, both counted round the list.
-/

namespace ForestCourier

structure Split where
  forest : ForestId
  host : String
  start : UInt64
  stop : Option UInt64
  isLast : Bool
  replicas : List Replica
  redactionRules : List String
deriving DecidableEq

namespace Split

def size {ε : Type} (s : Split) : Except (Fault ε) (Option UInt64) :=
  match s.stop with
  | none => .ok none
  | some stop => (Word.add stop 1).map fun past => some (Word.monus past s.start)

end Split

/-- A forest with the number of records that the server estimates, if it is positive. -/
structure RecordCount where
  forest : ForestId
  host : String
  records : Int64
  replicas : List Replica
deriving DecidableEq

namespace RecordCount

/-- The count as a word; a negative one is none. -/
def estimate? (c : RecordCount) : Option UInt64 :=
  if 0 ≤ c.records.toInt then some (UInt64.ofNat c.records.toInt.toNat) else none

def hostAt (hosts : List String) (i : Nat) (standard : String) : String :=
  hosts[i % hosts.length]?.getD standard

def restrictAt (hosts : List String) (i : Nat) (c : RecordCount) : RecordCount :=
  { c with
    host := hostAt hosts i c.host
    replicas := c.replicas.mapIdx fun j r => { r with host := hostAt hosts (i + j) r.host } }

def restrict (hosts : List String) (forests : List RecordCount) : List RecordCount :=
  if hosts.isEmpty then forests else forests.mapIdx (restrictAt hosts)

end RecordCount

end ForestCourier
