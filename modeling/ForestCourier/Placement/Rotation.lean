import ForestCourier.Placement.Kind

/-!
Placement in turns of a whole batch each, and partitions, which have such a rotation of their own. A
partition keeps the forests it was first given together with its rotation, whatever it is given
later.
-/

namespace ForestCourier.Placement

/-- The position of turn `placed / batch` among `n`. -/
def turn (placed batch : UInt64) (n : Nat) : Nat := (placed / batch).toNat % n

theorem turn_lt {placed batch : UInt64} {n : Nat} (h : 0 < n) : turn placed batch n < n :=
  Nat.mod_lt _ h

def batchOf (size : UInt64) : UInt64 := if size = 0 then 1 else size

structure Partition where
  forests : List Nat
  placed : UInt64
deriving DecidableEq

structure PartitionCache where
  entries : List (String × Partition)
deriving DecidableEq

namespace PartitionCache

def empty : PartitionCache := ⟨[]⟩

def get? (c : PartitionCache) (name : String) : Option Partition := c.entries.lookup name

def contains (c : PartitionCache) (name : String) : Bool := (c.get? name).isSome

def size (c : PartitionCache) : Nat := c.entries.length

def insert (c : PartitionCache) (name : String) (forests : List Nat) : PartitionCache :=
  if c.contains name then c else ⟨c.entries ++ [(name, ⟨forests, 0⟩)]⟩

def advance (c : PartitionCache) (name : String) : PartitionCache :=
  ⟨c.entries.map fun e => if e.1 = name then (e.1, { e.2 with placed := e.2.placed + 1 }) else e⟩

theorem insert_of_contains {c : PartitionCache} {name : String} (forests : List Nat)
    (h : c.contains name = true) : c.insert name forests = c := by
  simp [insert, h]

theorem get?_insert_of_not_contains {c : PartitionCache} {name : String} (forests : List Nat)
    (k : String) (h : c.contains name = false) :
    (c.insert name forests).get? k = if k = name then some ⟨forests, 0⟩ else c.get? k := by
  have hn : c.entries.lookup name = none := by simpa [contains, get?] using h
  by_cases hk : k = name
  · subst hk
    simp [insert, h, get?, List.lookup_append, hn]
  · have hk' : (k == name) = false := by simpa using hk
    simp [insert, h, get?, List.lookup_append, hk, hk', List.lookup_cons]

theorem get?_advance (c : PartitionCache) (name k : String) :
    (c.advance name).get? k =
      if k = name then (c.get? k).map fun p => { p with placed := p.placed + 1 } else c.get? k := by
  unfold advance get?
  induction c.entries with
  | nil => simp
  | cons e es ih =>
    obtain ⟨n, p⟩ := e
    by_cases hn : n = name
    · subst hn
      by_cases hk : k = n
      · subst hk; simp
      · have hk' : (k == n) = false := by simpa using hk
        simpa [List.lookup_cons, hk, hk'] using ih
    · by_cases hk : k = n
      · subst hk; simp [hn]
      · have hk' : (k == n) = false := by simpa using hk
        simpa [List.lookup_cons, hn, hk'] using ih

end PartitionCache

end ForestCourier.Placement
