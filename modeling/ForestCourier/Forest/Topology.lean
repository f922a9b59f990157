import ForestCourier.Forest.Basic

/-!
The forests of a database, in the order in which the server lists them. An id that is listed more
than once belongs to its last forest. Restricting a topology to a list of hosts gives forest `i` the
host at `i`, counted round the list, and lets it fail over to all others from there on.
-/

namespace ForestCourier

structure Topology where
  forests : List Forest
deriving DecidableEq

namespace Topology

def size (t : Topology) : Nat := t.forests.length

def lastIndex? {α : Type} (p : α → Bool) : List α → Option Nat
  | [] => none
  | x :: xs =>
    match lastIndex? p xs with
    | some i => some (i + 1)
    | none => if p x then some 0 else none

theorem lastIndex?_lt {α : Type} {p : α → Bool} {xs : List α} {i : Nat}
    (h : lastIndex? p xs = some i) : i < xs.length := by
  induction xs generalizing i with
  | nil => cases h
  | cons x xs ih =>
    simp only [lastIndex?] at h
    split at h
    · next j hj =>
      cases h
      have := ih hj
      simpa using this
    · split at h
      · cases h; simp
      · cases h

theorem lastIndex?_isSome {α : Type} (p : α → Bool) (xs : List α) :
    (lastIndex? p xs).isSome = xs.any p := by
  induction xs with
  | nil => rfl
  | cons x xs ih =>
    cases h : lastIndex? p xs with
    | none => by_cases hx : p x <;> simp_all [lastIndex?]
    | some i => simp_all [lastIndex?]

theorem holds_of_lastIndex? {α : Type} {p : α → Bool} {xs : List α} {i : Nat}
    (h : lastIndex? p xs = some i) : xs[i]?.any p = true := by
  induction xs generalizing i with
  | nil => cases h
  | cons x xs ih =>
    simp only [lastIndex?] at h
    split at h
    · next j hj => cases h; simpa using ih hj
    · split at h
      · next hx => cases h; simpa using hx
      · cases h

def indexOf? (t : Topology) (id : ForestId) : Option Nat :=
  lastIndex? (fun f => f.id == id) t.forests

def get? (t : Topology) (id : ForestId) : Option Forest :=
  (t.indexOf? id).bind fun i => t.forests[i]?

def updatable (t : Topology) : List Nat :=
  (List.range t.forests.length).filter fun i =>
    match t.forests[i]? with
    | some f => f.updatable
    | none => false

/-- The hosts in order of their first forest. -/
def hosts (t : Topology) : List String := (t.forests.map (·.host)).eraseDups

/-- Forest `f` as the one at position `i`, reached through the allowed hosts only. -/
def restrictForest (allowed : List String) (i : Nat) (f : Forest) : Forest :=
  let turned := allowed.rotateLeft (i % allowed.length)
  { f with
    host := turned.headD f.host
    replicas := turned.map fun h => ⟨f.id, h⟩ }

def restrict (t : Topology) (allowed : List String) : Topology :=
  if allowed.isEmpty then t else ⟨t.forests.mapIdx (restrictForest allowed)⟩

theorem size_restrict (t : Topology) (allowed : List String) :
    (t.restrict allowed).size = t.size := by
  unfold restrict size
  split <;> simp

end Topology

end ForestCourier
