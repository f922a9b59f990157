import ForestCourier.Document.Uri
import ForestCourier.Fault
import ForestCourier.Placement.Rotation

/-!
Policies at work. A policy knows how many forests there are, or what they are loaded with, and
answers for each document the position of its forest. By key and by segment the answer hangs on the
URI alone, whose key is the 64-bit FNV-1a hash of its bytes; in buckets and partitions forests take turns, a batch each; by load the least loaded
forest is charged with a whole batch at once, which a failed batch gives back.
-/

namespace ForestCourier.Placement

def hashBasis : UInt64 := 0xcbf29ce484222325

def hashPrime : UInt64 := 0x100000001b3

def hashByte (h : UInt64) (b : UInt8) : UInt64 := (h ^^^ b.toUInt64) * hashPrime

def key (uri : String) : UInt64 := uri.toUTF8.toList.foldl hashByte hashBasis

def segmentCount : Nat := 16384

def segment (uri : String) : Nat := (key uri).toNat % segmentCount

theorem segment_lt (uri : String) : segment uri < segmentCount := Nat.mod_lt _ (by decide)

def keyIndex (uri : String) (n : Nat) : Option Nat :=
  if n = 0 then none else some ((key uri).toNat % n)

structure Bucket where
  forests : Nat
  batch : UInt64
  placed : UInt64
deriving DecidableEq

structure Statistical where
  batch : UInt64
  loads : List UInt64
deriving DecidableEq

structure Partitioned where
  kind : Kind
  batch : UInt64
  standard : Option String
  cache : PartitionCache
deriving DecidableEq

inductive Policy where
  | legacy (forests : Nat)
  | segment (forests : Nat)
  | bucket (state : Bucket)
  | statistical (state : Statistical)
  | partitioned (state : Partitioned)
deriving DecidableEq

abbrev Result := Except (Fault PlacementError)

namespace Bucket

def new (forests : Nat) (batch : UInt64) : Bucket := ⟨forests, batchOf batch, 0⟩

def place (b : Bucket) : Result Nat × Bucket :=
  if b.forests = 0 then (.error (.failed .noForests), b)
  else (.ok (turn b.placed b.batch b.forests), { b with placed := b.placed + 1 })

end Bucket

namespace Statistical

def new (loads : List UInt64) (batch : UInt64) : Statistical := ⟨batchOf batch, loads⟩

/-- The first position of a least load, from position `i` on, with that load. -/
def least (i : Nat) : List UInt64 → Option (Nat × UInt64)
  | [] => none
  | x :: xs =>
    match least (i + 1) xs with
    | some (j, y) => if y < x then some (j, y) else some (i, x)
    | none => some (i, x)

theorem least_eq_some {i j : Nat} {y : UInt64} {xs : List UInt64} (h : least i xs = some (j, y)) :
    i ≤ j ∧ xs[j - i]? = some y ∧ (∀ x ∈ xs, y ≤ x) ∧ ∀ k x, k < j - i → xs[k]? = some x → y < x := by
  induction xs generalizing i j y with
  | nil => cases h
  | cons x xs ih =>
    simp only [least] at h
    split at h
    · next j' y' hl =>
      have ⟨hle, hget, hmin, hfirst⟩ := ih hl
      split at h
      · next hlt =>
        cases h
        have hj : j - i = j - (i + 1) + 1 := by omega
        refine ⟨by omega, by simpa [hj] using hget, ?_, ?_⟩
        · intro z hz
          rcases List.mem_cons.mp hz with rfl | hz
          · exact UInt64.le_of_lt hlt
          · exact hmin z hz
        · intro k z hk hz
          cases k with
          | zero => cases hz; exact hlt
          | succ k => exact hfirst k z (by omega) (by simpa using hz)
      · next hge =>
        cases h
        have hxy : x ≤ y' := UInt64.not_lt.mp hge
        refine ⟨Nat.le_refl _, by simp, ?_, by intro k _ hk; omega⟩
        intro z hz
        rcases List.mem_cons.mp hz with rfl | hz
        · exact UInt64.le_refl _
        · exact UInt64.le_trans hxy (hmin z hz)
    · next hnone =>
      cases h
      refine ⟨Nat.le_refl _, by simp, ?_, by intro k _ hk; omega⟩
      intro z hz
      rcases List.mem_cons.mp hz with rfl | hz
      · exact UInt64.le_refl _
      · cases xs with
        | nil => cases hz
        | cons w ws =>
          simp only [least] at hnone
          split at hnone
          · split at hnone <;> cases hnone
          · cases hnone

def place (s : Statistical) : Result Nat × Statistical :=
  match least 0 s.loads with
  | none => (.error (.failed .noForests), s)
  | some (i, load) =>
    match Word.add load s.batch with
    | .ok charged => (.ok i, { s with loads := s.loads.set i charged })
    | .error fault => (.error fault, s)

/-- Takes a charge back; a load does not fall below zero. -/
def rollback (s : Statistical) (i : Nat) (count : UInt64) : Statistical :=
  match s.loads[i]? with
  | some load => { s with loads := s.loads.set i (Word.monus load count) }
  | none => s

end Statistical

namespace Partitioned

def defaultName : String := "default"

/-- The partition that documents go to if none is named. Range placement has to be told. -/
def standardName (kind : Kind) : Option String → Except PlacementError (Option String)
  | some name => .ok (some name)
  | none =>
    match kind with
    | .query => .ok (some defaultName)
    | .range => .error (.missingPartition kind)
    | _ => .ok none

def new (kind : Kind) (batch : UInt64) (partition : Option String) :
    Except PlacementError Partitioned :=
  (standardName kind partition).map fun name => ⟨kind, batchOf batch, name, .empty⟩

def place (p : Partitioned) (partition : Option String) : Result Nat × Partitioned :=
  match partition.or p.standard with
  | none => (.error (.failed (.missingPartition p.kind)), p)
  | some name =>
    match p.cache.get? name with
    | none => (.error (.failed (.unresolvedPartition name)), p)
    | some entry =>
      match entry.forests[turn entry.placed p.batch entry.forests.length]? with
      | none => (.error (.failed (.emptyPartition name)), p)
      | some i => (.ok i, { p with cache := p.cache.advance name })

end Partitioned

def segmentIndex (uri : String) (n : Nat) : Result Nat :=
  if n = 0 then .error (.failed .noForests)
  else if segment uri * n < UInt64.size then .ok (segment uri * n / segmentCount)
  else .error (.overflow .multiplication)

namespace Policy

def kind : Policy → Kind
  | legacy _ => .legacy
  | segment _ => .segment
  | bucket _ => .bucket
  | statistical _ => .statistical
  | partitioned p => p.kind

def place (uri : Uri) (partition : Option String) : Policy → Result Nat × Policy
  | legacy n =>
    match keyIndex uri.text n with
    | some i => (.ok i, legacy n)
    | none => (.error (.failed .noForests), legacy n)
  | segment n => (segmentIndex uri.text n, segment n)
  | bucket b =>
    match b.place with
    | (r, b) => (r, bucket b)
  | statistical s =>
    match s.place with
    | (r, s) => (r, statistical s)
  | partitioned p =>
    match p.place partition with
    | (r, p) => (r, partitioned p)

def rollback (i : Nat) (count : UInt64) : Policy → Policy
  | statistical s => statistical (s.rollback i count)
  | p => p

def loads? : Policy → Option (List UInt64)
  | statistical s => some s.loads
  | _ => none

def cache? : Policy → Option PartitionCache
  | partitioned p => some p.cache
  | _ => none

def insertPartition (name : String) (forests : List Nat) : Policy → Policy
  | partitioned p => partitioned { p with cache := p.cache.insert name forests }
  | p => p

def standardPartition : Policy → Option String
  | partitioned p => p.standard
  | _ => none

end Policy

end ForestCourier.Placement
