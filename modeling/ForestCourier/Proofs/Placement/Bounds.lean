import Mathlib.Data.List.Basic
import Mathlib.Tactic.Common
import ForestCourier.Placement.Manager

/-!
Placements stay within the forests of their manager. A policy is `Within` a number of forests if
everything it may answer lies below that number; every use of a manager keeps this, and a new manager
starts with it. `Reachable` collects the managers that a job can come to hold, however many writers
share them.
-/

namespace ForestCourier.Placement

variable {n i : Nat}

namespace PartitionCache

def Within (n : Nat) (c : PartitionCache) : Prop := ∀ e ∈ c.entries, ∀ i ∈ e.2.forests, i < n

theorem within_advance {c : PartitionCache} (h : c.Within n) (name : String) :
    (c.advance name).Within n := by
  intro e he j hj
  obtain ⟨e', he', rfl⟩ := List.mem_map.mp he
  split at hj <;> exact h e' he' j hj

theorem within_insert {c : PartitionCache} (h : c.Within n) (name : String) {forests : List Nat}
    (hf : ∀ j ∈ forests, j < n) : (c.insert name forests).Within n := by
  unfold insert
  split
  · exact h
  · intro e he
    rcases List.mem_append.mp he with he | he
    · exact h e he
    · rw [List.mem_singleton.mp he]
      exact hf

theorem mem_of_get? {c : PartitionCache} {name : String} {p : Partition}
    (h : c.get? name = some p) : ∃ e ∈ c.entries, e.2 = p := by
  obtain ⟨entries⟩ := c
  simp only [get?] at h
  induction entries with
  | nil => cases h
  | cons e es ih =>
    rw [List.lookup_cons] at h
    split at h
    · exact ⟨e, List.mem_cons_self, Option.some.inj h⟩
    · obtain ⟨e', he', rfl⟩ := ih h
      exact ⟨e', List.mem_cons_of_mem _ he', rfl⟩

end PartitionCache

theorem least_lt {k j : Nat} {y : UInt64} {xs : List UInt64}
    (h : Statistical.least k xs = some (j, y)) :
    j - k < xs.length := by
  have hget := (Statistical.least_eq_some h).2.1
  by_contra hge
  rw [List.getElem?_eq_none (by omega)] at hget
  cases hget

theorem segmentIndex_lt {uri : String} {m : Nat} (h : segmentIndex uri m = .ok i) : i < m := by
  unfold segmentIndex at h
  split at h
  · cases h
  · split at h
    · cases h
      have hs : segment uri < segmentCount := segment_lt uri
      rw [Nat.div_lt_iff_lt_mul (by decide), Nat.mul_comm m]
      exact Nat.mul_lt_mul_of_pos_right hs (by omega)
    · cases h

namespace Policy

def Within (n : Nat) : Policy → Prop
  | legacy m | segment m => m ≤ n
  | bucket b => b.forests ≤ n
  | statistical s => s.loads.length ≤ n
  | partitioned p => p.cache.Within n

theorem place_lt {p : Policy} {uri : Uri} {partition : Option String} (h : p.Within n)
    (hp : (p.place uri partition).1 = .ok i) : i < n := by
  cases p with
  | legacy m =>
    simp only [place, keyIndex] at hp
    split at hp
    · next hk =>
      cases hp
      split at hk
      · cases hk
      · cases hk
        exact Nat.lt_of_lt_of_le (Nat.mod_lt _ (by omega)) h
    · cases hp
  | segment m => exact Nat.lt_of_lt_of_le (segmentIndex_lt hp) h
  | bucket b =>
    simp only [place, Bucket.place] at hp
    split at hp
    · cases hp
    · cases hp
      exact Nat.lt_of_lt_of_le (turn_lt (by omega)) h
  | statistical s =>
    simp only [place, Statistical.place] at hp
    split at hp
    · cases hp
    · next hl =>
      split at hp
      · cases hp
        have hlt := least_lt hl
        simp only [Within] at h
        omega
      · cases hp
  | partitioned p =>
    simp only [place, Partitioned.place] at hp
    split at hp
    · cases hp
    · split at hp
      · cases hp
      · next hget =>
        split at hp
        · cases hp
        · next hi =>
          cases hp
          obtain ⟨e, he, rfl⟩ := PartitionCache.mem_of_get? hget
          exact h e he _ (List.mem_of_getElem? hi)

theorem within_place {p : Policy} (h : p.Within n) (uri : Uri) (partition : Option String) :
    (p.place uri partition).2.Within n := by
  cases p with
  | legacy m => simp only [place]; split <;> exact h
  | segment m => exact h
  | bucket b => simp only [place, Bucket.place]; split <;> exact h
  | statistical s =>
    simp only [place, Statistical.place]
    split
    · exact h
    · split
      · simpa [Within] using h
      · exact h
  | partitioned p =>
    simp only [place, Partitioned.place]
    split
    · exact h
    · split
      · exact h
      · split
        · exact h
        · exact PartitionCache.within_advance h _

theorem within_rollback {p : Policy} (h : p.Within n) (i : Nat) (count : UInt64) :
    (p.rollback i count).Within n := by
  cases p with
  | statistical s =>
    simp only [rollback, Statistical.rollback]
    split
    · simpa [Within] using h
    · exact h
  | _ => exact h

theorem within_insertPartition {p : Policy} (h : p.Within n) (name : String) {forests : List Nat}
    (hf : ∀ j ∈ forests, j < n) : (p.insertPartition name forests).Within n := by
  cases p with
  | partitioned p => exact PartitionCache.within_insert h name hf
  | _ => exact h

end Policy

namespace Manager

/-- Every forest that takes documents is known, and the policy answers such forests only. -/
structure Sound (m : Manager) : Prop where
  forests : m.forests.length = m.forestCount
  policy : m.policy.Within m.forestCount

theorem updatable_lt {t : Topology} {j : Nat} (h : j ∈ t.updatable) : j < t.forests.length := by
  simp only [Topology.updatable, List.mem_filter, List.mem_range] at h
  exact h.1

theorem length_forests {m : Manager} (h : m.updatable = m.topology.updatable) :
    m.forests.length = m.forestCount := by
  have hsome : ∀ i ∈ List.range m.forestCount, (m.forest? i).isSome := by
    intro i hi
    have hlt : i < m.updatable.length := List.mem_range.mp hi
    have hmem : m.updatable[i] ∈ m.topology.updatable := h ▸ List.getElem_mem hlt
    simp [forest?, List.getElem?_eq_getElem hlt, updatable_lt hmem]
  unfold forests
  rw [List.length_filterMap_eq_countP, List.countP_eq_length.mpr hsome, List.length_range]

theorem within_policyFor {kind : Kind} {t : Topology} {updatable : List Nat} {batch : UInt64}
    {partition : Option String} {p : Policy}
    (h : policyFor kind t updatable batch partition = .ok p) : p.Within updatable.length := by
  have hpart : ∀ {q : Partitioned}, Partitioned.new kind batch partition = .ok q →
      q.cache.Within updatable.length := by
    intro q hq
    unfold Partitioned.new at hq
    cases hn : Partitioned.standardName kind partition with
    | error e => rw [hn] at hq; cases hq
    | ok name =>
      rw [hn] at hq
      cases hq
      intro e he
      cases he
  cases kind with
  | legacy | segment => cases h; exact Nat.le_refl _
  | bucket => cases h; exact Nat.le_refl _
  | statistical => cases h; simp [Policy.Within, Statistical.new]
  | range | query =>
    simp only [policyFor] at h
    cases hq : Partitioned.new _ batch partition with
    | error e => rw [hq] at h; cases h
    | ok q => rw [hq] at h; cases h; exact hpart hq

theorem sound_new {kind : Kind} {t : Topology} {batch : UInt64} {partition : Option String}
    {m : Manager} (h : Manager.new kind t batch partition = .ok m) : m.Sound := by
  simp only [Manager.new] at h
  split at h
  · cases h
  · cases hp : policyFor kind t t.updatable batch partition with
    | error e => rw [hp] at h; cases h
    | ok p =>
      rw [hp] at h
      cases h
      exact ⟨length_forests rfl, within_policyFor hp⟩

theorem Sound.of_policy {m : Manager} (h : m.Sound) {p : Policy} (hp : p.Within m.forestCount) :
    Sound { m with policy := p } := ⟨h.forests, hp⟩

theorem Sound.place {m : Manager} (h : m.Sound) (uri : Uri) (partition : Option String) :
    (m.place uri partition).2.Sound := h.of_policy (Policy.within_place h.policy uri partition)

theorem Sound.rollback {m : Manager} (h : m.Sound) (i : Nat) (count : UInt64) :
    (m.rollback i count).Sound := h.of_policy (Policy.within_rollback h.policy i count)

theorem indexOf?_lt {m : Manager} {id : ForestId} (h : m.indexOf? id = some i) :
    i < m.forestCount := by
  obtain ⟨j, -, hj⟩ := Option.bind_eq_some_iff.mp h
  exact (List.findIdx?_eq_some_iff_getElem.mp hj).1

theorem partitionIndices_lt {m : Manager} {ids : List ForestId} {indices : List Nat}
    (h : m.partitionIndices ids = .ok indices) : ∀ j ∈ indices, j < m.forestCount := by
  induction ids generalizing indices with
  | nil => cases h; intro j hj; cases hj
  | cons id ids ih =>
    simp only [partitionIndices] at h
    split at h
    · next k hk =>
      cases hr : m.partitionIndices ids with
      | error e => rw [hr] at h; cases h
      | ok rest =>
        rw [hr] at h
        cases h
        intro j hj
        rcases List.mem_cons.mp hj with rfl | hj
        · exact indexOf?_lt hk
        · exact ih hr j hj
    · split at h
      · exact ih h
      · cases h

theorem Sound.cachePartition {m : Manager} (h : m.Sound) (name : String) (ids : List ForestId) :
    (m.cachePartition name ids).2.Sound := by
  unfold Manager.cachePartition
  split
  · exact h
  · split
    · exact h
    · next hi => exact h.of_policy (Policy.within_insertPartition h.policy name (partitionIndices_lt hi))

theorem Sound.place_lt {m : Manager} (h : m.Sound) {uri : Uri} {partition : Option String}
    (hp : (m.place uri partition).1 = .ok i) : i < m.forestCount := Policy.place_lt h.policy hp

/-- The managers a job comes to hold: new ones, and what placements, rollbacks and partitions that
any writer asks for make of them. -/
inductive Reachable : Manager → Prop
  | new {kind : Kind} {t : Topology} {batch : UInt64} {partition : Option String} {m : Manager} :
      Manager.new kind t batch partition = .ok m → Reachable m
  | place {m : Manager} (uri : Uri) (partition : Option String) :
      Reachable m → Reachable (m.place uri partition).2
  | rollback {m : Manager} (i : Nat) (count : UInt64) : Reachable m → Reachable (m.rollback i count)
  | cachePartition {m : Manager} (name : String) (ids : List ForestId) :
      Reachable m → Reachable (m.cachePartition name ids).2

theorem Reachable.sound {m : Manager} (h : Reachable m) : m.Sound := by
  induction h with
  | new h => exact sound_new h
  | place uri partition _ ih => exact ih.place uri partition
  | rollback i count _ ih => exact ih.rollback i count
  | cachePartition name ids _ ih => exact ih.cachePartition name ids

end Manager

end ForestCourier.Placement
