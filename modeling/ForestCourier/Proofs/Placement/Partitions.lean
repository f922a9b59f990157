import Mathlib.Data.List.Forall2
import ForestCourier.Proofs.Placement.Rotations

/-!
What is cached for a partition. The forests that a server names for it are looked up in the topology and,
from there, among the forests that take documents, so that an index always leads back to the forest that was
named. A request to cache a partition fails on the first id that is not listed, and leaves everything as it
was; what is cached by the first that succeeds stays, with its rotation.
-/

namespace ForestCourier

namespace Topology

variable {t : Topology} {id : ForestId}

def lists (t : Topology) (id : ForestId) : Bool := t.forests.any (·.id == id)

def takes (t : Topology) (id : ForestId) : Bool := (t.get? id).any (·.updatable)

theorem isSome_indexOf? (t : Topology) (id : ForestId) : (t.indexOf? id).isSome = t.lists id :=
  lastIndex?_isSome _ _

theorem getElem?_of_indexOf? {j : Nat} (h : t.indexOf? id = some j) : (t.forests[j]?).map (·.id) = some id := by
  have hj := lastIndex?_lt h
  have hholds := holds_of_lastIndex? h
  rw [List.getElem?_eq_getElem hj] at hholds ⊢
  simpa using hholds

theorem get?_eq_some_iff {f : Forest} : t.get? id = some f ↔ ∃ j, t.indexOf? id = some j ∧ t.forests[j]? = some f :=
  Option.bind_eq_some_iff

theorem isSome_get? (t : Topology) (id : ForestId) : (t.get? id).isSome = t.lists id := by
  rw [← isSome_indexOf?]
  unfold get?
  cases h : t.indexOf? id with
  | none => rfl
  | some j =>
    rw [Option.bind_some, List.getElem?_eq_getElem (lastIndex?_lt h)]
    rfl

theorem indexOf?_eq_some_iff (h : (t.forests.map (·.id)).Nodup) {j : Nat} :
    t.indexOf? id = some j ↔ (t.forests[j]?).map (·.id) = some id := by
  refine ⟨getElem?_of_indexOf?, fun hj => ?_⟩
  obtain ⟨f, hf, hid⟩ := Option.map_eq_some_iff.mp hj
  have hlists : t.lists id = true := List.any_eq_true.mpr ⟨f, List.mem_of_getElem? hf, by simpa using hid⟩
  obtain ⟨k, hk⟩ := Option.isSome_iff_exists.mp ((t.isSome_indexOf? id).trans hlists)
  have hat := getElem?_of_indexOf? hk
  rw [← List.getElem?_map] at hat hj
  have hlt : k < (t.forests.map (·.id)).length := by simpa using lastIndex?_lt hk
  rw [hk, (List.getElem?_inj hlt h).mp (hat.trans hj.symm)]

theorem nodup_updatable (t : Topology) : t.updatable.Nodup := List.nodup_range.filter _

theorem mem_updatable_iff {j : Nat} : j ∈ t.updatable ↔ ∃ f, t.forests[j]? = some f ∧ f.updatable = true := by
  refine ⟨Placement.Manager.mem_updatable, fun ⟨f, hf, htakes⟩ => ?_⟩
  refine List.mem_filter.mpr ⟨List.mem_range.mpr (List.getElem?_eq_some_iff.mp hf).1, ?_⟩
  rw [hf]
  exact htakes

end Topology

namespace Placement

namespace Policy

variable {p : Policy} {name : String}

theorem assigned_eq (h : p.cache?.isSome = true) (name : String) :
    p.assigned name = (p.rotation? (some name)).map (·.forests) := by
  cases p with
  | partitioned q => rfl
  | _ => cases h

theorem insertPartition_kept {e : Partition} (h : p.rotation? (some name) = some e) (forests : List Nat) :
    p.insertPartition name forests = p := by
  cases p with
  | partitioned q =>
    have hcontains : q.cache.contains name = true := Option.isSome_iff_exists.mpr ⟨e, h⟩
    rw [insertPartition, PartitionCache.insert_of_contains forests hcontains]
  | _ => rfl

theorem insertPartition_added (hcaches : p.cache?.isSome = true) (h : p.rotation? (some name) = none)
    (forests : List Nat) (lane : Option String) :
    (p.insertPartition name forests).rotation? lane =
      if lane = some name then some ⟨forests, 0⟩ else p.rotation? lane := by
  cases p with
  | partitioned q =>
    have hcontains : q.cache.contains name = false := by
      rw [PartitionCache.contains, show q.cache.get? name = none from h, Option.isSome_none]
    cases lane with
    | none => rfl
    | some k =>
      simp only [Option.some.injEq]
      exact PartitionCache.get?_insert_of_not_contains forests k hcontains
  | _ => cases hcaches

end Policy

namespace Manager

variable {m : Manager} {id : ForestId} {i : Nat}

theorem caches_policyFor {kind : Kind} {t : Topology} {updatable : List Nat} {batch : UInt64}
    {partition : Option String} {p : Policy} (h : policyFor kind t updatable batch partition = .ok p) :
    p.cache?.isSome = p.kind.partitioned := by
  cases kind with
  | legacy | segment | bucket | statistical =>
    cases h
    rfl
  | range | query =>
    unfold policyFor Partitioned.new at h
    cases hname : Partitioned.standardName _ partition with
    | error e =>
      rw [hname] at h
      cases h
    | ok name =>
      rw [hname] at h
      cases h
      rfl

theorem Reachable.caches (h : m.Reachable) : m.policy.cache?.isSome = m.kind.partitioned := by
  have halike {p p' : Policy} (h : p.Alike p') (hp : p.cache?.isSome = p.kind.partitioned) :
      p'.cache?.isSome = p'.kind.partitioned := by
    rw [h.caches, h.kind, hp]
  induction h with
  | new h =>
    unfold Manager.new at h
    dsimp only at h
    split at h
    · cases h
    · cases hp : policyFor _ _ _ _ _ with
      | error e =>
        rw [hp] at h
        cases h
      | ok p =>
        rw [hp] at h
        cases h
        exact caches_policyFor hp
  | @place m uri partition _ ih => exact halike (m.policy.place_alike uri partition).1 ih
  | @rollback m i count _ ih => exact halike (m.policy.rollback_alike i count).1 ih
  | @cachePartition m name ids _ ih =>
    obtain hsame | ⟨forests, hadded⟩ := m.policy_cachePartition name ids
    · exact halike (hsame ▸ .refl _) ih
    · exact halike (hadded ▸ (m.policy.insertPartition_alike name forests).1) ih

theorem Reachable.updatable (h : m.Reachable) : m.updatable = m.topology.updatable := by
  induction h with
  | new h =>
    obtain ⟨htopology, hupdatable, -⟩ := new_settings h
    rw [htopology, hupdatable]
  | place uri partition _ ih => exact ih
  | rollback i count _ ih => exact ih
  | @cachePartition m name ids _ ih =>
    rw [m.fixed_cachePartition]
    exact ih

/-! Indices of forests. -/

theorem lists_of_indexOf? (h : m.indexOf? id = some i) : m.topology.lists id = true := by
  obtain ⟨j, hj, -⟩ := Option.bind_eq_some_iff.mp h
  rw [← Topology.isSome_indexOf?, hj]
  rfl

theorem Reachable.indexOf?_eq_some_iff (h : m.Reachable) :
    m.indexOf? id = some i ↔ ∃ j, m.topology.indexOf? id = some j ∧ m.updatable[i]? = some j := by
  refine Option.bind_eq_some_iff.trans (exists_congr fun j => and_congr_right fun _ => ?_)
  rw [List.findIdx?_eq_some_iff_getElem, List.getElem?_eq_some_iff]
  refine exists_congr fun hi => ⟨fun ⟨hat, _⟩ => eq_of_beq hat, fun hat => ⟨beq_iff_eq.mpr hat, fun k hk hat' => ?_⟩⟩
  have hnodup : m.updatable.Nodup := h.updatable ▸ m.topology.nodup_updatable
  exact Nat.ne_of_lt hk ((List.Nodup.getElem_inj_iff hnodup).mp ((eq_of_beq hat').trans hat.symm))

theorem Reachable.isSome_indexOf? (h : m.Reachable) (id : ForestId) : (m.indexOf? id).isSome = m.topology.takes id := by
  rw [Bool.eq_iff_iff, Option.isSome_iff_exists, Topology.takes, Option.any_eq_true]
  constructor
  · rintro ⟨i, hi⟩
    obtain ⟨f, hf, -, htakes⟩ := forest?_updatable h.updatable (indexOf?_lt hi)
    exact ⟨f, (forest?_indexOf? hi).symm.trans hf, htakes⟩
  · rintro ⟨f, hf, htakes⟩
    obtain ⟨j, hj, hat⟩ := Topology.get?_eq_some_iff.mp hf
    have hmem : j ∈ m.updatable := h.updatable ▸ Topology.mem_updatable_iff.mpr ⟨f, hat, htakes⟩
    obtain ⟨i, hi⟩ := List.mem_iff_getElem?.mp hmem
    exact ⟨i, h.indexOf?_eq_some_iff.mpr ⟨j, hj, hi⟩⟩

theorem id_of_indexOf? (h : m.indexOf? id = some i) : (m.forest? i).map (·.id) = some id := by
  obtain ⟨j, hj, -⟩ := Option.bind_eq_some_iff.mp h
  rw [forest?_indexOf? h, Topology.get?, hj]
  exact Topology.getElem?_of_indexOf? hj

theorem Reachable.indexOf?_iff (h : m.Reachable) (hdistinct : (m.topology.forests.map (·.id)).Nodup) :
    m.indexOf? id = some i ↔ (m.forest? i).map (·.id) = some id := by
  refine ⟨id_of_indexOf?, fun hi => ?_⟩
  obtain ⟨f, hf, hid⟩ := Option.map_eq_some_iff.mp hi
  obtain ⟨j, hj, hat⟩ := Option.bind_eq_some_iff.mp hf
  refine h.indexOf?_eq_some_iff.mpr ⟨j, (Topology.indexOf?_eq_some_iff hdistinct).mpr ?_, hj⟩
  rw [hat]
  exact congrArg some hid

/-- The indices of those of the ids whose forests take documents, in order. Each leads back to its forest. -/
def Names (m : Manager) (ids : List ForestId) (indices : List Nat) : Prop :=
  List.Forall₂ (fun id i => m.indexOf? id = some i ∧ (m.forest? i).map (·.id) = some id)
    (ids.filter m.topology.takes) indices

theorem Reachable.names_filterMap (h : m.Reachable) (ids : List ForestId) :
    m.Names ids (ids.filterMap m.indexOf?) := by
  unfold Names
  induction ids with
  | nil => exact .nil
  | cons id ids ih =>
    have htakes := h.isSome_indexOf? id
    cases hi : m.indexOf? id with
    | none =>
      rw [hi] at htakes
      rwa [List.filter_cons_of_neg (by simp [← htakes]), List.filterMap_cons_none hi]
    | some i =>
      rw [hi] at htakes
      rw [List.filter_cons_of_pos htakes.symm, List.filterMap_cons_some hi]
      exact .cons ⟨hi, id_of_indexOf? hi⟩ ih

theorem partitionIndices_eq (m : Manager) (ids : List ForestId) :
    m.partitionIndices ids =
      match ids.find? fun id => !m.topology.lists id with
      | some id => .error (.unknownForest id)
      | none => .ok (ids.filterMap m.indexOf?) := by
  induction ids with
  | nil => rfl
  | cons id ids ih =>
    unfold partitionIndices
    rw [Topology.isSome_get?, ih]
    cases hi : m.indexOf? id with
    | some i =>
      have hlists := lists_of_indexOf? hi
      rw [List.find?_cons_of_neg (by simp [hlists]), List.filterMap_cons_some hi]
      cases ids.find? fun id => !m.topology.lists id <;> rfl
    | none =>
      cases hlists : m.topology.lists id with
      | true => rw [List.find?_cons_of_neg (by simp [hlists]), List.filterMap_cons_none hi, if_pos rfl]
      | false => rw [List.find?_cons_of_pos (by simp [hlists]), if_neg Bool.false_ne_true]

theorem Reachable.cachePartition_eq_self (h : m.Reachable) (hkind : m.kind.partitioned = false) (name : String)
    (ids : List ForestId) : m.cachePartition name ids = (.ok none, m) := by
  have hnone : m.policy.cache? = none := by simpa using h.caches.trans hkind
  rw [Manager.cachePartition, hnone]

theorem Reachable.cachePartition_eq (h : m.Reachable) (hkind : m.kind.partitioned = true) (name : String)
    (ids : List ForestId) :
    m.cachePartition name ids =
      match ids.find? fun id => !m.topology.lists id with
      | some id => (.error (.unknownForest id), m)
      | none => (.ok ((m.policy.insertPartition name (ids.filterMap m.indexOf?)).assigned name),
          { m with policy := m.policy.insertPartition name (ids.filterMap m.indexOf?) }) := by
  obtain ⟨c, hc⟩ := Option.isSome_iff_exists.mp (h.caches.trans hkind)
  unfold Manager.cachePartition
  rw [hc, partitionIndices_eq]
  cases ids.find? fun id => !m.topology.lists id <;> rfl

/-- What is cached for a partition are the indices of forests that were named for it. -/
theorem Reachable.names (h : m.Reachable) {name : String} {indices : List Nat}
    (hindices : m.policy.assigned name = some indices) : ∃ ids, m.Names ids indices := by
  induction h with
  | new h =>
    obtain ⟨-, -, -, -, hnone⟩ := new_settings h
    rw [hnone] at hindices
    cases hindices
  | @place m uri partition _ ih => exact ih (((m.policy.place_alike uri partition).2 name).symm.trans hindices)
  | @rollback m i count _ ih => exact ih (((m.policy.rollback_alike i count).2 name).symm.trans hindices)
  | @cachePartition m name' ids hm ih =>
    cases hkind : m.kind.partitioned with
    | false =>
      rw [hm.cachePartition_eq_self hkind] at hindices ⊢
      exact ih hindices
    | true =>
      rw [hm.cachePartition_eq hkind] at hindices ⊢
      cases hfind : ids.find? fun id => !m.topology.lists id with
      | some id =>
        rw [hfind] at hindices
        exact ih hindices
      | none =>
        rw [hfind] at hindices
        have hadded := (m.policy.insertPartition_alike name' (ids.filterMap m.indexOf?)).2 (hm.caches.trans hkind) name
        rw [hadded, Option.or_eq_some_iff] at hindices
        obtain hbefore | ⟨-, hnow⟩ := hindices
        · exact ih hbefore
        · obtain ⟨-, hnow⟩ := Option.ite_none_right_eq_some.mp hnow
          exact ⟨ids, Option.some.inj hnow ▸ hm.names_filterMap ids⟩

/-- A request to cache a partition is answered with what is cached for it from the first request on that succeeded,
and a request that fails leaves everything as it was. Every index leads back to the forest that was named. -/
theorem cachePartition_atomic {m : Manager} (h : m.Reachable) (name : String) (ids : List ForestId) :
    (m.kind.partitioned = false → m.cachePartition name ids = (.ok none, m)) ∧
    (m.kind.partitioned = true →
      ((m.cachePartition name ids).1.isOk = false ↔ ∃ id ∈ ids, m.topology.lists id = false) ∧
      (∀ id, ids.find? (fun id => !m.topology.lists id) = some id →
        m.cachePartition name ids = (.error (.unknownForest id), m)) ∧
      ((∀ id ∈ ids, m.topology.lists id = true) →
        match m.policy.rotation? (some name) with
        | some kept =>
          m.cachePartition name ids = (.ok (some kept.forests), m) ∧ ∃ named, m.Names named kept.forests
        | none =>
          ∃ indices p, m.cachePartition name ids = (.ok (some indices), { m with policy := p }) ∧
            m.Names ids indices ∧ m.policy.Alike p ∧ p.pace = m.policy.pace ∧ ∀ lane,
              p.rotation? lane = if lane = some name then some ⟨indices, 0⟩ else m.policy.rotation? lane)) ∧
    ((m.topology.forests.map (·.id)).Nodup → ∀ id i, m.indexOf? id = some i ↔ (m.forest? i).map (·.id) = some id) := by
  refine ⟨fun hkind => h.cachePartition_eq_self hkind name ids, fun hkind => ?_,
    fun hdistinct id i => h.indexOf?_iff hdistinct⟩
  have hcaches := h.caches.trans hkind
  have heq := h.cachePartition_eq hkind name ids
  refine ⟨?_, fun id hfind => ?_, fun hall => ?_⟩
  · rw [heq]
    cases hfind : ids.find? fun id => !m.topology.lists id with
    | some id =>
      have hid : m.topology.lists id = false := by simpa using List.find?_some hfind
      exact ⟨fun _ => ⟨id, List.mem_of_find?_eq_some hfind, hid⟩, fun _ => rfl⟩
    | none =>
      have hall : ∀ id ∈ ids, m.topology.lists id = true := by simpa using hfind
      exact ⟨nofun, fun ⟨id, hid, hunlisted⟩ => nomatch (hall id hid).symm.trans hunlisted⟩
  · rw [heq, hfind]
  · have hfind : ids.find? (fun id => !m.topology.lists id) = none := by simpa using hall
    have hassigned := (m.policy.insertPartition_alike name (ids.filterMap m.indexOf?)).2 hcaches name
    rw [Policy.assigned_eq hcaches, if_pos rfl] at hassigned
    rw [heq, hfind]
    dsimp only
    split
    · next kept hkept =>
      have hbefore : m.policy.assigned name = some kept.forests := by
        rw [Policy.assigned_eq hcaches, hkept]
        rfl
      rw [Policy.insertPartition_kept hkept, hbefore]
      exact ⟨rfl, h.names hbefore⟩
    · next hnone =>
      rw [hnone, Option.map_none, Option.none_or] at hassigned
      rw [hassigned]
      exact ⟨_, _, rfl, h.names_filterMap ids, (m.policy.insertPartition_alike name _).1,
        Policy.pace_insertPartition name _, Policy.insertPartition_added hcaches hnone _⟩

namespace Sample

/-- Two forests that take documents, around one that takes none. -/
def shelves : Topology :=
  ⟨[⟨⟨"a"⟩, "h", true, [], 0⟩, ⟨⟨"b"⟩, "h", false, [], 0⟩, ⟨⟨"c"⟩, "h", true, [], 0⟩]⟩

end Sample

/-- Forest `c` is named twice and `b` takes no documents. A document later the partition is as it was, whether a
request names fewer forests or some that are not listed. -/
theorem cachePartition_atomic_query :
    ∃ m, Manager.new .query Sample.shelves 2 none = .ok m ∧
      let m' := m.useAll [.cache "default" [⟨"c"⟩, ⟨"b"⟩, ⟨"a"⟩, ⟨"c"⟩], .place ⟨"x"⟩ none]
      m'.Reachable ∧ m'.policy.rotation? (some "default") = some ⟨[1, 0, 1], 1⟩ ∧
      m'.cachePartition "default" [⟨"a"⟩] = (.ok (some [1, 0, 1]), m') ∧
      m'.cachePartition "default" [⟨"a"⟩, ⟨"x"⟩, ⟨"y"⟩] = (.error (.unknownForest ⟨"x"⟩), m') := by
  obtain ⟨m, hm⟩ : ∃ m, Manager.new .query Sample.shelves 2 none = .ok m := ⟨_, rfl⟩
  have hreachable := (Reachable.new hm).useAll [.cache "default" [⟨"c"⟩, ⟨"b"⟩, ⟨"a"⟩, ⟨"c"⟩], .place ⟨"x"⟩ none]
  have hentry : (m.useAll [.cache "default" [⟨"c"⟩, ⟨"b"⟩, ⟨"a"⟩, ⟨"c"⟩], .place ⟨"x"⟩ none]).policy.rotation?
      (some "default") = some ⟨[1, 0, 1], 1⟩ := by
    cases hm
    decide +kernel
  obtain ⟨-, hkept, -⟩ := cachePartition_atomic hreachable "default" [⟨"a"⟩]
  obtain ⟨-, hunknown, -⟩ := cachePartition_atomic hreachable "default" [⟨"a"⟩, ⟨"x"⟩, ⟨"y"⟩]
  obtain ⟨-, -, hkept⟩ := hkept (by cases hm; rfl)
  obtain ⟨-, hunknown, -⟩ := hunknown (by cases hm; rfl)
  have hkept := hkept (by cases hm; decide +kernel)
  rw [hentry] at hkept
  exact ⟨m, hm, hreachable, hentry, hkept.1, hunknown ⟨"x"⟩ (by cases hm; decide +kernel)⟩

end Manager

end Placement

end ForestCourier
