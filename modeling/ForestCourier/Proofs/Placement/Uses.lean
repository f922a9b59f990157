import Mathlib.Data.List.Induction
import ForestCourier.Proofs.Placement.Bounds

/-!
What a manager remembers of the requests made to it. It answers positions of updatable forests only, and
for a partition only those of forests that were named for it, by the first request to cache it that
succeeded: whatever is asked later, what is cached for a partition stays.
-/

namespace ForestCourier.Placement

inductive Use where
  | place (uri : Uri) (partition : Option String)
  | rollback (index : Nat) (count : UInt64)
  | cache (partition : String) (ids : List ForestId)
deriving DecidableEq

theorem Kind.ne_statistical {kind : Kind} (h : kind.partitioned = true) : kind ≠ .statistical := by
  rintro rfl
  cases h

namespace Policy

def assigned (p : Policy) (name : String) : Option (List Nat) := (p.cache?.bind (·.get? name)).map (·.forests)

/-- Nothing about a policy has changed but its rotations, loads and cached partitions. -/
structure Alike (p p' : Policy) : Prop where
  kind : p'.kind = p.kind
  standard : p'.standardPartition = p.standardPartition
  caches : p'.cache?.isSome = p.cache?.isSome

theorem Alike.refl (p : Policy) : Alike p p := ⟨rfl, rfl, rfl⟩

theorem Alike.trans {p p' p'' : Policy} (h : Alike p p') (h' : Alike p' p'') : Alike p p'' :=
  ⟨h'.kind.trans h.kind, h'.standard.trans h.standard, h'.caches.trans h.caches⟩

theorem place_alike (p : Policy) (uri : Uri) (partition : Option String) :
    Alike p (p.place uri partition).2 ∧ ∀ name, (p.place uri partition).2.assigned name = p.assigned name := by
  cases p with
  | legacy n =>
    simp only [place]
    split
    · exact ⟨.refl _, fun _ => rfl⟩
    · exact ⟨.refl _, fun _ => rfl⟩
  | segment n => exact ⟨.refl _, fun _ => rfl⟩
  | bucket b => exact ⟨⟨rfl, rfl, rfl⟩, fun _ => rfl⟩
  | statistical s => exact ⟨⟨rfl, rfl, rfl⟩, fun _ => rfl⟩
  | partitioned p =>
    simp only [place, Partitioned.place]
    split
    · exact ⟨.refl _, fun _ => rfl⟩
    · next name _ =>
      split
      · exact ⟨.refl _, fun _ => rfl⟩
      · split
        · exact ⟨.refl _, fun _ => rfl⟩
        · refine ⟨⟨rfl, rfl, rfl⟩, fun k => ?_⟩
          change ((p.cache.advance name).get? k).map (·.forests) = (p.cache.get? k).map (·.forests)
          rw [PartitionCache.get?_advance]
          split
          · rw [Option.map_map]
            rfl
          · rfl

theorem rollback_alike (p : Policy) (i : Nat) (count : UInt64) :
    Alike p (p.rollback i count) ∧ ∀ name, (p.rollback i count).assigned name = p.assigned name := by
  cases p with
  | statistical s => exact ⟨⟨rfl, rfl, rfl⟩, fun _ => rfl⟩
  | _ => exact ⟨.refl _, fun _ => rfl⟩

theorem insertPartition_alike (p : Policy) (name : String) (forests : List Nat) :
    Alike p (p.insertPartition name forests) ∧ (p.cache?.isSome = true → ∀ k,
      (p.insertPartition name forests).assigned k = (p.assigned k).or (if k = name then some forests else none)) := by
  cases p with
  | partitioned p =>
    refine ⟨⟨rfl, rfl, rfl⟩, fun _ k => ?_⟩
    change ((p.cache.insert name forests).get? k).map (·.forests) =
      ((p.cache.get? k).map (·.forests)).or (if k = name then some forests else none)
    cases hc : p.cache.contains name with
    | true =>
      rw [PartitionCache.insert_of_contains forests hc]
      split
      · next hk =>
        obtain ⟨entry, hentry⟩ := Option.isSome_iff_exists.mp (hk ▸ hc : p.cache.contains k = true)
        rw [hentry]
        rfl
      · rw [Option.or_none]
    | false =>
      rw [PartitionCache.get?_insert_of_not_contains forests k hc]
      split
      · next hk =>
        have hnone : p.cache.get? k = none := by
          rw [hk]
          exact Option.isNone_iff_eq_none.mp (Option.isSome_eq_false_iff.mp hc)
        rw [hnone]
        rfl
      · rw [Option.or_none]
  | _ => exact ⟨.refl _, nofun⟩

theorem place_assigned {p : Policy} (hcaches : p.cache?.isSome = true) {uri : Uri} {partition : Option String}
    {i : Nat} (h : (p.place uri partition).1 = .ok i) :
    ∃ name forests, partition.or p.standardPartition = some name ∧ p.assigned name = some forests ∧
      i ∈ forests := by
  cases p with
  | partitioned p =>
    simp only [place, Partitioned.place] at h
    split at h
    · cases h
    · next name hname =>
      split at h
      · cases h
      · next entry hentry =>
        split at h
        · cases h
        · next hi =>
          cases h
          refine ⟨name, entry.forests, hname, ?_, List.mem_of_getElem? hi⟩
          exact congrArg (Option.map Partition.forests) hentry
  | _ => cases hcaches

end Policy

namespace Manager

def use (m : Manager) : Use → Manager
  | .place uri partition => (m.place uri partition).2
  | .rollback i count => m.rollback i count
  | .cache name ids => (m.cachePartition name ids).2

def useAll (uses : List Use) (m : Manager) : Manager := uses.foldl use m

theorem policy_cachePartition (m : Manager) (name : String) (ids : List ForestId) :
    (m.cachePartition name ids).2.policy = m.policy ∨
      ∃ forests, (m.cachePartition name ids).2.policy = m.policy.insertPartition name forests := by
  unfold cachePartition
  split
  · exact .inl rfl
  · split
    · exact .inl rfl
    · exact .inr ⟨_, rfl⟩

theorem fixed_cachePartition (m : Manager) (name : String) (ids : List ForestId) :
    (m.cachePartition name ids).2 = { m with policy := (m.cachePartition name ids).2.policy } := by
  unfold cachePartition
  split
  · rfl
  · split <;> rfl

theorem use_alike (m : Manager) (use : Use) : m.policy.Alike (m.use use).policy := by
  cases use with
  | place uri partition => exact (m.policy.place_alike uri partition).1
  | rollback i count => exact (m.policy.rollback_alike i count).1
  | cache name ids =>
    obtain hsame | ⟨forests, hinsert⟩ := m.policy_cachePartition name ids
    · exact hsame.symm ▸ .refl m.policy
    · exact hinsert.symm ▸ (m.policy.insertPartition_alike name forests).1

theorem useAll_alike (uses : List Use) (m : Manager) : m.policy.Alike (m.useAll uses).policy := by
  induction uses generalizing m with
  | nil => exact .refl m.policy
  | cons use uses ih => exact (m.use_alike use).trans (ih (m.use use))

def named? (m : Manager) (name : String) : Use → Option (List ForestId)
  | .cache name' ids => if name' = name ∧ (m.cachePartition name' ids).1.isOk then some ids else none
  | _ => none

def firstNamed (name : String) : List Use → Manager → Option (List ForestId)
  | [], _ => none
  | use :: uses, m => (m.named? name use).or (firstNamed name uses (m.use use))

theorem useAll_append (uses more : List Use) (m : Manager) :
    m.useAll (uses ++ more) = (m.useAll uses).useAll more := List.foldl_append

theorem firstNamed_append (name : String) (uses more : List Use) (m : Manager) :
    m.firstNamed name (uses ++ more) = (m.firstNamed name uses).or ((m.useAll uses).firstNamed name more) := by
  induction uses generalizing m with
  | nil => rfl
  | cons use uses ih =>
    rw [List.cons_append, firstNamed, firstNamed, ih, Option.or_assoc]
    rfl

theorem partitionIndices_policy (m : Manager) (p : Policy) (ids : List ForestId) :
    partitionIndices { m with policy := p } ids = m.partitionIndices ids := by
  induction ids with
  | nil => rfl
  | cons id ids ih =>
    unfold partitionIndices
    rw [ih]
    rfl

theorem partitionIndices_mem {m : Manager} {ids : List ForestId} {indices : List Nat}
    (h : m.partitionIndices ids = .ok indices) {i : Nat} (hi : i ∈ indices) : ∃ id ∈ ids, m.indexOf? id = some i := by
  induction ids generalizing indices with
  | nil =>
    cases h
    cases hi
  | cons id ids ih =>
    unfold partitionIndices at h
    split at h
    · next j hj =>
      cases hr : m.partitionIndices ids with
      | error e =>
        rw [hr] at h
        cases h
      | ok rest =>
        rw [hr] at h
        cases h
        rcases List.mem_cons.mp hi with rfl | hi
        · exact ⟨id, List.mem_cons_self, hj⟩
        · obtain ⟨id', hid, hi⟩ := ih hr hi
          exact ⟨id', List.mem_cons_of_mem _ hid, hi⟩
    · split at h
      · obtain ⟨id', hid, hi⟩ := ih h hi
        exact ⟨id', List.mem_cons_of_mem _ hid, hi⟩
      · cases h

theorem forest?_indexOf? {m : Manager} {id : ForestId} {i : Nat} (h : m.indexOf? id = some i) :
    m.forest? i = m.topology.get? id := by
  obtain ⟨j, hj, hi⟩ := Option.bind_eq_some_iff.mp h
  obtain ⟨hlt, hp, -⟩ := List.findIdx?_eq_some_iff_getElem.mp hi
  have hat : m.updatable[i]? = some j := by
    rw [List.getElem?_eq_getElem hlt, eq_of_beq hp]
  unfold forest? Topology.get?
  rw [hat, hj]

theorem mem_updatable {t : Topology} {j : Nat} (h : j ∈ t.updatable) :
    ∃ f, t.forests[j]? = some f ∧ f.updatable = true := by
  obtain ⟨-, hf⟩ := List.mem_filter.mp h
  split at hf
  · next f hj => exact ⟨f, hj, hf⟩
  · cases hf

theorem forest?_updatable {m : Manager} (h : m.updatable = m.topology.updatable) {i : Nat} (hi : i < m.forestCount) :
    ∃ f, m.forest? i = some f ∧ f ∈ m.topology.forests ∧ f.updatable = true := by
  have hat : m.updatable[i]? = some m.updatable[i] := List.getElem?_eq_getElem hi
  have hmem : m.updatable[i] ∈ m.topology.updatable := h ▸ List.getElem_mem hi
  obtain ⟨f, hf, htakes⟩ := mem_updatable hmem
  refine ⟨f, ?_, List.mem_of_getElem? hf, htakes⟩
  unfold forest?
  rw [hat]
  exact hf

theorem firstNamed_append_single (name : String) (uses : List Use) (use : Use) (m : Manager) :
    m.firstNamed name (uses ++ [use]) = (m.firstNamed name uses).or ((m.useAll uses).named? name use) := by
  rw [firstNamed_append, firstNamed, firstNamed, Option.or_none]

/-- What a manager has become by requests: its topology is as before, and what is cached for a partition
are the forests that were named for it first. -/
structure Tracks (m : Manager) (uses : List Use) : Prop where
  fixed : m.useAll uses = { m with policy := (m.useAll uses).policy }
  alike : m.policy.Alike (m.useAll uses).policy
  assigned : m.policy.cache?.isSome = true → ∀ name,
    Option.Rel (fun ids indices => m.partitionIndices ids = .ok indices) (m.firstNamed name uses)
      ((m.useAll uses).policy.assigned name)

namespace Tracks

variable {m : Manager} {uses : List Use}

theorem nil (h : ∀ name, m.policy.assigned name = none) : m.Tracks [] where
  fixed := rfl
  alike := .refl _
  assigned _ name := by
    change Option.Rel _ none (m.policy.assigned name)
    rw [h name]
    exact .none

theorem forest? (h : m.Tracks uses) (i : Nat) : (m.useAll uses).forest? i = m.forest? i := by
  rw [h.fixed]
  rfl

theorem forestCount (h : m.Tracks uses) : (m.useAll uses).forestCount = m.forestCount := by
  rw [h.fixed]
  rfl

theorem forests (h : m.Tracks uses) : (m.useAll uses).forests = m.forests := by
  rw [h.fixed]
  rfl

theorem partitionIndices (h : m.Tracks uses) (ids : List ForestId) :
    (m.useAll uses).partitionIndices ids = m.partitionIndices ids := by
  rw [h.fixed, partitionIndices_policy]

theorem step (h : m.Tracks uses) {use : Use} {p : Policy} (added : String → Option (List Nat))
    (huse : (m.useAll uses).use use = { m.useAll uses with policy := p }) (halike : (m.useAll uses).policy.Alike p)
    (hassigned : m.policy.cache?.isSome = true → ∀ name,
      p.assigned name = ((m.useAll uses).policy.assigned name).or (added name))
    (hnamed : m.policy.cache?.isSome = true → ∀ name, Option.Rel
      (fun ids indices => m.partitionIndices ids = .ok indices) ((m.useAll uses).named? name use) (added name)) :
    m.Tracks (uses ++ [use]) := by
  have hreached : m.useAll (uses ++ [use]) = { m.useAll uses with policy := p } := by
    rw [useAll_append]
    exact huse
  refine ⟨?_, ?_, fun hcaches name => ?_⟩
  · rw [hreached, h.fixed]
  · rw [hreached]
    exact h.alike.trans halike
  · rw [hreached, firstNamed_append_single, hassigned hcaches]
    have hbefore := h.assigned hcaches name
    have hnow := hnamed hcaches name
    generalize m.firstNamed name uses = first at hbefore ⊢
    generalize (m.useAll uses).policy.assigned name = known at hbefore ⊢
    cases hbefore with
    | none => exact hnow
    | some hknown => exact .some hknown

theorem cache (h : m.Tracks uses) (name : String) (ids : List ForestId) : m.Tracks (uses ++ [.cache name ids]) := by
  have hcaches := h.alike.caches
  have hnamed {r : Except PlacementError (Option (List Nat)) × Manager}
      (hr : (m.useAll uses).cachePartition name ids = r) (k : String) :
      (m.useAll uses).named? k (.cache name ids) = if name = k ∧ r.1.isOk then some ids else none := by
    rw [named?, hr]
  cases hc : (m.useAll uses).policy.cache? with
  | none =>
    have hsame : (m.useAll uses).cachePartition name ids = (.ok none, m.useAll uses) := by
      rw [cachePartition, hc]
    rw [hc] at hcaches
    have hnever {P : Prop} (hsome : m.policy.cache?.isSome = true) : P := by
      rw [hsome] at hcaches
      cases hcaches
    exact h.step (fun _ => none) (congrArg Prod.snd hsame) (.refl _) hnever hnever
  | some c =>
    have hsome : (m.useAll uses).policy.cache?.isSome = true := by
      rw [hc]
      rfl
    cases hi : m.partitionIndices ids with
    | error e =>
      have hsame : (m.useAll uses).cachePartition name ids = (.error e, m.useAll uses) := by
        rw [cachePartition, hc]
        dsimp only
        rw [h.partitionIndices, hi]
      refine h.step (fun _ => none) (congrArg Prod.snd hsame) (.refl _) (fun _ _ => Option.or_none.symm) fun _ k => ?_
      rw [hnamed hsame, if_neg fun hk => nomatch hk.2]
      exact .none
    | ok indices =>
      obtain ⟨halike, hassigned⟩ := (m.useAll uses).policy.insertPartition_alike name indices
      obtain ⟨kept, hkept⟩ : ∃ kept, (m.useAll uses).cachePartition name ids =
          (.ok kept, { m.useAll uses with policy := (m.useAll uses).policy.insertPartition name indices }) := by
        rw [cachePartition, hc]
        dsimp only
        rw [h.partitionIndices, hi]
        exact ⟨_, rfl⟩
      refine h.step _ (congrArg Prod.snd hkept) halike (fun _ => hassigned hsome) fun _ k => ?_
      rw [hnamed hkept]
      by_cases hk : k = name
      · rw [if_pos ⟨hk.symm, rfl⟩, if_pos hk]
        exact .some hi
      · rw [if_neg fun h => hk h.1.symm, if_neg hk]
        exact .none

end Tracks

theorem tracks {m : Manager} (h : ∀ name, m.policy.assigned name = none) (uses : List Use) : m.Tracks uses := by
  induction uses using List.reverseRecOn with
  | nil => exact .nil h
  | append_singleton uses use ih =>
    cases use with
    | place uri partition =>
      obtain ⟨halike, hassigned⟩ := (m.useAll uses).policy.place_alike uri partition
      exact ih.step (fun _ => none) rfl halike (fun _ k => (hassigned k).trans Option.or_none.symm) fun _ _ => .none
    | rollback i count =>
      obtain ⟨halike, hassigned⟩ := (m.useAll uses).policy.rollback_alike i count
      exact ih.step (fun _ => none) rfl halike (fun _ k => (hassigned k).trans Option.or_none.symm) fun _ _ => .none
    | cache name ids => exact ih.cache name ids

/-- The index stands for a forest of the manager that takes documents, and for one of those that were named
first for the partition if the manager keeps to partitions. -/
def Takes (m : Manager) (partition : Option String) (uses : List Use) (i : Nat) (f : Forest) : Prop :=
  m.forest? i = some f ∧ f ∈ m.topology.forests ∧ f.updatable = true ∧
    (m.kind.partitioned = true → ∃ name ids, partition.or m.standardPartition = some name ∧
      m.firstNamed name uses = some ids ∧ ∃ id ∈ ids, m.topology.get? id = some f)

theorem Takes.lt {m : Manager} {partition : Option String} {uses : List Use} {i : Nat} {f : Forest}
    (h : m.Takes partition uses i f) : i < m.forestCount := by
  obtain ⟨j, hj, -⟩ := Option.bind_eq_some_iff.mp h.1
  exact (List.getElem?_eq_some_iff.mp hj).1

theorem Takes.append {m : Manager} {partition : Option String} {uses : List Use} {i : Nat} {f : Forest}
    (h : m.Takes partition uses i f) (more : List Use) : m.Takes partition (uses ++ more) i f := by
  obtain ⟨hf, hmem, htakes, hnamed⟩ := h
  refine ⟨hf, hmem, htakes, fun hkind => ?_⟩
  obtain ⟨name, ids, hname, hfirst, hid⟩ := hnamed hkind
  refine ⟨name, ids, hname, ?_, hid⟩
  rw [firstNamed_append, hfirst, Option.some_or]

theorem new_settings {kind : Kind} {t : Topology} {batch : UInt64} {partition : Option String} {m : Manager}
    (h : Manager.new kind t batch partition = .ok m) :
    m.topology = t ∧ m.updatable = t.updatable ∧ m.kind = kind ∧
      (m.kind.partitioned = true → m.policy.cache?.isSome = true) ∧ ∀ name, m.policy.assigned name = none := by
  unfold Manager.new at h
  dsimp only at h
  split at h
  · cases h
  · cases hp : policyFor kind t t.updatable batch partition with
    | error e =>
      rw [hp] at h
      cases h
    | ok p =>
      rw [hp] at h
      cases h
      refine ⟨rfl, rfl, ?_⟩
      change p.kind = kind ∧ (p.kind.partitioned = true → p.cache?.isSome = true) ∧ ∀ name, p.assigned name = none
      cases kind with
      | legacy | segment | bucket | statistical =>
        cases hp
        exact ⟨rfl, nofun, fun _ => rfl⟩
      | range | query =>
        unfold policyFor Partitioned.new at hp
        cases hn : Partitioned.standardName _ partition with
        | error e =>
          rw [hn] at hp
          cases hp
        | ok name =>
          rw [hn] at hp
          cases hp
          exact ⟨rfl, fun _ => rfl, fun _ => rfl⟩

variable {m : Manager}

/-- A manager that was made for a job and has nothing cached yet. -/
structure Fresh (m : Manager) : Prop where
  updatable : m.updatable = m.topology.updatable
  caches : m.kind.partitioned = true → m.policy.cache?.isSome = true
  unassigned : ∀ name, m.policy.assigned name = none
  reachable : m.Reachable

theorem Reachable.useAll (h : m.Reachable) (uses : List Use) : (m.useAll uses).Reachable := by
  induction uses using List.reverseRecOn with
  | nil => exact h
  | append_singleton uses use ih =>
    rw [useAll_append]
    cases use with
    | place uri partition => exact .place uri partition ih
    | rollback i count => exact .rollback i count ih
    | cache name ids => exact .cachePartition name ids ih

theorem fresh_new {kind : Kind} {t : Topology} {batch : UInt64} {partition : Option String}
    (h : Manager.new kind t batch partition = .ok m) : m.Fresh := by
  obtain ⟨htopology, hupdatable, -, hcaches, hassigned⟩ := new_settings h
  exact ⟨htopology ▸ hupdatable, hcaches, hassigned, .new h⟩

theorem Fresh.getElem?_forests (h : m.Fresh) {i : Nat} {f : Forest} (hf : m.forests[i]? = some f) :
    m.forest? i = some f := by
  have hsome : ∀ j < m.forestCount, (m.forest? j).isSome = true := by
    intro j hj
    obtain ⟨f, hf, -⟩ := forest?_updatable h.updatable hj
    rw [hf]
    rfl
  have hupto (n : Nat) (hn : n ≤ m.forestCount) : ((List.range n).filterMap m.forest?).map some =
      (List.range n).map m.forest? := by
    induction n with
    | zero => rfl
    | succ n ih =>
      obtain ⟨f, hf⟩ := Option.isSome_iff_exists.mp (hsome n hn)
      rw [List.range_succ, List.filterMap_append, List.map_append, List.map_append, ih (Nat.le_of_succ_le hn)]
      simp [hf]
  have hall : (m.forests.map some)[i]? = ((List.range m.forestCount).map m.forest?)[i]? :=
    congrArg (·[i]?) (hupto m.forestCount (Nat.le_refl _))
  rw [List.getElem?_map, List.getElem?_map, hf] at hall
  obtain ⟨j, hj, hat⟩ := Option.map_eq_some_iff.mp hall.symm
  obtain ⟨hlt, rfl⟩ := List.getElem?_eq_some_iff.mp hj
  rwa [List.getElem_range] at hat

/-- Whatever was asked before, a document is placed on a forest that takes it. -/
theorem Fresh.place_takes (h : m.Fresh) {uses : List Use} {uri : Uri} {partition : Option String} {i : Nat}
    (hp : ((m.useAll uses).place uri partition).1 = .ok i) : ∃ f, m.Takes partition uses i f := by
  have htracks := tracks h.unassigned uses
  have hlt : i < m.forestCount := htracks.forestCount ▸ (h.reachable.useAll uses).sound.place_lt hp
  obtain ⟨f, hf, hmem, htakes⟩ := forest?_updatable h.updatable hlt
  refine ⟨f, hf, hmem, htakes, fun hkind => ?_⟩
  have hcaches := h.caches hkind
  obtain ⟨name, indices, hname, hassigned, hi⟩ := Policy.place_assigned (htracks.alike.caches.trans hcaches) hp
  rw [htracks.alike.standard] at hname
  have hrecalls := htracks.assigned hcaches name
  rw [hassigned] at hrecalls
  cases hfirst : m.firstNamed name uses with
  | none =>
    rw [hfirst] at hrecalls
    cases hrecalls
  | some ids =>
    rw [hfirst] at hrecalls
    cases hrecalls with
    | some hindices =>
      obtain ⟨id, hid, hat⟩ := partitionIndices_mem hindices hi
      exact ⟨name, ids, hname, hfirst, id, hid, (forest?_indexOf? hat).symm.trans hf⟩

end Manager

end ForestCourier.Placement
