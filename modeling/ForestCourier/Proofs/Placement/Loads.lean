import ForestCourier.Proofs.Placement.Bounds

/-!
Loads as numbers. A placement by load adds a batch to the load that it answers, unless the sum is too
large a word, and giving charges back takes them away again. A new manager that places by load starts
with the document counts of its forests.
-/

namespace ForestCourier.Placement

theorem batchOf_pos (size : UInt64) : 0 < (batchOf size).toNat := by
  unfold batchOf
  split
  · decide
  · next h => exact Nat.pos_of_ne_zero fun hzero => h (UInt64.toNat_inj.mp hzero)

theorem toNat_batchOf (size : UInt64) : (batchOf size).toNat = max 1 size.toNat := by
  unfold batchOf
  split
  · next h => simp [h]
  · next h =>
    have : size.toNat ≠ 0 := fun hzero => h (UInt64.toNat_inj.mp hzero)
    omega

theorem batchOf_eq {size : UInt64} (h : 0 < size) : batchOf size = size :=
  if_neg fun hzero => absurd h (by rw [hzero]; decide)

namespace Statistical

theorem place_cases (s : Statistical) :
    (∃ i load charged, s.loads[i]? = some load ∧ charged.toNat = load.toNat + s.batch.toNat ∧
      s.place = (.ok i, { s with loads := s.loads.set i charged })) ∨
    ∃ fault, s.place = (.error fault, s) := by
  unfold place
  split
  · exact .inr ⟨_, rfl⟩
  · next i load hleast =>
    have hload : s.loads[i]? = some load := (least_eq_some hleast).2.1
    cases hadd : Word.add (ε := PlacementError) load s.batch with
    | ok charged => exact .inl ⟨i, load, charged, hload, Word.toNat_of_add hadd, rfl⟩
    | error fault => exact .inr ⟨fault, rfl⟩

theorem rollback_eq {s : Statistical} {i : Nat} {load : UInt64} (h : s.loads[i]? = some load)
    (count : UInt64) :
    s.rollback i count = { s with loads := s.loads.set i (Word.monus load count) } := by
  rw [rollback, h]

end Statistical

namespace Policy

def Prices (batch : UInt64) (p : Policy) : Prop :=
  p.kind = .statistical → ∃ loads, p = .statistical ⟨batch, loads⟩

def load (p : Policy) (i : Nat) : UInt64 := (p.loads?.bind (·[i]?)).getD 0

theorem load_statistical (batch : UInt64) (loads : List UInt64) (i : Nat) :
    (statistical ⟨batch, loads⟩).load i = loads[i]?.getD 0 := rfl

theorem load_set {batch load : UInt64} {loads : List UInt64} {i : Nat} (h : loads[i]? = some load)
    (load' : UInt64) (j : Nat) :
    (statistical ⟨batch, loads.set i load'⟩).load j =
      if j = i then load' else (statistical ⟨batch, loads⟩).load j := by
  have hlt : i < loads.length := (List.getElem?_eq_some_iff.mp h).1
  rw [load_statistical, load_statistical]
  split
  · next hji => rw [hji, List.getElem?_set_self hlt, Option.getD_some]
  · next hji => rw [List.getElem?_set_ne (Ne.symm hji)]

variable {p : Policy} {batch : UInt64}

theorem Prices.place (h : p.Prices batch) (uri : Uri) (partition : Option String) :
    (p.place uri partition).2.Prices batch := by
  cases p with
  | legacy n =>
    simp only [Policy.place]
    split <;> exact h
  | segment n => exact h
  | bucket b =>
    intro hkind
    cases hkind
  | statistical s =>
    obtain ⟨loads, hs⟩ := h rfl
    cases hs
    intro _
    obtain ⟨i, load, charged, -, -, hplace⟩ | ⟨fault, hplace⟩ := Statistical.place_cases ⟨batch, loads⟩
    · exact ⟨loads.set i charged, by simp only [Policy.place, hplace]⟩
    · exact ⟨loads, by simp only [Policy.place, hplace]⟩
  | partitioned q =>
    have hplaced : ∃ q', q'.kind = q.kind ∧
        ((partitioned q).place uri partition).2 = partitioned q' := by
      refine ⟨(q.place partition).2, ?_, rfl⟩
      unfold Partitioned.place
      split
      · rfl
      · split
        · rfl
        · split <;> rfl
    obtain ⟨q', hkind, hplaced⟩ := hplaced
    rw [hplaced]
    intro hstatistical
    obtain ⟨loads, hs⟩ := h (hkind.symm.trans hstatistical)
    cases hs

theorem Prices.rollback (h : p.Prices batch) (i : Nat) (count : UInt64) :
    (p.rollback i count).Prices batch := by
  cases p with
  | statistical s =>
    obtain ⟨loads, hs⟩ := h rfl
    cases hs
    intro _
    cases hload : loads[i]? with
    | none => exact ⟨loads, by simp only [Policy.rollback, Statistical.rollback, hload]⟩
    | some load => exact ⟨_, congrArg statistical (Statistical.rollback_eq hload count)⟩
  | _ => exact h

theorem Prices.insertPartition (h : p.Prices batch) (name : String) (forests : List Nat) :
    (p.insertPartition name forests).Prices batch := by
  cases p with
  | partitioned q =>
    intro hkind
    obtain ⟨loads, hs⟩ := h hkind
    cases hs
  | _ => exact h

theorem loads?_place (h : p.loads? = none) (uri : Uri) (partition : Option String) :
    (p.place uri partition).2.loads? = none := by
  cases p with
  | legacy n =>
    simp only [Policy.place]
    split <;> rfl
  | statistical s => cases h
  | _ => rfl

theorem load_place (h : p.Prices batch) (uri : Uri) (partition : Option String) (j : Nat) :
    ((p.place uri partition).2.load j).toNat = (p.load j).toNat +
      if p.kind = .statistical ∧ (p.place uri partition).1.toOption = some j then batch.toNat else 0 := by
  by_cases hkind : p.kind = .statistical
  · obtain ⟨loads, rfl⟩ := h hkind
    obtain ⟨i, load, charged, hload, hcharged, hplace⟩ | ⟨fault, hplace⟩ :=
      Statistical.place_cases ⟨batch, loads⟩
    · simp only [Policy.place, hplace, Policy.kind, true_and, Except.toOption, Option.some.injEq]
      rw [load_set hload]
      by_cases hji : j = i
      · rw [if_pos hji, if_pos hji.symm, hji, load_statistical, hload]
        exact hcharged
      · rw [if_neg hji, if_neg (Ne.symm hji)]
        rfl
    · simp only [Policy.place, hplace, Except.toOption, reduceCtorEq, and_false, if_false]
      rfl
  · have hnone : p.loads? = none := by
      cases p with
      | statistical s => exact absurd rfl hkind
      | _ => rfl
    rw [if_neg fun hboth => hkind hboth.1, load, load, hnone, loads?_place hnone]
    rfl

theorem load_rollback (p : Policy) (i : Nat) (count : UInt64) (j : Nat) :
    ((p.rollback i count).load j).toNat =
      if j = i then (p.load j).toNat - count.toNat else (p.load j).toNat := by
  cases p with
  | statistical s =>
    obtain ⟨batch, loads⟩ := s
    cases hload : loads[i]? with
    | none =>
      have hsame : (statistical ⟨batch, loads⟩).rollback i count = statistical ⟨batch, loads⟩ := by
        simp only [Policy.rollback, Statistical.rollback, hload]
      rw [hsame]
      split
      · next hji =>
        rw [hji, load_statistical, hload]
        exact (Nat.zero_sub _).symm
      · rfl
    | some load =>
      have hset : (statistical ⟨batch, loads⟩).rollback i count =
          statistical ⟨batch, loads.set i (Word.monus load count)⟩ :=
        congrArg statistical (Statistical.rollback_eq hload count)
      rw [hset, load_set hload]
      split
      · next hji =>
        rw [hji, load_statistical, hload, Word.toNat_monus]
        rfl
      · rfl
  | _ =>
    have hzero : (UInt64.toNat 0) = 0 := rfl
    split
    · exact (Nat.zero_sub _).symm
    · rfl

end Policy

namespace Manager

theorem new_prices {kind : Kind} {t : Topology} {batch : UInt64} {partition : Option String} {m : Manager}
    (h : Manager.new kind t batch partition = .ok m) :
    m.policy.Prices (batchOf batch) ∧ m.batchSize = batch := by
  unfold Manager.new at h
  dsimp only at h
  split at h
  · cases h
  · cases hp : policyFor kind t t.updatable batch partition with
    | error e =>
      rw [hp] at h
      cases h
    | ok policy =>
      rw [hp] at h
      cases h
      refine ⟨?_, rfl⟩
      have hpartitioned {q : Partitioned} (hq : Partitioned.new kind batch partition = .ok q) :
          q.kind = kind := by
        unfold Partitioned.new at hq
        cases hn : Partitioned.standardName kind partition with
        | error e =>
          rw [hn] at hq
          cases hq
        | ok name =>
          rw [hn] at hq
          cases hq
          rfl
      cases kind with
      | legacy | segment | bucket =>
        cases hp
        intro hkind
        cases hkind
      | statistical =>
        cases hp
        exact fun _ => ⟨_, rfl⟩
      | range | query =>
        simp only [policyFor] at hp
        cases hq : Partitioned.new _ batch partition with
        | error e =>
          rw [hq] at hp
          cases hp
        | ok q =>
          rw [hq] at hp
          cases hp
          intro hkind
          rw [show Policy.kind (.partitioned q) = q.kind from rfl, hpartitioned hq] at hkind
          cases hkind

theorem prices_cachePartition {m : Manager} {batch : UInt64} (h : m.policy.Prices batch) (name : String)
    (ids : List ForestId) :
    (m.cachePartition name ids).2.policy.Prices batch ∧
      ∀ i, (m.cachePartition name ids).2.policy.load i = m.policy.load i := by
  unfold cachePartition
  split
  · exact ⟨h, fun _ => rfl⟩
  · split
    · exact ⟨h, fun _ => rfl⟩
    · next indices _ =>
      refine ⟨h.insertPartition name indices, fun i => ?_⟩
      cases hp : m.policy with
      | _ => rfl

theorem Reachable.prices {m : Manager} (h : m.Reachable) : m.policy.Prices (batchOf m.batchSize) := by
  induction h with
  | new h =>
    obtain ⟨hprices, hsize⟩ := new_prices h
    rw [hsize]
    exact hprices
  | place uri partition _ ih => exact ih.place uri partition
  | rollback i count _ ih => exact ih.rollback i count
  | cachePartition name ids _ ih =>
    rename_i m _
    have hsize : (m.cachePartition name ids).2.batchSize = m.batchSize := by
      unfold Manager.cachePartition
      split
      · rfl
      · split <;> rfl
    rw [hsize]
    exact (prices_cachePartition ih name ids).1

theorem forestCount_pos {kind : Kind} {t : Topology} {batch : UInt64} {partition : Option String} {m : Manager}
    (h : Manager.new kind t batch partition = .ok m) : 0 < m.forestCount := by
  unfold Manager.new at h
  dsimp only at h
  split at h
  · cases h
  · next hsome =>
    cases hp : policyFor kind t t.updatable batch partition with
    | error e =>
      rw [hp] at h
      cases h
    | ok policy =>
      rw [hp] at h
      cases h
      exact List.length_pos_iff.mpr fun hnone => hsome (List.isEmpty_iff.mpr hnone)

theorem new_statistical {t : Topology} {batch : UInt64} {partition : Option String} {m : Manager}
    (h : Manager.new .statistical t batch partition = .ok m) :
    ∃ loads : List UInt64, m.policy = .statistical ⟨batchOf batch, loads⟩ ∧
      loads.length = m.forestCount ∧
      ∀ (i : Nat) (f : Forest), m.forest? i = some f → loads[i]? = some f.documents := by
  unfold Manager.new at h
  dsimp only at h
  split at h
  · cases h
  · cases h
    refine ⟨_, rfl, List.length_map _, fun i f hf => ?_⟩
    obtain ⟨j, hj, hforest⟩ := Option.bind_eq_some_iff.mp hf
    have hj : t.updatable[i]? = some j := hj
    have hforest : t.forests[j]? = some f := hforest
    rw [List.getElem?_map, hj, Option.map_some, hforest]
    rfl

end Manager

end ForestCourier.Placement
