import ForestCourier.Proofs.Split.Tiles

/-!
The ranges of a counted forest name its positions, each of them once and in order. They are as few as their
size allows: all of them are full but the last, which alone is marked as the last.
-/

namespace ForestCourier.Split

variable {ε : Type}

def positions (s : Split) : List Nat :=
  match s.stop with
  | none => []
  | some stop => List.range' s.start.toNat (stop.toNat + 1 - s.start.toNat)

/-- Ranges that name the positions from one to `count`, `size` of them each but for the last range. -/
structure Partitions (count size : Nat) (splits : List Split) : Prop where
  positions : splits.flatMap positions = List.range' 1 count
  length : splits.length = (count + size - 1) / size
  /-- Every range has an end, and tells how many positions it names. -/
  bounded : ∀ s ∈ splits, ∃ stop, s.stop = some stop ∧ s.start ≤ stop ∧
    ∀ ε : Type, ∃ n, s.size (ε := ε) = .ok (some n) ∧ n.toNat = stop.toNat - s.start.toNat + 1
  ending : ∃ full last, splits = full ++ [last] ∧
    (∀ s ∈ full, s.isLast = false ∧ s.positions.length = size) ∧
    last.isLast = true ∧ 1 ≤ last.positions.length ∧ last.positions.length ≤ size

section

variable {c : RecordCount} {count size chunks : Nat}

theorem part_start (hlarge : count < 2 ^ 63) {i : Nat} (hi : i * size < count) :
    (part c count size chunks i).start.toNat = i * size + 1 :=
  UInt64.toNat_ofNat_of_lt' (by simp only [UInt64.size]; omega)

theorem part_stop (hlarge : count < 2 ^ 63) (i : Nat) :
    (UInt64.ofNat (min ((i + 1) * size) count)).toNat = min ((i + 1) * size) count :=
  UInt64.toNat_ofNat_of_lt' (by simp only [UInt64.size]; omega)

theorem part_positions (hlarge : count < 2 ^ 63) {i : Nat} (hi : i * size < count) :
    (part c count size chunks i).positions =
      List.range' (i * size + 1) (min ((i + 1) * size) count - i * size) := by
  have hstart : (part c count size chunks i).start.toNat = i * size + 1 := part_start hlarge hi
  have hstop : (part c count size chunks i).stop = some (.ofNat (min ((i + 1) * size) count)) := rfl
  rw [positions, hstop]
  dsimp only
  rw [hstart, part_stop hlarge, Nat.add_sub_add_right]

theorem part_bounded (hlarge : count < 2 ^ 63) (hsize : 0 < size) {i : Nat} (hi : i * size < count) :
    ∃ stop, (part c count size chunks i).stop = some stop ∧ (part c count size chunks i).start ≤ stop ∧
      ∀ ε : Type, ∃ n, (part c count size chunks i).size (ε := ε) = .ok (some n) ∧
        n.toNat = stop.toNat - (part c count size chunks i).start.toNat + 1 := by
  have hstart : (part c count size chunks i).start.toNat = i * size + 1 := part_start hlarge hi
  have hstop : (UInt64.ofNat (min ((i + 1) * size) count)).toNat = min ((i + 1) * size) count := part_stop hlarge i
  have hnext : (i + 1) * size = i * size + size := Nat.succ_mul ..
  refine ⟨_, rfl, ?_, fun ε => ?_⟩
  · rw [UInt64.le_iff_toNat_le, hstart, hstop]
    omega
  · have hadd : Word.add (ε := ε) (.ofNat (min ((i + 1) * size) count)) 1 =
        .ok (.ofNat (min ((i + 1) * size) count + 1)) :=
      Word.add_ofNat (b := 1) (by simp only [UInt64.size]; omega)
    have hpast : (UInt64.ofNat (min ((i + 1) * size) count + 1)).toNat = min ((i + 1) * size) count + 1 :=
      UInt64.toNat_ofNat_of_lt' (by simp only [UInt64.size]; omega)
    refine ⟨Word.monus (.ofNat (min ((i + 1) * size) count + 1)) (part c count size chunks i).start, ?_, ?_⟩
    · simp only [Split.size, part, hadd, Except.map]
    · rw [Word.toNat_monus, hpast, hstart, hstop]
      omega

theorem positions_parts (hlarge : count < 2 ^ 63) (k : Nat) (hk : ∀ i < k, i * size < count) :
    ((List.range k).map (part c count size chunks)).flatMap positions =
      List.range' 1 (min (k * size) count) := by
  induction k with
  | zero => simp
  | succ k ih =>
    have hlast := hk k (Nat.lt_succ_self k)
    have hnext : (k + 1) * size = k * size + size := Nat.succ_mul ..
    have hjoin : List.range' 1 (k * size) ++
        List.range' (1 + k * size) (min ((k + 1) * size) count - k * size) =
          List.range' 1 (min ((k + 1) * size) count) := by
      rw [List.range'_append_1]
      congr 1
      omega
    rw [List.range_succ, List.map_append, List.flatMap_append, ih fun i hi => hk i (Nat.lt_succ_of_lt hi),
      List.map_singleton, List.flatMap_singleton, part_positions hlarge hlast, Nat.add_comm (k * size) 1,
      Nat.min_eq_left (Nat.le_of_lt hlast), hjoin]

theorem partitions_parts (hlarge : count < 2 ^ 63) (hsize : 0 < size) (hsome : 0 < chunks)
    (hle : count ≤ chunks * size) (hlt : chunks * size < count + size) :
    Partitions count size ((List.range chunks).map (part c count size chunks)) := by
  have hinside : ∀ i < chunks, i * size < count := fun i hi => by
    have hnext : (i + 1) * size ≤ chunks * size := Nat.mul_le_mul_right _ hi
    rw [Nat.succ_mul] at hnext
    omega
  refine ⟨?_, ?_, fun s hs => ?_, ?_⟩
  · rw [positions_parts hlarge chunks hinside, Nat.min_eq_right hle]
  · have hceil : (count + size - 1) / size = chunks :=
      Nat.div_eq_of_lt_le (by omega) (by rw [Nat.succ_mul]; omega)
    rw [List.length_map, List.length_range, hceil]
  · obtain ⟨i, hi, rfl⟩ := List.mem_map.mp hs
    exact part_bounded hlarge hsize (hinside i (List.mem_range.mp hi))
  · obtain ⟨m, rfl⟩ : ∃ m, chunks = m + 1 := ⟨chunks - 1, by omega⟩
    have hm := hinside m (Nat.lt_succ_self m)
    have hend : (m + 1) * size = m * size + size := Nat.succ_mul ..
    refine ⟨_, _, by rw [List.range_succ, List.map_append, List.map_singleton], fun s hs => ?_,
      decide_eq_true rfl, ?_⟩
    · obtain ⟨i, hi, rfl⟩ := List.mem_map.mp hs
      rw [List.mem_range] at hi
      have hbefore : (i + 1) * size ≤ m * size := Nat.mul_le_mul_right _ hi
      have hnext : (i + 1) * size = i * size + size := Nat.succ_mul ..
      refine ⟨decide_eq_false (by omega), ?_⟩
      rw [part_positions hlarge (by omega), List.length_range']
      omega
    · rw [part_positions hlarge hm, List.length_range']
      omega

end

/-- Every forest is cut without an overflow. One of unknown size is a single range without an end, and the
positions of any other are divided among ranges of the largest size allowed. -/
theorem cut_partitions (c : RecordCount) (maxSize : UInt64) :
    ∃ splits, cut (ε := ε) c maxSize = .ok splits ∧ (∀ s ∈ splits, From c s) ∧
      if c.records ≤ 0 then splits = [⟨c.forest, c.host, 1, none, true, c.replicas, []⟩]
      else Partitions c.records.toInt.toNat (max maxSize.toNat 1) splits := by
  obtain ⟨splits, hcut, -, hsource⟩ := cut_tiles (ε := ε) c maxSize
  refine ⟨splits, hcut, hsource, ?_⟩
  have hsign : c.records ≤ 0 ↔ c.records.toInt ≤ 0 := Int64.le_iff_toInt_le
  simp only [hsign]
  obtain ⟨hnone, hwhole⟩ | ⟨hsome, hlarge, chunks, hpos, hle, hlt, hparts⟩ := cut_cases (ε := ε) c maxSize
  · rw [if_pos hnone]
    exact Except.ok.inj (hcut.symm.trans hwhole)
  · rw [if_neg (Int.not_le.mpr hsome), Except.ok.inj (hcut.symm.trans hparts)]
    exact partitions_parts hlarge (Nat.le_max_right _ 1) hpos hle hlt

example : cut (ε := Unit) ⟨⟨"f"⟩, "h", 9223372036854775807, []⟩ 18446744073709551615 =
    .ok [⟨⟨"f"⟩, "h", 1, some 9223372036854775807, true, [], []⟩] := by
  rfl

end ForestCourier.Split
