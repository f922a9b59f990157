import Mathlib.Algebra.Group.Nat.Defs
import ForestCourier.Split.Plan

/-!
The ranges of a forest lie side by side. Each begins behind the one before it, the first at the first
record, and the last has no end, so that a forest is read as a whole whatever its count was. The words
in which they are reckoned are large enough for every count and every size.
-/

namespace ForestCourier

namespace Word

variable {ε : Type}

theorem add_ofNat {a b : Nat} (h : a + b < UInt64.size) :
    add (ε := ε) (.ofNat a) (.ofNat b) = .ok (.ofNat (a + b)) := by
  have ha : (UInt64.ofNat a).toNat = a := UInt64.toNat_ofNat_of_lt' (by omega)
  have hb : (UInt64.ofNat b).toNat = b := UInt64.toNat_ofNat_of_lt' (by omega)
  rw [add, if_pos (by rw [ha, hb]; exact h), UInt64.ofNat_add]

theorem mul_ofNat {a b : Nat} (ha : a < UInt64.size) (hb : b < UInt64.size)
    (h : a * b < UInt64.size) :
    mul (ε := ε) (.ofNat a) (.ofNat b) = .ok (.ofNat (a * b)) := by
  have ha : (UInt64.ofNat a).toNat = a := UInt64.toNat_ofNat_of_lt' ha
  have hb : (UInt64.ofNat b).toNat = b := UInt64.toNat_ofNat_of_lt' hb
  rw [mul, if_pos (by rw [ha, hb]; exact h), UInt64.ofNat_mul]

end Word

namespace Split

variable {ε : Type}

/-- Ranges side by side, the first right behind record `n` and the last without an end. -/
inductive Tiles : Nat → List Split → Prop
  | last {n : Nat} {s : Split} : s.start.toNat = n + 1 → s.isLast = true → Tiles n [s]
  | cons {n : Nat} {s : Split} {stop : UInt64} {rest : List Split} : s.start.toNat = n + 1 →
      s.isLast = false → s.stop = some stop → n < stop.toNat → Tiles stop.toNat rest → Tiles n (s :: rest)

theorem chunkCount_eq {count size : UInt64} (hcount : 0 < count.toNat) (hlarge : count.toNat < 2 ^ 63)
    (hsize : 0 < size.toNat) :
    ∃ chunks, chunkCount (ε := ε) count size = .ok chunks ∧ 0 < chunks.toNat ∧
      count.toNat ≤ chunks.toNat * size.toNat ∧ chunks.toNat * size.toNat < count.toNat + size.toNat ∧
      chunks.toNat * size.toNat < UInt64.size := by
  have hdivide := Nat.div_add_mod' count.toNat size.toNat
  have hrest := Nat.mod_lt count.toNat hsize
  have hword : UInt64.size = 2 ^ 64 := rfl
  unfold chunkCount
  by_cases hmod : count % size = 0
  · have hmod' : count.toNat % size.toNat = 0 := by
      rw [← UInt64.toNat_mod, hmod]
      rfl
    rw [if_pos hmod]
    refine ⟨_, rfl, ?_⟩
    rw [UInt64.toNat_div]
    rw [hmod', Nat.add_zero] at hdivide
    rw [hdivide]
    refine ⟨Nat.div_pos ?_ hsize, by omega, by omega, by omega⟩
    exact Nat.le_of_dvd hcount (Nat.dvd_of_mod_eq_zero hmod')
  · have hmod' : count.toNat % size.toNat ≠ 0 :=
      fun h => hmod (UInt64.toNat_inj.mp (by rwa [UInt64.toNat_mod]))
    have hquotient : (count / size).toNat = count.toNat / size.toNat := UInt64.toNat_div ..
    have hle := Nat.div_le_self count.toNat size.toNat
    have hfits : (count / size).toNat + (1 : UInt64).toNat < UInt64.size := by
      rw [hquotient, UInt64.toNat_one]
      omega
    have hadd : Word.add (ε := ε) (count / size) 1 = .ok (count / size + 1) := if_pos hfits
    have hchunks : (count / size + 1).toNat = count.toNat / size.toNat + 1 := by
      rw [Word.toNat_of_add hadd, hquotient]
      rfl
    rw [if_neg hmod]
    refine ⟨_, hadd, ?_⟩
    rw [hchunks, Nat.succ_mul]
    refine ⟨by omega, by omega, by omega, ?_⟩
    -- One range takes any size; where there are more, none is larger than the count.
    rcases Nat.eq_zero_or_pos (count.toNat / size.toNat) with hzero | hpos
    · rw [hzero, Nat.zero_mul, Nat.zero_add]
      exact UInt64.toNat_lt_size size
    · have hsmall : size.toNat ≤ count.toNat / size.toNat * size.toNat :=
        Nat.le_mul_of_pos_left _ hpos
      omega

def part (c : RecordCount) (count size chunks i : Nat) : Split :=
  { whole c with
    start := .ofNat (i * size + 1)
    stop := some (.ofNat (min ((i + 1) * size) count))
    isLast := i + 1 = chunks }

theorem chunk_eq (c : RecordCount) {count size chunks : UInt64}
    (hfits : chunks.toNat * size.toNat < UInt64.size) {i : Nat} (hi : i < chunks.toNat)
    (hinside : i * size.toNat < count.toNat) :
    chunk (ε := ε) c count size chunks (.ofNat i) =
      .ok (part c count.toNat size.toNat chunks.toNat i) := by
  have hword : chunks.toNat < UInt64.size := UInt64.toNat_lt_size chunks
  have hsize : size.toNat < UInt64.size := UInt64.toNat_lt_size size
  have hcount : count.toNat < UInt64.size := UInt64.toNat_lt_size count
  have hnext : (i + 1) * size.toNat ≤ chunks.toNat * size.toNat := Nat.mul_le_mul_right _ hi
  have hprev : i * size.toNat ≤ (i + 1) * size.toNat := Nat.mul_le_mul_right _ (Nat.le_succ i)
  have hmul (j : Nat) (hj : j < UInt64.size) (hproduct : j * size.toNat < UInt64.size) :
      Word.mul (ε := ε) (.ofNat j) size = .ok (.ofNat (j * size.toNat)) := by
    have hm := Word.mul_ofNat (ε := ε) hj hsize hproduct
    rwa [UInt64.ofNat_toNat] at hm
  have hfirst : Word.add (ε := ε) (.ofNat (i * size.toNat)) 1 = .ok (.ofNat (i * size.toNat + 1)) :=
    Word.add_ofNat (b := 1) (by omega)
  have hsucc : Word.add (ε := ε) (.ofNat i) 1 = .ok (.ofNat (i + 1)) :=
    Word.add_ofNat (b := 1) (by omega)
  have hstop : min (.ofNat ((i + 1) * size.toNat)) count =
      UInt64.ofNat (min ((i + 1) * size.toNat) count.toNat) := by
    have hnat : (UInt64.ofNat ((i + 1) * size.toNat)).toNat = (i + 1) * size.toNat :=
      UInt64.toNat_ofNat_of_lt' (by omega)
    have hle : UInt64.ofNat ((i + 1) * size.toNat) ≤ count ↔ (i + 1) * size.toNat ≤ count.toNat := by
      rw [UInt64.le_iff_toNat_le, hnat]
    have hmin (a b : UInt64) : min a b = if a ≤ b then a else b := rfl
    rw [hmin, Nat.min_def]
    simp only [hle]
    split
    · rfl
    · rw [UInt64.ofNat_toNat]
  have hlast : (UInt64.ofNat (i + 1) = chunks) = (i + 1 = chunks.toNat) := by
    rw [← UInt64.toNat_inj, UInt64.toNat_ofNat_of_lt' (by omega)]
  simp only [chunk, bind, Except.bind, hmul i (by omega) (by omega), hfirst, hsucc,
    hmul (i + 1) (by omega) (by omega), hstop, part, hlast]

theorem mapM_ok {α β : Type} {f : α → Except ε β} {g : α → β} {xs : List α}
    (h : ∀ x ∈ xs, f x = .ok (g x)) :
    xs.mapM f = .ok (xs.map g) := by
  induction xs with
  | nil => rfl
  | cons x xs ih =>
    rw [List.mapM_cons, h x List.mem_cons_self, ih fun y hy => h y (List.mem_cons_of_mem _ hy)]
    rfl

theorem tiles_part (c : RecordCount) {count size chunks : Nat} (hcount : count < UInt64.size)
    (hsize : 0 < size) (hchunks : chunks * size < count + size) (m i : Nat)
    (hi : i + (m + 1) = chunks) :
    Tiles (i * size) ((List.range' i (m + 1)).map (part c count size chunks)) := by
  have hbelow (j : Nat) (hj : j < chunks) : j * size < count := by
    have hle : (j + 1) * size ≤ chunks * size := Nat.mul_le_mul_right _ hj
    rw [Nat.succ_mul] at hle
    omega
  have hstart (j : Nat) (hj : j < chunks) : (part c count size chunks j).start.toNat = j * size + 1 := by
    have hlt := hbelow j hj
    exact UInt64.toNat_ofNat_of_lt' (by omega)
  induction m generalizing i with
  | zero => exact .last (hstart i (by omega)) (decide_eq_true hi)
  | succ m ih =>
    have hlt := hbelow (i + 1) (by omega)
    have hstop : (UInt64.ofNat (min ((i + 1) * size) count)).toNat = (i + 1) * size := by
      rw [Nat.min_eq_left (Nat.le_of_lt hlt)]
      exact UInt64.toNat_ofNat_of_lt' (by omega)
    have hrest := ih (i + 1) (by omega)
    rw [← hstop] at hrest
    refine .cons (hstart i (by omega)) (decide_eq_false (by omega)) rfl ?_ hrest
    rw [hstop, Nat.succ_mul]
    omega

structure From (c : RecordCount) (s : Split) : Prop where
  forest : s.forest = c.forest
  host : s.host = c.host
  replicas : s.replicas = c.replicas

theorem toNat_max_one (size : UInt64) : (max size 1).toNat = max size.toNat 1 := by
  have hmax : max size 1 = if size ≤ 1 then 1 else size := rfl
  have hle : size ≤ 1 ↔ size.toNat ≤ 1 := UInt64.le_iff_toNat_le
  rw [hmax, Nat.max_def]
  simp only [hle]
  split
  · rfl
  · rfl

/-- A forest of unknown size is one range. The ranges of a counted one are as many as it takes, and are
reckoned without an overflow. -/
theorem cut_cases (c : RecordCount) (maxSize : UInt64) :
    c.records.toInt ≤ 0 ∧ cut (ε := ε) c maxSize = .ok [whole c] ∨
      0 < c.records.toInt ∧ c.records.toInt.toNat < 2 ^ 63 ∧
        ∃ chunks, 0 < chunks ∧ c.records.toInt.toNat ≤ chunks * max maxSize.toNat 1 ∧
          chunks * max maxSize.toNat 1 < c.records.toInt.toNat + max maxSize.toNat 1 ∧
          cut (ε := ε) c maxSize =
            .ok ((List.range chunks).map (part c c.records.toInt.toNat (max maxSize.toNat 1) chunks)) := by
  have hlarge := Int64.toInt_lt c.records
  by_cases hnegative : c.records.toInt < 0
  · have hestimate : c.estimate? = none := if_neg (Int.not_le.mpr hnegative)
    exact .inl ⟨Int.le_of_lt hnegative, by rw [cut, hestimate]⟩
  obtain ⟨count, hcount⟩ : ∃ count, count = UInt64.ofNat c.records.toInt.toNat := ⟨_, rfl⟩
  have hestimate : c.estimate? = some count := by rw [hcount]; exact if_pos (Int.not_lt.mp hnegative)
  have hnat : count.toNat = c.records.toInt.toNat := by
    rw [hcount]
    exact UInt64.toNat_ofNat_of_lt' (by simp only [UInt64.size]; omega)
  by_cases hzero : count = 0
  · rw [hzero, UInt64.toNat_zero] at hnat
    exact .inl ⟨by omega, by rw [cut, hestimate]; exact if_pos hzero⟩
  have hpos : 0 < count.toNat := Nat.pos_of_ne_zero fun h => hzero (UInt64.toNat_inj.mp h)
  have hsize : 0 < (max maxSize 1).toNat := by rw [toNat_max_one]; omega
  obtain ⟨chunks, hchunks, hsome, hle, hlt, hfits⟩ := chunkCount_eq (ε := ε) hpos (by omega) hsize
  have hmap : (List.range chunks.toNat).mapM
      (fun i => chunk (ε := ε) c count (max maxSize 1) chunks (UInt64.ofNat i)) =
        .ok ((List.range chunks.toNat).map (part c count.toNat (max maxSize 1).toNat chunks.toNat)) := by
    refine mapM_ok fun i hi => ?_
    rw [List.mem_range] at hi
    have hnext : (i + 1) * (max maxSize 1).toNat ≤ chunks.toNat * (max maxSize 1).toNat :=
      Nat.mul_le_mul_right _ hi
    rw [Nat.succ_mul] at hnext
    exact chunk_eq c hfits hi (by omega)
  have hcut : cut (ε := ε) c maxSize = (List.range chunks.toNat).mapM
      (fun i => chunk (ε := ε) c count (max maxSize 1) chunks (UInt64.ofNat i)) := by
    simp only [cut, hestimate, if_neg hzero, bind, Except.bind, hchunks]
  rw [toNat_max_one, hnat] at hle hlt hmap
  exact .inr ⟨by omega, by omega, chunks.toNat, hsome, hle, hlt, hcut.trans hmap⟩

theorem cut_tiles (c : RecordCount) (maxSize : UInt64) :
    ∃ splits, cut (ε := ε) c maxSize = .ok splits ∧ Tiles 0 splits ∧ ∀ s ∈ splits, From c s := by
  obtain ⟨-, hcut⟩ | ⟨-, hlarge, chunks, hsome, -, hlt, hcut⟩ := cut_cases (ε := ε) c maxSize
  · refine ⟨_, hcut, .last rfl rfl, fun s hs => ?_⟩
    rw [List.mem_singleton.mp hs]
    exact ⟨rfl, rfl, rfl⟩
  · have hword : c.records.toInt.toNat < UInt64.size := Nat.lt_trans hlarge (by decide)
    have htiles := tiles_part c hword (Nat.le_max_right _ 1) hlt (chunks - 1) 0 (by omega)
    rw [Nat.zero_mul, Nat.sub_add_cancel hsome, ← List.range_eq_range'] at htiles
    refine ⟨_, hcut, htiles, fun s hs => ?_⟩
    obtain ⟨i, -, rfl⟩ := List.mem_map.mp hs
    exact ⟨rfl, rfl, rfl⟩

end Split

end ForestCourier
