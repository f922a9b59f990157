import Mathlib.Algebra.Order.Floor.Div
import Mathlib.Data.Nat.Init
import Mathlib.Order.Interval.Finset.Nat
import ForestCourier.Placement.Policy

/-!
The segments of a forest. Placement by segment rounds a position down, so the segments of each forest are a
run, from one boundary, rounded up, to the next. The boundaries are spaced evenly, and one more forest moves
each of them by less than a run.
-/

namespace ForestCourier.Placement

/-- Where the segments of forest `i` begin, if `n` forests share the segments evenly. -/
def boundary (n i : Nat) : Nat := segmentCount * i ⌈/⌉ n

def run (n i : Nat) : Finset Nat := Finset.Ico (boundary n i) (boundary n (i + 1))

variable {n : Nat}

theorem mem_run (hn : 0 < n) {s i : Nat} : s ∈ run n i ↔ s * n / segmentCount = i := by
  have hcount : 0 < segmentCount := by decide
  have hboundary (k : Nat) : boundary n k ≤ s ↔ k * segmentCount ≤ s * n := by
    rw [boundary, ceilDiv_le_iff_le_mul hn, Nat.mul_comm n s, Nat.mul_comm k]
  rw [run, Finset.mem_Ico, hboundary, ← Nat.not_le, hboundary, Nat.not_le, Nat.div_eq_iff hcount, Nat.succ_mul]
  omega

theorem card_run_bounds (hn : 0 < n) (i : Nat) :
    segmentCount < n * (run n i).card + n ∧ n * (run n i).card < segmentCount + n := by
  have hlow (k : Nat) : segmentCount * k ≤ n * boundary n k := le_smul_ceilDiv hn
  have hhigh (k : Nat) : n * boundary n k < segmentCount * k + n := by
    rw [boundary, Nat.ceilDiv_eq_add_pred_div]
    have := Nat.mul_div_le (segmentCount * k + n - 1) n
    omega
  have := hlow i
  have := hlow (i + 1)
  have := hhigh i
  have := hhigh (i + 1)
  have hsucc : segmentCount * (i + 1) = segmentCount * i + segmentCount := Nat.mul_succ _ _
  rw [run, Nat.card_Ico, Nat.mul_sub]
  omega

/-- Runs that are bounded by evenly spaced boundaries are of two sizes at most. -/
theorem card_run_le (hn : 0 < n) (i j : Nat) : (run n i).card ≤ (run n j).card + 1 := by
  have hi := (card_run_bounds hn i).2
  have hj := (card_run_bounds hn j).1
  have hmul : n * (run n i).card < n * ((run n j).card + 2) := by
    rw [Nat.mul_add]
    omega
  exact Nat.le_of_lt_succ (Nat.lt_of_mul_lt_mul_left hmul)

theorem place_segment (hn : 0 < n) (hfits : n ≤ 2 ^ 50) (uri : Uri) (partition : Option String) :
    (Policy.segment n).place uri partition = (.ok (segment uri.text * n / segmentCount), .segment n) := by
  have hlt : segment uri.text * n < UInt64.size :=
    calc segment uri.text * n ≤ (segmentCount - 1) * 2 ^ 50 :=
        Nat.mul_le_mul (Nat.le_pred_of_lt (segment_lt uri.text)) hfits
      _ < UInt64.size := by decide
  rw [Policy.place, segmentIndex, if_neg (Nat.ne_of_gt hn), if_pos hlt]

/-- A segment is less than a whole round, so one more forest adds less than one to its position. -/
theorem position_grows (n : Nat) {s : Nat} (hs : s < segmentCount) :
    s * (n + 1) / segmentCount = s * n / segmentCount ∨ s * (n + 1) / segmentCount = s * n / segmentCount + 1 := by
  have hcount : 0 < segmentCount := by decide
  have hle : s * n / segmentCount ≤ s * (n + 1) / segmentCount :=
    Nat.div_le_div_right (Nat.mul_le_mul_left s (Nat.le_succ n))
  have hlt : s * (n + 1) / segmentCount < s * n / segmentCount + 2 := by
    rw [Nat.div_lt_iff_lt_mul hcount, Nat.mul_succ]
    have := Nat.lt_div_mul_add hcount (a := s * n)
    rw [Nat.add_mul]
    omega
  omega

/-- Placement by segment divides the segments among the forests: each segment is in the run of one forest, a
run begins where the one before ends, and no run is longer than another one by more than a segment. A
document goes to the forest whose run its segment is in. One more forest leaves it where it is or moves it on
to the next. -/
theorem segments_divided {n : Nat} (hn : 1 ≤ n) (hfits : n < 2 ^ 50) :
    boundary n 0 = 0 ∧ boundary n n = segmentCount ∧
    (∀ s < segmentCount, ∃! i, i < n ∧ s ∈ run n i) ∧
    (∀ i < n, ∀ j < n, (run n i).card ≤ (run n j).card + 1) ∧
    ∀ uri partition,
      (∀ i, (Policy.segment n).place uri partition = (.ok i, .segment n) ↔ segment uri.text ∈ run n i) ∧
      ∃ i < n, (Policy.segment n).place uri partition = (.ok i, .segment n) ∧
        ((Policy.segment (n + 1)).place uri partition = (.ok i, .segment (n + 1)) ∨
          (Policy.segment (n + 1)).place uri partition = (.ok (i + 1), .segment (n + 1))) := by
  have hpos : 0 < n := hn
  have hposition {s : Nat} (hs : s < segmentCount) : s * n / segmentCount < n := by
    rw [Nat.div_lt_iff_lt_mul (by decide), Nat.mul_comm n]
    exact Nat.mul_lt_mul_of_pos_right hs hpos
  refine ⟨?_, ?_, fun s hs => ?_, fun i _ j _ => card_run_le hpos i j, fun uri partition => ⟨fun i => ?_, ?_⟩⟩
  · rw [boundary, Nat.mul_zero]
    exact zero_ceilDiv n
  · rw [boundary, Nat.mul_comm]
    exact smul_ceilDiv hpos segmentCount
  · exact ⟨_, ⟨hposition hs, (mem_run hpos).mpr rfl⟩, fun i hi => ((mem_run hpos).mp hi.2).symm⟩
  · rw [place_segment hpos hfits.le, mem_run hpos, Prod.mk.injEq, Except.ok.injEq]
    exact and_iff_left rfl
  · refine ⟨_, hposition (segment_lt uri.text), place_segment hpos hfits.le uri partition, ?_⟩
    rw [place_segment (Nat.succ_pos n) hfits uri partition]
    obtain hsame | hnext := position_grows n (segment_lt uri.text)
    · rw [hsame]
      exact .inl rfl
    · rw [hnext]
      exact .inr rfl

/-- Three forests do not divide the segments evenly, so the first one has a segment more. A document with a
segment near the end is the last one's, also of four. -/
theorem segments_divided_three :
    1 ≤ 3 ∧ 3 < 2 ^ 50 ∧ run 3 0 = Finset.Ico 0 5462 ∧ run 3 2 = Finset.Ico 10923 16384 ∧
      (run 3 0).card ≤ (run 3 2).card + 1 ∧ segment "/d/0.xml" = 12742 ∧
      (Policy.segment 3).place ⟨"/d/0.xml"⟩ none = (.ok 2, .segment 3) ∧
      (Policy.segment 4).place ⟨"/d/0.xml"⟩ none = (.ok 3, .segment 4) := by
  obtain ⟨-, -, -, hbalance, hplace⟩ := segments_divided (n := 3) (by decide) (by decide)
  obtain ⟨hiff, i, -, hi, hgrown⟩ := hplace ⟨"/d/0.xml"⟩ none
  have hsegment : segment "/d/0.xml" = 12742 := by decide +kernel
  have hrun : run 3 2 = Finset.Ico 10923 16384 := rfl
  have hthree : (Policy.segment 3).place ⟨"/d/0.xml"⟩ none = (.ok 2, .segment 3) := by
    rw [hiff, hsegment, hrun, Finset.mem_Ico]
    decide
  have hi2 : i = 2 := by
    rw [hthree, Prod.mk.injEq, Except.ok.injEq] at hi
    exact hi.1.symm
  subst hi2
  refine ⟨by decide, by decide, rfl, hrun, hbalance 0 (by decide) 2 (by decide), hsegment, hthree, ?_⟩
  exact hgrown.resolve_left (by decide +kernel)

end ForestCourier.Placement
