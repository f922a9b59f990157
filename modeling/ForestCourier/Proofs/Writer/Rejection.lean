import Mathlib.Data.List.Basic
import Mathlib.Tactic.Common
import ForestCourier.Writer.Delivery

/-!
What is left of a batch after the server has rejected some of its documents. Taking the named
positions out from the last one down leaves exactly the documents at the other positions, in their
order, however often a position is named and whatever else the rejections name.
-/

namespace ForestCourier.Writer

def kept (docs : List Content) (rejections : List Rejection) : List Content :=
  (docs.zipIdx.filter fun e => !rejections.any fun r => r.index == e.2).map Prod.fst

theorem without_map_succ (doc : Content) (docs : List Content) (indices : List Nat) :
    without (doc :: docs) (indices.map (· + 1)) = doc :: without docs indices := by
  induction indices with
  | nil => rfl
  | cons i is ih =>
    simp only [without, List.map_cons, List.foldr_cons] at ih ⊢
    rw [ih, List.eraseIdx_cons_succ]

theorem without_cons_zero (doc : Content) (docs : List Content) (indices : List Nat) :
    without (doc :: docs) (0 :: indices.map (· + 1)) = without docs indices := by
  have h := without_map_succ doc docs indices
  simp only [without, List.foldr_cons] at h ⊢
  rw [h, List.eraseIdx_cons_zero]

/-- Positions are counted from `k` on, so that the induction may pass to the rest of the list. -/
theorem without_named (named : Nat → Bool) (docs : List Content) (k : Nat) :
    without docs ((List.range docs.length).filter fun i => named (k + i)) =
      ((docs.zipIdx k).filter fun e => !named e.2).map Prod.fst := by
  induction docs generalizing k with
  | nil => rfl
  | cons doc docs ih =>
    have hshift : ((List.range docs.length).map (· + 1)).filter (fun i => named (k + i)) =
        ((List.range docs.length).filter fun i => named (k + 1 + i)).map (· + 1) := by
      rw [List.filter_map]
      congr 2
      funext i
      simp only [Function.comp_apply]
      congr 1
      omega
    rw [List.length_cons, List.range_succ_eq_map, List.zipIdx_cons, List.filter_cons,
      List.filter_cons]
    simp only [Nat.add_zero]
    cases hk : named k with
    | true => simpa [hshift, without_cons_zero] using ih (k + 1)
    | false => simpa [hshift, without_map_succ] using ih (k + 1)

theorem without_rejectedIndices (docs : List Content) (rejections : List Rejection) :
    without docs (rejectedIndices docs rejections) = kept docs rejections := by
  have h := without_named (fun i => rejections.any fun r => r.index == i) docs 0
  simp only [Nat.zero_add] at h
  exact h

theorem kept_sublist (docs : List Content) (rejections : List Rejection) :
    (kept docs rejections).Sublist docs := by
  have h := (List.filter_sublist (l := docs.zipIdx)
    (p := fun e => !rejections.any fun r => r.index == e.2)).map Prod.fst
  rwa [List.zipIdx_map_fst] at h

theorem length_kept_add (docs : List Content) (rejections : List Rejection) :
    (kept docs rejections).length + (rejectedIndices docs rejections).length = docs.length := by
  have hindices : rejectedIndices docs rejections =
      (docs.zipIdx.filter fun e => rejections.any fun r => r.index == e.2).map Prod.snd := by
    rw [rejectedIndices, List.range_eq_range', ← List.zipIdx_map_snd 0 docs, List.filter_map]
    rfl
  have hsplit := List.length_eq_length_filter_add (l := docs.zipIdx)
    fun e => rejections.any fun r => r.index == e.2
  rw [List.length_zipIdx] at hsplit
  rw [kept, hindices, List.length_map, List.length_map, hsplit, Nat.add_comm]

theorem kept_eq_filter {docs : List Content} {rejections : List Rejection} {p : Content → Bool}
    (h : ∀ i doc, docs[i]? = some doc → rejections.any (fun r => r.index == i) = p doc) :
    kept docs rejections = docs.filter fun doc => !p doc := by
  have hmem : ∀ e ∈ docs.zipIdx, (!rejections.any fun r => r.index == e.2) = !p e.1 := by
    intro e he
    rw [h e.2 e.1 (List.mem_zipIdx_iff_getElem?.mp he)]
  unfold kept
  rw [List.filter_congr hmem]
  conv_rhs => rw [← List.zipIdx_map_fst 0 docs, List.filter_map]
  rfl

end ForestCourier.Writer
