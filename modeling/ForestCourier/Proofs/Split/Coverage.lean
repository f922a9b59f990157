import ForestCourier.Proofs.Split.Interleave
import ForestCourier.Proofs.Split.Tiles

/-!
A plan covers every forest that was counted. Its splits are, up to their order, one list of ranges
side by side for each of the forests, which go by the order of their starts. A forest that is
counted once has the splits of its name to itself.
-/

namespace ForestCourier.Split

variable {ε : Type}

theorem Tiles.withRules {n : Nat} {splits : List Split} (h : Tiles n splits) (rules : List String) :
    Tiles n (splits.map fun s => { s with redactionRules := rules }) := by
  induction h with
  | last hstart hlast => exact .last hstart hlast
  | cons hstart hlast hstop hlt _ ih => exact .cons hstart hlast hstop hlt ih

theorem Tiles.lt_start {n : Nat} {splits : List Split} (h : Tiles n splits) :
    ∀ s ∈ splits, n < s.start.toNat := by
  induction h with
  | last hstart _ =>
    intro s hs
    rw [List.mem_singleton.mp hs]
    omega
  | cons hstart _ _ hlt _ ih =>
    intro s hs
    rcases List.mem_cons.mp hs with rfl | hs
    · omega
    · have hafter := ih s hs
      omega

theorem Tiles.ordered {n : Nat} {splits : List Split} (h : Tiles n splits) :
    splits.Pairwise fun s t => s.start < t.start := by
  induction h with
  | last => exact List.pairwise_singleton _ _
  | @cons n s stop rest hstart _ _ hlt hrest ih =>
    refine List.pairwise_cons.mpr ⟨fun t ht => ?_, ih⟩
    have hafter := hrest.lt_start t ht
    rw [UInt64.lt_iff_toNat_lt]
    omega

/-- The ranges planned for one forest that was counted. -/
structure Covers (rules : List String) (c : RecordCount) (splits : List Split) : Prop where
  tiles : Tiles 0 splits
  source : ∀ s ∈ splits, From c s
  rules : ∀ s ∈ splits, s.redactionRules = rules

theorem cut_covers (rules : List String) (c : RecordCount) (maxSize : UInt64) :
    ∃ splits, cut (ε := ε) c maxSize = .ok splits ∧
      Covers rules c (splits.map fun s => { s with redactionRules := rules }) := by
  obtain ⟨splits, hcut, htiles, hsource⟩ := cut_tiles (ε := ε) c maxSize
  refine ⟨splits, hcut, htiles.withRules rules, fun s hs => ?_, fun s hs => ?_⟩
  · obtain ⟨t, ht, rfl⟩ := List.mem_map.mp hs
    exact ⟨(hsource t ht).forest, (hsource t ht).host, (hsource t ht).replicas⟩
  · obtain ⟨t, -, rfl⟩ := List.mem_map.mp hs
    rfl

theorem mapM_forall₂ {α β : Type} {f : α → Except ε β} {R : α → β → Prop} (h : ∀ x, ∃ y, f x = .ok y ∧ R x y)
    (xs : List α) : ∃ ys, xs.mapM f = .ok ys ∧ List.Forall₂ R xs ys := by
  induction xs with
  | nil => exact ⟨[], rfl, .nil⟩
  | cons x xs ih =>
    obtain ⟨y, hy, hR⟩ := h x
    obtain ⟨ys, hys, hrest⟩ := ih
    refine ⟨y :: ys, ?_, .cons hR hrest⟩
    rw [List.mapM_cons, hy, hys]
    rfl

theorem mapM_cut (rules : List String) (forests : List RecordCount) (maxSize : UInt64) :
    ∃ perForest, forests.mapM (fun c => cut (ε := ε) c maxSize) = .ok perForest ∧
      List.Forall₂ (Covers rules) forests
        (perForest.map fun splits => splits.map fun s => { s with redactionRules := rules }) := by
  obtain ⟨perForest, hmap, hcovers⟩ := mapM_forall₂ (fun c => cut_covers (ε := ε) rules c maxSize) forests
  exact ⟨perForest, hmap, List.forall₂_map_right_iff.mpr hcovers⟩

theorem plan_covers (forests : List RecordCount) (maxSize : UInt64) (rules : List String) :
    ∃ splits groups, plan (ε := ε) forests maxSize rules = .ok splits ∧
      List.Forall₂ (Covers rules) forests groups ∧ splits.Perm groups.flatten := by
  obtain ⟨perForest, hmap, hcovers⟩ := mapM_cut (ε := ε) rules forests maxSize
  refine ⟨_, _, ?_, hcovers, interleave_perm _⟩
  rw [plan, hmap]
  rfl

theorem plan_mem {forests : List RecordCount} {maxSize : UInt64} {rules : List String} {splits : List Split}
    (h : plan (ε := ε) forests maxSize rules = .ok splits) {s : Split} (hs : s ∈ splits) :
    ∃ c ∈ forests, From c s ∧ s.redactionRules = rules := by
  obtain ⟨_, groups, hplan, hcovers, hperm⟩ := plan_covers (ε := ε) forests maxSize rules
  cases h.symm.trans hplan
  obtain ⟨group, hgroup, hs⟩ := List.mem_flatten.mp (hperm.mem_iff.mp hs)
  clear hplan hperm h
  induction hcovers with
  | nil => cases hgroup
  | cons hcover _ ih =>
    rcases List.mem_cons.mp hgroup with rfl | hgroup
    · exact ⟨_, List.mem_cons_self, hcover.source s hs, hcover.rules s hs⟩
    · obtain ⟨c, hc, hfrom⟩ := ih hgroup
      exact ⟨c, List.mem_cons_of_mem _ hc, hfrom⟩

end ForestCourier.Split
