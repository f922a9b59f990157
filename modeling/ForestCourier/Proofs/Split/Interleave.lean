import Mathlib.Data.List.Perm.Basic
import ForestCourier.Split.Plan

/-!
The order in which splits are read is an order only: dealing out lists and grouping items by key keep
every item, as often as it is there.
-/

namespace ForestCourier.Split

variable {α κ : Type}

theorem groupBy_cons [BEq κ] [LawfulBEq κ] (key : α → κ) (x : α) (xs : List α) :
    groupBy key (x :: xs) =
      (x :: xs.filter fun y => key y == key x) :: groupBy key (xs.filter fun y => !key y == key x) := by
  have hkeys : ((xs.map key).filter fun k => !k == key x) =
      (xs.filter fun y => !key y == key x).map key := by
    rw [List.filter_map]
    rfl
  unfold groupBy
  rw [List.map_cons, List.eraseDups_cons, List.map_cons, hkeys]
  congr 1
  · rw [List.filter_cons, if_pos (beq_self_eq_true _)]
  · refine List.map_congr_left fun k hk => ?_
    rw [List.mem_eraseDups] at hk
    obtain ⟨y, hy, rfl⟩ := List.mem_map.mp hk
    have hne : (key y == key x) = false := by simpa using (List.mem_filter.mp hy).2
    rw [List.filter_cons, if_neg (by simpa using fun h : key x = key y => by simp [h] at hne),
      List.filter_filter]
    refine List.filter_congr fun z _ => ?_
    by_cases hz : key z = key y
    · simp [hz, hne]
    · simp [hz]

theorem groupBy_perm [BEq κ] [LawfulBEq κ] (key : α → κ) (xs : List α) :
    (groupBy key xs).flatten.Perm xs := by
  induction h : xs.length using Nat.strongRecOn generalizing xs with
  | ind n ih =>
    cases xs with
    | nil => exact .refl _
    | cons x xs =>
      have hlen := List.length_filter_le (fun y => !key y == key x) xs
      rw [List.length_cons] at h
      have hrest := ih _ (by omega) (xs.filter fun y => !key y == key x) rfl
      rw [groupBy_cons, List.flatten_cons, List.cons_append]
      exact ((hrest.append_left _).trans (List.filter_append_perm _ xs)).cons x

theorem filterMap_range_getElem? (xs : List α) {n : Nat} (h : xs.length ≤ n) :
    (List.range n).filterMap (fun r => xs[r]?) = xs := by
  induction xs generalizing n with
  | nil => simp
  | cons x xs ih =>
    cases n with
    | zero => simp at h
    | succ n =>
      have hrest := ih (Nat.le_of_succ_le_succ h)
      rw [List.range_succ_eq_map, List.filterMap_cons, List.filterMap_map]
      simpa [Function.comp_def] using hrest

theorem deal_rounds (groups : List (List α)) {n : Nat} (h : ∀ g ∈ groups, g.length ≤ n) :
    ((List.range n).flatMap fun r => groups.filterMap fun g => g[r]?).Perm groups.flatten := by
  induction groups with
  | nil => simp
  | cons g groups ih =>
    have hrest := ih fun g' hg' => h g' (List.mem_cons_of_mem _ hg')
    have hfirst : (List.range n).flatMap (fun r => (g[r]?).toList) = g := by
      rw [← List.filterMap_eq_flatMap_toList]
      exact filterMap_range_getElem? g (h g List.mem_cons_self)
    have hcons (r : Nat) : (g :: groups).filterMap (fun g => g[r]?) =
        (g[r]?).toList ++ groups.filterMap fun g => g[r]? := by
      rw [List.filterMap_cons]
      cases g[r]? <;> rfl
    simp only [hcons]
    refine (List.flatMap_append_perm _ _ _).symm.trans ?_
    rw [hfirst, List.flatten_cons]
    exact hrest.append_left g

theorem le_foldl_max (ns : List Nat) (m : Nat) :
    m ≤ ns.foldl max m ∧ ∀ n ∈ ns, n ≤ ns.foldl max m := by
  induction ns generalizing m with
  | nil => exact ⟨Nat.le_refl m, fun n hn => by cases hn⟩
  | cons k ns ih =>
    obtain ⟨hle, hall⟩ := ih (max m k)
    refine ⟨Nat.le_trans (Nat.le_max_left m k) hle, fun n hn => ?_⟩
    rcases List.mem_cons.mp hn with rfl | hn
    · exact Nat.le_trans (Nat.le_max_right m n) hle
    · exact hall n hn

theorem deal_perm (groups : List (List α)) : (deal groups).Perm groups.flatten :=
  deal_rounds groups fun _ hg => (le_foldl_max _ 0).2 _ (List.mem_map_of_mem hg)

theorem flatten_map_deal (groups : List (List (List α))) :
    ((groups.map deal).flatten).Perm (groups.flatten).flatten := by
  induction groups with
  | nil => exact .refl _
  | cons g groups ih =>
    rw [List.map_cons, List.flatten_cons, List.flatten_cons, List.flatten_append]
    exact (deal_perm g).append ih

/-- Lists of items that are each on one host, dealt out among the lists of a host and then among the hosts. -/
def interleaveBy [BEq κ] (host : α → κ) (lists : List (List α)) : List α :=
  deal ((groupBy (fun xs : List α => xs.head?.map host) (lists.filter fun xs => !xs.isEmpty)).map deal)

theorem interleave_eq (perForest : List (List Split)) : interleave perForest = interleaveBy (·.host) perForest :=
  rfl

theorem interleaveBy_perm [BEq κ] [LawfulBEq κ] (host : α → κ) (lists : List (List α)) :
    (interleaveBy host lists).Perm lists.flatten := by
  have hsome : (lists.filter fun xs => !xs.isEmpty).flatten = lists.flatten :=
    List.flatten_filter_not_isEmpty
  unfold interleaveBy
  refine (deal_perm _).trans ((flatten_map_deal _).trans ?_)
  rw [← hsome]
  exact (groupBy_perm _ _).flatten

theorem interleave_perm (perForest : List (List Split)) :
    (interleave perForest).Perm perForest.flatten := interleaveBy_perm _ perForest

end ForestCourier.Split
