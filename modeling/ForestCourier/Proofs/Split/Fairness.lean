import Mathlib.Data.List.Nodup
import Mathlib.Data.List.Range
import ForestCourier.Proofs.Split.Interleave

/-!
The order in which splits are read is fair. Lists that are dealt out keep their own order, and none gets
more than one item ahead of another that has items left; that holds of the hosts, and on each host of the
forests that it serves.
-/

namespace ForestCourier.Split

variable {α β κ ι : Type}

/-- In no first part has a label come up more than once more often than one that is still to come. -/
def Fair [DecidableEq κ] (label : α → κ) (xs : List α) : Prop :=
  ∀ before after, xs = before ++ after → ∀ k k', (∃ x ∈ after, label x = k') →
    before.countP (fun x => label x = k) ≤ before.countP (fun x => label x = k') + 1

theorem fair_nil [DecidableEq κ] (label : α → κ) : Fair label [] := by
  intro before after h k k' _
  obtain ⟨rfl, -⟩ := List.append_eq_nil_iff.mp h.symm
  exact Nat.zero_le _

/-! A deal goes in rounds. -/

theorem rounds_add {groups : List (List α)} {n : Nat} (h : ∀ g ∈ groups, g.length ≤ n) (k : Nat) :
    (List.range (n + k)).flatMap (fun r => groups.filterMap fun g => g[r]?) =
      (List.range n).flatMap fun r => groups.filterMap fun g => g[r]? := by
  induction k with
  | zero => rfl
  | succ k ih =>
    have hover : groups.filterMap (fun g => g[n + k]?) = [] :=
      List.filterMap_eq_nil_iff.mpr fun g hg =>
        List.getElem?_eq_none (Nat.le_trans (h g hg) (Nat.le_add_right n k))
    rw [← Nat.add_assoc, List.range_succ, List.flatMap_append, ih, List.flatMap_singleton, hover,
      List.append_nil]

theorem deal_eq_rounds {groups : List (List α)} {n : Nat} (h : ∀ g ∈ groups, g.length ≤ n) :
    deal groups = (List.range n).flatMap fun r => groups.filterMap fun g => g[r]? := by
  have hmax : ∀ g ∈ groups, g.length ≤ (groups.map List.length).foldl max 0 := fun g hg =>
    (le_foldl_max _ 0).2 _ (List.mem_map_of_mem hg)
  obtain ⟨k, hk⟩ | ⟨k, hk⟩ := (Nat.le_total n ((groups.map List.length).foldl max 0)).imp
    Nat.exists_eq_add_of_le Nat.exists_eq_add_of_le
  · rw [← rounds_add h k, ← hk]
    rfl
  · rw [hk, rounds_add hmax k]
    rfl

theorem deal_round (groups : List (List α)) :
    deal groups = groups.filterMap List.head? ++ deal (groups.map List.tail) := by
  have hmax : ∀ g ∈ groups, g.length ≤ (groups.map List.length).foldl max 0 := fun g hg =>
    (le_foldl_max _ 0).2 _ (List.mem_map_of_mem hg)
  generalize (groups.map List.length).foldl max 0 = n at hmax
  have htails : ∀ g ∈ groups.map List.tail, g.length ≤ n := fun g hg => by
    obtain ⟨g', hg', rfl⟩ := List.mem_map.mp hg
    exact Nat.le_trans (List.tail_sublist g').length_le (hmax g' hg')
  have hfirst : groups.filterMap (fun g => g[0]?) = groups.filterMap List.head? :=
    List.filterMap_congr fun g _ => List.head?_eq_getElem?.symm
  have hlater (r : Nat) : groups.filterMap (fun g => g[r + 1]?) =
      (groups.map List.tail).filterMap fun g => g[r]? := by
    rw [List.filterMap_map]
    exact List.filterMap_congr fun g _ => List.getElem?_tail.symm
  rw [deal_eq_rounds fun g hg => Nat.le_succ_of_le (hmax g hg), deal_eq_rounds htails,
    List.range_succ_eq_map, List.flatMap_cons, List.flatMap_map, hfirst]
  simp only [hlater]

theorem mem_deal {groups : List (List α)} {x : α} : x ∈ deal groups ↔ ∃ g ∈ groups, x ∈ g := by
  rw [(deal_perm groups).mem_iff, List.mem_flatten]

theorem deal_map (f : α → β) (groups : List (List α)) :
    deal (groups.map (List.map f)) = (deal groups).map f := by
  have hlength : (groups.map (List.map f)).map List.length = groups.map List.length := by
    rw [List.map_map]
    exact List.map_congr_left fun g _ => List.length_map f
  have hround (r : Nat) : (groups.map (List.map f)).filterMap (fun g => g[r]?) =
      (groups.filterMap fun g => g[r]?).map f := by
    rw [List.filterMap_map, List.map_filterMap]
    exact List.filterMap_congr fun g _ => List.getElem?_map
  simp only [deal, hlength, hround, List.map_flatMap]

/-! Lists that each have a label of their own. -/

section

variable {label : α → κ} {keys : List κ} {f : κ → List α}

theorem heads_labels (hlabel : ∀ k ∈ keys, ∀ x ∈ f k, label x = k) :
    (((keys.map f).filterMap List.head?).map label).Sublist keys := by
  induction keys with
  | nil => exact .slnil
  | cons k keys ih =>
    have hrest := ih fun k' hk' => hlabel k' (List.mem_cons_of_mem _ hk')
    rw [List.map_cons, List.filterMap_cons]
    cases hf : f k with
    | nil => exact hrest.cons k
    | cons x xs =>
      have hx : label x = k := hlabel k List.mem_cons_self x (hf ▸ List.mem_cons_self)
      rw [List.head?_cons, List.map_cons, hx]
      exact hrest.cons_cons k

theorem tail_labels (hlabel : ∀ k ∈ keys, ∀ x ∈ f k, label x = k) :
    ∀ k ∈ keys, ∀ x ∈ (f k).tail, label x = k := fun k hk x hx => hlabel k hk x (List.mem_of_mem_tail hx)

variable [DecidableEq κ]

theorem countP_heads (hnodup : keys.Nodup) (hlabel : ∀ k ∈ keys, ∀ x ∈ f k, label x = k) (k : κ) :
    ((keys.map f).filterMap List.head?).countP (fun x => label x = k) ≤ 1 := by
  have hcount := List.nodup_iff_count_le_one.mp ((heads_labels hlabel).nodup hnodup) k
  rw [List.count, List.countP_map] at hcount
  exact hcount

theorem deal_filter (hnodup : keys.Nodup) (hlabel : ∀ k ∈ keys, ∀ x ∈ f k, label x = k) {k : κ} (hk : k ∈ keys) :
    (deal (keys.map f)).filter (fun x => label x = k) = f k := by
  induction hn : (f k).length generalizing f with
  | zero =>
    rw [List.eq_nil_of_length_eq_zero hn]
    refine List.filter_eq_nil_iff.mpr fun x hx hlabelled => ?_
    obtain ⟨g, hg, hxg⟩ := mem_deal.mp hx
    obtain ⟨k', hk', rfl⟩ := List.mem_map.mp hg
    cases (hlabel k' hk' x hxg).symm.trans (of_decide_eq_true hlabelled)
    rw [List.eq_nil_of_length_eq_zero hn] at hxg
    cases hxg
  | succ n ih =>
    obtain ⟨x, xs, hf⟩ := List.exists_cons_of_length_eq_add_one hn
    have hrest := ih (f := fun k => (f k).tail) (tail_labels hlabel) (by rw [hf, List.tail_cons]; simpa [hf] using hn)
    have hx : label x = k := hlabel k hk x (hf ▸ List.mem_cons_self)
    have hmem : x ∈ ((keys.map f).filterMap List.head?).filter (fun x => label x = k) :=
      List.mem_filter.mpr ⟨List.mem_filterMap.mpr ⟨f k, List.mem_map_of_mem hk, by rw [hf, List.head?_cons]⟩,
        decide_eq_true hx⟩
    have hone : ((keys.map f).filterMap List.head?).filter (fun x => label x = k) = [x] := by
      have hlength := countP_heads hnodup hlabel k
      rw [List.countP_eq_length_filter] at hlength
      obtain ⟨y, hy⟩ := List.length_eq_one_iff.mp
        (Nat.le_antisymm hlength (List.length_pos_of_mem hmem))
      rw [hy] at hmem ⊢
      rw [List.mem_singleton.mp hmem]
    rw [deal_round, List.filter_append, hone, List.map_map]
    exact (congrArg ([x] ++ ·) hrest).trans (by rw [hf]; rfl)

/-- A list that has items left has had one in every round so far. -/
theorem deal_fair (hnodup : keys.Nodup) (hlabel : ∀ k ∈ keys, ∀ x ∈ f k, label x = k) :
    Fair label (deal (keys.map f)) := by
  obtain ⟨n, hn⟩ : ∃ n, ∀ k ∈ keys, (f k).length ≤ n :=
    ⟨_, fun k hk => (le_foldl_max (keys.map fun k => (f k).length) 0).2 _ (List.mem_map_of_mem hk)⟩
  induction n generalizing f with
  | zero =>
    have hempty : deal (keys.map f) = [] := List.eq_nil_iff_forall_not_mem.mpr fun x hx => by
      obtain ⟨g, hg, hxg⟩ := mem_deal.mp hx
      obtain ⟨k, hk, rfl⟩ := List.mem_map.mp hg
      rw [List.eq_nil_of_length_eq_zero (Nat.le_zero.mp (hn k hk))] at hxg
      cases hxg
    rw [hempty]
    exact fair_nil label
  | succ n ih =>
    have hrest := ih (f := fun k => (f k).tail) (tail_labels hlabel) fun k hk => by
      rw [List.length_tail]
      exact Nat.sub_le_of_le_add (hn k hk)
    intro before after h k k' hleft
    rw [deal_round, List.map_map] at h
    obtain ⟨before', rfl, hdealt⟩ | ⟨heads', hheads, rfl⟩ := List.append_eq_append_iff.mp h
    · have hlater := hrest before' after hdealt k k' hleft
      have hfirst := countP_heads hnodup hlabel k
      -- The label that is still to come is the one of a list with another item, so it has its turn in this round.
      have hserved : 0 < ((keys.map f).filterMap List.head?).countP (fun x => label x = k') := by
        obtain ⟨x, hx, hxk⟩ := hleft
        obtain ⟨g, hg, hxg⟩ := mem_deal.mp (hdealt ▸ List.mem_append_right before' hx)
        obtain ⟨j, hj, rfl⟩ := List.mem_map.mp hg
        have hin : x ∈ f j := List.mem_of_mem_tail hxg
        have hjk : j = k' := (hlabel j hj x hin).symm.trans hxk
        obtain ⟨y, ys, hf⟩ := List.exists_cons_of_ne_nil (List.ne_nil_of_mem hin)
        refine List.countP_pos_iff.mpr ⟨y, List.mem_filterMap.mpr ⟨f j, List.mem_map_of_mem hj, ?_⟩, ?_⟩
        · rw [hf, List.head?_cons]
        · exact decide_eq_true ((hlabel j hj y (hf ▸ List.mem_cons_self)).trans hjk)
      rw [List.countP_append, List.countP_append]
      omega
    · have hfirst := countP_heads hnodup hlabel k
      rw [hheads, List.countP_append] at hfirst
      omega

end

theorem Fair.map [DecidableEq κ] {label : β → κ} {f : α → β} {xs : List α} (h : Fair (fun x => label (f x)) xs) :
    Fair label (xs.map f) := by
  intro before after hsplit k k' hleft
  obtain ⟨before', after', rfl, rfl, rfl⟩ := List.map_eq_append_iff.mp hsplit
  obtain ⟨y, hy, hyk⟩ := hleft
  obtain ⟨x, hx, rfl⟩ := List.mem_map.mp hy
  rw [List.countP_map, List.countP_map]
  exact h before' after' rfl k k' ⟨x, hx, hyk⟩

theorem Fair.of_some [DecidableEq κ] {label : α → κ} {xs : List α} (h : Fair (fun x => some (label x)) xs) :
    Fair label xs := by
  intro before after hsplit k k' ⟨x, hx, hxk⟩
  have hfair := h before after hsplit (some k) (some k') ⟨x, hx, congrArg some hxk⟩
  simpa only [Option.some_inj] using hfair

theorem nodup_eraseDups [BEq κ] [LawfulBEq κ] (ks : List κ) : ks.eraseDups.Nodup := by
  induction h : ks.length using Nat.strongRecOn generalizing ks with
  | ind n ih =>
    cases ks with
    | nil => exact .nil
    | cons k ks =>
      have hlen := List.length_filter_le (fun k' => !k' == k) ks
      rw [List.length_cons] at h
      rw [List.eraseDups_cons, List.nodup_cons, List.mem_eraseDups]
      refine ⟨fun hk => ?_, ih _ (by omega) _ rfl⟩
      simpa using (List.mem_filter.mp hk).2

theorem groupBy_map [BEq κ] (key : β → κ) (f : α → β) (xs : List α) :
    groupBy key (xs.map f) = (groupBy (fun x => key (f x)) xs).map (List.map f) := by
  have hkeys : (xs.map f).map key = xs.map fun x => key (f x) := List.map_map
  unfold groupBy
  rw [hkeys, List.map_map]
  refine List.map_congr_left fun k _ => ?_
  rw [List.filter_map]
  rfl

theorem interleaveBy_map [BEq κ] (host : β → κ) (f : α → β) (lists : List (List α)) :
    interleaveBy host (lists.map (List.map f)) = (interleaveBy (fun x => host (f x)) lists).map f := by
  have hsome : (lists.map (List.map f)).filter (fun xs => !xs.isEmpty) =
      (lists.filter fun xs => !xs.isEmpty).map (List.map f) := by
    rw [List.filter_map]
    exact congrArg _ (List.filter_congr fun xs _ => by cases xs <;> rfl)
  have hkey : (fun xs : List α => (xs.map f).head?.map host) = fun xs => xs.head?.map fun x => host (f x) := by
    funext xs
    rw [List.head?_map, Option.map_map]
    rfl
  have hdeal : deal ∘ List.map (List.map f) = List.map f ∘ deal := funext (deal_map f)
  rw [interleaveBy, hsome, groupBy_map, hkey, List.map_map, hdeal, ← List.map_map, deal_map]
  rfl

structure Lineup (owners : List ι) (list : ι → List α) (owner : α → ι) (host : α → κ) : Prop where
  nodup : owners.Nodup
  owned : ∀ i ∈ owners, ∀ x ∈ list i, owner x = i
  together : ∀ i ∈ owners, ∀ x ∈ list i, ∀ y ∈ list i, host x = host y

namespace Lineup

variable [DecidableEq κ] {owners : List ι} {list : ι → List α} {owner : α → ι} {host : α → κ}

def servedBy (host : α → κ) (list : ι → List α) (owners : List ι) (h : Option κ) : List ι :=
  (owners.filter fun i => !(list i).isEmpty).filter fun i => (list i).head?.map host == h

theorem mem_servedBy {h : κ} {i : ι} :
    i ∈ servedBy host list owners (some h) ↔ i ∈ owners ∧ ∃ x xs, list i = x :: xs ∧ host x = h := by
  unfold servedBy
  rw [List.mem_filter, List.mem_filter, and_assoc]
  cases list i with
  | nil => simp
  | cons x xs => simp

theorem nodup_servedBy (hl : Lineup owners list owner host) (h : Option κ) : (servedBy host list owners h).Nodup :=
  (hl.nodup.filter _).filter _

theorem interleaveBy_eq (host : α → κ) (list : ι → List α) (owners : List ι) :
    interleaveBy host (owners.map list) =
      deal ((((owners.filter fun i => !(list i).isEmpty).map fun i => (list i).head?.map host).eraseDups).map
        fun h => deal ((servedBy host list owners h).map list)) := by
  unfold interleaveBy groupBy servedBy
  rw [List.filter_map, List.map_map, List.map_map]
  congr 1
  refine List.map_congr_left fun h _ => ?_
  rw [Function.comp_apply, List.filter_map]
  rfl

theorem mem_interleaveBy {x : α} : x ∈ interleaveBy host (owners.map list) ↔ ∃ i ∈ owners, x ∈ list i := by
  simp only [(interleaveBy_perm host _).mem_iff, List.mem_flatten, List.mem_map, exists_exists_and_eq_and]

theorem mem_dealt (hl : Lineup owners list owner host) {h : Option κ} {x : α}
    (hx : x ∈ deal ((servedBy host list owners h).map list)) : some (host x) = h := by
  obtain ⟨g, hg, hxg⟩ := mem_deal.mp hx
  obtain ⟨i, hi, rfl⟩ := List.mem_map.mp hg
  obtain ⟨hlive, hhead⟩ := List.mem_filter.mp hi
  obtain ⟨y, ys, hlist⟩ := List.exists_cons_of_ne_nil (List.ne_nil_of_mem hxg)
  rw [hl.together i (List.mem_filter.mp hlive).1 x hxg y (hlist ▸ List.mem_cons_self)]
  rw [hlist] at hhead
  exact eq_of_beq hhead

theorem fair_hosts (hl : Lineup owners list owner host) : Fair host (interleaveBy host (owners.map list)) := by
  rw [interleaveBy_eq]
  exact Fair.of_some (deal_fair (nodup_eraseDups _) fun h _ x hx => hl.mem_dealt hx)

theorem filter_host (hl : Lineup owners list owner host) (h : κ) :
    (interleaveBy host (owners.map list)).filter (fun x => host x = h) =
      deal ((servedBy host list owners (some h)).map list) := by
  cases hserved : servedBy host list owners (some h) with
  | nil =>
    refine List.filter_eq_nil_iff.mpr fun x hx hhost => ?_
    obtain ⟨i, hi, hxi⟩ := mem_interleaveBy.mp hx
    obtain ⟨y, ys, hlist⟩ := List.exists_cons_of_ne_nil (List.ne_nil_of_mem hxi)
    have hy := hl.together i hi y (hlist ▸ List.mem_cons_self) x hxi
    have hmem : i ∈ servedBy host list owners (some h) :=
      mem_servedBy.mpr ⟨hi, y, ys, hlist, hy.trans (of_decide_eq_true hhost)⟩
    rw [hserved] at hmem
    cases hmem
  | cons i rest =>
    have hlive : i ∈ servedBy host list owners (some h) := hserved ▸ List.mem_cons_self
    obtain ⟨hlive, hhead⟩ := List.mem_filter.mp hlive
    have hmem : some h ∈ ((owners.filter fun i => !(list i).isEmpty).map fun i => (list i).head?.map host).eraseDups :=
      List.mem_eraseDups.mpr (List.mem_map.mpr ⟨i, hlive, eq_of_beq hhead⟩)
    rw [interleaveBy_eq, ← hserved]
    refine Eq.trans ?_ (deal_filter (nodup_eraseDups _) (fun h _ x hx => hl.mem_dealt hx) hmem)
    simp only [Option.some_inj]

variable [DecidableEq ι]

theorem fair_owners (hl : Lineup owners list owner host) (h : κ) :
    Fair owner ((interleaveBy host (owners.map list)).filter fun x => host x = h) := by
  rw [hl.filter_host]
  exact deal_fair (hl.nodup_servedBy _) fun i hi => hl.owned i (mem_servedBy.mp hi).1

theorem filter_owner (hl : Lineup owners list owner host) {i : ι} (hi : i ∈ owners) :
    (interleaveBy host (owners.map list)).filter (fun x => owner x = i) = list i := by
  have hown : ∀ x ∈ interleaveBy host (owners.map list), owner x = i → x ∈ list i := fun x hx hxi => by
    obtain ⟨j, hj, hxj⟩ := mem_interleaveBy.mp hx
    cases (hl.owned j hj x hxj).symm.trans hxi
    exact hxj
  cases hlist : list i with
  | nil =>
    refine List.filter_eq_nil_iff.mpr fun x hx hxi => ?_
    have hmem := hown x hx (of_decide_eq_true hxi)
    rw [hlist] at hmem
    cases hmem
  | cons y ys =>
    have hsame : (interleaveBy host (owners.map list)).filter (fun x => owner x = i) =
        ((interleaveBy host (owners.map list)).filter fun x => host x = host y).filter fun x => owner x = i := by
      rw [List.filter_filter]
      refine List.filter_congr fun x hx => ?_
      by_cases hxi : owner x = i
      · have hhost := hl.together i hi x (hown x hx hxi) y (hlist ▸ List.mem_cons_self)
        simp [hxi, hhost]
      · simp [hxi]
    have hserved : i ∈ servedBy host list owners (some (host y)) := mem_servedBy.mpr ⟨hi, y, ys, hlist, rfl⟩
    rw [hsame, hl.filter_host, deal_filter (hl.nodup_servedBy _) (fun j hj => hl.owned j (mem_servedBy.mp hj).1)
      hserved, hlist]

end Lineup

def tagged (perForest : List (List Split)) (i : Nat) : List (Nat × Split) :=
  (perForest[i]?.getD []).map fun s => (i, s)

theorem untag (perForest : List (List Split)) (i : Nat) :
    (tagged perForest i).map Prod.snd = perForest[i]?.getD [] := by
  rw [tagged, List.map_map]
  exact List.map_id _

theorem map_tagged (perForest : List (List Split)) :
    ((List.range perForest.length).map (tagged perForest)).map (List.map Prod.snd) = perForest := by
  refine List.ext_getElem (by simp) fun i _ hi => ?_
  rw [List.getElem_map, List.getElem_map, List.getElem_range, untag, List.getElem?_eq_getElem hi, Option.getD_some]

theorem lineup_tagged {perForest : List (List Split)}
    (hhost : ∀ splits ∈ perForest, ∀ s ∈ splits, ∀ t ∈ splits, s.host = t.host) :
    Lineup (List.range perForest.length) (tagged perForest) Prod.fst fun e => e.2.host where
  nodup := List.nodup_range
  owned i _ e he := by
    obtain ⟨s, -, rfl⟩ := List.mem_map.mp he
    rfl
  together i hi e he e' he' := by
    obtain ⟨s, hs, rfl⟩ := List.mem_map.mp he
    obtain ⟨t, ht, rfl⟩ := List.mem_map.mp he'
    rw [List.getElem?_eq_getElem (List.mem_range.mp hi), Option.getD_some] at hs ht
    exact hhost _ (List.getElem_mem _) s hs t ht

/-- The splits of all forests, each of them once, in an order that keeps that of each forest. No host comes up
more than once more often than another that has splits left, and on a host no forest more than once more often
than another one. -/
theorem interleave_fair {perForest : List (List Split)}
    (hhost : ∀ splits ∈ perForest, ∀ s ∈ splits, ∀ t ∈ splits, s.host = t.host) :
    (interleave perForest).Perm perForest.flatten ∧ Fair (·.host) (interleave perForest) ∧
      ∃ order : List (Nat × Split), order.map Prod.snd = interleave perForest ∧
        (∀ i, (order.filter fun e => e.1 = i).map Prod.snd = perForest[i]?.getD []) ∧
        ∀ host, Fair Prod.fst (order.filter fun e => e.2.host = host) := by
  have hl := lineup_tagged hhost
  have horder : (interleaveBy (fun e => e.2.host) ((List.range perForest.length).map (tagged perForest))).map
      Prod.snd = interleave perForest := by
    rw [interleave_eq, ← interleaveBy_map (fun s : Split => s.host), map_tagged]
  refine ⟨interleave_perm perForest, ?_, _, horder, fun i => ?_, hl.fair_owners⟩
  · rw [← horder]
    exact hl.fair_hosts.map
  · rcases Nat.lt_or_ge i perForest.length with hi | hi
    · rw [hl.filter_owner (List.mem_range.mpr hi), untag]
    · have hnone : ∀ e ∈ interleaveBy (fun e => e.2.host) ((List.range perForest.length).map (tagged perForest)),
          ¬decide (e.1 = i) = true := fun e he hei => by
        obtain ⟨j, hj, hej⟩ := Lineup.mem_interleaveBy.mp he
        cases (hl.owned j hj e hej).symm.trans (of_decide_eq_true hei)
        exact absurd (List.mem_range.mp hj) (Nat.not_lt.mpr hi)
      rw [List.filter_eq_nil_iff.mpr hnone, List.getElem?_eq_none hi]
      rfl

namespace Sample

def range (forest host : String) (start : UInt64) : Split := ⟨⟨forest⟩, host, start, some start, false, [], []⟩

def uneven : List (List Split) :=
  [[range "1" "a" 1, range "1" "a" 2, range "1" "a" 3], [], [range "2" "a" 1], [range "3" "b" 1, range "3" "b" 2]]

end Sample

/-- The second host is used up first, and then the longest of the forests comes alone. -/
theorem interleave_fair_uneven :
    (∀ splits ∈ Sample.uneven, ∀ s ∈ splits, ∀ t ∈ splits, s.host = t.host) ∧
      interleave Sample.uneven = [Sample.range "1" "a" 1, Sample.range "3" "b" 1, Sample.range "2" "a" 1,
        Sample.range "3" "b" 2, Sample.range "1" "a" 2, Sample.range "1" "a" 3] ∧
      Fair (·.host) (interleave Sample.uneven) ∧
      ∃ order : List (Nat × Split), order.map Prod.snd = interleave Sample.uneven ∧
        ∀ host, Fair Prod.fst (order.filter fun e => e.2.host = host) := by
  have hhost : ∀ splits ∈ Sample.uneven, ∀ s ∈ splits, ∀ t ∈ splits, s.host = t.host := by decide
  obtain ⟨-, hhosts, order, horder, -, hforests⟩ := interleave_fair hhost
  exact ⟨hhost, by decide +kernel, hhosts, order, horder, hforests⟩

end ForestCourier.Split
