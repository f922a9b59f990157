import Mathlib.Data.List.Nodup
import Mathlib.Data.List.Rotate
import ForestCourier.Forest.Topology
import ForestCourier.Proofs.Reader.Requests
import ForestCourier.Proofs.Retry.Cursor
import ForestCourier.Writer.Slot

/-!
A topology that is restricted to hosts. Forest by forest nothing changes but the host and the replicas, which go
round the allowed hosts from the forest's own on, so that failing over from there comes to each of them in turn.
Forests are found as before, and to restrict once more to the same hosts changes nothing.
-/

namespace ForestCourier

namespace Topology

theorem rotateLeft_eq_rotate {α : Type} {xs : List α} {i : Nat} (h : i < xs.length) :
    xs.rotateLeft i = xs.rotate i := by
  rw [List.rotateLeft, List.rotate_eq_drop_append_take_mod]
  split
  · next hone =>
    obtain rfl : i = 0 := by omega
    rw [Nat.zero_mod, List.drop_zero, List.take_zero, List.append_nil]
  · rfl

theorem eraseDups_of_nodup {α : Type} [BEq α] [LawfulBEq α] {xs : List α} (h : xs.Nodup) : xs.eraseDups = xs := by
  induction xs with
  | nil => rfl
  | cons x xs ih =>
    obtain ⟨hnew, hrest⟩ := List.nodup_cons.mp h
    rw [List.eraseDups_cons, List.filter_eq_self.mpr, ih hrest]
    intro y hy
    have hne : y ≠ x := fun hyx => hnew (hyx ▸ hy)
    simpa using hne

theorem eraseDups_append_of_mem {α : Type} [BEq α] [LawfulBEq α] {xs ys : List α} (h : xs.Nodup)
    (hys : ∀ y ∈ ys, y ∈ xs) : (xs ++ ys).eraseDups = xs := by
  have hnone : ys.removeAll xs = [] := by
    rw [List.removeAll, List.filter_eq_nil_iff]
    intro y hy
    simpa using hys y hy
  rw [List.eraseDups_append, hnone, eraseDups_of_nodup h]
  exact List.append_nil xs

theorem lastIndex?_map {α β : Type} (g : α → β) (p : β → Bool) (xs : List α) :
    lastIndex? p (xs.map g) = lastIndex? (fun x => p (g x)) xs := by
  induction xs with
  | nil => rfl
  | cons x xs ih => rw [List.map_cons, lastIndex?, lastIndex?, ih]

variable {allowed : List String}

/-- A forest keeps all but its host, which is the next one round the list, and its replicas, one on each host. -/
theorem restrictForest_eq (hallowed : allowed ≠ []) (i : Nat) (f : Forest) :
    ∃ host, allowed[i % allowed.length]? = some host ∧ restrictForest allowed i f = { f with
      host := host
      replicas := (allowed.rotate (i % allowed.length)).map fun h => ⟨f.id, h⟩ } := by
  have hlt : i % allowed.length < allowed.length := Nat.mod_lt i (List.length_pos_iff.mpr hallowed)
  have hfirst := List.head?_rotate hlt
  rw [List.getElem?_eq_getElem hlt] at hfirst
  refine ⟨_, List.getElem?_eq_getElem hlt, ?_⟩
  rw [restrictForest, rotateLeft_eq_rotate hlt, List.headD_eq_head?_getD, hfirst, Option.getD_some]

theorem restrictForest_twice (hallowed : allowed ≠ []) (i : Nat) (f : Forest) :
    restrictForest allowed i (restrictForest allowed i f) = restrictForest allowed i f := by
  obtain ⟨host, hhost, hf⟩ := restrictForest_eq hallowed i f
  obtain ⟨host', hhost', hf'⟩ := restrictForest_eq hallowed i (restrictForest allowed i f)
  cases hhost.symm.trans hhost'
  rw [hf', hf]

theorem forests_restrict (hallowed : allowed ≠ []) (t : Topology) :
    (t.restrict allowed).forests = t.forests.mapIdx (restrictForest allowed) := by
  rw [restrict, if_neg (by simpa using hallowed)]

theorem getElem?_restrict (hallowed : allowed ≠ []) (t : Topology) (i : Nat) :
    (t.restrict allowed).forests[i]? = (t.forests[i]?).map (restrictForest allowed i) := by
  rw [forests_restrict hallowed, List.getElem?_mapIdx]

theorem indexOf?_restrict (hallowed : allowed ≠ []) (t : Topology) (id : ForestId) :
    (t.restrict allowed).indexOf? id = t.indexOf? id := by
  have hids : (t.restrict allowed).forests.map (·.id) = t.forests.map (·.id) := by
    refine List.ext_getElem? fun i => ?_
    rw [List.getElem?_map, getElem?_restrict hallowed, Option.map_map, List.getElem?_map]
    rfl
  have hfound (t : Topology) : t.indexOf? id = lastIndex? (· == id) (t.forests.map (·.id)) :=
    (lastIndex?_map Forest.id (· == id) t.forests).symm
  rw [hfound, hfound, hids]

theorem updatable_restrict (hallowed : allowed ≠ []) (t : Topology) :
    (t.restrict allowed).updatable = t.updatable := by
  have hlength : (t.restrict allowed).forests.length = t.forests.length := t.size_restrict allowed
  rw [updatable, updatable, hlength]
  refine List.filter_congr fun i _ => ?_
  rw [getElem?_restrict hallowed]
  cases t.forests[i]? <;> rfl

theorem restrict_twice (hallowed : allowed ≠ []) (t : Topology) :
    (t.restrict allowed).restrict allowed = t.restrict allowed := by
  have hforests : ((t.restrict allowed).restrict allowed).forests = (t.restrict allowed).forests := by
    refine List.ext_getElem? fun i => ?_
    rw [getElem?_restrict hallowed, getElem?_restrict hallowed, Option.map_map]
    exact congrArg (Option.map · _) (funext (restrictForest_twice hallowed i))
  exact congrArg Topology.mk hforests

theorem hosts_restrict (hallowed : allowed ≠ []) (hnodup : allowed.Nodup) (t : Topology) :
    (t.restrict allowed).hosts = allowed.take (min allowed.length t.size) := by
  have hhost (i : Nat) (hi : i < t.size) :
      ((t.restrict allowed).forests.map (·.host))[i]? = allowed[i % allowed.length]? := by
    obtain ⟨host, hhost, hf⟩ := restrictForest_eq hallowed i t.forests[i]
    have hat : t.forests[i]? = some t.forests[i] := List.getElem?_eq_getElem hi
    rw [List.getElem?_map, getElem?_restrict hallowed, hat, hhost, Option.map_some, hf]
    rfl
  have hlength : ((t.restrict allowed).forests.map (·.host)).length = t.size := by
    rw [List.length_map]
    exact t.size_restrict allowed
  rw [hosts]
  generalize (t.restrict allowed).forests.map (·.host) = served at hhost hlength
  -- The forests on the first round have a host each; those behind them have none of their own.
  have hround : served.take (min allowed.length t.size) = allowed.take (min allowed.length t.size) := by
    refine List.ext_getElem? fun i => ?_
    rw [List.getElem?_take, List.getElem?_take]
    split
    · next hi => rw [hhost i (by omega), Nat.mod_eq_of_lt (by omega)]
    · rfl
  rw [← List.take_append_drop (min allowed.length t.size) served, hround]
  refine eraseDups_append_of_mem (hnodup.sublist (List.take_sublist ..)) fun host hmem => ?_
  obtain ⟨j, hj, hget⟩ := List.mem_iff_getElem.mp hmem
  rw [List.length_drop, hlength] at hj
  have hlong : min allowed.length t.size = allowed.length := by omega
  rw [hlong, List.take_length]
  rw [List.getElem_drop] at hget
  have hat := hhost (min allowed.length t.size + j) (by omega)
  rw [List.getElem?_eq_getElem (by omega), hget] at hat
  exact List.mem_of_getElem? hat.symm

theorem cursor_restrict (hallowed : allowed ≠ []) {t : Topology} {i : Nat} {f : Forest}
    (hf : (t.restrict allowed).forests[i]? = some f) :
    ∃ cursor, ReplicaCursor.new f.replicas f.host = some cursor ∧ cursor.position = 0 ∧
      ∀ k, allowed[(i + k) % allowed.length]? = some (ReplicaCursor.advance^[k] cursor).current.host := by
  rw [getElem?_restrict hallowed] at hf
  obtain ⟨f₀, -, rfl⟩ := Option.map_eq_some_iff.mp hf
  obtain ⟨host, hhost, hf⟩ := restrictForest_eq hallowed i f₀
  have hpos : 0 < allowed.length := List.length_pos_iff.mpr hallowed
  have hat (k : Nat) : (allowed.rotate (i % allowed.length))[k % allowed.length]? =
      allowed[(i + k) % allowed.length]? := by
    rw [List.getElem?_rotate (Nat.mod_lt k hpos), ← Nat.add_mod, Nat.add_comm]
  have hfirst : (restrictForest allowed i f₀).replicas[0]? = some ⟨f₀.id, host⟩ := by
    have hzero := hat 0
    rw [Nat.zero_mod, Nat.add_zero, hhost] at hzero
    rw [hf, List.getElem?_map, hzero, Option.map_some]
  obtain ⟨cursor, hnew, hreplicas, hposition⟩ := ReplicaCursor.new_of_head hfirst
  refine ⟨cursor, by rw [← hnew, hf], hposition, fun k => ?_⟩
  have hsize : cursor.size = allowed.length := by
    rw [ReplicaCursor.size, hreplicas, hf, List.length_map, List.length_rotate]
  have hturned := cursor.getElem?_iterate k
  rw [hposition, hsize, hreplicas, hf, Nat.zero_add, List.getElem?_map, hat] at hturned
  obtain ⟨h, hh, hcurrent⟩ := Option.map_eq_some_iff.mp hturned
  rw [hh, ← hcurrent]

theorem perm_of_round {α : Type} {xs : List α} (turn : Nat → α) {i : Nat}
    (h : ∀ k, xs[(i + k) % xs.length]? = some (turn k)) (start : Nat) :
    ((List.range xs.length).map fun k => turn (start + k)).Perm xs := by
  have hrotated : (List.range xs.length).map (fun k => turn (start + k)) = xs.rotate (i + start) := by
    refine List.ext_getElem? fun k => ?_
    rw [List.getElem?_map]
    by_cases hk : k < xs.length
    · rw [List.getElem?_range hk, List.getElem?_rotate hk, Nat.add_comm k, Nat.add_assoc, h, Option.map_some]
    · rw [List.getElem?_eq_none (by simpa using hk), List.getElem?_eq_none (by simpa using hk), Option.map_none]
  rw [hrotated]
  exact List.rotate_perm xs _

end Topology

/-- To restrict a topology to hosts changes hosts and replicas and nothing else. Forest `i` is reached at host `i`,
counted round the list, and fails over through all hosts from there on: whoever serves it, slot or reader, starts at
the first of its replicas, and any round of as many steps as there are hosts comes to each of them, another one with
every step. To restrict it again to the same hosts changes nothing. -/
theorem Topology.restrict_round (t : Topology) {allowed : List String} (hallowed : allowed ≠ []) :
    let n := allowed.length
    let restricted := t.restrict allowed
    restricted.size = t.size ∧ (∀ id, restricted.indexOf? id = t.indexOf? id) ∧ restricted.updatable = t.updatable ∧
    (∀ (i : Nat) (f : Forest), t.forests[i]? = some f →
      ∃ host, allowed[i % n]? = some host ∧ restricted.forests[i]? = some { f with
        host := host
        replicas := (allowed.rotate (i % n)).map fun h => ⟨f.id, h⟩ }) ∧
    (∀ (i : Nat) (f : Forest), restricted.forests[i]? = some f → ∃ cursor, cursor.position = 0 ∧
      Writer.Route.ofForest f = .forest f.id f.host (some cursor) ∧
      (∀ (r : Reader) (split : Split), split.host = f.host → split.replicas = f.replicas →
        (r.entered split).cursor = some cursor) ∧
      (∀ start, ((List.range n).map fun k =>
        (ReplicaCursor.advance^[start + (k + 1)] cursor).current.host).Perm allowed) ∧
      (allowed.Nodup → 1 < n → ∀ k, (ReplicaCursor.advance^[k + 1] cursor).current.host ≠
        (ReplicaCursor.advance^[k] cursor).current.host)) ∧
    restricted.restrict allowed = restricted ∧
    (allowed.Nodup → restricted.hosts = allowed.take (min n t.size)) := by
  intro n restricted
  refine ⟨t.size_restrict allowed, indexOf?_restrict hallowed t, updatable_restrict hallowed t, fun i f hf => ?_,
    fun i f hf => ?_, restrict_twice hallowed t, fun hnodup => hosts_restrict hallowed hnodup t⟩
  · obtain ⟨host, hhost, hrestricted⟩ := restrictForest_eq hallowed i f
    refine ⟨host, hhost, ?_⟩
    rw [getElem?_restrict hallowed, hf, Option.map_some, hrestricted]
  · obtain ⟨cursor, hnew, hposition, hhosts⟩ := cursor_restrict hallowed hf
    refine ⟨cursor, hposition, by rw [Writer.Route.ofForest, hnew], fun r split hhost hreplicas => ?_, fun start => ?_,
      fun hnodup hmore k hsame => ?_⟩
    · rw [← hnew, ← hhost, ← hreplicas]
      rfl
    · have hround := perm_of_round (fun k => (ReplicaCursor.advance^[k] cursor).current.host) hhosts (start + 1)
      simpa only [Nat.add_assoc, Nat.add_comm 1] using hround
    · have hat := (hhosts (k + 1)).trans ((congrArg some hsame).trans (hhosts k).symm)
      have hpos : 0 < allowed.length := List.length_pos_iff.mpr hallowed
      exact succ_mod_ne hmore (i + k) ((List.getElem?_inj (Nat.mod_lt _ hpos) hnodup).mp hat)

namespace Sample

def scattered : Topology :=
  ⟨[⟨⟨"1"⟩, "a", true, [], 10⟩, ⟨⟨"2"⟩, "b", false, [⟨⟨"2"⟩, "b"⟩], 0⟩, ⟨⟨"1"⟩, "c", true, [], 3⟩]⟩

end Sample

/-- The third of three forests is reached through the first of two hosts again, and the first failover leads to the
other. -/
theorem Topology.restrict_round_third :
    (Sample.scattered.restrict ["x", "y"]).indexOf? ⟨"1"⟩ = some 2 ∧
      (Sample.scattered.restrict ["x", "y"]).hosts = ["x", "y"] ∧
      ∃ f cursor, (Sample.scattered.restrict ["x", "y"]).forests[2]? = some f ∧
        f = ⟨⟨"1"⟩, "x", true, [⟨⟨"1"⟩, "x"⟩, ⟨⟨"1"⟩, "y"⟩], 3⟩ ∧
        Writer.Route.ofForest f = .forest ⟨"1"⟩ "x" (some cursor) ∧ cursor.position = 0 ∧
        cursor.advance.current.host ≠ cursor.current.host := by
  have hallowed : ["x", "y"] ≠ [] := by decide
  obtain ⟨-, hindex, -, hforests, hcursors, -, hhosts⟩ := Sample.scattered.restrict_round hallowed
  obtain ⟨host, hhost, hthird⟩ := hforests 2 ⟨⟨"1"⟩, "c", true, [], 3⟩ rfl
  cases hhost
  obtain ⟨cursor, hposition, hroute, -, -, hmoves⟩ := hcursors 2 _ hthird
  exact ⟨(hindex ⟨"1"⟩).trans (by decide), hhosts (by decide), _, cursor, hthird, rfl, hroute, hposition,
    hmoves (by decide) (by decide) 0⟩

end ForestCourier
