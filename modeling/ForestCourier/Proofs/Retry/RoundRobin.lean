import Mathlib.Order.Interval.Finset.Nat
import ForestCourier.Proofs.Retry.Cursor
import ForestCourier.Proofs.Retry.Round

/-!
Round robin. A rotation of hosts, for all that it blocks and frees, and a cursor of replicas both stand `k` places on
from their start after `k` moves, counted round the list, so that as many turns in a row as there are places come to
each place once.
-/

namespace ForestCourier

theorem perm_turns (n start : Nat) : ((List.range n).map fun j => (start + j) % n).Perm (List.range n) := by
  have hround : (List.range' start n).map (· % n) = (List.range n).map fun j => (start + j) % n := by
    rw [List.range'_eq_map_range, List.map_map]
    rfl
  have hturns : Multiset.Ico start (start + n) = (List.range' start n : List Nat) := by
    have hlength : start + n - start = n := Nat.add_sub_cancel_left ..
    change ((List.range' start (start + n - start) : List Nat) : Multiset Nat) = _
    rw [hlength]
  have hresidues := Nat.multiset_Ico_map_mod start n
  rw [hturns, Multiset.map_coe, hround] at hresidues
  exact Multiset.coe_eq_coe.mp hresidues

namespace HostRotation

/-- After `k` failures a rotation blocks the last `k` places, less whole rounds. -/
theorem blocksLast_iterate {r : HostRotation} (h : r.BlocksLast 0) (k : Nat) :
    (fail^[k] r).hosts = r.hosts ∧ (fail^[k] r).index = (r.index + k) % r.size ∧
      (fail^[k] r).BlocksLast (k % r.size) := by
  induction k with
  | zero => exact ⟨rfl, (Nat.mod_eq_of_lt r.index_lt).symm, by rwa [Nat.zero_mod]⟩
  | succ k ih =>
    obtain ⟨hhosts, hindex, hblocked⟩ := ih
    have hsize : (fail^[k] r).size = r.size := congrArg List.length hhosts
    have hlt : k % r.size < (fail^[k] r).size := by
      rw [hsize]
      exact Nat.mod_lt k (Nat.zero_lt_of_lt r.index_lt)
    obtain ⟨hlast, hnext⟩ := hblocked.fail hlt
    rw [hsize, Nat.mod_add_mod] at hlast
    rw [hsize, hindex, Nat.mod_add_mod, Nat.add_assoc] at hnext
    rw [Function.iterate_succ_apply']
    exact ⟨hhosts, hnext, hlast⟩

theorem getElem?_index (r : HostRotation) : r.hosts[r.index]? = some r.current :=
  List.getElem?_eq_getElem r.index_lt

end HostRotation

namespace ReplicaCursor

theorem new_of_ne_nil {replicas : List Replica} (h : replicas ≠ []) (host : String) :
    ∃ cursor, new replicas host = some cursor ∧ cursor.replicas = replicas := by
  have hpos : 0 < replicas.length := List.length_pos_iff.mpr h
  exact ⟨_, dif_pos hpos, rfl⟩

end ReplicaCursor

/-- Hosts that fail take turns in the order of their list, and so do the replicas of a forest. What a rotation has
blocked after `k` failures are the places right before its current one, as many as are left of `k` when whole rounds
are taken off: so the next place is always free, or all are. -/
theorem failures_round_robin :
    (∀ (hosts : List String) (start : Nat), hosts ≠ [] → ∃ r, HostRotation.new hosts start = some r ∧
      ∀ k, (HostRotation.fail^[k] r).index = (start + k) % hosts.length ∧
        hosts[(start + k) % hosts.length]? = some (HostRotation.fail^[k] r).current ∧
        (HostRotation.fail^[k] r).BlocksLast (k % hosts.length) ∧
        ((List.range hosts.length).map fun j => (HostRotation.fail^[k + j] r).index).Perm (List.range hosts.length)) ∧
    ∀ (replicas : List Replica) (host : String), replicas ≠ [] → ∃ c, ReplicaCursor.new replicas host = some c ∧
      ∀ k, (ReplicaCursor.advance^[k] c).position = (c.position + k) % replicas.length ∧
        replicas[(c.position + k) % replicas.length]? = some (ReplicaCursor.advance^[k] c).current ∧
        ((List.range replicas.length).map fun j => (ReplicaCursor.advance^[k + j] c).position).Perm
          (List.range replicas.length) := by
  refine ⟨fun hosts start hne => ?_, fun replicas host hne => ?_⟩
  · obtain ⟨r, hnew, rfl, hstart⟩ := HostRotation.new_of_ne_nil hne start
    have hindex (k : Nat) : (HostRotation.fail^[k] r).index = (start + k) % r.hosts.length := by
      have hturn := (HostRotation.blocksLast_iterate (HostRotation.blocksLast_new hnew) k).2.1
      rwa [hstart, HostRotation.size, Nat.mod_add_mod] at hturn
    refine ⟨r, hnew, fun k => ?_⟩
    obtain ⟨hhosts, -, hblocked⟩ :=
      HostRotation.blocksLast_iterate (HostRotation.blocksLast_new hnew) k
    have hcurrent := (HostRotation.fail^[k] r).getElem?_index
    rw [hhosts, hindex] at hcurrent
    refine ⟨hindex k, hcurrent, hblocked, ?_⟩
    simp only [hindex, ← Nat.add_assoc]
    exact perm_turns _ _
  · obtain ⟨c, hnew, rfl⟩ := ReplicaCursor.new_of_ne_nil hne host
    refine ⟨c, hnew, fun k => ⟨c.position_iterate k, c.getElem?_iterate k, ?_⟩⟩
    simp only [ReplicaCursor.position_iterate, ReplicaCursor.size, ← Nat.add_assoc]
    exact perm_turns _ _

/-- Three places that two hosts share, of which the fifth failure leads back to the first; and a cursor that enters its
list at the second replica. -/
theorem failures_round_robin_shared :
    (∃ r, HostRotation.new ["a", "b", "a"] 4 = some r ∧ (HostRotation.fail^[5] r).index = 0 ∧
      ["a", "b", "a"][0]? = some (HostRotation.fail^[5] r).current ∧ (HostRotation.fail^[5] r).BlocksLast 2 ∧
      ((List.range 3).map fun j => (HostRotation.fail^[5 + j] r).index).Perm (List.range 3)) ∧
    ∃ c, ReplicaCursor.new [⟨⟨"f"⟩, "a"⟩, ⟨⟨"g"⟩, "b"⟩] "b" = some c ∧
      (ReplicaCursor.advance^[3] c).position = (c.position + 3) % 2 ∧
      [⟨⟨"f"⟩, "a"⟩, ⟨⟨"g"⟩, "b"⟩][(c.position + 3) % 2]? = some (ReplicaCursor.advance^[3] c).current ∧
      ((List.range 2).map fun j => (ReplicaCursor.advance^[3 + j] c).position).Perm (List.range 2) := by
  obtain ⟨r, hr, hfailures⟩ := failures_round_robin.1 ["a", "b", "a"] 4 (by decide)
  obtain ⟨c, hc, hmoves⟩ := failures_round_robin.2 [⟨⟨"f"⟩, "a"⟩, ⟨⟨"g"⟩, "b"⟩] "b" (by decide)
  exact ⟨⟨r, hr, hfailures 5⟩, c, hc, hmoves 3⟩

end ForestCourier
