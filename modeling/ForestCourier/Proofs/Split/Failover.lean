import Mathlib.Data.List.Nodup
import ForestCourier.Proofs.Retry.Cursor
import ForestCourier.Split.Basic

/-!
Failing over among the allowed hosts. The replicas of a forest go round the hosts one by one, and the
cursor goes round the replicas, so that a step within the replica list always changes the host. A step
from the last replica back to the first one changes it too, unless the list of replicas ends on the host
that it began with; then failing over tries the same host twice.
-/

namespace ForestCourier

namespace RecordCount

variable {hosts : List String} {forests : List RecordCount}

theorem getElem?_hostAt (hpos : 0 < hosts.length) (i : Nat) (standard : String) :
    hosts[i % hosts.length]? = some (hostAt hosts i standard) := by
  unfold hostAt
  rw [List.getElem?_eq_getElem (Nat.mod_lt _ hpos), Option.getD_some]

theorem getElem?_restrictAt (hpos : 0 < hosts.length) (c : RecordCount) (i : Nat) {j : Nat}
    (hj : j < c.replicas.length) :
    ∃ r, (restrictAt hosts i c).replicas[j]? = some r ∧ hosts[(i + j) % hosts.length]? = some r.host := by
  refine ⟨{ c.replicas[j] with host := hostAt hosts (i + j) c.replicas[j].host }, ?_,
    getElem?_hostAt hpos (i + j) _⟩
  unfold restrictAt
  rw [List.getElem?_mapIdx, List.getElem?_eq_getElem hj]
  rfl

theorem mem_restrict (hpos : 0 < hosts.length) {c : RecordCount} (h : c ∈ restrict hosts forests) :
    ∃ (i : Nat) (c₀ : RecordCount), c = restrictAt hosts i c₀ := by
  have hne : hosts.isEmpty = false := List.isEmpty_eq_false_iff.mpr (List.ne_nil_of_length_pos hpos)
  rw [restrict, hne, if_neg Bool.false_ne_true] at h
  obtain ⟨i, hi, hc⟩ := List.mem_mapIdx.mp h
  exact ⟨i, forests[i], hc.symm⟩

/-- Within the list the next replica is one host on, and behind the last one stands the first. -/
theorem modEq_step {n r : Nat} (hn : 2 ≤ n) (hr : 2 ≤ r) (i k : Nat) :
    i + (k + 1) % r ≡ i + k % r [MOD n] ↔ r ∣ k + 1 ∧ n ∣ r - 1 := by
  have hlt : k % r < r := Nat.mod_lt _ (by omega)
  have hnext : (k % r + 1) % r = (k + 1) % r := Nat.mod_add_mod k r 1
  rcases Nat.lt_or_ge (k % r + 1) r with hwithin | hlast
  · rw [Nat.mod_eq_of_lt hwithin] at hnext
    rw [Nat.dvd_iff_mod_eq_zero, ← hnext]
    refine ⟨fun h => absurd h (succ_mod_ne hn (i + k % r)), fun ⟨h, _⟩ => ?_⟩
    omega
  · have hend : k % r = r - 1 := by omega
    have hwrapped : (k + 1) % r = 0 := by rw [← hnext, hend, Nat.sub_add_cancel (by omega), Nat.mod_self]
    rw [hwrapped, hend, Nat.add_zero, Nat.modEq_iff_dvd' (Nat.le_add_right i _), Nat.add_sub_cancel_left]
    exact (and_iff_right (Nat.dvd_of_mod_eq_zero hwrapped)).symm

theorem cursor_restrict (hpos : 0 < hosts.length) {c : RecordCount} (hc : c ∈ restrict hosts forests)
    (hreplicas : 0 < c.replicas.length) :
    ∃ (i : Nat) (cursor : ReplicaCursor), ReplicaCursor.new c.replicas c.host = some cursor ∧ ∀ k,
      hosts[(i + k % c.replicas.length) % hosts.length]? =
        some (ReplicaCursor.advance^[k] cursor).current.host := by
  obtain ⟨i, c₀, rfl⟩ := mem_restrict hpos hc
  have hlength : (restrictAt hosts i c₀).replicas.length = c₀.replicas.length := List.length_mapIdx
  rw [hlength] at hreplicas
  obtain ⟨first, hfirst, hhost⟩ := getElem?_restrictAt hpos c₀ i hreplicas
  have hown : (restrictAt hosts i c₀).host = first.host :=
    Option.some.inj ((getElem?_hostAt hpos i c₀.host).symm.trans hhost)
  obtain ⟨cursor, hnew, hcursor, hstart⟩ := ReplicaCursor.new_of_head hfirst
  refine ⟨i, cursor, hown ▸ hnew, fun k => ?_⟩
  obtain ⟨r, hr, hrhost⟩ := getElem?_restrictAt hpos c₀ i (Nat.mod_lt k hreplicas)
  have hcurrent := cursor.getElem?_iterate k
  rw [ReplicaCursor.size, hstart, Nat.zero_add, hcursor, hlength, hr] at hcurrent
  rw [← Option.some.inj hcurrent, ← hrhost, hlength]

end RecordCount

/-- Failing over moves to another host unless it leaves the last replica of a list that ends on the host
that it began with. -/
theorem failover_changes_host {hosts : List String} (hnodup : hosts.Nodup) (htwo : 2 ≤ hosts.length)
    {forests : List RecordCount} {c : RecordCount} (hc : c ∈ RecordCount.restrict hosts forests)
    (hreplicas : 2 ≤ c.replicas.length) :
    ∃ cursor, ReplicaCursor.new c.replicas c.host = some cursor ∧ ∀ k,
      ((ReplicaCursor.advance^[k + 1] cursor).current.host ≠ (ReplicaCursor.advance^[k] cursor).current.host ↔
        ¬(c.replicas.length ∣ k + 1 ∧ hosts.length ∣ c.replicas.length - 1)) := by
  obtain ⟨i, cursor, hnew, hhost⟩ := RecordCount.cursor_restrict (by omega) hc (by omega)
  refine ⟨cursor, hnew, fun k => not_congr ?_⟩
  rw [← Option.some_inj, ← hhost, ← hhost, List.getElem?_inj (Nat.mod_lt _ (by omega)) hnodup]
  exact RecordCount.modEq_step htwo hreplicas i k

namespace Sample

/-- Two hosts, and a forest with three replicas: the last one is on the host of the first. -/
def lineup : List RecordCount :=
  [⟨⟨"f1"⟩, "x", 5, [⟨⟨"f1"⟩, "x"⟩, ⟨⟨"f1r"⟩, "y"⟩, ⟨⟨"f1s"⟩, "z"⟩]⟩]

def lineupThrough : RecordCount := RecordCount.restrictAt ["hostA", "hostB"] 0 (lineup.getD 0 ⟨⟨""⟩, "", 0, []⟩)

end Sample

theorem failover_changes_host_twice : ∃ cursor,
    ReplicaCursor.new Sample.lineupThrough.replicas Sample.lineupThrough.host = some cursor ∧ ∀ k,
      ((ReplicaCursor.advance^[k + 1] cursor).current.host ≠ (ReplicaCursor.advance^[k] cursor).current.host ↔
        ¬(Sample.lineupThrough.replicas.length ∣ k + 1 ∧ 2 ∣ Sample.lineupThrough.replicas.length - 1)) :=
  have hlineup : Sample.lineupThrough ∈ RecordCount.restrict ["hostA", "hostB"] Sample.lineup := by decide
  failover_changes_host (by decide) (by decide) hlineup (by decide)

/-- With three replicas on two hosts the third failover stays where it is. -/
theorem failover_keeps_host : ¬∀ (hosts : List String) (forests : List RecordCount) (c : RecordCount)
    (cursor : ReplicaCursor) (k : Nat), hosts.Nodup → 2 ≤ hosts.length →
    c ∈ RecordCount.restrict hosts forests → 2 ≤ c.replicas.length →
    ReplicaCursor.new c.replicas c.host = some cursor →
    (ReplicaCursor.advance^[k + 1] cursor).current.host ≠ (ReplicaCursor.advance^[k] cursor).current.host := by
  intro h
  have hmoved := fun cursor => h ["hostA", "hostB"] Sample.lineup Sample.lineupThrough cursor 2 (by decide)
    (by decide) (by decide) (by decide)
  exact hmoved ⟨Sample.lineupThrough.replicas, 0, by decide⟩ (by decide) (by decide)

end ForestCourier
