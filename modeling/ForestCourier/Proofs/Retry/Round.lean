import ForestCourier.Retry.Rotation

/-!
The rotation of hosts goes round its list. The hosts that it blocks are always those it came from last,
so that it never has to pass one over, and once there is no other left it starts over right behind the
last.
-/

namespace ForestCourier

namespace HostRotation

/-- The blocked positions are the last `k` before the current one, round the list. -/
def BlocksLast (r : HostRotation) (k : Nat) : Prop :=
  ∀ p < r.size,
    p ∈ r.blocked ↔ p < r.index ∧ r.index ≤ p + k ∨ r.index < p ∧ r.index + r.size ≤ p + k

def Tidy (r : HostRotation) : Prop := ∃ k < r.size, r.BlocksLast k

theorem new_of_ne_nil {hosts : List String} (h : hosts ≠ []) (start : Nat) :
    ∃ r, new hosts start = some r ∧ r.hosts = hosts ∧ r.index = start % hosts.length := by
  have hpos : 0 < hosts.length := List.length_pos_iff.mpr h
  exact ⟨_, dif_pos hpos, rfl, rfl⟩

theorem blocksLast_new {hosts : List String} {start : Nat} {r : HostRotation}
    (h : new hosts start = some r) : r.BlocksLast 0 := by
  unfold new at h
  split at h
  · cases h
    intro p hp
    simp only [List.not_mem_nil, false_iff]
    dsimp only [size] at hp ⊢
    omega
  · cases h

theorem tidy_new {hosts : List String} {start : Nat} {r : HostRotation}
    (h : new hosts start = some r) : r.Tidy :=
  ⟨0, Nat.zero_lt_of_lt r.index_lt, blocksLast_new h⟩

theorem ahead_zero (r : HostRotation) :
    r.ahead 0 = if r.index + 1 < r.size then r.index + 1 else 0 := by
  have hlt : r.index < r.size := r.index_lt
  unfold ahead
  split
  · next h => exact Nat.mod_eq_of_lt h
  · next h =>
    have hlast : r.index + 0 + 1 = r.size := by omega
    rw [hlast, Nat.mod_self]

theorem freeStep?_of_free {r : HostRotation} {k : Nat} (hk : k + 1 < r.size)
    (hblocked : r.BlocksLast k) :
    r.freeStep? = some 0 := by
  have hlt : r.index < r.size := r.index_lt
  have hahead := r.ahead_zero
  have hfree : r.ahead 0 ∉ r.index :: r.blocked := by
    rw [hahead, List.mem_cons]
    split
    · rw [hblocked _ (by omega)]
      omega
    · rw [hblocked _ (by omega)]
      omega
  obtain ⟨n, hn⟩ : ∃ n, r.size = n + 1 := ⟨r.size - 1, by omega⟩
  unfold freeStep?
  rw [hn, List.range_succ_eq_map]
  exact List.find?_cons_of_pos (by simpa using hfree)

/-- Once the current host is the last that was not blocked, all are. -/
theorem freeStep?_of_blocked {r : HostRotation} {k : Nat} (hk : k + 1 = r.size)
    (hblocked : r.BlocksLast k) :
    r.freeStep? = none := by
  have hlt : r.index < r.size := r.index_lt
  unfold freeStep?
  rw [List.find?_eq_none]
  intro s _
  have hs : r.ahead s < r.size := Nat.mod_lt _ (by omega)
  have hmem : r.ahead s ∈ r.index :: r.blocked := by
    rw [List.mem_cons, hblocked _ hs]
    omega
  rw [List.contains_iff_mem.mpr hmem]
  decide

theorem BlocksLast.fail {r : HostRotation} {k : Nat} (hk : k < r.size) (hblocked : r.BlocksLast k) :
    r.fail.BlocksLast ((k + 1) % r.size) ∧ r.fail.index = (r.index + 1) % r.size := by
  have hlt : r.index < r.size := r.index_lt
  have hahead := r.ahead_zero
  have hsize : r.fail.size = r.size := rfl
  rcases Nat.lt_or_ge (k + 1) r.size with hfree | hfull
  · have hstep := freeStep?_of_free hfree hblocked
    have hfail : r.fail.index = r.ahead 0 := by simp [HostRotation.fail, hstep]
    have hnow : r.fail.blocked = r.index :: r.blocked := by simp [HostRotation.fail, hstep]
    rw [Nat.mod_eq_of_lt hfree]
    refine ⟨fun p hp => ?_, hfail⟩
    rw [hnow, List.mem_cons, hblocked p hp, hfail, hahead, hsize]
    rw [hsize] at hp
    split <;> omega
  · have hall : k + 1 = r.size := by omega
    have hstep := freeStep?_of_blocked hall hblocked
    have hfail : r.fail.index = r.ahead 0 := by simp [HostRotation.fail, hstep]
    have hnow : r.fail.blocked = [] := by simp [HostRotation.fail, hstep]
    rw [hall, Nat.mod_self]
    refine ⟨fun p hp => ?_, hfail⟩
    rw [hnow, hsize]
    rw [hsize] at hp
    simp only [List.not_mem_nil, false_iff]
    omega

theorem Tidy.fail {r : HostRotation} (h : r.Tidy) :
    r.fail.Tidy ∧ r.fail.index = (r.index + 1) % r.size := by
  obtain ⟨k, hk, hblocked⟩ := h
  obtain ⟨hlast, hindex⟩ := hblocked.fail hk
  exact ⟨⟨_, Nat.mod_lt _ (Nat.zero_lt_of_lt hk), hlast⟩, hindex⟩

end HostRotation

end ForestCourier
