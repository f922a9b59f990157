import Mathlib.Data.Nat.ModEq
import Mathlib.Logic.Function.Iterate
import ForestCourier.Retry.Cursor

/-!
A cursor goes round its replicas. After any number of steps it stands so many places on, counted round the
list, and with more than one replica a step never stays where it was.
-/

namespace ForestCourier

theorem succ_mod_ne {n : Nat} (hn : 2 ≤ n) (k : Nat) : (k + 1) % n ≠ k % n := by
  intro hsame
  have hmod : k ≡ k + 1 [MOD n] := hsame.symm
  rw [Nat.modEq_iff_dvd' (Nat.le_add_right _ 1), Nat.add_sub_cancel_left, Nat.dvd_one] at hmod
  omega

namespace ReplicaCursor

theorem replicas_iterate (cursor : ReplicaCursor) (k : Nat) : (advance^[k] cursor).replicas = cursor.replicas := by
  induction k with
  | zero => rfl
  | succ k ih => rw [Function.iterate_succ_apply', replicas_advance, ih]

theorem position_iterate (cursor : ReplicaCursor) (k : Nat) :
    (advance^[k] cursor).position = (cursor.position + k) % cursor.size := by
  induction k with
  | zero => exact (Nat.mod_eq_of_lt cursor.position_lt).symm
  | succ k ih =>
    have hsize : (advance^[k] cursor).size = cursor.size := congrArg List.length (cursor.replicas_iterate k)
    rw [Function.iterate_succ_apply', position_advance, ih, hsize, Nat.mod_add_mod, Nat.add_assoc]

theorem getElem?_position (cursor : ReplicaCursor) : cursor.replicas[cursor.position]? = some cursor.current :=
  List.getElem?_eq_getElem cursor.position_lt

/-- The replica that `k` steps lead to. -/
theorem getElem?_iterate (cursor : ReplicaCursor) (k : Nat) :
    cursor.replicas[(cursor.position + k) % cursor.size]? = some (advance^[k] cursor).current := by
  have hcurrent := (advance^[k] cursor).getElem?_position
  rwa [replicas_iterate, position_iterate] at hcurrent

theorem new_of_head {replicas : List Replica} {r : Replica} (h : replicas[0]? = some r) :
    ∃ cursor, new replicas r.host = some cursor ∧ cursor.replicas = replicas ∧ cursor.position = 0 := by
  obtain ⟨rest, rfl⟩ : ∃ rest, replicas = r :: rest := by
    cases replicas with
    | nil => cases h
    | cons _ rest => exact ⟨rest, by cases h; rfl⟩
  have hstart : (r :: rest).findIdx? (fun x => x.host == r.host) = some 0 := by
    rw [List.findIdx?_cons]
    simp
  refine ⟨⟨r :: rest, 0, Nat.succ_pos _⟩, ?_, rfl, rfl⟩
  unfold new
  simp [hstart]

end ReplicaCursor

end ForestCourier
