import ForestCourier.Placement.Manager

/-!
Placement by the URI alone. The forest of a document is then settled before anything is written: a manager
stays as it was, whatever it places and whatever is given back to it.
-/

namespace ForestCourier.Placement

def Policy.ByUri : Policy → Prop
  | .legacy _ | .segment _ => True
  | _ => False

namespace Manager

variable {m : Manager}

theorem new_byUri {kind : Kind} (hkind : kind = .legacy ∨ kind = .segment) {topology : Topology}
    {batchSize : UInt64} {partition : Option String}
    (h : Manager.new kind topology batchSize partition = .ok m) : m.policy.ByUri := by
  unfold Manager.new at h
  dsimp only at h
  split at h
  · cases h
  · obtain rfl | rfl := hkind
    · cases h
      trivial
    · cases h
      trivial

theorem kind_byUri (h : m.policy.ByUri) : m.kind ≠ .statistical ∧ m.kind.partitioned = false := by
  obtain ⟨topology, updatable, policy, batchSize⟩ := m
  cases policy with
  | legacy n => exact ⟨nofun, rfl⟩
  | segment n => exact ⟨nofun, rfl⟩
  | bucket state => exact h.elim
  | statistical state => exact h.elim
  | partitioned state => exact h.elim

theorem place_byUri (h : m.policy.ByUri) (uri : Uri) (partition : Option String) :
    (m.place uri partition).2 = m := by
  obtain ⟨topology, updatable, policy, batchSize⟩ := m
  cases policy with
  | legacy n =>
    simp only [Manager.place, Policy.place]
    split <;> rfl
  | segment n => rfl
  | bucket state => exact h.elim
  | statistical state => exact h.elim
  | partitioned state => exact h.elim

theorem rollback_byUri (h : m.policy.ByUri) (i : Nat) (count : UInt64) : m.rollback i count = m := by
  obtain ⟨topology, updatable, policy, batchSize⟩ := m
  cases policy with
  | legacy n => rfl
  | segment n => rfl
  | bucket state => rfl
  | statistical state => exact h.elim
  | partitioned state => rfl

end Manager

end ForestCourier.Placement
