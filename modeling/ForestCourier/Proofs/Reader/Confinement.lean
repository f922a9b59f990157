import ForestCourier.Proofs.Reader.Steps
import ForestCourier.Proofs.Session.Confinement

/-!
A reader of a split that names none but the given hosts opens no session with any other, however often
it has to fail over.
-/

namespace ForestCourier

/-- A split that can be read through the given hosts alone. -/
structure Split.Within (hosts : List String) (s : Split) : Prop where
  host : s.host ∈ hosts
  replicas : ∀ r ∈ s.replicas, r.host ∈ hosts

namespace Reader

variable {σ : Type} {srv : Server σ} {hosts : List String} {split : Split} {r : Reader} {w : Wire σ}

structure Confined (hosts : List String) (r : Reader) (w : Wire σ) : Prop where
  split : ∀ s, r.split = some s → s.host ∈ hosts
  cursor : ∀ c, r.cursor = some c → ∀ x ∈ c.replicas, x.host ∈ hosts
  wire : w.Within hosts

namespace Confined

theorem place (h : r.Confined hosts w) (hsplit : split.host ∈ hosts) :
    (r.place split).host ∈ hosts := by
  unfold Reader.place
  split
  · next cursor hc => exact h.cursor cursor hc _ (List.get_mem _ _)
  · exact hsplit

theorem release (h : r.Confined hosts w) (srv : Server σ) :
    (r.release srv w).1.Confined hosts (r.release srv w).2 := by
  unfold Reader.release
  split
  · exact ⟨h.split, h.cursor, h.wire.close srv _⟩
  · exact h

theorem connect (h : r.Confined hosts w) (srv : Server σ) (hsplit : split.host ∈ hosts) :
    (r.connect srv split w).2.1.Confined hosts (r.connect srv split w).2.2 := by
  unfold Reader.connect
  split
  · exact h
  · next start _ =>
    have htarget : (⟨(r.place split).host, r.config.port, some (r.place split).forest⟩ : Target).host ∈
        hosts := h.place hsplit
    have hopened := h.wire.openSession srv htarget .auto
    dsimp only
    split
    · next ho =>
      rw [ho] at hopened
      exact ⟨h.split, h.cursor, hopened⟩
    · next session w₁ ho =>
      rw [ho] at hopened
      have hasked := hopened.range srv session ⟨(r.place split).forest, start,
        if split.isLast then none else split.stop, r.config.query, split.redactionRules⟩
      split
      · next hr =>
        rw [hr] at hasked
        exact ⟨h.split, h.cursor, hasked⟩
      · next hr =>
        rw [hr] at hasked
        exact ⟨h.split, h.cursor, hasked.close srv session⟩

theorem steps (srv : Server σ) (hsplit : split.host ∈ hosts) :
    Steps srv split fun x y => x.1.Confined hosts x.2 → y.1.Confined hosts y.2 where
  refl _ := id
  trans h h' := h' ∘ h
  note _ _ _ h := ⟨h.split, h.cursor, h.wire⟩
  wait pause _ _ h := ⟨h.split, h.cursor, h.wire.wait srv pause⟩
  count _ _ _ _ h := ⟨h.split, h.cursor, h.wire⟩
  turn cursor _ _ hc h := by
    refine ⟨h.split, fun c hturned => ?_, h.wire⟩
    cases hturned
    exact h.cursor cursor hc
  release _ _ h := h.release srv
  connect _ _ h := h.connect srv hsplit

theorem fetch (h : r.Confined hosts w) (srv : Server σ) :
    (r.fetch srv w).2.1.Confined hosts (r.fetch srv w).2.2 := by
  unfold Reader.fetch
  split
  · exact ⟨h.split, h.cursor, h.wire.next srv _⟩
  · exact h

theorem settle (h : r.Confined hosts w) (srv : Server σ) (item : Option Item) :
    (r.settle srv w item).2.1.Confined hosts (r.settle srv w item).2.2 := by
  unfold Reader.settle
  split
  · split
    · exact ⟨h.split, h.cursor, h.wire⟩
    · exact h
  · exact h
  · have hended : Confined hosts { r with done := true, current := none } w :=
      ⟨h.split, h.cursor, h.wire⟩
    exact hended.release srv

theorem start (h : r.Confined hosts w) (srv : Server σ) (hsplit : split.Within hosts) :
    (r.start srv split w).2.1.Confined hosts (r.start srv split w).2.2 := by
  have hreleased := h.release srv
  unfold Reader.start
  match hr : r.release srv w with
  | (r₁, w₁) =>
    rw [hr] at hreleased
    have hentered : Confined hosts { r₁ with
        split := some split, cursor := ReplicaCursor.new split.replicas split.host, current := none,
        read := 0, failures := 0, failovers := 0, done := false } w₁ := by
      refine ⟨fun s hs => ?_, fun c hc => ?_, hreleased.wire⟩
      · cases hs
        exact hsplit.host
      · dsimp only at hc
        unfold ReplicaCursor.new at hc
        split at hc
        · cases hc
          exact hsplit.replicas
        · cases hc
    have hconnected := hentered.connect srv hsplit.host
    dsimp only
    split
    · next hc => rwa [hc] at hconnected
    · next hc => rwa [hc] at hconnected
    · next hc =>
      rw [hc] at hconnected
      exact (steps srv hsplit.host).recover (fun _ _ => id) _ _ _ _ hconnected

theorem next (h : r.Confined hosts w) (srv : Server σ) :
    (r.next srv w).2.1.Confined hosts (r.next srv w).2.2 := by
  have hfetched := h.fetch srv
  unfold Reader.next
  split
  · exact h
  · split
    · next split _ hsplit _ =>
      split
      · next item r₁ w₁ hf =>
        rw [hf] at hfetched
        exact hfetched.settle srv item
      · next e r₁ w₁ hf =>
        rw [hf] at hfetched
        have hrecovered := (steps srv (h.split split hsplit)).recover (fun _ _ h => h.fetch srv)
          r₁.budget e r₁ w₁ hfetched
        split
        · next item r₂ w₂ hr =>
          rw [hr] at hrecovered
          exact hrecovered.settle srv item
        · next hr => rwa [hr] at hrecovered
    · exact h

theorem close (h : r.Confined hosts w) (srv : Server σ) :
    (r.close srv w).1.Confined hosts (r.close srv w).2 := by
  have hreleased := h.release srv
  exact ⟨hreleased.split, hreleased.cursor, hreleased.wire⟩

end Confined

end Reader

end ForestCourier
