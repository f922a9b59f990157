import ForestCourier.Proofs.Writer.Slots

/-!
What every part of a call keeps is kept by the call, and so by every run. The parts are those that a
document goes through on its way to a slot, the flush of a slot and the end of its session; a call is
made of nothing else.
-/

namespace ForestCourier.Writer

variable {σ : Type}

/-- A property of a writer and its site that every part of a call keeps. -/
structure Kept (srv : Server σ) (P : Writer → Site σ → Prop) : Prop where
  receive : ∀ files uri source payload w site, P w site →
    P (w.receive srv files uri source payload site).2.1 (w.receive srv files uri source payload site).2.2
  skip : ∀ source e w site, P w site → P (w.skip source e site).2.1 (w.skip source e site).2.2
  push : ∀ i content w site, P w site →
    P (w.push srv i content site).2.1 (w.push srv i content site).2.2
  flush : ∀ i w site, P w site → P (w.flush srv i true site).2.1 (w.flush srv i true site).2.2
  hangUp : ∀ i w site, P w site → P (w.hangUp srv i site).1 (w.hangUp srv i site).2
  close : ∀ w site, P w site → P { w with closed := true } site
  count : ∀ counters w site, P w site → P w { site with counters := counters }

namespace Kept

variable {srv : Server σ} {P : Writer → Site σ → Prop} {w : Writer} {site : Site σ}

theorem drainSlot (h : Kept srv P) (i : Nat) (hP : P w site) :
    P (w.drainSlot srv i site).2.1 (w.drainSlot srv i site).2.2 := by
  have hflush : P (if w.isBusy i then w.flush srv i true site else (.ok (), w, site)).2.1
      (if w.isBusy i then w.flush srv i true site else (.ok (), w, site)).2.2 := by
    split
    · exact h.flush i w site hP
    · exact hP
  obtain ⟨kind, hd, -⟩ | ⟨result, w₁, site₁, hd, he⟩ := drainSlot_cases srv i w site
  · rwa [hd] at hflush
  · rw [hd] at hflush
    rw [he]
    exact h.hangUp i w₁ site₁ hflush

theorem drain (h : Kept srv P) (is : List Nat) (hP : P w site) :
    P (drain srv is w site).2.1 (drain srv is w site).2.2 :=
  drain_induction (R := fun s s' => P s.1 s.2 → P s'.1 s'.2) (fun _ => id) (fun h h' => h' ∘ h)
    (fun i _ _ hP => h.drainSlot i hP) is w site hP

theorem run (h : Kept srv P) (call : Call) (hP : P w site) :
    P (call.run srv w site).2.1 (call.run srv w site).2.2 := by
  cases call with
  | write files uri source payload =>
    have hreceived := h.receive files uri source payload w site hP
    dsimp only [Call.run]
    obtain ⟨fault, w₁, site₁, hr, hw⟩ | ⟨e, w₁, site₁, hr, hw⟩ | ⟨i, content, w₁, site₁, hr, hw⟩ :=
      write_cases srv files uri source payload w site
    · rw [hr] at hreceived
      rwa [hw]
    · rw [hr] at hreceived
      rw [hw]
      exact h.skip source e w₁ site₁ hreceived
    · rw [hr] at hreceived
      rw [hw]
      exact h.push i content w₁ site₁ hreceived
  | close =>
    have hdrained := h.drain (List.range w.slots.length) (h.close w site hP)
    dsimp only [Call.run]
    unfold Writer.close
    split
    · exact hP
    · split
      · next hd => rwa [hd] at hdrained
      · next hd =>
        rw [hd] at hdrained
        exact h.count _ _ _ hdrained

theorem follow (h : Kept srv P) {c : Course σ} (hP : P c.writer c.site) (calls : List Call) :
    P (Course.follow srv calls c).writer (Course.follow srv calls c).site :=
  Course.follow_induction (P := fun c => P c.writer c.site) hP (fun _ call hP => h.run call hP) calls

end Kept

/-- Nothing about a writer has changed but its slots and counts and whether it is closed. -/
structure Settled (before w : Writer) : Prop where
  terms : w.terms = before.terms
  partition : w.partition = before.partition
  hosts : w.hosts = before.hosts
  fastLoad : w.fastLoad = before.fastLoad

namespace Settled

variable {w w' w'' : Writer}

theorem trans (h : w.Settled w') (h' : w'.Settled w'') : w.Settled w'' :=
  ⟨h'.terms.trans h.terms, h'.partition.trans h.partition, h'.hosts.trans h.hosts, h'.fastLoad.trans h.fastLoad⟩

theorem of_found (h : Found w w') : w.Settled w' := by
  rw [h.settings]
  exact ⟨rfl, rfl, rfl, rfl⟩

theorem of_beside {i : Nat} (h : Beside i w w') : w.Settled w' := by
  rw [h.settings]
  exact ⟨rfl, rfl, rfl, rfl⟩

end Settled

end ForestCourier.Writer
