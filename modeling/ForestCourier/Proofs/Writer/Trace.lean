import ForestCourier.Proofs.Writer.Attempts
import ForestCourier.Proofs.Writer.Run
import ForestCourier.Proofs.Writer.Slots

/-!
What the trace of a writer tells. Requests are added and never taken back; only the look for the
forests of a partition asks the server, once; and a delivery that was given up leaves a failed
request.
-/

namespace ForestCourier

def Event.fails : Event → Bool
  | .refused .. => true
  | .inserted _ _ (.error _) => true
  | .committed _ (.error _) => true
  | _ => false

def Wire.Failed {σ : Type} (w : Wire σ) : Prop := ∃ event ∈ w.trace, event.fails = true

def Wire.Continues {σ : Type} (w w' : Wire σ) : Prop :=
  ∃ events, w'.trace = events ++ w.trace ∧ Writer.answered events = []

namespace Wire.Continues

variable {σ : Type} {a b c : Wire σ}

theorem refl (a : Wire σ) : a.Continues a := ⟨[], rfl, rfl⟩

theorem trans (h : a.Continues b) (h' : b.Continues c) : a.Continues c := by
  obtain ⟨events, htrace, hnone⟩ := h
  obtain ⟨events', htrace', hnone'⟩ := h'
  refine ⟨events' ++ events, by rw [htrace', htrace, List.append_assoc], ?_⟩
  rw [Writer.answered, List.filterMap_append]
  exact List.append_eq_nil_iff.mpr ⟨hnone', hnone⟩

theorem of_cons {event : Event} (htrace : b.trace = event :: a.trace)
    (h : Writer.answered [event] = []) :
    a.Continues b := ⟨[event], htrace, h⟩

theorem suffix (h : a.Continues b) : a.trace <:+ b.trace := by
  obtain ⟨events, htrace, -⟩ := h
  exact ⟨events, htrace.symm⟩

theorem failed (h : a.Continues b) (ha : a.Failed) : b.Failed := by
  obtain ⟨event, hmem, hfails⟩ := ha
  exact ⟨event, h.suffix.subset hmem, hfails⟩

theorem foldl_note (notices : List Notice) (w : Wire σ) : w.Continues (notices.foldl note w) := by
  induction notices generalizing w with
  | nil => exact refl w
  | cons n ns ih => exact ih (w.note n)

end Wire.Continues

/-! A request that is answered by an error leaves its mark on the trace. -/

theorem Event.fails_head {σ : Type} {w w' : Wire σ} {event : Event}
    (htrace : w'.trace = event :: w.trace) (hfails : event.fails = true) : w'.Failed := by
  rw [Wire.Failed, htrace]
  exact ⟨event, List.mem_cons_self, hfails⟩

namespace Wire

variable {σ : Type} {srv : Server σ} {session : Session} {e : RequestError} {w w' : Wire σ}

theorem openSession_failed {target : Target} {transaction : Transaction}
    (h : w.openSession srv target transaction = (.error e, w')) : w'.Failed :=
  Event.fails_head (trace_openSession_error h) rfl

theorem insert_failed {docs : List Content} (h : w.insert srv session docs = (.error e, w')) :
    w'.Failed :=
  Event.fails_head (trace_insert h).1 rfl

theorem commit_failed (h : w.commit srv session = (.error e, w')) : w'.Failed :=
  Event.fails_head (trace_commit h).1 rfl

end Wire

namespace Writer

variable {σ : Type}

theorem continues_openSession (srv : Server σ) (target : Target) (transaction : Transaction)
    (w : Wire σ) :
    w.Continues (w.openSession srv target transaction).2 := by
  unfold Wire.openSession
  dsimp only
  split
  · exact .of_cons rfl rfl
  · exact .of_cons rfl rfl

namespace Delivery

theorem continues_insert (srv : Server σ) (session : Session) (docs : List Content) (d : Delivery σ) :
    d.wire.Continues (d.insert srv session docs).2.wire := by
  have hrequest : d.wire.Continues (d.wire.insert srv session docs).2 := .of_cons rfl rfl
  unfold insert
  split
  · exact .refl _
  · split
    · next h => rwa [h] at hrequest
    · next h =>
      rw [h] at hrequest
      exact hrequest.trans (.foldl_note ..)

theorem continues_discardSession (srv : Server σ) (terms : Terms) (d : Delivery σ) :
    d.wire.Continues (d.discardSession srv terms).wire := by
  unfold discardSession
  split
  · exact .refl _
  · next session _ =>
    dsimp only
    split
    · exact .of_cons rfl rfl
    · have hrollback : d.wire.Continues (d.wire.rollback srv session) := .of_cons rfl rfl
      exact hrollback.trans (.of_cons rfl rfl)

theorem steps_continues (srv : Server σ) (terms : Terms) :
    Steps srv terms fun d d' => d.wire.Continues d'.wire where
  refl d := .refl d.wire
  trans := .trans
  ensureSession d := by
    have hopen := continues_openSession srv (d.slot.route.target terms.port) terms.transaction d.wire
    unfold ensureSession
    split
    · exact .refl _
    · split
      · next h => rwa [h] at hopen
      · next h => rwa [h] at hopen
  replayQueue session d := by
    have hinsert := continues_insert srv session d.slot.queue d
    unfold replayQueue
    split
    · next h => rwa [h] at hinsert
    · next h => rwa [h] at hinsert
  insertBatch session d := by
    have hinsert := continues_insert srv session d.batch d
    unfold insertBatch
    split
    · next h => rwa [h] at hinsert
    · next h => rwa [h] at hinsert
  settleAuto _ d := .refl d.wire
  enqueue _ d := .refl d.wire
  commit _ session d := by
    have hcommit : d.wire.Continues (d.wire.commit srv session).2 := .of_cons rfl rfl
    unfold commit
    split
    · next h => rwa [h] at hcommit
    · next h => rwa [h] at hcommit
  failOver e n d := (continues_discardSession srv terms d).trans (.of_cons rfl rfl)
  stage _ d := .refl d.wire

variable {srv : Server σ} {terms : Terms} {session : Session} {e : RequestError} {d d' : Delivery σ}

theorem insert_failed {docs : List Content} (h : d.insert srv session docs = (.error e, d')) :
    d'.wire.Failed := by
  unfold insert at h
  split at h
  · cases h
  · split at h
    · next hinsert =>
      cases h
      exact Wire.insert_failed hinsert
    · cases h

theorem ensureSession_failed (h : d.ensureSession srv terms = (.error e, d')) : d'.wire.Failed := by
  unfold ensureSession at h
  split at h
  · cases h
  · split at h
    · cases h
    · next hopen =>
      cases h
      exact Wire.openSession_failed hopen

theorem replayQueue_failed (h : d.replayQueue srv session = (.error e, d')) : d'.wire.Failed := by
  unfold replayQueue at h
  split at h
  · next hinsert =>
    cases h
    exact insert_failed hinsert
  · cases h

theorem insertBatch_failed (h : d.insertBatch srv session = (.error e, d')) : d'.wire.Failed := by
  unfold insertBatch at h
  split at h
  · next hinsert =>
    cases h
    exact insert_failed hinsert
  · cases h

theorem commit_failed (h : d.commit srv session = (.error e, d')) : d'.wire.Failed := by
  unfold commit at h
  split at h
  · next hcommit =>
    cases h
    exact Wire.commit_failed hcommit
  · cases h

theorem attempt_failed {replay ending : Bool}
    (h : d.attempt srv terms replay ending = (.error e, d')) :
    d'.wire.Failed := by
  unfold attempt at h
  split at h
  · next hopen =>
    cases h
    exact ensureSession_failed hopen
  · split at h
    · next hreplay =>
      cases h
      split at hreplay
      · exact replayQueue_failed hreplay
      · cases hreplay
    · split at h
      · next hbatch =>
        cases h
        exact insertBatch_failed hbatch
      · split at h
        · cases h
        · split at h
          · exact commit_failed h
          · cases h

theorem run_failed {ending : Bool} {left n n' : Nat} {replay : Bool}
    (h : run srv terms ending left n replay d = (.error (e, n'), d')) : d'.wire.Failed := by
  fun_induction run srv terms ending left n replay d with
  | case1 => cases h
  | case2 n replay d e d₁ ha =>
    cases h
    exact attempt_failed ha
  | case3 n replay d e d₁ ha hretryable left ih => exact ih h
  | case4 left n replay d e d₁ ha =>
    cases h
    exact attempt_failed ha

end Delivery

/-- A flush makes requests but no query, and if it was given up, one of them failed. -/
theorem flush_continues (srv : Server σ) (i : Nat) (closing : Bool) (w : Writer) (site : Site σ) :
    site.wire.Continues (w.flush srv i closing site).2.2.wire ∧
      (w.outcome srv i closing site ≠ .ok () → (w.flush srv i closing site).2.2.wire.Failed) := by
  cases hi : w.slots[i]? with
  | none =>
    simp only [flush, outcome, hi]
    exact ⟨.refl _, fun h => absurd rfl h⟩
  | some slot =>
    have hdeliver : site.wire.Continues (w.delivery srv closing slot site).2.wire :=
      (Delivery.steps_continues srv w.terms).delivery closing slot site
    rw [outcome_eq srv closing site hi]
    obtain ⟨d, hd, hf⟩ | ⟨e, n, d, count, hd, hf⟩ | ⟨e, n, d, kind, hd, hf⟩ :=
      flush_cases srv closing site hi
    · rw [hd] at hdeliver ⊢
      rw [hf]
      exact ⟨hdeliver, fun h => absurd rfl h⟩
    · have hclear := Delivery.continues_discardSession srv w.terms d
      have hfailed := hclear.failed (Delivery.run_failed hd)
      rw [hd] at hdeliver
      rw [hf]
      exact ⟨hdeliver.trans hclear, fun _ => hfailed⟩
    · have hclear := Delivery.continues_discardSession srv w.terms d
      have hfailed := hclear.failed (Delivery.run_failed hd)
      rw [hd] at hdeliver
      rw [hf]
      exact ⟨hdeliver.trans hclear, fun _ => hfailed⟩

theorem push_continues (srv : Server σ) (i : Nat) (content : Content) (w : Writer) (site : Site σ) :
    site.wire.Continues (w.push srv i content site).2.2.wire ∧
      ((w.pushStint srv i content site).outcome ≠ .ok () →
        (w.push srv i content site).2.2.wire.Failed) := by
  unfold push pushStint
  dsimp only
  split
  · exact flush_continues srv i false _ site
  · exact ⟨.refl _, fun h => absurd rfl h⟩

theorem continues_hangUp (srv : Server σ) (i : Nat) (w : Writer) (site : Site σ) :
    site.wire.Continues (w.hangUp srv i site).2.wire := by
  unfold hangUp
  split
  · exact .refl _
  · exact .of_cons rfl rfl

theorem drainSlot_continues (srv : Server σ) (i : Nat) (w : Writer) (site : Site σ) :
    site.wire.Continues (w.drainSlot srv i site).2.2.wire ∧
      ((w.drainStint srv i site).outcome ≠ .ok () → (w.drainSlot srv i site).2.2.wire.Failed) := by
  have hflush : site.wire.Continues
      (if w.isBusy i then w.flush srv i true site else (.ok (), w, site)).2.2.wire ∧
      ((w.drainStint srv i site).outcome ≠ .ok () →
        (if w.isBusy i then w.flush srv i true site else (.ok (), w, site)).2.2.wire.Failed) := by
    unfold drainStint
    dsimp only
    split
    · exact flush_continues srv i true w site
    · exact ⟨.refl _, fun h => absurd rfl h⟩
  obtain ⟨kind, hd, -⟩ | ⟨result, w₁, site₁, hd, he⟩ := drainSlot_cases srv i w site
  · rwa [hd] at hflush
  · rw [hd] at hflush
    rw [he]
    have hclose := continues_hangUp srv i w₁ site₁
    exact ⟨hflush.1.trans hclose, fun h => hclose.failed (hflush.2 h)⟩

theorem drain_continues (srv : Server σ) (is : List Nat) (w : Writer) (site : Site σ) :
    site.wire.Continues (drain srv is w site).2.2.wire ∧
      ∀ t ∈ drainStints srv is w site, t.outcome ≠ .ok () →
        (drain srv is w site).2.2.wire.Failed := by
  induction is generalizing w site with
  | nil => exact ⟨.refl _, fun t ht => by cases ht⟩
  | cons i is ih =>
    obtain ⟨hslot, hfailed⟩ := drainSlot_continues srv i w site
    unfold drainStints
    match hd : w.drainSlot srv i site with
    | (.error fault, w₁, site₁) =>
      rw [hd] at hslot hfailed
      rw [drain_cons_error hd]
      refine ⟨hslot, fun t ht hne => ?_⟩
      rw [List.mem_singleton.mp ht] at hne
      exact hfailed hne
    | (.ok first, w₁, site₁) =>
      rw [hd] at hslot hfailed
      obtain ⟨hrest, hlater⟩ := ih w₁ site₁
      rw [drain_cons_ok hd]
      refine ⟨hslot.trans hrest, fun t ht hne => ?_⟩
      rcases List.mem_cons.mp ht with rfl | ht
      · exact hrest.failed (hfailed hne)
      · exact hlater t ht hne

theorem close_continues (srv : Server σ) (w : Writer) (site : Site σ) :
    site.wire.Continues (w.close srv site).2.2.wire ∧
      ∀ t ∈ Call.close.stints srv w site, t.outcome ≠ .ok () →
        (w.close srv site).2.2.wire.Failed := by
  have hd := drain_continues srv (List.range w.slots.length) { w with closed := true } site
  unfold close Call.stints
  dsimp only
  split
  · exact ⟨.refl _, fun t ht => by cases ht⟩
  · split
    · next h => rwa [h] at hd
    · next h => rwa [h] at hd

end Writer

end ForestCourier
