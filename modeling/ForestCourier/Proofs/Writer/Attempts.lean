import ForestCourier.Proofs.Writer.Ledger
import ForestCourier.Writer.Delivery

/-!
An attempt, request by request. It opens a session if there is none, inserts and commits on that
session, and ends with the first request that fails. So what holds of a request that is answered, and
can be chained, holds of an attempt that succeeds; and an attempt that fails is a chain of those with
one failed request at its end.
-/

namespace ForestCourier

namespace Wire

variable {σ : Type} {srv : Server σ} {session : Session} {w w' : Wire σ}

theorem trace_foldl_note (notices : List Notice) (w : Wire σ) :
    (notices.foldl note w).trace = w.trace := by
  induction notices generalizing w with
  | nil => rfl
  | cons n ns ih => exact ih (w.note n)

theorem trace_openSession_ok {target : Target} {transaction : Transaction}
    (h : w.openSession srv target transaction = (.ok session, w')) :
    w'.trace = .opened session :: w.trace := by
  unfold openSession at h
  dsimp only at h
  split at h
  · cases h
    rfl
  · cases h

theorem trace_openSession_error {target : Target} {transaction : Transaction} {e : RequestError}
    (h : w.openSession srv target transaction = (.error e, w')) :
    w'.trace = .refused target transaction e :: w.trace := by
  unfold openSession at h
  dsimp only at h
  split at h
  · cases h
  · cases h
    rfl

theorem trace_insert {docs : List Content} {answer : Except RequestError (List Rejection)}
    (h : w.insert srv session docs = (answer, w')) :
    w'.trace = .inserted session docs answer :: w.trace ∧ w'.opened = w.opened := by
  cases h
  exact ⟨rfl, rfl⟩

theorem trace_commit {answer : Except RequestError Unit} (h : w.commit srv session = (answer, w')) :
    w'.trace = .committed session answer :: w.trace ∧ w'.opened = w.opened := by
  cases h
  exact ⟨rfl, rfl⟩

end Wire

namespace Writer.Delivery

variable {σ : Type}

/-- How the requests of an attempt are related to what they leave, `Done` those that are answered and
`Failed` those that fail with an error. Only route, session and wire of a delivery are looked at. -/
structure Tries (srv : Server σ) (terms : Terms) (Done : Delivery σ → Delivery σ → Prop)
    (Failed : RequestError → Delivery σ → Delivery σ → Prop) : Prop where
  same : ∀ {d d' : Delivery σ}, d'.slot.route = d.slot.route → d'.slot.session = d.slot.session →
    d'.wire.trace = d.wire.trace → d'.wire.opened = d.wire.opened → Done d d'
  trans : ∀ {a b c}, Done a b → Done b c → Done a c
  fail : ∀ {e a b c}, Done a b → Failed e b c → Failed e a c
  accepted : ∀ d session w, d.slot.session = none →
    d.wire.openSession srv (d.slot.route.target terms.port) terms.transaction = (.ok session, w) →
    Done d { d with slot := { d.slot with session := some session }, wire := w }
  refused : ∀ d e w, d.slot.session = none →
    d.wire.openSession srv (d.slot.route.target terms.port) terms.transaction = (.error e, w) →
    Failed e d { d with wire := w }
  inserted : ∀ session docs d rejections w, d.slot.session = some session →
    d.wire.insert srv session docs = (.ok rejections, w) → Done d { d with wire := w }
  notInserted : ∀ session docs d e w, d.slot.session = some session →
    d.wire.insert srv session docs = (.error e, w) → Failed e d { d with wire := w }
  committed : terms.transaction = .update → ∀ session d w, d.slot.session = some session →
    d.wire.commit srv session = (.ok (), w) → Done d { d with wire := w }
  notCommitted : terms.transaction = .update → ∀ session d e w, d.slot.session = some session →
    d.wire.commit srv session = (.error e, w) → Failed e d { d with wire := w }

def Ends {α : Type} (Done : Delivery σ → Delivery σ → Prop)
    (Failed : RequestError → Delivery σ → Delivery σ → Prop) (d : Delivery σ) :
    Except RequestError α × Delivery σ → Prop
  | (.ok _, d') => Done d d'
  | (.error e, d') => Failed e d d'

namespace Tries

variable {srv : Server σ} {terms : Terms} {Done : Delivery σ → Delivery σ → Prop}
  {Failed : RequestError → Delivery σ → Delivery σ → Prop} {session : Session} {d d' : Delivery σ}

theorem after (h : Tries srv terms Done Failed) {α : Type} (hd : Done d d')
    {result : Except RequestError α × Delivery σ} (hends : Ends Done Failed d' result) :
    Ends Done Failed d result := by
  obtain ⟨answer, d''⟩ := result
  cases answer with
  | ok a => exact h.trans hd hends
  | error e => exact h.fail hd hends

theorem ensureSession (h : Tries srv terms Done Failed) (d : Delivery σ) :
    Ends Done Failed d (d.ensureSession srv terms) ∧
      ∀ session d', d.ensureSession srv terms = (.ok session, d') →
        d'.slot.session = some session := by
  unfold Delivery.ensureSession
  split
  · next session hsession =>
    refine ⟨h.same rfl rfl rfl rfl, fun s d' hd => ?_⟩
    cases hd
    exact hsession
  · next hnone =>
    split
    · next session w hopen =>
      refine ⟨h.accepted d session w hnone hopen, fun s d' hd => ?_⟩
      cases hd
      rfl
    · next e w hopen => exact ⟨h.refused d e w hnone hopen, nofun⟩

theorem insert (h : Tries srv terms Done Failed) (hsession : d.slot.session = some session)
    (docs : List Content) :
    Ends Done Failed d (d.insert srv session docs) ∧
      (d.insert srv session docs).2.slot = d.slot := by
  unfold Delivery.insert
  split
  · exact ⟨h.same rfl rfl rfl rfl, rfl⟩
  · split
    · next e w hinsert => exact ⟨h.notInserted session docs d e w hsession hinsert, rfl⟩
    · next rejections w hinsert =>
      refine ⟨h.trans (h.inserted session docs d rejections w hsession hinsert) ?_, rfl⟩
      exact h.same rfl rfl (Wire.trace_foldl_note _ w) (Wire.opened_foldl_note _ w)

theorem replayQueue (h : Tries srv terms Done Failed) (hsession : d.slot.session = some session) :
    Ends Done Failed d (d.replayQueue srv session) ∧
      (d.replayQueue srv session).2.slot.session = some session := by
  obtain ⟨hends, hslot⟩ := h.insert hsession d.slot.queue
  unfold Delivery.replayQueue
  split
  · next he =>
    rw [he] at hends hslot
    exact ⟨hends, by rw [hslot, hsession]⟩
  · next he =>
    rw [he] at hends hslot
    exact ⟨h.trans hends (h.same rfl rfl rfl rfl), by rw [hslot, hsession]⟩

theorem insertBatch (h : Tries srv terms Done Failed) (hsession : d.slot.session = some session) :
    Ends Done Failed d (d.insertBatch srv session) ∧
      (d.insertBatch srv session).2.slot.session = some session := by
  obtain ⟨hends, hslot⟩ := h.insert hsession d.batch
  unfold Delivery.insertBatch
  split
  · next he =>
    rw [he] at hends hslot
    exact ⟨hends, by rw [hslot, hsession]⟩
  · next he =>
    rw [he] at hends hslot
    exact ⟨h.trans hends (h.same rfl rfl rfl rfl), by rw [hslot, hsession]⟩

theorem commit (h : Tries srv terms Done Failed) (hupdate : terms.transaction = .update)
    (hsession : d.slot.session = some session) :
    Ends Done Failed d (d.commit srv session) := by
  unfold Delivery.commit
  split
  · next e w hcommit => exact h.notCommitted hupdate session d e w hsession hcommit
  · next w hcommit =>
    exact h.trans (h.committed hupdate session d w hsession hcommit) (h.same rfl rfl rfl rfl)

theorem attempt (h : Tries srv terms Done Failed) (replay ending : Bool) (d : Delivery σ) :
    Ends Done Failed d (d.attempt srv terms replay ending) := by
  obtain ⟨hopen, hopened⟩ := h.ensureSession d
  unfold Delivery.attempt
  split
  · next he => rwa [he] at hopen
  · next session d₁ he =>
    have hsession := hopened session d₁ he
    rw [he] at hopen
    have hreplay : Ends Done Failed d
          (if replay then d₁.replayQueue srv session else (.ok (), d₁)) ∧
        (if replay then d₁.replayQueue srv session else (.ok (), d₁)).2.slot.session =
          some session := by
      split
      · obtain ⟨hends, hsame⟩ := h.replayQueue hsession
        exact ⟨h.after hopen hends, hsame⟩
      · exact ⟨hopen, hsession⟩
    obtain ⟨hreplay, hsession₂⟩ := hreplay
    split
    · next he => rwa [he] at hreplay
    · next d₂ he =>
      rw [he] at hreplay hsession₂
      obtain ⟨hends, hsession₃⟩ := h.insertBatch hsession₂
      have hbatch := h.after hreplay hends
      split
      · next he => rwa [he] at hbatch
      · next d₃ he =>
        rw [he] at hbatch hsession₃
        split
        · exact h.trans hbatch (h.same rfl rfl rfl rfl)
        · next hupdate =>
          have henqueue : Done d d₃.enqueue := h.trans hbatch (h.same rfl rfl rfl rfl)
          split
          · exact h.after henqueue (h.commit hupdate hsession₃)
          · exact henqueue

end Tries

end Writer.Delivery

end ForestCourier
