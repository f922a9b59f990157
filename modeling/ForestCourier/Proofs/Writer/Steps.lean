import ForestCourier.Proofs.Writer.Rejection

/-!
What holds of every step of a delivery holds of the delivery as a whole. The steps are those of an
attempt, and the move to the next failover target between two attempts; a relation that is kept by
each of them and can be chained relates a delivery at its start to the one at its end.
-/

namespace ForestCourier.Writer.Delivery

variable {σ : Type}

theorem insert_ok {srv : Server σ} {session : Session} {docs left : List Content} {d d' : Delivery σ}
    (h : d.insert srv session docs = (.ok left, d')) :
    d'.slot = d.slot ∧ d'.batch = d.batch ∧ d'.stats.succeeded = d.stats.succeeded ∧
      left.length + d'.stats.failed = docs.length + d.stats.failed := by
  unfold insert at h
  split at h
  · cases h
    exact ⟨rfl, rfl, rfl, rfl⟩
  · split at h
    · cases h
    · next rejections w _ =>
      cases h
      refine ⟨rfl, rfl, rfl, ?_⟩
      have hlen := length_kept_add docs rejections
      rw [without_rejectedIndices]
      dsimp only
      omega

theorem insert_error {srv : Server σ} {session : Session} {docs : List Content} {e : RequestError}
    {d d' : Delivery σ} (h : d.insert srv session docs = (.error e, d')) :
    d'.slot = d.slot ∧ d'.batch = d.batch ∧ d'.stats = d.stats := by
  unfold insert at h
  split at h
  · cases h
  · split at h
    · cases h
      exact ⟨rfl, rfl, rfl⟩
    · cases h

structure AttemptSteps (srv : Server σ) (terms : Terms) (R : Delivery σ → Delivery σ → Prop) : Prop where
  refl : ∀ d, R d d
  trans : ∀ {a b c}, R a b → R b c → R a c
  ensureSession : ∀ d, R d (d.ensureSession srv terms).2
  replayQueue : ∀ session d, R d (d.replayQueue srv session).2
  insertBatch : ∀ session d, R d (d.insertBatch srv session).2
  settleAuto : terms.transaction = .auto → ∀ d, R d d.settleAuto
  enqueue : terms.transaction = .update → ∀ d, R d d.enqueue
  commit : terms.transaction = .update → ∀ session d, R d (d.commit srv session).2

structure Steps (srv : Server σ) (terms : Terms) (R : Delivery σ → Delivery σ → Prop) : Prop
    extends AttemptSteps srv terms R where
  failOver : ∀ e n d, R d (d.failOver srv terms e n)
  stage : ∀ stage d, R d { d with slot := { d.slot with stage := stage } }

section

variable {srv : Server σ} {terms : Terms} {R : Delivery σ → Delivery σ → Prop}

namespace AttemptSteps

theorem replay (h : AttemptSteps srv terms R) (replay : Bool) (session : Session) (d : Delivery σ) :
    R d (if replay then d.replayQueue srv session else (.ok (), d)).2 := by
  split
  · exact h.replayQueue session d
  · exact h.refl d

theorem attempt (h : AttemptSteps srv terms R) (replay ending : Bool) (d : Delivery σ) :
    R d (d.attempt srv terms replay ending).2 := by
  have hopen := h.ensureSession d
  unfold Delivery.attempt
  split
  · next he => rwa [he] at hopen
  · next session d₁ he =>
    rw [he] at hopen
    have hreplay := h.trans hopen (h.replay replay session d₁)
    split
    · next he => rwa [he] at hreplay
    · next d₂ he =>
      rw [he] at hreplay
      have hbatch := h.trans hreplay (h.insertBatch session d₂)
      split
      · next he => rwa [he] at hbatch
      · next d₃ he =>
        rw [he] at hbatch
        split
        · next hauto => exact h.trans hbatch (h.settleAuto hauto d₃)
        · next hupdate =>
          have henqueue := h.trans hbatch (h.enqueue hupdate d₃)
          split
          · exact h.trans henqueue (h.commit hupdate session d₃.enqueue)
          · exact henqueue

end AttemptSteps

namespace Steps

theorem run (h : Steps srv terms R) (ending : Bool) (left n : Nat) (replay : Bool) (d : Delivery σ) :
    R d (Delivery.run srv terms ending left n replay d).2 := by
  have hattempt (replay : Bool) {d d' : Delivery σ} {r : Except RequestError Unit}
      (he : d.attempt srv terms replay ending = (r, d')) : R d d' := by
    have h := h.attempt replay ending d
    rwa [he] at h
  fun_induction Delivery.run srv terms ending left n replay d with
  | case1 left n replay d d' he =>
    dsimp only
    split
    · exact h.trans (hattempt replay he) (h.stage .idle d')
    · exact hattempt replay he
  | case2 n replay d e d' he => exact hattempt replay he
  | case3 n replay d e d' he hretryable left ih =>
    exact h.trans (h.trans (hattempt replay he) (h.failOver e n d')) ih
  | case4 left n replay d e d' he => exact hattempt replay he

theorem deliver (h : Steps srv terms R) (ending : Bool) (d : Delivery σ) :
    R d (d.deliver srv terms ending).2 := h.run ending _ _ _ d

end Steps

end

theorem slot_discardSession (srv : Server σ) (terms : Terms) (d : Delivery σ) :
    (d.discardSession srv terms).slot = { d.slot with session := none } := by
  unfold discardSession
  split
  · next hsession => rw [← hsession]
  · rfl

theorem stats_discardSession (srv : Server σ) (terms : Terms) (d : Delivery σ) :
    (d.discardSession srv terms).stats = d.stats := by
  unfold discardSession
  split
  · rfl
  · rfl

theorem session_discardSession (srv : Server σ) (terms : Terms) (d : Delivery σ) :
    (d.discardSession srv terms).slot.session = none := by
  rw [slot_discardSession]

theorem steps_pending (srv : Server σ) (terms : Terms) :
    Steps srv terms fun d d' => d'.slot.pending = d.slot.pending where
  refl _ := rfl
  trans h h' := h'.trans h
  ensureSession d := by
    unfold Delivery.ensureSession
    split
    · rfl
    · split <;> rfl
  replayQueue session d := by
    unfold Delivery.replayQueue
    split
    · next h => rw [(insert_error h).1]
    · next h => rw [(insert_ok h).1]
  insertBatch session d := by
    unfold Delivery.insertBatch
    split
    · next h => rw [(insert_error h).1]
    · next h => rw [(insert_ok h).1]
  settleAuto _ _ := rfl
  enqueue _ _ := rfl
  commit _ session d := by
    unfold Delivery.commit
    split <;> rfl
  failOver e n d := by
    simp only [Delivery.failOver, discardSession]
    split <;> rfl
  stage _ _ := rfl

theorem steps_queue (srv : Server σ) {terms : Terms} (hauto : terms.transaction = .auto) :
    Steps srv terms fun d d' => d.slot.queue = [] → d'.slot.queue = [] where
  refl _ h := h
  trans h h' hq := h' (h hq)
  ensureSession d hq := by
    unfold Delivery.ensureSession
    split
    · exact hq
    · split <;> exact hq
  replayQueue session d hq := by
    simp only [Delivery.replayQueue, Delivery.insert, hq, List.isEmpty_nil, if_true]
  insertBatch session d hq := by
    unfold Delivery.insertBatch
    split
    · next h => rw [(insert_error h).1, hq]
    · next h => rw [(insert_ok h).1, hq]
  settleAuto _ _ hq := hq
  enqueue hupdate := by rw [hauto] at hupdate; cases hupdate
  commit hupdate := by rw [hauto] at hupdate; cases hupdate
  failOver e n d hq := by
    simp only [Delivery.failOver, discardSession]
    split <;> exact hq
  stage _ _ hq := hq

theorem attempt_ok {srv : Server σ} {terms : Terms} {replay ending : Bool} {d d' : Delivery σ}
    (h : d.attempt srv terms replay ending = (.ok (), d')) :
    d'.batch = [] ∧ (terms.transaction = .update → ending = true → d'.slot.queue = []) := by
  unfold attempt at h
  split at h
  · cases h
  · split at h
    · cases h
    · split at h
      · cases h
      · split at h
        · next hauto =>
          cases h
          exact ⟨rfl, fun hupdate => by rw [hauto] at hupdate; cases hupdate⟩
        · split at h
          · unfold commit at h
            split at h
            · cases h
            · cases h
              exact ⟨rfl, fun _ _ => rfl⟩
          · next hending =>
            cases h
            exact ⟨rfl, fun _ he => absurd he hending⟩

theorem run_ok {srv : Server σ} {terms : Terms} {ending : Bool} {left n : Nat} {replay : Bool}
    {d d' : Delivery σ} (h : run srv terms ending left n replay d = (.ok (), d')) :
    d'.batch = [] ∧ (terms.transaction = .update → ending = true → d'.slot.queue = []) := by
  fun_induction run srv terms ending left n replay d with
  | case1 left n replay d d₁ hd =>
    cases h
    have hok := attempt_ok hd
    split <;> exact hok
  | case2 => cases h
  | case3 n replay d e d₁ hd hretryable left ih => exact ih h
  | case4 => cases h

end ForestCourier.Writer.Delivery
