import ForestCourier.Proofs.Writer.Books

/-!
What a flush comes to that succeeds in the end, against a server that rejects documents by a
property of the document. However often the batch and the queue were sent, and wherever, the flush
leaves what a flush at the first attempt leaves: the documents without the property, stored if the
transaction has ended and queued if not.
-/

namespace ForestCourier.Writer

variable {σ : Type}

namespace Delivery

/-- The part of a delivery that failed attempts leave alone. -/
def bill (d : Delivery σ) : Nat × UInt64 × Nat := (d.slot.batches, d.slot.charged, d.stats.succeeded)

/-- What an attempt that succeeds makes of it, where that does not hang on the documents. -/
structure Billed (terms : Terms) (ending : Bool) (d d' : Delivery σ) : Prop where
  auto : terms.transaction = .auto → d'.slot.batches = d.slot.batches ∧ d'.slot.charged = 0
  ended : terms.transaction = .update → ending = true → d'.slot.batches = 0 ∧ d'.slot.charged = 0
  open_ : terms.transaction = .update → ending = false → d'.bill = d.bill

variable {srv : Server σ} {terms : Terms} {session : Session} {d d' : Delivery σ}

theorem bill_of_slot (hslot : d'.slot = d.slot)
    (hsucceeded : d'.stats.succeeded = d.stats.succeeded) :
    d'.bill = d.bill := by
  simp only [bill, hslot, hsucceeded]

theorem bill_ensureSession (srv : Server σ) (terms : Terms) (d : Delivery σ) :
    (d.ensureSession srv terms).2.bill = d.bill := by
  unfold ensureSession
  split
  · rfl
  · split <;> rfl

theorem bill_replay (srv : Server σ) (replay : Bool) (session : Session) (d : Delivery σ) :
    (if replay then d.replayQueue srv session else (.ok (), d)).2.bill = d.bill := by
  split
  · unfold replayQueue
    split
    · next h =>
      obtain ⟨hslot, -, hstats⟩ := insert_error h
      exact bill_of_slot hslot (by rw [hstats])
    · next h =>
      obtain ⟨hslot, -, hsucceeded, -⟩ := insert_ok h
      simp only [bill, hslot, hsucceeded]
  · rfl

theorem bill_insertBatch (srv : Server σ) (session : Session) (d : Delivery σ) :
    (d.insertBatch srv session).2.bill = d.bill := by
  unfold insertBatch
  split
  · next h =>
    obtain ⟨hslot, -, hstats⟩ := insert_error h
    exact bill_of_slot hslot (by rw [hstats])
  · next h =>
    obtain ⟨hslot, -, hsucceeded, -⟩ := insert_ok h
    simp only [bill, hslot, hsucceeded]

theorem bill_attempt (srv : Server σ) (terms : Terms) (replay ending : Bool) (d : Delivery σ) :
    (∀ e d', d.attempt srv terms replay ending = (.error e, d') → d'.bill = d.bill) ∧
      ∀ d', d.attempt srv terms replay ending = (.ok (), d') → Billed terms ending d d' := by
  have hopen := bill_ensureSession srv terms d
  unfold attempt
  split
  · next h =>
    rw [h] at hopen
    exact ⟨fun e d' hd => (by cases hd; exact hopen), fun d' hd => by cases hd⟩
  · next session d₁ h =>
    rw [h] at hopen
    have hreplay := bill_replay srv replay session d₁
    split
    · next h =>
      rw [h] at hreplay
      exact ⟨fun e d' hd => (by cases hd; exact hreplay.trans hopen), fun d' hd => by cases hd⟩
    · next d₂ h =>
      rw [h] at hreplay
      have hbatch := bill_insertBatch srv session d₂
      split
      · next h =>
        rw [h] at hbatch
        refine ⟨fun e d' hd => ?_, fun d' hd => by cases hd⟩
        cases hd
        exact hbatch.trans (hreplay.trans hopen)
      · next d₃ h =>
        rw [h] at hbatch
        have hbill : d₃.bill = d.bill := hbatch.trans (hreplay.trans hopen)
        have hbatches : d₃.slot.batches = d.slot.batches := congrArg Prod.fst hbill
        split
        · next hauto =>
          refine ⟨fun e d' hd => (by cases hd), fun d' hd => ?_⟩
          cases hd
          have hmode : terms.transaction ≠ .update := by simp [hauto]
          exact ⟨fun _ => ⟨hbatches, rfl⟩, fun hu => absurd hu hmode, fun hu => absurd hu hmode⟩
        · next hupdate =>
          have hmode : terms.transaction ≠ .auto := by simp [hupdate]
          split
          · next hending =>
            unfold commit
            split
            · exact ⟨fun e d' hd => (by cases hd; exact hbill), fun d' hd => by cases hd⟩
            · refine ⟨fun e d' hd => (by cases hd), fun d' hd => ?_⟩
              cases hd
              exact ⟨fun ha => absurd ha hmode, fun _ _ => ⟨rfl, rfl⟩,
                fun _ he => absurd hending (by simp [he])⟩
          · next hending =>
            refine ⟨fun e d' hd => (by cases hd), fun d' hd => ?_⟩
            cases hd
            exact ⟨fun ha => absurd ha hmode, fun _ he => absurd he hending, fun _ _ => hbill⟩

theorem bill_failOver (srv : Server σ) (terms : Terms) (e : RequestError) (n : Nat) (d : Delivery σ) :
    (d.failOver srv terms e n).bill = d.bill := by
  have hdiscard : (d.discardSession srv terms).bill = d.bill := by
    unfold discardSession
    split <;> rfl
  have hstats : (d.failOver srv terms e n).stats.succeeded =
      (d.discardSession srv terms).stats.succeeded := by
    simp only [failOver]
    split <;> rfl
  rw [← hdiscard, bill, bill, hstats]
  rfl

theorem Billed.of_bill {ending : Bool} {d₀ : Delivery σ} (h : Billed terms ending d d')
    (hbill : d.bill = d₀.bill) : Billed terms ending d₀ d' where
  auto ha := ⟨(h.auto ha).1.trans (congrArg Prod.fst hbill), (h.auto ha).2⟩
  ended := h.ended
  open_ hu he := (h.open_ hu he).trans hbill

theorem Billed.stage {ending : Bool} (h : Billed terms ending d d') (stage : Stage) :
    Billed terms ending d { d' with slot := { d'.slot with stage := stage } } :=
  ⟨h.auto, h.ended, h.open_⟩

theorem billed_run {ending : Bool} {left n : Nat} {replay : Bool}
    (h : run srv terms ending left n replay d = (.ok (), d')) : Billed terms ending d d' := by
  fun_induction run srv terms ending left n replay d with
  | case1 left n replay d d₁ hd =>
    cases h
    have hbilled := (bill_attempt srv terms replay ending d).2 _ hd
    split
    · exact hbilled.stage .idle
    · exact hbilled
  | case2 => cases h
  | case3 n replay d e d₁ hd hretryable left ih =>
    have hbill := (bill_attempt srv terms replay ending d).1 e d₁ hd
    exact (ih h).of_bill ((bill_failOver srv terms e n d₁).trans hbill)
  | case4 => cases h

theorem bill_run {ending : Bool} {left n : Nat} {replay : Bool} {e : RequestError × Nat}
    (h : run srv terms ending left n replay d = (.error e, d')) : d'.bill = d.bill := by
  fun_induction run srv terms ending left n replay d with
  | case1 => cases h
  | case2 n replay d e d₁ hd =>
    cases h
    exact (bill_attempt srv terms replay ending d).1 _ _ hd
  | case3 n replay d e d₁ hd hretryable left ih =>
    have hbill := (bill_attempt srv terms replay ending d).1 e d₁ hd
    exact (ih h).trans ((bill_failOver srv terms e n d₁).trans hbill)
  | case4 left n replay d e d₁ hd =>
    cases h
    exact (bill_attempt srv terms replay ending d).1 _ _ hd

end Delivery

/-- What a slot has, apart from where its requests go. -/
structure Holdings where
  pending : List Content
  queue : List Content
  batches : Nat
  charged : UInt64

namespace Holdings

/-- What a flush leaves that succeeds, and what it stores, if documents with property `p` are
rejected. -/
def flush (p : Content → Bool) (terms : Terms) (closing : Bool) (h : Holdings) :
    Holdings × List Content :=
  let batches := if h.pending.isEmpty then h.batches else h.batches + 1
  let docs := h.queue ++ h.pending.filter (!p ·)
  match terms.transaction with
  | .auto => (⟨[], [], batches, 0⟩, docs)
  | .update =>
    if closing || terms.transactionSize.toNat ≤ batches then (⟨[], [], 0, 0⟩, docs)
    else (⟨[], docs, batches, h.charged⟩, [])

def Clean (p : Content → Bool) (h : Holdings) : Prop := ∀ doc ∈ h.queue, p doc = false

theorem queue_flush (p : Content → Bool) (terms : Terms) (closing : Bool) (h : Holdings) :
    (h.flush p terms closing).1.queue = [] ∨
      (h.flush p terms closing).1.queue = h.queue ++ h.pending.filter (!p ·) := by
  unfold flush
  generalize (if h.pending.isEmpty then h.batches else h.batches + 1) = batches
  cases terms.transaction with
  | auto => exact .inl rfl
  | update =>
    dsimp only
    split
    · exact .inl rfl
    · exact .inr rfl

theorem Clean.flush {p : Content → Bool} {h : Holdings} (hc : h.Clean p) (terms : Terms)
    (closing : Bool) :
    (h.flush p terms closing).1.Clean p := by
  intro doc hdoc
  rcases queue_flush p terms closing h with hq | hq
  · rw [hq] at hdoc
    cases hdoc
  · rw [hq] at hdoc
    rcases List.mem_append.mp hdoc with hdoc | hdoc
    · exact hc doc hdoc
    · simpa using (List.mem_filter.mp hdoc).2

end Holdings

def Slot.holdings (s : Slot) : Holdings := ⟨s.pending, s.queue, s.batches, s.charged⟩

theorem delivery_holdings {srv : Server σ} {p : Content → Bool} (hp : srv.RejectsBy p)
    {closing : Bool} {w : Writer} {site : Site σ} {slot : Slot}
    (hv : (w.view slot site.wire).Valid w.terms) (hc : (w.view slot site.wire).Current)
    (hclean : slot.holdings.Clean p) {d : Delivery σ}
    (hd : w.delivery srv closing slot site = (.ok (), d)) :
    ∃ new, (w.view slot site.wire).Stores d new ∧
      (d.slot.holdings, new.map Prod.snd) = slot.holdings.flush p w.terms closing := by
  obtain ⟨hmoves, -⟩ := delivery_moves srv closing hv hc
  have hpending := pending_delivery srv closing slot w site
  rw [hd] at hmoves hpending
  have hbilled := Delivery.billed_run hd
  obtain ⟨hbatch, hended⟩ := delivery_ok hd
  obtain ⟨new, hs, ht⟩ := hmoves.stores
  have hthin := ht p hp hclean
  refine ⟨new, hs, ?_⟩
  have hthin : new.map Prod.snd ++ d.slot.queue = slot.queue ++ slot.pending.filter (!p ·) := by
    simpa [hbatch, view] using hthin
  -- The batches before the attempts: a batch that is empty does not count.
  have hbatches : (w.load closing slot site).1.slot.batches =
      if slot.pending.isEmpty then slot.batches else slot.batches + 1 := rfl
  have hcharged : (w.load closing slot site).1.slot.charged = slot.charged := rfl
  have hending : (w.load closing slot site).2 = (w.terms.transaction = .update &&
      (closing || w.terms.transactionSize.toNat ≤ if slot.pending.isEmpty then slot.batches
        else slot.batches + 1)) := rfl
  unfold Holdings.flush Slot.holdings
  dsimp only
  rw [← hbatches] at hending ⊢
  cases hmode : w.terms.transaction with
  | auto =>
    have hqueue : d.slot.queue = [] := hmoves.valid.queue hmode
    rw [hqueue, List.append_nil] at hthin
    rw [hpending, hqueue, hthin, (hbilled.auto hmode).1, (hbilled.auto hmode).2]
  | update =>
    dsimp only
    rw [hmode] at hending
    simp only [decide_true, Bool.true_and] at hending
    split
    · next hend =>
      rw [hend] at hending
      have hqueue := hended hmode hending
      rw [hqueue, List.append_nil] at hthin
      rw [hpending, hqueue, hthin, (hbilled.ended hmode hending).1, (hbilled.ended hmode hending).2]
    · next hend =>
      rw [Bool.not_eq_true] at hend
      rw [hend] at hending
      have hbill := hbilled.open_ hmode hending
      simp only [Delivery.bill, Prod.mk.injEq] at hbill
      have hnew : new = [] := by
        have hsucceeded : d.stats.succeeded = w.stats.succeeded + new.length := hs.succeeded
        have hbefore : (w.load closing slot site).1.stats.succeeded = w.stats.succeeded := rfl
        exact List.length_eq_zero_iff.mp (by omega)
      subst hnew
      simp only [List.map_nil, List.nil_append] at hthin
      rw [hpending, hthin, hbill.1, hbill.2.1, hcharged]
      rfl

end ForestCourier.Writer
