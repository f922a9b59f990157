import ForestCourier.Proofs.Writer.Discipline
import ForestCourier.Proofs.Writer.Inserts
import ForestCourier.Proofs.Writer.Turns

/-!
The limits of a writer. Between two calls no batch is full, no transaction has all the batches that it may
have, and a slot is seen in one of three stages only. The flush that loads the last batch of a transaction
ends it: what was queued is stored, or lost for good.
-/

namespace ForestCourier.Writer

variable {σ : Type}

/-- The stage that a slot with such contents has between two calls. -/
def Slot.visible (slot : Slot) : Stage :=
  if slot.pending ≠ [] then .batching else if slot.queue ≠ [] then .commitPending else .idle

/-- A slot between two calls, of a writer with batches of `b` documents and transactions of `t` batches. -/
structure Slot.Bounded (mode : Transaction) (b t : Nat) (slot : Slot) : Prop where
  pending : slot.pending.length < b
  auto : mode = .auto → slot.queue = []
  batches : mode = .update → slot.batches < t
  queue : mode = .update → slot.queue.length ≤ slot.batches * b ∧ slot.batches * b ≤ (t - 1) * b
  stage : slot.stage = slot.visible

/-- A slot that can be flushed: its batch may be full. -/
structure Slot.Loadable (mode : Transaction) (b t : Nat) (slot : Slot) : Prop where
  pending : slot.pending.length ≤ b
  auto : mode = .auto → slot.queue = []
  update : mode = .update → slot.batches < t ∧ slot.queue.length ≤ slot.batches * b

namespace Slot

variable {mode : Transaction} {b t : Nat} {slot : Slot}

theorem Bounded.loadable (h : slot.Bounded mode b t) : slot.Loadable mode b t :=
  ⟨Nat.le_of_lt h.pending, h.auto, fun hmode => ⟨h.batches hmode, (h.queue hmode).1⟩⟩

theorem Loadable.bounded (h : slot.Loadable mode b t) (hpending : slot.pending.length < b)
    (hstage : slot.stage = slot.visible) : slot.Bounded mode b t where
  pending := hpending
  auto := h.auto
  batches hmode := (h.update hmode).1
  queue hmode := ⟨(h.update hmode).2, Nat.mul_le_mul_right b (Nat.le_sub_one_of_lt (h.update hmode).1)⟩
  stage := hstage

theorem Loadable.held (h : slot.Loadable mode b t) (ht : 0 < t) :
    slot.queue.length + slot.pending.length ≤ t * b := by
  have hpending := h.pending
  cases mode with
  | auto =>
    have hone : b ≤ t * b := Nat.le_mul_of_pos_left b ht
    rw [h.auto rfl, List.length_nil]
    omega
  | update =>
    obtain ⟨hbatches, hqueue⟩ := h.update rfl
    have hmore : (slot.batches + 1) * b ≤ t * b := Nat.mul_le_mul_right b hbatches
    rw [Nat.succ_mul] at hmore
    omega

theorem bounded_of_empty (hb : 0 < b) (ht : 0 < t) (hpending : slot.pending = []) (hqueue : slot.queue = [])
    (hbatches : slot.batches = 0) (hstage : slot.stage = .idle) : slot.Bounded mode b t where
  pending := by rw [hpending]; exact hb
  auto _ := hqueue
  batches _ := by rw [hbatches]; exact ht
  queue _ := by
    rw [hqueue, hbatches]
    exact ⟨Nat.zero_le _, Nat.mul_le_mul_right b (Nat.zero_le _)⟩
  stage := by rw [hstage, visible, if_neg (not_not.mpr hpending), if_neg (not_not.mpr hqueue)]

end Slot

namespace Delivery

variable {srv : Server σ} {terms : Terms} {replay ending : Bool} {left n : Nat} {d d' : Delivery σ}

theorem attempt_stage (h : d.attempt srv terms replay ending = (.ok (), d'))
    (hmode : terms.transaction = .update) : d'.slot.queue = [] ∨ d'.slot.stage = .commitPending := by
  unfold attempt at h
  split at h
  · cases h
  · split at h
    · cases h
    · split at h
      · cases h
      · simp only [hmode] at h
        split at h
        · unfold commit at h
          split at h
          · cases h
          · cases h
            exact .inl rfl
        · cases h
          exact .inr rfl

theorem run_stage (h : run srv terms ending left n replay d = (.ok (), d'))
    (hauto : terms.transaction = .auto → d'.slot.queue = []) :
    d'.slot.stage = if d'.slot.queue ≠ [] then .commitPending else .idle := by
  fun_induction run srv terms ending left n replay d with
  | case1 left n replay d d₁ he =>
    cases h
    split
    · next hempty => rw [if_neg (by simpa using hempty)]
    · next hqueue =>
      rw [if_neg hqueue] at hauto
      rw [if_pos (by simpa using hqueue)]
      have hupdate : terms.transaction = .update := by
        cases hmode : terms.transaction with
        | update => rfl
        | auto => exact absurd (by rw [hauto hmode]; rfl) hqueue
      exact (attempt_stage he hupdate).resolve_left fun hnil => hqueue (by rw [hnil]; rfl)
  | case2 => cases h
  | case3 n replay d e d₁ he hretryable left ih => exact ih h
  | case4 => cases h

end Delivery

namespace Flush

def loads (f : Flush σ) : Nat := if (f.writer.slots[f.slot]?).any (!·.pending.isEmpty) then 1 else 0

def failed (srv : Server σ) (f : Flush σ) : Bool :=
  match f.writer.outcome srv f.slot f.closing f.site with
  | .ok _ => false
  | .error _ => true

def commits (srv : Server σ) (f : Flush σ) : Bool := (f.events srv).any Event.commits

/-- The batches of the transaction after the flush, of `n` before. -/
def span (srv : Server σ) (f : Flush σ) (n : Nat) : Nat :=
  if f.failed srv || f.commits srv then 0 else n + f.loads

/-- A flush of a transaction of `n` batches adds none beyond `t`, and ends it with the last of them. -/
structure Limited (srv : Server σ) (t n : Nat) (f : Flush σ) : Prop where
  within : n + f.loads ≤ t
  ends : n + f.loads = t ∨ f.closing = true → f.failed srv = true ∨ f.commits srv = true

def advance (srv : Server σ) (spans : Nat → Nat) (f : Flush σ) : Nat → Nat :=
  Function.update spans f.slot (f.span srv (spans f.slot))

theorem commits_eq {srv : Server σ} {f : Flush σ} {events : List Event}
    (h : (f.run srv).2.2.wire.trace = events ++ f.site.wire.trace) :
    f.commits srv = true ↔
      f.site.wire.trace.countP Event.commits < (f.run srv).2.2.wire.trace.countP Event.commits := by
  rw [commits, events_eq h, List.any_eq_true, h, List.countP_append, ← List.countP_pos_iff]
  omega

end Flush

/-- The batches of the transaction that each slot has open after some flushes, which began with none. -/
def spans (srv : Server σ) (flushes : List (Flush σ)) : Nat → Nat :=
  flushes.foldl (Flush.advance srv) fun _ => 0

structure Terms.Sized (mode : Transaction) (b t : Nat) (terms : Terms) : Prop where
  transaction : terms.transaction = mode
  batchSize : terms.batchSize.toNat = b
  transactionSize : terms.transactionSize.toNat = t
  batch_pos : 0 < b
  transaction_pos : 0 < t

section

variable {srv : Server σ} {mode : Transaction} {b t : Nat} {w : Writer} {site : Site σ} {i : Nat}
  {closing : Bool} {slot : Slot}

theorem loads_eq (hi : w.slots[i]? = some slot) :
    (⟨i, closing, w, site⟩ : Flush σ).loads = if slot.pending.isEmpty then 0 else 1 := by
  unfold Flush.loads
  rw [hi, Option.any_some]
  cases slot.pending.isEmpty <;> rfl

theorem batches_load (hi : w.slots[i]? = some slot) :
    (w.load closing slot site).1.slot.batches =
      slot.batches + (⟨i, closing, w, site⟩ : Flush σ).loads := by
  have hbatches : (w.load closing slot site).1.slot.batches =
      if slot.pending.isEmpty then slot.batches else slot.batches + 1 := rfl
  rw [hbatches, loads_eq hi]
  split
  · rfl
  · rfl

theorem Slot.Loadable.covered (h : slot.Loadable mode b t) (hmode : mode = .update) :
    (w.load closing slot site).1.slot.batches ≤ t ∧ slot.queue.length + slot.pending.length ≤
      (w.load closing slot site).1.slot.batches * b := by
  obtain ⟨hbatches, hqueue⟩ := h.update hmode
  have hpending := h.pending
  have hload : (w.load closing slot site).1.slot.batches =
      if slot.pending.isEmpty then slot.batches else slot.batches + 1 := rfl
  rw [hload]
  split
  · next hempty =>
    rw [List.isEmpty_iff.mp hempty, List.length_nil]
    exact ⟨Nat.le_of_lt hbatches, hqueue⟩
  · rw [Nat.succ_mul]
    exact ⟨hbatches, Nat.add_le_add hqueue hpending⟩

theorem load_ending (hterms : w.terms.Sized mode b t) (hmode : mode = .update) :
    (w.load closing slot site).2 = true ↔
      closing = true ∨ t ≤ (w.load closing slot site).1.slot.batches := by
  have hending : (w.load closing slot site).2 = (w.terms.transaction = .update &&
      (closing || w.terms.transactionSize.toNat ≤ (w.load closing slot site).1.slot.batches)) := rfl
  rw [hending, hterms.transaction, hmode, hterms.transactionSize]
  simp

theorem settled_sends (srv : Server σ) (closing : Bool) (w : Writer) (h : slot.Loadable mode b t)
    (htaken : ∀ doc ∈ slot.queue, Taken site.wire.trace doc) :
    (w.settled srv closing slot site).Sends b (slot.queue.length + slot.pending.length)
      site.wire.trace := by
  have hload : (w.load closing slot site).1.Sends b (slot.queue.length + slot.pending.length)
      site.wire.trace := ⟨h.pending, Nat.le_refl _, htaken, .refl _ _⟩
  have hdelivered := hload.run srv w.terms (w.load closing slot site).2 (w.terms.maxAttempts - 1) 1
    fun (hreplay : false = true) => absurd hreplay Bool.false_ne_true
  unfold settled delivery Delivery.deliver
  split
  · next hd => rwa [hd] at hdelivered
  · next hd =>
    rw [hd] at hdelivered
    exact hdelivered.discardSession srv w.terms

theorem settled_commits (srv : Server σ) (closing : Bool) (slot : Slot) (w : Writer) (site : Site σ) :
    (w.settled srv closing slot site).commits = site.wire.trace.countP Event.commits +
      if w.terms.transaction = .update ∧ (w.load closing slot site).2 = true ∧
        (w.delivery srv closing slot site).1.isOk = true then 1 else 0 := by
  have hrun := Delivery.run_commits srv w.terms (w.load closing slot site).2 (w.terms.maxAttempts - 1) 1
    false (w.load closing slot site).1
  have hload : (w.load closing slot site).1.commits = site.wire.trace.countP Event.commits := rfl
  rw [hload] at hrun
  unfold settled delivery Delivery.deliver
  split at hrun
  · next hd =>
    rw [hd, hrun]
    simp [Except.isOk, Except.toBool]
  · next hd =>
    rw [hd]
    simpa [Except.isOk, Except.toBool, Delivery.commits_discardSession] using hrun

theorem flush_inserts (srv : Server σ) (closing : Bool) (hi : w.slots[i]? = some slot)
    (h : slot.Loadable mode b t) (ht : 0 < t) (htaken : ∀ doc ∈ slot.queue, Taken site.wire.trace doc) :
    Inserts (Measured b (t * b)) site.wire.trace (w.flush srv i closing site).2.2.wire.trace := by
  obtain ⟨slot', -, -, -, htrace, -⟩ := flush_settled srv closing site hi
  rw [htrace]
  refine (settled_sends srv closing w h htaken).inserts.mono fun session docs older hmeasured => ?_
  exact ⟨hmeasured.1, hmeasured.2.imp_right fun hresent =>
    ⟨Nat.le_trans hresent.1 (h.held ht), hresent.2⟩⟩

theorem failed_isOk (srv : Server σ) (closing : Bool) (site : Site σ) (hi : w.slots[i]? = some slot) :
    (⟨i, closing, w, site⟩ : Flush σ).failed srv = !(w.delivery srv closing slot site).1.isOk := by
  unfold Flush.failed
  rw [outcome_eq srv closing site hi]
  cases (w.delivery srv closing slot site).1 <;> rfl

theorem flush_commits (srv : Server σ) (closing : Bool) (hi : w.slots[i]? = some slot)
    (h : slot.Loadable mode b t) (ht : 0 < t) (htaken : ∀ doc ∈ slot.queue, Taken site.wire.trace doc) :
    (⟨i, closing, w, site⟩ : Flush σ).commits srv = true ↔ w.terms.transaction = .update ∧
      (w.load closing slot site).2 = true ∧ (⟨i, closing, w, site⟩ : Flush σ).failed srv = false := by
  obtain ⟨events, htrace, -⟩ := flush_inserts srv closing hi h ht htaken
  obtain ⟨slot', -, -, -, hsettled, -⟩ := flush_settled srv closing site hi
  have hcommits := settled_commits srv closing slot w site
  rw [Delivery.commits, ← hsettled] at hcommits
  rw [Flush.commits_eq (f := ⟨i, closing, w, site⟩) htrace, failed_isOk srv closing site hi, Bool.not_eq_false']
  show _ < (w.flush srv i closing site).2.2.wire.trace.countP Event.commits ↔ _
  rw [hcommits]
  split
  · next hall => exact iff_of_true (Nat.lt_succ_self _) hall
  · next hnot => exact iff_of_false (Nat.lt_irrefl _) hnot

theorem flush_limited (srv : Server σ) (closing : Bool) (hterms : w.terms.Sized mode b t)
    (hmode : mode = .update) (hi : w.slots[i]? = some slot) (h : slot.Loadable mode b t)
    (htaken : ∀ doc ∈ slot.queue, Taken site.wire.trace doc) :
    (⟨i, closing, w, site⟩ : Flush σ).Limited srv t slot.batches where
  within := by
    rw [← batches_load hi]
    exact (h.covered hmode).1
  ends hend := by
    have hcommits := flush_commits srv closing hi h hterms.transaction_pos htaken
    by_cases hfailed : (⟨i, closing, w, site⟩ : Flush σ).failed srv = true
    · exact .inl hfailed
    · refine .inr (hcommits.mpr ⟨hterms.transaction.trans hmode, ?_, by simpa using hfailed⟩)
      rw [load_ending hterms hmode, batches_load hi]
      exact hend.symm.imp_right fun hfull => Nat.le_of_eq hfull.symm

theorem delivery_bounded {d : Delivery σ} (hterms : w.terms.Sized mode b t) (h : slot.Loadable mode b t)
    (hd : w.delivery srv closing slot site = (.ok (), d))
    (hheld : d.slot.queue.length ≤ slot.queue.length + slot.pending.length) :
    d.slot.Bounded mode b t := by
  have hpending := pending_delivery srv closing slot w site
  rw [hd] at hpending
  have hbilled := Delivery.billed_run hd
  have hauto (hmode : mode = .auto) : d.slot.queue = [] := by
    have hqueue := (Delivery.steps_queue srv (hterms.transaction.trans hmode)).delivery closing slot site
    rw [hd] at hqueue
    exact hqueue (h.auto hmode)
  have hupdate (hmode : mode = .update) :
      d.slot.batches < t ∧ d.slot.queue.length ≤ d.slot.batches * b := by
    have htransaction := hterms.transaction.trans hmode
    cases hending : (w.load closing slot site).2 with
    | true =>
      rw [(hbilled.ended htransaction hending).1, (delivery_ok hd).2 htransaction hending]
      exact ⟨hterms.transaction_pos, Nat.zero_le _⟩
    | false =>
      have hfits : ¬ t ≤ (w.load closing slot site).1.slot.batches := fun hfull => by
        rw [(load_ending hterms hmode).mpr (.inr hfull)] at hending
        cases hending
      have hbatches : d.slot.batches = (w.load closing slot site).1.slot.batches :=
        congrArg Prod.fst (hbilled.open_ htransaction hending)
      rw [hbatches]
      exact ⟨Nat.lt_of_not_le hfits, Nat.le_trans hheld (h.covered hmode).2⟩
  have hstage := Delivery.run_stage hd fun hmode => hauto (hterms.transaction.symm.trans hmode)
  have hloadable : d.slot.Loadable mode b t := ⟨by rw [hpending]; exact Nat.zero_le _, hauto, hupdate⟩
  refine hloadable.bounded (by rw [hpending]; exact hterms.batch_pos) ?_
  rw [hstage, Slot.visible, if_neg (not_not.mpr hpending)]

theorem flush_bounded (srv : Server σ) (closing : Bool) (hterms : w.terms.Sized mode b t)
    (hi : w.slots[i]? = some slot) (h : slot.Loadable mode b t)
    (htaken : ∀ doc ∈ slot.queue, Taken site.wire.trace doc)
    (hok : ∀ kind, (w.flush srv i closing site).1 ≠ .error (.overflow kind)) :
    ∃ slot', (w.flush srv i closing site).2.1.slots[i]? = some slot' ∧ slot'.Bounded mode b t ∧
      slot'.batches = (⟨i, closing, w, site⟩ : Flush σ).span srv slot.batches ∧
      ∀ doc ∈ slot'.queue, Taken (w.flush srv i closing site).2.2.wire.trace doc := by
  have hlt : i < w.slots.length := (List.getElem?_eq_some_iff.mp hi).1
  have hfailed := failed_isOk srv closing site hi
  obtain ⟨d, hd, hflush⟩ | ⟨e, n, d, count, hd, hflush⟩ | ⟨_, _, _, kind, -, hflush⟩ :=
    flush_cases srv closing site hi
  · have hcommits := flush_commits srv closing hi h hterms.transaction_pos htaken
    have hsends := settled_sends srv closing w h htaken
    rw [hd] at hfailed
    unfold settled at hsends
    rw [hd] at hsends
    rw [hflush]
    have hheld := Nat.le_trans (Nat.le_add_right _ _) hsends.held
    refine ⟨d.slot, getElem?_put hlt d site, delivery_bounded hterms h hd hheld, ?_, hsends.taken⟩
    have hbilled := Delivery.billed_run hd
    unfold Flush.span
    rw [hfailed, ← batches_load hi]
    cases hc : (⟨i, closing, w, site⟩ : Flush σ).commits srv with
    | true =>
      obtain ⟨hupdate, hending, -⟩ := hcommits.mp hc
      exact (hbilled.ended hupdate hending).1
    | false =>
      have hopen : ¬ (w.terms.transaction = .update ∧ (w.load closing slot site).2 = true) := fun hboth => by
        rw [hcommits.mpr ⟨hboth.1, hboth.2, hfailed⟩] at hc
        cases hc
      cases hmode : w.terms.transaction with
      | auto => exact (hbilled.auto hmode).1
      | update =>
        have hbill := hbilled.open_ hmode (by simpa [hmode] using hopen)
        exact congrArg Prod.fst hbill
  · rw [hd] at hfailed
    have hpending := pending_delivery srv closing slot w site
    rw [hd] at hpending
    have hcleared := (Delivery.pending_clear srv w.terms d).trans hpending
    rw [hflush]
    refine ⟨_, getElem?_put hlt _ _, ?_, ?_, List.forall_mem_nil _⟩
    · exact Slot.bounded_of_empty hterms.batch_pos hterms.transaction_pos hcleared rfl rfl rfl
    · unfold Flush.span
      rw [hfailed]
      rfl
  · exact absurd (congrArg Prod.fst hflush) (hok kind)

end

theorem not_inserts_of_lookStep {events : List Event} {s s' : Option Session}
    (h : events.foldlM lookStep s = some s') : ∀ event ∈ events, event.inserts = false := by
  induction events generalizing s with
  | nil => exact List.forall_mem_nil _
  | cons event events ih =>
    rw [List.foldlM_cons] at h
    obtain ⟨s₁, hstep, hrest⟩ := Option.bind_eq_some_iff.mp h
    refine List.forall_mem_cons.mpr ⟨?_, ih hrest⟩
    cases event with
    | inserted => cases s <;> cases hstep
    | _ => rfl

/-- Every flush of a list is limited, each in the transaction that the ones before it have left open. -/
def AllLimited (srv : Server σ) (t : Nat) : (Nat → Nat) → List (Flush σ) → Prop
  | _, [] => True
  | spans, f :: fs => f.Limited srv t (spans f.slot) ∧ AllLimited srv t (f.advance srv spans) fs

theorem AllLimited.append {srv : Server σ} {t : Nat} {spans : Nat → Nat} {fs fs' : List (Flush σ)}
    (h : AllLimited srv t spans fs) (h' : AllLimited srv t (fs.foldl (Flush.advance srv) spans) fs') :
    AllLimited srv t spans (fs ++ fs') := by
  induction fs generalizing spans with
  | nil => exact h'
  | cons f fs ih => exact ⟨h.1, ih h.2 h'⟩

theorem AllLimited.limited {srv : Server σ} {t : Nat} {spans : Nat → Nat} {before after : List (Flush σ)}
    {f : Flush σ} (h : AllLimited srv t spans (before ++ f :: after)) :
    f.Limited srv t (before.foldl (Flush.advance srv) spans f.slot) := by
  induction before generalizing spans with
  | nil => exact h.1
  | cons g before ih => exact ih h.2

/-- A writer in a run whose requests began after `base`, and whose slots have open transactions of so many
batches. The batch of slot `full` may be full. -/
structure Capped (mode : Transaction) (b t : Nat) (base : List Event) (spans : Nat → Nat)
    (full : Option Nat) (w : Writer) (site : Site σ) : Prop where
  terms : w.terms.Sized mode b t
  slots : ∀ (i : Nat) (slot : Slot), w.slots[i]? = some slot →
    slot.Loadable mode b t ∧ slot.batches = spans i ∧ ∀ doc ∈ slot.queue, Taken site.wire.trace doc
  bounded : ∀ (i : Nat) (slot : Slot), w.slots[i]? = some slot → full ≠ some i → slot.Bounded mode b t
  inserts : Inserts (Measured b (t * b)) base site.wire.trace

/-- Batches of one document, one to a transaction, are the only ones that need no transaction. -/
theorem transaction_eq {config : Config.Output} (hb : 0 < config.batchSize.toNat)
    (ht : 0 < config.transactionSize.toNat) :
    (if config.usesTransactions then Transaction.update else .auto) =
      if config.batchSize.toNat = 1 ∧ config.transactionSize.toNat = 1 then .auto else .update := by
  have huses : config.usesTransactions = true ↔
      1 < config.batchSize.toNat ∨ 1 < config.transactionSize.toNat := by
    simp [Config.Output.usesTransactions, UInt64.lt_iff_toNat_lt]
  split
  · next h => rw [if_neg fun hone => by have := huses.mp h; omega]
  · next h => rw [if_pos (by rw [huses] at h; omega)]

namespace Capped

variable {mode : Transaction} {b t : Nat} {base : List Event} {spans : Nat → Nat} {full : Option Nat}
  {w w' : Writer} {site site' : Site σ}

theorem still (h : Capped mode b t base spans none w site) (hterms : w'.terms = w.terms)
    (hslots : ∀ (i : Nat) (slot' : Slot), w'.slots[i]? = some slot' → ∃ slot charged session,
      w.slots[i]? = some slot ∧ slot' = { slot with charged := charged, session := session })
    {events : List Event} (htrace : site'.wire.trace = events ++ site.wire.trace)
    (hevents : ∀ event ∈ events, event.inserts = false) : Capped mode b t base spans none w' site' where
  terms := hterms ▸ h.terms
  slots i slot' hi := by
    obtain ⟨slot, charged, session, hslot, rfl⟩ := hslots i slot' hi
    obtain ⟨hloadable, hbatches, htaken⟩ := h.slots i slot hslot
    refine ⟨⟨hloadable.pending, hloadable.auto, hloadable.update⟩, hbatches, fun doc hdoc => ?_⟩
    rw [htrace]
    exact (htaken doc hdoc).append events
  bounded i slot' hi hfull := by
    obtain ⟨slot, charged, session, hslot, rfl⟩ := hslots i slot' hi
    have hbounded := h.bounded i slot hslot hfull
    exact ⟨hbounded.pending, hbounded.auto, hbounded.batches, hbounded.queue, hbounded.stage⟩
  inserts := by
    rw [htrace]
    exact h.inserts.append hevents

theorem receive (h : Capped mode b t base spans none w site) (srv : Server σ) (files : FileStore)
    (uri : Uri) (source : Option Source) (payload : Payload) :
    Capped mode b t base spans none (w.receive srv files uri source payload site).2.1
      (w.receive srv files uri source payload site).2.2 := by
  have hfound := found_receive srv files uri source payload w site
  obtain ⟨events, hadds, hrun⟩ := receive_drives srv files uri source payload w site
  refine h.still hfound.terms (fun i slot' hi => ?_) hadds.trace fun event hevent => ?_
  · obtain ⟨slot, charged, hslot, hsame⟩ := hfound.getElem? hi
    exact ⟨slot, charged, slot.session, hslot, hsame⟩
  · exact not_inserts_of_lookStep hrun event (List.mem_reverse.mp hevent)

theorem skip (h : Capped mode b t base spans none w site) (source : Option Source) (e : ContentError) :
    Capped mode b t base spans none (w.skip source e site).2.1 (w.skip source e site).2.2 :=
  ⟨h.terms, h.slots, h.bounded, h.inserts⟩

theorem close (h : Capped mode b t base spans none w site) :
    Capped mode b t base spans none { w with closed := true } site :=
  ⟨h.terms, h.slots, h.bounded, h.inserts⟩

theorem count (h : Capped mode b t base spans none w site) (counters : Counters) :
    Capped mode b t base spans none w { site with counters := counters } :=
  ⟨h.terms, h.slots, h.bounded, h.inserts⟩

theorem hangUp (h : Capped mode b t base spans none w site) (srv : Server σ) (i : Nat) :
    Capped mode b t base spans none (w.hangUp srv i site).1 (w.hangUp srv i site).2 := by
  unfold Writer.hangUp
  split
  · exact h
  · next session _ =>
    have htrace : (site.wire.close srv session).trace =
        [.closed session (srv.close session site.wire.state).1] ++ site.wire.trace := rfl
    refine h.still rfl (fun j slot' hj => ?_) htrace fun event hevent => ?_
    · rw [List.getElem?_modify] at hj
      obtain ⟨slot, hslot, rfl⟩ := Option.map_eq_some_iff.mp hj
      refine ⟨slot, slot.charged, if i = j then none else slot.session, hslot, ?_⟩
      split
      · rfl
      · rfl
    · rw [List.mem_singleton.mp hevent]
      rfl

theorem flush (h : Capped mode b t base spans full w site) (srv : Server σ) {i : Nat} {slot : Slot}
    (hi : w.slots[i]? = some slot) (hfull : ∀ j, full = some j → j = i) (closing : Bool)
    (hok : ∀ kind, (w.flush srv i closing site).1 ≠ .error (.overflow kind)) :
    (mode = .update → (⟨i, closing, w, site⟩ : Flush σ).Limited srv t (spans i)) ∧
      Capped mode b t base ((⟨i, closing, w, site⟩ : Flush σ).advance srv spans) none
        (w.flush srv i closing site).2.1 (w.flush srv i closing site).2.2 := by
  obtain ⟨hloadable, hbatches, htaken⟩ := h.slots i slot hi
  have hbeside := beside_flush srv i closing w site
  have hinserts := flush_inserts srv closing hi hloadable h.terms.transaction_pos htaken
  obtain ⟨slot', hi', hbounded, hspan, htaken'⟩ :=
    flush_bounded srv closing h.terms hi hloadable htaken hok
  obtain ⟨events, htrace, -⟩ := id hinserts
  have hadvance (j : Nat) : (⟨i, closing, w, site⟩ : Flush σ).advance srv spans j =
      if j = i then (⟨i, closing, w, site⟩ : Flush σ).span srv (spans i) else spans j :=
    Function.update_apply ..
  refine ⟨fun hmode => ?_, hbeside.terms ▸ h.terms, fun j slot₁ hj => ?_, fun j slot₁ hj _ => ?_,
    h.inserts.trans hinserts⟩
  · rw [← hbatches]
    exact flush_limited srv closing h.terms hmode hi hloadable htaken
  · rw [hadvance]
    by_cases hji : j = i
    · subst hji
      cases hi'.symm.trans hj
      rw [if_pos rfl, ← hbatches]
      exact ⟨hbounded.loadable, hspan, htaken'⟩
    · rw [hbeside.others j hji] at hj
      obtain ⟨hloadable₁, hbatches₁, htaken₁⟩ := h.slots j slot₁ hj
      rw [if_neg hji]
      refine ⟨hloadable₁, hbatches₁, fun doc hdoc => ?_⟩
      rw [htrace]
      exact (htaken₁ doc hdoc).append events
  · by_cases hji : j = i
    · subst hji
      cases hi'.symm.trans hj
      exact hbounded
    · rw [hbeside.others j hji] at hj
      exact h.bounded j slot₁ hj fun hj' => hji (hfull j hj')

theorem gather (h : Capped mode b t base spans none w site) (i : Nat) (content : Content) :
    Capped mode b t base spans (some i) (w.gather i content) site := by
  have hslots {j : Nat} {slot' : Slot} (hj : (w.gather i content).slots[j]? = some slot') :
      ∃ slot, w.slots[j]? = some slot ∧ slot' = if i = j then
        { slot with pending := slot.pending ++ [content], stage := .batching } else slot := by
    dsimp only [Writer.gather] at hj
    rw [List.getElem?_modify] at hj
    obtain ⟨slot, hslot, hsame⟩ := Option.map_eq_some_iff.mp hj
    exact ⟨slot, hslot, hsame.symm⟩
  refine ⟨h.terms, fun j slot' hj => ?_, fun j slot' hj hne => ?_, h.inserts⟩
  · obtain ⟨slot, hslot, rfl⟩ := hslots hj
    obtain ⟨hloadable, hbatches, htaken⟩ := h.slots j slot hslot
    have hpending := (h.bounded j slot hslot nofun).pending
    split
    · refine ⟨⟨?_, hloadable.auto, hloadable.update⟩, hbatches, htaken⟩
      dsimp only
      rw [List.length_append, List.length_singleton]
      exact hpending
    · exact ⟨hloadable, hbatches, htaken⟩
  · obtain ⟨slot, hslot, rfl⟩ := hslots hj
    rw [if_neg fun hij => hne (congrArg some hij)]
    exact h.bounded j slot hslot nofun

end Capped

def Course.flushes (srv : Server σ) : List Call → Course σ → List (Flush σ)
  | [], _ => []
  | call :: calls, c => call.flushes srv c.writer c.site ++ flushes srv calls (c.step srv call)

structure Carries (srv : Server σ) (mode : Transaction) (b t : Nat) (base : List Event) (spans : Nat → Nat)
    (flushes : List (Flush σ)) (w' : Writer) (site' : Site σ) : Prop where
  limited : mode = .update → AllLimited srv t spans flushes
  capped : Capped mode b t base (flushes.foldl (Flush.advance srv) spans) none w' site'

section

variable {mode : Transaction} {b t : Nat} {base : List Event} {spans : Nat → Nat} {w w' : Writer}
  {site site' : Site σ}

theorem Capped.carries (srv : Server σ) (h : Capped mode b t base spans none w site) :
    Carries srv mode b t base spans [] w site := ⟨fun _ => trivial, h⟩

theorem Carries.append {srv : Server σ} {fs fs' : List (Flush σ)}
    (h : Carries srv mode b t base spans fs w site)
    (h' : Carries srv mode b t base (fs.foldl (Flush.advance srv) spans) fs' w' site') :
    Carries srv mode b t base spans (fs ++ fs') w' site' where
  limited hmode := (h.limited hmode).append (h'.limited hmode)
  capped := by
    rw [List.foldl_append]
    exact h'.capped

namespace Capped

theorem push (h : Capped mode b t base spans none w site) (srv : Server σ) (i : Nat) (content : Content)
    (hok : ∀ kind, (w.push srv i content site).1 ≠ .error (.overflow kind)) :
    Carries srv mode b t base spans (w.pushFlushes i content site) (w.push srv i content site).2.1
      (w.push srv i content site).2.2 := by
  have hgathered := h.gather i content
  unfold Writer.push at hok
  unfold pushFlushes Writer.push
  dsimp only at hok ⊢
  split
  · next hfull =>
    obtain ⟨slot, hi, -⟩ := (Option.any_eq_true _ _).mp hfull
    rw [if_pos hfull] at hok
    obtain ⟨hlimited, hcapped⟩ :=
      hgathered.flush srv hi (fun j hj => (Option.some.inj hj).symm) false hok
    exact ⟨fun hmode => ⟨hlimited hmode, trivial⟩, hcapped⟩
  · next hroom =>
    refine carries srv ⟨hgathered.terms, hgathered.slots, fun j slot' hj _ => ?_, hgathered.inserts⟩
    by_cases hij : i = j
    · -- The batch of slot `i` would be full otherwise.
      subst hij
      obtain ⟨hloadable, -, -⟩ := hgathered.slots i slot' hj
      have hpending : slot'.pending.length < b := by
        have hfew : ¬ (w.gather i content).terms.batchSize.toNat ≤ slot'.pending.length := fun hmany =>
          hroom ((Option.any_eq_true _ _).mpr ⟨slot', hj, decide_eq_true hmany⟩)
        rw [hgathered.terms.batchSize] at hfew
        exact Nat.lt_of_not_le hfew
      refine hloadable.bounded hpending ?_
      dsimp only [Writer.gather] at hj
      rw [List.getElem?_modify_eq] at hj
      obtain ⟨slot, -, rfl⟩ := Option.map_eq_some_iff.mp hj
      rw [Slot.visible, if_pos (List.append_ne_nil_of_right_ne_nil _ (List.cons_ne_nil _ _))]
    · exact hgathered.bounded j slot' hj fun heq => hij (Option.some.inj heq)

theorem drainSlot (h : Capped mode b t base spans none w site) (srv : Server σ) (i : Nat)
    (hok : ∀ kind, (w.drainSlot srv i site).1 ≠ .error (.overflow kind)) :
    Carries srv mode b t base spans (if w.isBusy i then [⟨i, true, w, site⟩] else [])
      (w.drainSlot srv i site).2.1 (w.drainSlot srv i site).2.2 := by
  obtain ⟨kind, -, he⟩ | ⟨result, w₁, site₁, hd, he⟩ := drainSlot_cases srv i w site
  · exact absurd he (hok kind)
  · have hflush : Carries srv mode b t base spans (if w.isBusy i then [⟨i, true, w, site⟩] else []) w₁ site₁ := by
      split
      · next hbusy =>
        obtain ⟨slot, hi, -⟩ := (Option.any_eq_true _ _).mp hbusy
        rw [if_pos hbusy] at hd
        obtain ⟨hlimited, hcapped⟩ := h.flush srv hi (fun j hj => by cases hj) true fun kind hkind => by
          rw [hd] at hkind
          exact mapError_ne_overflow result kind hkind
        rw [hd] at hcapped
        exact ⟨fun hmode => ⟨hlimited hmode, trivial⟩, hcapped⟩
      · next hidle =>
        rw [if_neg hidle] at hd
        cases (Prod.mk.inj hd).2
        exact h.carries srv
    rw [he]
    exact ⟨hflush.limited, hflush.capped.hangUp srv i⟩

theorem drain (h : Capped mode b t base spans none w site) (srv : Server σ) (is : List Nat)
    (hok : ∀ kind, (drain srv is w site).1 ≠ .error (.overflow kind)) :
    Carries srv mode b t base spans (drainFlushes srv is w site) (drain srv is w site).2.1
      (drain srv is w site).2.2 := by
  induction is generalizing spans w site with
  | nil => exact h.carries srv
  | cons i is ih =>
    have hslot := h.drainSlot srv i
    rw [drainFlushes]
    cases hd : w.drainSlot srv i site with
    | mk result s =>
      obtain ⟨w₁, site₁⟩ := s
      rw [hd] at hslot
      cases result with
      | error fault =>
        rw [drain_cons_error hd] at hok ⊢
        rw [List.append_nil]
        exact hslot hok
      | ok first =>
        rw [drain_cons_ok hd]
        have hlater := hslot fun kind hkind => by cases hkind
        refine hlater.append (ih hlater.capped fun kind hkind => hok kind ?_)
        exact drain_cons_overflow hd hkind

theorem run (h : Capped mode b t base spans none w site) (srv : Server σ) (call : Call)
    (hok : ∀ kind, (call.run srv w site).1 ≠ .error (.overflow kind)) :
    Carries srv mode b t base spans (call.flushes srv w site) (call.run srv w site).2.1
      (call.run srv w site).2.2 := by
  cases call with
  | write files uri source payload =>
    have hreceived := h.receive srv files uri source payload
    dsimp only [Call.run, Call.flushes] at hok ⊢
    obtain ⟨fault, w₁, site₁, hr, hw⟩ | ⟨e, w₁, site₁, hr, hw⟩ | ⟨i, content, w₁, site₁, hr, hw⟩ :=
      write_cases srv files uri source payload w site
    · rw [hr] at hreceived
      rw [hr, hw]
      exact hreceived.carries srv
    · rw [hr] at hreceived
      rw [hr, hw]
      exact (hreceived.skip source e).carries srv
    · rw [hr] at hreceived
      rw [hw] at hok
      rw [hr, hw]
      exact hreceived.push srv i content hok
  | close =>
    have hdrained := h.close.drain srv (List.range w.slots.length)
    dsimp only [Call.run, Call.flushes] at hok ⊢
    unfold Writer.close at hok ⊢
    split
    · exact h.carries srv
    · next hopen =>
      rw [if_neg hopen] at hok
      split
      · next hd =>
        rw [hd] at hdrained hok
        refine hdrained fun kind hkind => hok kind ?_
        cases hkind
        rfl
      · next hd =>
        rw [hd] at hdrained
        have hcarries := hdrained nofun
        exact ⟨hcarries.limited, hcarries.capped.count _⟩

theorem follow {c : Course σ} (h : Capped mode b t base spans none c.writer c.site) (srv : Server σ)
    (calls : List Call) (hrun : (Course.follow srv calls c).Unbroken) :
    Carries srv mode b t base spans (Course.flushes srv calls c) (Course.follow srv calls c).writer
      (Course.follow srv calls c).site := by
  induction calls generalizing spans c with
  | nil => exact h.carries srv
  | cons call calls ih =>
    have hstep := h.run srv call (Course.Unbroken.of_step (Course.Unbroken.of_follow hrun)).2
    exact hstep.append (ih (c := c.step srv call) hstep.capped hrun)

theorem new {config : Config.Output} {fastLoad : Bool} {m : Placement.Manager} {task : Nat}
    (hw : Writer.new config fastLoad m task = .ok w) (hb : 0 < config.batchSize) (ht : 0 < config.transactionSize)
    (site : Site σ) :
    Capped (if config.batchSize.toNat = 1 ∧ config.transactionSize.toNat = 1 then .auto else .update)
      config.batchSize.toNat config.transactionSize.toNat site.wire.trace (fun _ => 0) none w site := by
  obtain ⟨-, hterms⟩ := new_terms hw
  have hbatch : 0 < config.batchSize.toNat := hb
  have htransaction : 0 < config.transactionSize.toNat := ht
  have hslot {i : Nat} {slot : Slot} (hi : w.slots[i]? = some slot) {mode : Transaction} :
      slot.Bounded mode config.batchSize.toNat config.transactionSize.toNat := by
    obtain ⟨route, rfl⟩ := new_slot hw hi
    exact Slot.bounded_of_empty hbatch htransaction rfl rfl rfl rfl
  refine ⟨⟨?_, by rw [hterms], by rw [hterms], hbatch, htransaction⟩, fun i slot hi => ⟨(hslot hi).loadable, ?_⟩,
    fun i slot hi _ => hslot hi, .refl _ _⟩
  · rw [hterms]
    exact transaction_eq hbatch htransaction
  · obtain ⟨route, rfl⟩ := new_slot hw hi
    exact ⟨rfl, List.forall_mem_nil _⟩

end Capped

end

/-- Between two calls no batch is full, and the batches of a transaction are fewer than it may have; its
queue is no larger than they are, and stays empty without transactions; and a slot shows by its stage
whether documents are pending, or queued only. No flush adds a batch to a transaction that has all of them,
and the one that adds the last ends it. No insert is empty; the first of a document has a batch at most, and
one that sends a queue again as many documents as a transaction may have. So it is as long as no reckoning of
charges overflows, which ends the program. -/
theorem limits_kept {config : Config.Output} {fastLoad : Bool} {m : Placement.Manager} {task : Nat}
    {w : Writer} (hw : Writer.new config fastLoad m task = .ok w) (hb : 0 < config.batchSize)
    (ht : 0 < config.transactionSize) (srv : Server σ) (counters : Counters) (wire : Wire σ) (calls : List Call)
    (hrun : (Course.follow srv calls (.start w ⟨m, counters, wire⟩)).Unbroken) :
    let b := config.batchSize.toNat
    let t := config.transactionSize.toNat
    let mode : Transaction := if b = 1 ∧ t = 1 then .auto else .update
    let start : Course σ := .start w ⟨m, counters, wire⟩
    let c := Course.follow srv calls start
    let flushes := Course.flushes srv calls start
    (∀ (i : Nat) (slot : Slot), c.writer.slots[i]? = some slot →
      slot.Bounded mode b t ∧ slot.batches = spans srv flushes i) ∧
    (mode = .update → ∀ before f after, flushes = before ++ f :: after →
      f.Limited srv t (spans srv before f.slot)) ∧
    Inserts (Measured b (t * b)) wire.trace c.site.wire.trace := by
  intro b t mode start c flushes
  have hcarries := (Capped.new hw hb ht ⟨m, counters, wire⟩).follow srv calls (c := start) hrun
  refine ⟨fun i slot hi => ?_, fun hmode before f after hsplit => ?_, hcarries.capped.inserts⟩
  · exact ⟨hcarries.capped.bounded i slot hi nofun, (hcarries.capped.slots i slot hi).2.1⟩
  · have hlimited := hcarries.limited hmode
    rw [show Course.flushes srv calls start = before ++ f :: after from hsplit] at hlimited
    exact hlimited.limited

namespace Sample

/-- The first commit fails. -/
def forgetful : Server Nat where
  accept _ s := (.ok (), s)
  insert _ _ s := (.ok [], s)
  commit _ s := (if s = 0 then .error (.connection "reset") else .ok (), s + 1)
  rollback _ s := (.ok (), s)
  submit _ _ s := (.ok [], s)
  range _ _ s := (.ok (), s)
  next _ s := (.ok none, s)
  close _ s := (.ok (), s)
  wait _ s := s

def six : List Call := [call 1, call 2, call 3, call 4, call 5, call 6]

end Sample

/-- The commit after the second batch of a slot fails, and both batches are sent again in one insert. -/
theorem limits_kept_resent :
    ∃ w, Writer.new (Sample.config 2) true Sample.manager 0 = .ok w ∧
      let c := Course.follow Sample.forgetful Sample.six (.start w ⟨Sample.manager, .zero, .new 0⟩)
      Inserts (Measured 2 4) [] c.site.wire.trace ∧
        (∀ (i : Nat) (slot : Slot), c.writer.slots[i]? = some slot → slot.Bounded .update 2 2) ∧
        c.writer.slots.map (fun slot => (slot.queue.length, slot.batches)) = [(0, 0), (2, 1)] ∧
        c.site.wire.trace.filterMap (fun
          | .inserted _ docs _ => some docs.length
          | _ => none) = [4, 2, 2, 2] := by
  have hw : ∃ w, Writer.new (Sample.config 2) true Sample.manager 0 = .ok w := ⟨_, rfl⟩
  obtain ⟨w, hw⟩ := hw
  have hrun : (Course.follow Sample.forgetful Sample.six (.start w ⟨Sample.manager, .zero, .new 0⟩)).Unbroken := by
    cases hw
    decide +kernel
  have hlimits := limits_kept hw (by decide) (by decide) Sample.forgetful .zero (.new 0) Sample.six hrun
  refine ⟨w, hw, hlimits.2.2, fun i slot hi => (hlimits.1 i slot hi).1, ?_, ?_⟩
  · cases hw
    decide +kernel
  · cases hw
    decide +kernel

end ForestCourier.Writer
