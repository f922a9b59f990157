import ForestCourier.Proofs.Writer.Durability
import ForestCourier.Proofs.Writer.Success

/-!
The digest of a run: all of it that does not hang on where its requests went and how often they had to
be made. As long as every flush succeeds in the end, each call changes the digest in a way that the
server has no part in, apart from the documents that it rejects.
-/

namespace ForestCourier.Writer

variable {σ : Type}

structure Digest where
  /-- The writer without slots and stats. -/
  settings : Writer
  holdings : List Holdings
  succeeded : Nat
  failed : Nat
  manager : Placement.Manager
  counters : Counters
  stored : Nat → List Content

def digest (stints : List Stint) (w : Writer) (site : Site σ) : Digest where
  settings := { w with slots := [], stats := .zero }
  holdings := w.slots.map Slot.holdings
  succeeded := w.stats.succeeded
  failed := w.stats.failed
  manager := site.manager
  counters := site.counters
  stored := storedOn stints site.wire.ledger

namespace Digest

def Clean (p : Content → Bool) (g : Digest) : Prop := ∀ h ∈ g.holdings, h.Clean p

def gather (i : Nat) (content : Content) (g : Digest) : Digest :=
  { g with holdings := g.holdings.modify i fun h => { h with pending := h.pending ++ [content] } }

def flush (p : Content → Bool) (closing : Bool) (i : Nat) (g : Digest) : Digest :=
  match g.holdings[i]? with
  | none => g
  | some h =>
    { g with
      settings := g.settings.leave i
      holdings := g.holdings.set i (h.flush p g.settings.terms closing).1
      succeeded := g.succeeded + (h.flush p g.settings.terms closing).2.length
      failed := g.failed + h.pending.countP p
      stored := Function.update g.stored i (g.stored i ++ (h.flush p g.settings.terms closing).2) }

def push (p : Content → Bool) (i : Nat) (content : Content) (g : Digest) : Digest :=
  if (g.gather i content).holdings[i]?.any fun h =>
      g.settings.terms.batchSize.toNat ≤ h.pending.length then
    (g.gather i content).flush p false i
  else g.gather i content

def drainSlot (p : Content → Bool) (g : Digest) (i : Nat) : Digest :=
  if g.holdings[i]?.any fun h => !(h.pending.isEmpty && h.queue.isEmpty) then g.flush p true i else g

def close (p : Content → Bool) (g : Digest) : Digest :=
  let drained := (List.range g.holdings.length).foldl (drainSlot p)
    { g with settings := { g.settings with closed := true } }
  { drained with
    counters := Stats.addTo ⟨drained.succeeded, drained.failed, 0⟩ drained.counters }

theorem Clean.flush {p : Content → Bool} {g : Digest} (h : g.Clean p) (closing : Bool) (i : Nat) :
    (g.flush p closing i).Clean p := by
  unfold Digest.flush
  cases hi : g.holdings[i]? with
  | none => exact h
  | some h₁ =>
    intro h₂ hmem
    rcases List.mem_or_eq_of_mem_set hmem with hmem | rfl
    · exact h h₂ hmem
    · exact (h h₁ (List.mem_of_getElem? hi)).flush g.settings.terms closing

theorem Clean.gather {p : Content → Bool} {g : Digest} (h : g.Clean p) (i : Nat) (content : Content) :
    (g.gather i content).Clean p := by
  intro h₁ hmem
  obtain ⟨j, hj⟩ := List.mem_iff_getElem?.mp hmem
  simp only [Digest.gather, List.getElem?_modify] at hj
  obtain ⟨h₀, hh₀, rfl⟩ := Option.map_eq_some_iff.mp hj
  have hclean := h h₀ (List.mem_of_getElem? hh₀)
  split <;> exact hclean

theorem Clean.push {p : Content → Bool} {g : Digest} (h : g.Clean p) (i : Nat) (content : Content) :
    (g.push p i content).Clean p := by
  unfold Digest.push
  split
  · exact (h.gather i content).flush false i
  · exact h.gather i content

theorem Clean.drainSlot {p : Content → Bool} {g : Digest} (h : g.Clean p) (i : Nat) :
    (g.drainSlot p i).Clean p := by
  unfold Digest.drainSlot
  split
  · exact h.flush true i
  · exact h

theorem Clean.drain {p : Content → Bool} {g : Digest} (h : g.Clean p) (is : List Nat) :
    (is.foldl (Digest.drainSlot p) g).Clean p := by
  induction is generalizing g with
  | nil => exact h
  | cons i is ih => exact ih (h.drainSlot i)

theorem Clean.close {p : Content → Bool} {g : Digest} (h : g.Clean p) : (g.close p).Clean p := by
  have hclosing : Clean p { g with settings := { g.settings with closed := true } } := h
  exact hclosing.drain (List.range g.holdings.length)

end Digest

theorem Holdings.length_flush (p : Content → Bool) (terms : Terms) (closing : Bool) (h : Holdings) :
    (h.flush p terms closing).1.queue.length + (h.flush p terms closing).2.length + h.pending.countP p =
      h.queue.length + h.pending.length := by
  have hsplit := List.length_eq_countP_add_countP p (l := h.pending)
  have hfilter : h.pending.countP (fun doc => decide ¬p doc = true) =
      (h.pending.filter (!p ·)).length := by
    rw [List.countP_eq_length_filter]
    congr 2
    funext doc
    simp
  rw [hfilter] at hsplit
  unfold flush
  generalize (if h.pending.isEmpty then h.batches else h.batches + 1) = batches
  cases terms.transaction with
  | auto =>
    simp only [List.length_nil, List.length_append]
    omega
  | update =>
    dsimp only
    split
    · simp only [List.length_nil, List.length_append]
      omega
    · simp only [List.length_nil, List.length_append]
      omega

variable {srv : Server σ} {p : Content → Bool} {stints : List Stint} {pushed : Nat → List Content}
  {w : Writer} {site : Site σ}

theorem digest_gather (stints : List Stint) (w : Writer) (site : Site σ) (i : Nat)
    (content : Content) :
    digest stints (w.gather i content) site = (digest stints w site).gather i content := by
  have hholdings : (w.gather i content).slots.map Slot.holdings =
      (w.slots.map Slot.holdings).modify i fun h => { h with pending := h.pending ++ [content] } := by
    apply map_modify
    intro slot
    rfl
  simp only [digest, Digest.gather, hholdings]
  rfl

theorem delivery_failed {closing : Bool} {slot : Slot} {d : Delivery σ} {new : List (Nat × Content)}
    (hd : w.delivery srv closing slot site = (.ok (), d))
    (hs : (w.view slot site.wire).Stores d new)
    (hflush : (d.slot.holdings, new.map Prod.snd) = slot.holdings.flush p w.terms closing) :
    d.stats.failed = w.stats.failed + slot.pending.countP p := by
  have htotal := (Delivery.steps_total srv w.terms).delivery closing slot site
  rw [hd, total_load, Delivery.total, (delivery_ok hd).1] at htotal
  have hlength := Holdings.length_flush p w.terms closing slot.holdings
  rw [← hflush] at hlength
  have hsucceeded : d.stats.succeeded = w.stats.succeeded + new.length := hs.succeeded
  simp only [Slot.holdings, List.length_map, Slot.unsettled, List.length_nil] at hlength htotal
  omega

/-- A flush that succeeds changes the digest as if it had succeeded at once. -/
theorem digest_flush (h : Books stints pushed w site.wire) (hp : srv.RejectsBy p) {i : Nat}
    (hi : i < w.slots.length) (hclean : (digest stints w site).Clean p) {closing : Bool}
    (hok : w.outcome srv i closing site = .ok ()) (o : Except (RequestError × Nat) Unit) :
    (w.flush srv i closing site).1 = .ok () ∧
      digest (stints ++ [⟨i, o, site.wire.opened, (w.flush srv i closing site).2.2.wire.opened⟩])
          (w.flush srv i closing site).2.1 (w.flush srv i closing site).2.2 =
        (digest stints w site).flush p closing i := by
  have hslot := List.getElem?_eq_getElem hi
  rw [outcome_eq srv closing site hslot] at hok
  obtain ⟨d, hd, hf⟩ | ⟨e, n, d, count, hd, -⟩ | ⟨e, n, d, kind, hd, -⟩ :=
    flush_cases srv closing site hslot
  · have hslotClean : w.slots[i].holdings.Clean p :=
      hclean _ (List.mem_map_of_mem (List.getElem_mem hi))
    obtain ⟨new, hs, hflush⟩ :=
      delivery_holdings hp (h.valid i _ hslot) (h.current i _ hslot) hslotClean hd
    have hfailed := delivery_failed hd hs hflush
    have hsucceeded : d.stats.succeeded = w.stats.succeeded + new.length := hs.succeeded
    have hpending := pending_delivery srv closing w.slots[i] w site
    rw [hd] at hpending
    refine ⟨by rw [hf], ?_⟩
    rw [hf]
    have hget : (digest stints w site).holdings[i]? = some w.slots[i].holdings := by
      simp [digest, hslot]
    have hstored (j : Nat) :
        storedOn (stints ++ [⟨i, o, site.wire.opened, d.wire.opened⟩]) d.wire.ledger j =
        storedOn stints site.wire.ledger j ++ if j = i then new.map Prod.snd else [] := by
      have hview : (w.view w.slots[i] site.wire).Stores
          (((w.leave i).put i d site).1.view d.slot d.wire) new := by
        have hd : ((w.leave i).put i d site).1.view d.slot d.wire = d :=
          view_put (hpending.trans (delivery_ok hd).1.symm)
        rw [hd]
        exact hs
      exact h.storedOn_stint hslot hview j
    unfold Digest.flush
    rw [hget]
    dsimp only
    rw [show (digest stints w site).settings.terms = w.terms from rfl, ← hflush]
    simp only [digest, Digest.mk.injEq]
    refine ⟨rfl, ?_, ?_, ?_, rfl, rfl, ?_⟩
    · simp [put, leave, List.map_set]
    · simp [put, hsucceeded]
    · exact hfailed
    · funext j
      rw [Function.update_apply]
      refine (hstored j).trans ?_
      split
      · next hj => rw [hj]
      · rw [List.append_nil]
  · rw [hd] at hok
    cases hok
  · rw [hd] at hok
    cases hok

theorem digest_idle (stints : List Stint) (w : Writer) (site : Site σ) (i n : Nat)
    (o : Except (RequestError × Nat) Unit) :
    digest (stints ++ [⟨i, o, n, n⟩]) w site = digest stints w site := by
  have hopens : opens (stints ++ [⟨i, o, n, n⟩]) = opens stints := by
    funext j m
    rw [Bool.eq_iff_iff, opens_append]
    dsimp only
    constructor
    · rintro (hj | ⟨-, hlt, hle⟩)
      · exact hj
      · omega
    · exact .inl
  have hstored : storedOn (stints ++ [⟨i, o, n, n⟩]) site.wire.ledger = storedOn stints site.wire.ledger := by
    funext j
    rw [storedOn, storedOn, hopens]
  rw [digest, digest, hstored]

theorem digest_push (h : Books stints pushed w site.wire) (hp : srv.RejectsBy p) {i : Nat}
    (hi : i < w.slots.length) (hclean : (digest stints w site).Clean p) {content : Content}
    (hok : (w.pushStint srv i content site).outcome = .ok ()) :
    (w.push srv i content site).1 = .ok () ∧
      digest (stints ++ [w.pushStint srv i content site]) (w.push srv i content site).2.1
          (w.push srv i content site).2.2 = (digest stints w site).push p i content := by
  have hg := digest_gather stints w site i content
  have hlt : i < (w.gather i content).slots.length := by rwa [(beside_gather i content w).length]
  have hcleanGather : (digest stints (w.gather i content) site).Clean p := by
    rw [hg]
    exact hclean.gather i content
  have hfull : (w.gather i content).isFull i = ((digest stints w site).gather i content).holdings[i]?.any
      fun h => (digest stints w site).settings.terms.batchSize.toNat ≤ h.pending.length := by
    rw [← hg]
    simp only [isFull, digest, List.getElem?_map, Option.any_map]
    rfl
  unfold Digest.push
  unfold pushStint at hok ⊢
  unfold push
  dsimp only at hok ⊢
  rw [← hfull]
  by_cases hisFull : (w.gather i content).isFull i = true
  · rw [if_pos hisFull] at hok
    simp only [if_pos hisFull]
    obtain ⟨hflush, hdigest⟩ := digest_flush (h.gather i content) hp hlt hcleanGather hok
      ((w.gather i content).outcome srv i false site)
    exact ⟨hflush, by rw [hdigest, hg]⟩
  · simp only [if_neg hisFull]
    exact ⟨trivial, by rw [digest_idle, hg]⟩

theorem digest_hangUp (srv : Server σ) (i : Nat) (stints : List Stint) (w : Writer) (site : Site σ) :
    digest stints (w.hangUp srv i site).1 (w.hangUp srv i site).2 = digest stints w site := by
  have hholdings : (w.hangUp srv i site).1.slots.map Slot.holdings = w.slots.map Slot.holdings := by
    rw [hangUp_slots]
    apply map_modify_of_eq
    intro slot
    rfl
  simp only [digest, hholdings]
  unfold hangUp
  split <;> rfl

theorem digest_drainSlot (h : Books stints pushed w site.wire) (hp : srv.RejectsBy p) {i : Nat}
    (hi : i < w.slots.length) (hclean : (digest stints w site).Clean p)
    (hok : (w.drainStint srv i site).outcome = .ok ()) :
    (w.drainSlot srv i site).1 = .ok (.ok ()) ∧
      digest (stints ++ [w.drainStint srv i site]) (w.drainSlot srv i site).2.1
          (w.drainSlot srv i site).2.2 = (digest stints w site).drainSlot p i := by
  have hbusy : w.isBusy i = (digest stints w site).holdings[i]?.any
      fun h => !(h.pending.isEmpty && h.queue.isEmpty) := by
    simp only [isBusy, digest, List.getElem?_map, Option.any_map]
    rfl
  have hopened (w : Writer) (site : Site σ) : (w.hangUp srv i site).2.wire.opened = site.wire.opened := by
    unfold hangUp
    split <;> rfl
  unfold Digest.drainSlot
  unfold drainStint at hok ⊢
  unfold drainSlot
  dsimp only at hok ⊢
  rw [← hbusy]
  by_cases hisBusy : w.isBusy i = true
  · rw [if_pos hisBusy] at hok
    simp only [if_pos hisBusy]
    obtain ⟨hflush, hdigest⟩ := digest_flush h hp hi hclean hok (w.outcome srv i true site)
    cases hf : w.flush srv i true site with
    | mk r s =>
      rw [hf] at hflush hdigest
      cases hflush
      dsimp only at hdigest ⊢
      rw [hopened, digest_hangUp, hdigest]
      exact ⟨rfl, rfl⟩
  · simp only [if_neg hisBusy]
    rw [hopened, digest_hangUp, digest_idle]
    exact ⟨trivial, rfl⟩

theorem digest_drain (h : Books stints pushed w site.wire) (hp : srv.RejectsBy p) {is : List Nat}
    (his : ∀ i ∈ is, i < w.slots.length) (hclean : (digest stints w site).Clean p)
    (hok : ∀ t ∈ drainStints srv is w site, t.outcome = .ok ()) :
    (drain srv is w site).1 = .ok (.ok ()) ∧
      digest (stints ++ drainStints srv is w site) (drain srv is w site).2.1 (drain srv is w site).2.2 =
        is.foldl (Digest.drainSlot p) (digest stints w site) := by
  induction is generalizing stints w site with
  | nil => exact ⟨rfl, by simp [drainStints, drain]⟩
  | cons i is ih =>
    have hi := his i List.mem_cons_self
    have hkept := h.drainSlot srv hi
    have hlen := (beside_drainSlot srv i w site).length
    unfold drainStints at hok ⊢
    obtain ⟨hslot, hdigest⟩ := digest_drainSlot h hp hi hclean (hok _ List.mem_cons_self)
    cases hd : w.drainSlot srv i site with
    | mk r s =>
      rw [hd] at hslot hdigest hkept hlen hok
      cases hslot
      dsimp only at hok hkept hlen hdigest ⊢
      have hrest := ih hkept (fun j hj => by rw [hlen]; exact his j (List.mem_cons_of_mem _ hj))
        (by rw [hdigest]; exact hclean.drainSlot i) fun t ht => hok t (List.mem_cons_of_mem _ ht)
      rw [hdigest, List.append_assoc, List.singleton_append] at hrest
      rw [drain_cons_ok hd, List.foldl_cons]
      refine ⟨?_, hrest.2⟩
      rw [drain, hd]
      dsimp only
      cases hr : drain srv is s.1 s.2 with
      | mk r' s' =>
        rw [hr] at hrest
        rw [show r' = .ok (.ok ()) from hrest.1]

theorem digest_close (h : Books stints pushed w site.wire) (hp : srv.RejectsBy p)
    (hclean : (digest stints w site).Clean p) (hopen : w.closed = false)
    (hok : ∀ t ∈ Call.close.stints srv w site, t.outcome = .ok ()) :
    (w.close srv site).1 = .ok () ∧
      digest (stints ++ Call.close.stints srv w site) (w.close srv site).2.1 (w.close srv site).2.2 =
        (digest stints w site).close p := by
  simp only [Call.stints, hopen, Bool.false_eq_true, if_false] at hok ⊢
  have hclosing : digest stints { w with closed := true } site =
      { digest stints w site with settings := { (digest stints w site).settings with closed := true } } := rfl
  have hlength : (digest stints w site).holdings.length = w.slots.length := by simp [digest]
  obtain ⟨hdrain, hdigest⟩ := digest_drain h.closing hp (fun i hi => List.mem_range.mp hi) hclean hok
  unfold close Digest.close
  rw [hlength, ← hclosing, ← hdigest, hopen]
  simp only [Bool.false_eq_true, if_false]
  cases hd : drain srv (List.range w.slots.length) { w with closed := true } site with
  | mk r s =>
    rw [hd] at hdrain
    cases hdrain
    exact ⟨rfl, rfl⟩

end ForestCourier.Writer
