import Mathlib.Algebra.GroupWithZero.Nat
import ForestCourier.Proofs.Writer.Slots

/-!
Every document is accounted for. The `total` of a delivery counts the documents that it has settled,
as stored or as failed, and those it still holds; every step of a delivery keeps it, and so does
giving up, which counts what is lost as failed. Over a run the total of the writer is thus the
number of documents that had no content or were placed on a slot, and closing leaves none of them
unsettled.
-/

namespace ForestCourier.Writer

variable {σ : Type}

namespace Delivery

def total (d : Delivery σ) : Nat :=
  d.stats.succeeded + d.stats.failed + d.slot.queue.length + d.batch.length

theorem steps_total (srv : Server σ) (terms : Terms) :
    Steps srv terms fun d d' => d'.total = d.total where
  refl _ := rfl
  trans h h' := h'.trans h
  ensureSession d := by
    unfold ensureSession
    split
    · rfl
    · split <;> rfl
  replayQueue session d := by
    unfold replayQueue
    split
    · next h =>
      obtain ⟨hslot, hbatch, hstats⟩ := insert_error h
      simp only [total, hslot, hbatch, hstats]
    · next h =>
      obtain ⟨hslot, hbatch, hsucc, hlen⟩ := insert_ok h
      simp only [total, hbatch, hsucc]
      omega
  insertBatch session d := by
    unfold insertBatch
    split
    · next h =>
      obtain ⟨hslot, hbatch, hstats⟩ := insert_error h
      simp only [total, hslot, hbatch, hstats]
    · next h =>
      obtain ⟨hslot, hbatch, hsucc, hlen⟩ := insert_ok h
      simp only [total, hslot, hsucc]
      omega
  settleAuto _ d := by
    simp only [settleAuto, total, List.length_nil]
    omega
  enqueue _ d := by
    simp only [enqueue, total, List.length_append, List.length_nil]
    omega
  commit _ session d := by
    unfold commit
    split
    · rfl
    · simp only [total, List.length_nil]
      omega
  failOver e n d := by
    simp only [failOver, discardSession, total]
    split <;> split <;> rfl
  stage _ _ := rfl

theorem total_report_clear (srv : Server σ) (terms : Terms) (e : RequestError) (n : Nat)
    (d : Delivery σ) : ((d.clear srv terms).report e n d.lost).total = d.total := by
  simp only [report, clear, total, lost, stats_discardSession, List.length_nil, List.length_append]
  omega

theorem pending_clear (srv : Server σ) (terms : Terms) (d : Delivery σ) :
    (d.clear srv terms).slot.pending = d.slot.pending := by
  rw [clear, slot_discardSession]

end Delivery

namespace Slot

def unsettled (s : Slot) : Nat := s.pending.length + s.queue.length

end Slot

theorem sum_map_set {α : Type} (f : α → Nat) {xs : List α} {i : Nat} {x : α} (h : xs[i]? = some x) (x' : α) :
    ((xs.set i x').map f).sum + f x = (xs.map f).sum + f x' := by
  induction xs generalizing i with
  | nil => cases h
  | cons y xs ih =>
    cases i with
    | zero =>
      cases h
      simp only [List.set_cons_zero, List.map_cons, List.sum_cons]
      omega
    | succ i =>
      have hrest := ih (i := i) (by simpa using h)
      simp only [List.set_cons_succ, List.map_cons, List.sum_cons]
      omega

def total (w : Writer) : Nat :=
  w.stats.succeeded + w.stats.failed + (w.slots.map Slot.unsettled).sum

theorem total_put {i : Nat} {w : Writer} {slot : Slot} (hi : w.slots[i]? = some slot) (site : Site σ)
    {d : Delivery σ} (hpending : d.slot.pending = []) (hbatch : d.batch = [])
    (hd : d.total = w.stats.succeeded + w.stats.failed + slot.unsettled) :
    ((w.leave i).put i d site).1.total = w.total := by
  have hsum := sum_map_set Slot.unsettled hi d.slot
  have hslot : d.slot.unsettled = d.slot.queue.length := by
    simp only [Slot.unsettled, hpending, List.length_nil, Nat.zero_add]
  simp only [Delivery.total, hbatch, List.length_nil] at hd
  simp only [put, leave, total]
  omega

theorem total_load (closing : Bool) (w : Writer) (slot : Slot) (site : Site σ) :
    (w.load closing slot site).1.total =
      w.stats.succeeded + w.stats.failed + slot.unsettled := by
  simp only [load, Delivery.total, Slot.unsettled]
  omega

theorem total_flush (srv : Server σ) (i : Nat) (closing : Bool) (w : Writer) (site : Site σ)
    (h : ∀ kind, (w.flush srv i closing site).1 ≠ .error (.overflow kind)) :
    (w.flush srv i closing site).2.1.total = w.total := by
  cases hi : w.slots[i]? with
  | none => simp [flush, hi]
  | some slot =>
    have htotal := (Delivery.steps_total srv w.terms).delivery closing slot site
    have hpending := pending_delivery srv closing slot w site
    rw [total_load] at htotal
    obtain ⟨d, hd, hf⟩ | ⟨e, n, d, count, hd, hf⟩ | ⟨e, n, d, kind, -, hf⟩ :=
      flush_cases srv closing site hi
    · rw [hd] at htotal hpending
      rw [hf]
      exact total_put hi site hpending (delivery_ok hd).1 htotal
    · rw [hd] at htotal hpending
      rw [hf]
      refine total_put hi _ ?_ rfl ?_
      · exact (Delivery.pending_clear srv w.terms d).trans hpending
      · exact (Delivery.total_report_clear srv w.terms e n d).trans htotal
    · exact absurd (by rw [hf]) (h kind)

theorem total_gather {i : Nat} {w : Writer} (hi : i < w.slots.length) (content : Content) :
    (w.gather i content).total = w.total + 1 := by
  have hslot : w.slots[i]? = some w.slots[i] := List.getElem?_eq_getElem hi
  have hsum := sum_map_set Slot.unsettled hslot
    { w.slots[i] with pending := w.slots[i].pending ++ [content], stage := .batching }
  simp only [gather, total, List.modify_eq_set_getElem?, hslot, Option.map_eq_map, Option.map_some,
    Option.getD_some]
  simp only [Slot.unsettled, List.length_append, List.length_singleton] at hsum ⊢
  omega

theorem total_push {srv : Server σ} {i : Nat} {w : Writer} (hi : i < w.slots.length)
    {content : Content} {site : Site σ}
    (h : ∀ kind, (w.push srv i content site).1 ≠ .error (.overflow kind)) :
    (w.push srv i content site).2.1.total = w.total + 1 := by
  rw [← total_gather hi content]
  unfold push at h ⊢
  dsimp only at h ⊢
  split
  · next hfull =>
    rw [if_pos hfull] at h
    exact total_flush srv i false _ site h
  · rfl

theorem total_found {w w' : Writer} (h : Found w w') : w'.total = w.total := by
  rw [total, total, h.stats, h.map_slots fun _ _ => rfl]

/-- Without transactions no slot queues documents. -/
def Unqueued (w : Writer) : Prop :=
  w.terms.transaction = .auto → ∀ (i : Nat) (slot : Slot), w.slots[i]? = some slot → slot.queue = []

theorem Unqueued.beside {i : Nat} {w w' : Writer} (h : w.Unqueued) (hw : Beside i w w')
    (hi : w.terms.transaction = .auto → ∀ slot : Slot, w'.slots[i]? = some slot → slot.queue = []) :
    w'.Unqueued := by
  intro hauto j slot hj
  rw [hw.terms] at hauto
  by_cases hji : j = i
  · subst hji
    exact hi hauto slot hj
  · rw [hw.others j hji] at hj
    exact h hauto j slot hj

theorem Unqueued.flush {w : Writer} (h : w.Unqueued) (srv : Server σ) (i : Nat) (closing : Bool)
    (site : Site σ) : (w.flush srv i closing site).2.1.Unqueued := by
  refine h.beside (beside_flush srv i closing w site) fun hauto slot' hslot' => ?_
  cases hi : w.slots[i]? with
  | none => simp [Writer.flush, hi] at hslot'
  | some slot =>
    have hlt : i < w.slots.length := (List.getElem?_eq_some_iff.mp hi).1
    have hqueue := (Delivery.steps_queue srv hauto).delivery closing slot site (h hauto i slot hi)
    obtain ⟨d, hd, hf⟩ | ⟨e, n, d, count, -, hf⟩ | ⟨e, n, d, kind, -, hf⟩ :=
      flush_cases srv closing site hi
    all_goals
      rw [hf] at hslot'
      simp only [put, leave, List.getElem?_set_self hlt, Option.some.injEq] at hslot'
      subst hslot'
    · rwa [hd] at hqueue
    · rfl
    · rfl

theorem Unqueued.gather {w : Writer} (h : w.Unqueued) (i : Nat) (content : Content) :
    (w.gather i content).Unqueued := by
  refine h.beside (beside_gather i content w) fun hauto slot' hslot' => ?_
  simp only [Writer.gather, List.getElem?_modify_eq, Option.map_eq_map, Option.map_eq_some_iff] at hslot'
  obtain ⟨slot, hslot, rfl⟩ := hslot'
  exact h hauto i slot hslot

theorem Unqueued.push {w : Writer} (h : w.Unqueued) (srv : Server σ) (i : Nat) (content : Content)
    (site : Site σ) : (w.push srv i content site).2.1.Unqueued := by
  have hg := h.gather i content
  unfold Writer.push
  dsimp only
  split
  · exact hg.flush srv i false site
  · exact hg

theorem Unqueued.hangUp {w : Writer} (h : w.Unqueued) (srv : Server σ) (i : Nat) (site : Site σ) :
    (w.hangUp srv i site).1.Unqueued := by
  refine h.beside (beside_hangUp srv i w site) fun hauto slot' hslot' => ?_
  unfold Writer.hangUp at hslot'
  split at hslot'
  · exact h hauto i slot' hslot'
  · simp only [List.getElem?_modify_eq, Option.map_eq_map, Option.map_eq_some_iff] at hslot'
    obtain ⟨slot, hslot, rfl⟩ := hslot'
    exact h hauto i slot hslot

theorem Unqueued.found {w w' : Writer} (h : w.Unqueued) (hw : Found w w') : w'.Unqueued := by
  intro hauto i slot' hi
  rw [hw.terms] at hauto
  obtain ⟨slot, charged, hslot, rfl⟩ := hw.getElem? hi
  exact h hauto i slot hslot

def Slot.Empty (s : Slot) : Prop := s.queue = [] ∧ s.pending = []

theorem isBusy_eq_false {w : Writer} {i : Nat} {slot : Slot} (hi : w.slots[i]? = some slot) :
    w.isBusy i = false ↔ slot.Empty := by
  simp [isBusy, hi, Slot.Empty, and_comm]

theorem flush_empties {srv : Server σ} {i : Nat} {w : Writer} {site : Site σ} (hq : w.Unqueued)
    {slot' : Slot} (h : (w.flush srv i true site).2.1.slots[i]? = some slot') : slot'.Empty := by
  have hqueue := hq.flush srv i true site
  have hterms := (beside_flush srv i true w site).terms
  cases hi : w.slots[i]? with
  | none => simp [flush, hi] at h
  | some slot =>
    have hlt : i < w.slots.length := (List.getElem?_eq_some_iff.mp hi).1
    have hpending := pending_delivery srv true slot w site
    obtain ⟨d, hd, hf⟩ | ⟨e, n, d, count, hd, hf⟩ | ⟨e, n, d, kind, hd, hf⟩ :=
      flush_cases srv true site hi
    · refine ⟨?_, ?_⟩
      · cases hmode : w.terms.transaction with
        | auto => exact hqueue (by rw [hterms, hmode]) i slot' h
        | update =>
          have hending : (w.load true slot site).2 = true := by simp [load, hmode]
          rw [hf] at h
          simp only [put, leave, List.getElem?_set_self hlt, Option.some.injEq] at h
          subst h
          exact (delivery_ok hd).2 hmode hending
      · rw [hf] at h
        simp only [put, leave, List.getElem?_set_self hlt, Option.some.injEq] at h
        subst h
        rwa [hd] at hpending
    all_goals
      rw [hf] at h
      simp only [put, leave, List.getElem?_set_self hlt, Option.some.injEq] at h
      subst h
      rw [hd] at hpending
      exact ⟨rfl, (Delivery.pending_clear srv w.terms d).trans hpending⟩

theorem hangUp_slots (srv : Server σ) (i : Nat) (w : Writer) (site : Site σ) :
    (w.hangUp srv i site).1.slots = w.slots.modify i fun s => { s with session := none } := by
  unfold hangUp
  split
  · next h =>
    apply List.ext_getElem?
    intro j
    rw [List.getElem?_modify]
    by_cases hj : i = j
    · subst hj
      cases hi : w.slots[i]? with
      | none => rfl
      | some slot =>
        have hsession : slot.session = none := by simpa [hi] using h
        rw [← hsession]
        simp
    · simp [hj]
  · rfl

theorem total_hangUp (srv : Server σ) (i : Nat) (w : Writer) (site : Site σ) :
    (w.hangUp srv i site).1.total = w.total := by
  have hmap : ((w.hangUp srv i site).1.slots.map Slot.unsettled) = w.slots.map Slot.unsettled := by
    rw [hangUp_slots]
    apply map_modify_of_eq
    intro slot
    rfl
  have hstats : (w.hangUp srv i site).1.stats = w.stats := by
    unfold hangUp
    split <;> rfl
  rw [total, total, hmap, hstats]

theorem total_drainSlot (srv : Server σ) (i : Nat) (w : Writer) (site : Site σ)
    (h : ∀ kind, (w.drainSlot srv i site).1 ≠ .error (.overflow kind)) :
    (w.drainSlot srv i site).2.1.total = w.total := by
  obtain ⟨kind, -, hd⟩ | ⟨result, w₁, site₁, hd, he⟩ := drainSlot_cases srv i w site
  · exact absurd hd (h kind)
  · rw [he, total_hangUp]
    split at hd
    · have hflush := total_flush srv i true w site
        fun kind => by rw [hd]; cases result <;> exact nofun
      rwa [hd] at hflush
    · simp only [Prod.mk.injEq] at hd
      rw [hd.2.1]

theorem Unqueued.drainSlot {w : Writer} (h : w.Unqueued) (srv : Server σ) (i : Nat) (site : Site σ) :
    (w.drainSlot srv i site).2.1.Unqueued := by
  have hflush : (if w.isBusy i then w.flush srv i true site else (.ok (), w, site)).2.1.Unqueued := by
    split
    · exact h.flush srv i true site
    · exact h
  obtain ⟨kind, hd, -⟩ | ⟨result, w₁, site₁, hd, he⟩ := drainSlot_cases srv i w site
  · rwa [hd] at hflush
  · rw [hd] at hflush
    rw [he]
    exact hflush.hangUp srv i site₁

def EmptyAt (i : Nat) (w : Writer) : Prop := ∀ slot : Slot, w.slots[i]? = some slot → slot.Empty

theorem drainSlot_empties {w : Writer} (hq : w.Unqueued) (srv : Server σ) (i : Nat) (site : Site σ) :
    (w.drainSlot srv i site).2.1.EmptyAt i := by
  have hflush : (if w.isBusy i then w.flush srv i true site else (.ok (), w, site)).2.1.EmptyAt i := by
    split
    · exact fun slot h => flush_empties hq h
    · next hbusy => exact fun slot h => (isBusy_eq_false h).mp (by simpa using hbusy)
  obtain ⟨kind, hd, -⟩ | ⟨result, w₁, site₁, hd, he⟩ := drainSlot_cases srv i w site
  · rwa [hd] at hflush
  · rw [hd] at hflush
    rw [he]
    intro slot' h
    rw [hangUp_slots] at h
    simp only [List.getElem?_modify_eq, Option.map_eq_map, Option.map_eq_some_iff] at h
    obtain ⟨slot, hslot, rfl⟩ := h
    exact hflush slot hslot

theorem EmptyAt.drain {i : Nat} {w : Writer} (h : w.EmptyAt i) (hq : w.Unqueued) (srv : Server σ)
    (is : List Nat) (site : Site σ) : (Writer.drain srv is w site).2.1.EmptyAt i := by
  refine (drain_induction (R := fun s s' => s.1.Unqueued ∧ s.1.EmptyAt i →
    s'.1.Unqueued ∧ s'.1.EmptyAt i) (fun _ => id) (fun h h' => h' ∘ h) ?_ is w site ⟨hq, h⟩).2
  rintro j w site ⟨hq, hempty⟩
  refine ⟨hq.drainSlot srv j site, fun slot hslot => ?_⟩
  by_cases hij : i = j
  · subst hij
    exact drainSlot_empties hq srv i site slot hslot
  · rw [(beside_drainSlot srv j w site).others i hij] at hslot
    exact hempty slot hslot

theorem Unqueued.drain {w : Writer} (h : w.Unqueued) (srv : Server σ) (is : List Nat)
    (site : Site σ) :
    (Writer.drain srv is w site).2.1.Unqueued :=
  drain_induction (R := fun s s' => s.1.Unqueued → s'.1.Unqueued) (fun _ => id)
    (fun h h' => h' ∘ h) (fun i _ site h => h.drainSlot srv i site) is w site h

theorem drain_settles (srv : Server σ) (is : List Nat) {w : Writer} (site : Site σ) (hq : w.Unqueued)
    (h : ∀ kind, (drain srv is w site).1 ≠ .error (.overflow kind)) :
    (drain srv is w site).2.1.total = w.total ∧
      ∀ i ∈ is, (drain srv is w site).2.1.EmptyAt i := by
  induction is generalizing w site with
  | nil => exact ⟨rfl, fun i hi => by cases hi⟩
  | cons i is ih =>
    have hslot := total_drainSlot srv i w site
    have hempty := drainSlot_empties hq srv i site
    have hq₁ := hq.drainSlot srv i site
    unfold drain at h ⊢
    cases hd : w.drainSlot srv i site with
    | mk r rest =>
      obtain ⟨w₁, site₁⟩ := rest
      rw [hd] at hslot hempty hq₁ h
      cases r with
      | error fault =>
        cases fault with
        | overflow kind => exact absurd rfl (h kind)
        | failed e =>
          obtain ⟨kind, -, he⟩ | ⟨result, w₂, site₂, -, he⟩ := drainSlot_cases srv i w site
          · rw [hd] at he; cases he
          · rw [hd] at he; cases he
      | ok first =>
        have hno : ∀ kind, (drain srv is w₁ site₁).1 ≠ .error (.overflow kind) := by
          intro kind hk
          refine h kind ?_
          dsimp only
          cases hr : drain srv is w₁ site₁ with
          | mk r' rest' => rw [hr] at hk; cases hk; rfl
        obtain ⟨htotal, hall⟩ := ih site₁ hq₁ hno
        have hkeep := hempty.drain hq₁ srv is site₁
        have hfirst := hslot fun kind hk => by cases hk
        dsimp only
        cases hr : drain srv is w₁ site₁ with
        | mk r' rest' =>
          rw [hr] at htotal hall hkeep
          cases r' <;>
          · refine ⟨htotal.trans hfirst, fun j hj => ?_⟩
            rcases List.mem_cons.mp hj with rfl | hj
            · exact hkeep
            · exact hall j hj

end ForestCourier.Writer
