import ForestCourier.Proofs.Placement.ByUri
import ForestCourier.Proofs.Writer.Kept
import ForestCourier.Proofs.Writer.Solvency
import ForestCourier.Proofs.Writer.Twins

/-!
One slot of two writers. Where documents are placed by their URI alone a writer is `Steady`: whatever is
done on its slots, the manager stays as it was and nothing is charged. So the work on a slot hangs on that
slot alone, and in two steady writers it goes abreast as long as the answers are the same.
-/

namespace ForestCourier.Writer

variable {σ σ₁ σ₂ : Type}

theorem slotFor_byUri (srv : Server σ) {m : Placement.Manager} {w : Writer} {site : Site σ}
    (hfast : w.fastLoad = true) (hsite : site.manager = m) (hm : m.policy.ByUri) (uri : Uri) :
    w.slotFor srv uri site = ((m.place uri w.partition).1.mapError (Fault.map .placement), w, site) := by
  subst hsite
  obtain ⟨hload, hlookup⟩ := Placement.Manager.kind_byUri hm
  have hplace := Placement.Manager.place_byUri hm uri w.partition
  rw [slotFor_place srv uri hfast hload hlookup]
  unfold Writer.place
  dsimp only
  rw [hplace]

/-- A writer that came from another one by work on its slots, under a manager that has stayed the same. -/
structure Steady (w₀ : Writer) (m : Placement.Manager) (w : Writer) (site : Site σ) : Prop where
  settings : w = { w₀ with slots := w.slots, stats := w.stats, filling := w.filling, closed := w.closed }
  length : w.slots.length = w₀.slots.length
  manager : site.manager = m
  charged : ∀ (i : Nat) (slot : Slot), w.slots[i]? = some slot → slot.charged = 0

namespace Steady

variable {w₀ w w' : Writer} {m : Placement.Manager} {site site' : Site σ}

theorem terms (h : Steady w₀ m w site) : w.terms = w₀.terms := by rw [h.settings]

theorem fastLoad (h : Steady w₀ m w site) : w.fastLoad = w₀.fastLoad := by rw [h.settings]

theorem new {config : Config.Output} {fastLoad : Bool} {task : Nat}
    (hw : Writer.new config fastLoad m task = .ok w) (hsite : site.manager = m) : Steady w m w site where
  settings := rfl
  length := rfl
  manager := hsite
  charged i slot hi := by
    obtain ⟨route, rfl⟩ := new_slot hw hi
    rfl

theorem beside {i : Nat} (h : Steady w₀ m w site) (hw : Beside i w w') (hclosed : w'.closed = w.closed)
    (hmanager : site'.manager = site.manager)
    (hi : ∀ slot : Slot, w'.slots[i]? = some slot → slot.charged = 0) : Steady w₀ m w' site' where
  settings := by
    have hsettings := hw.settings
    rw [h.settings] at hsettings
    exact hsettings.trans (by rw [hclosed])
  length := hw.length.trans h.length
  manager := hmanager.trans h.manager
  charged j slot hj := by
    by_cases hji : j = i
    · subst hji
      exact hi slot hj
    · rw [hw.others j hji] at hj
      exact h.charged j slot hj

theorem backed (h : Steady w₀ m w site) (hm : m.policy.ByUri) : w.Backed (fun _ => 0) site.manager := by
  refine .of_slots (fun hload => ?_) fun i slot hi => ?_
  · rw [h.manager] at hload
    exact absurd hload (Placement.Manager.kind_byUri hm).1
  · rw [h.charged i slot hi, UInt64.toNat_zero, Nat.zero_mul]
    exact Nat.zero_le _

theorem receive (h : Steady w₀ m w site) (hm : m.policy.ByUri) (hfast : w₀.fastLoad = true)
    (hclosed : w.closed = w₀.closed) {τ : Type} {site₀ : Site τ} (hsite₀ : site₀.manager = m)
    (srv : Server σ) (srv₀ : Server τ) (files : FileStore) (uri : Uri) (source : Option Source)
    (payload : Payload) :
    w.receive srv files uri source payload site =
      ((w₀.receive srv₀ files uri source payload site₀).1, w, site) := by
  have hoptions : w.options = w₀.options := by rw [h.settings]
  have huri : uri.wrap w.uriPrefix w.uriSuffix = uri.wrap w₀.uriPrefix w₀.uriSuffix := by rw [h.settings]
  have hpartition : w.partition = w₀.partition := by rw [h.settings]
  unfold Writer.receive
  rw [hclosed]
  split
  · rfl
  · rw [hoptions, huri]
    dsimp only
    split
    · rfl
    · rw [slotFor_byUri srv (h.fastLoad.trans hfast) h.manager hm, slotFor_byUri srv₀ hfast hsite₀ hm,
        hpartition]
      cases (m.place (uri.wrap w₀.uriPrefix w₀.uriSuffix) w₀.partition).1 with
      | error fault => rfl
      | ok i => rfl

theorem receive_snd (h : Steady w₀ m w site) (hm : m.policy.ByUri) (hfast : w₀.fastLoad = true)
    (srv : Server σ) (files : FileStore) (uri : Uri) (source : Option Source) (payload : Payload) :
    (w.receive srv files uri source payload site).2 = (w, site) := by
  have hself : Steady w m w site := ⟨rfl, rfl, h.manager, h.charged⟩
  rw [hself.receive hm (h.fastLoad.trans hfast) rfl h.manager srv srv]

theorem flush_eq (h : Steady w₀ m w site) (hm : m.policy.ByUri) (srv : Server σ) {i : Nat} (closing : Bool)
    {slot : Slot} (hi : w.slots[i]? = some slot) :
    (w.flush srv i closing site).2 = (w.leave i).put i (Delivery.ended srv w.terms
        (w.delivery srv closing slot site).1 (w.delivery srv closing slot site).2) site ∧
      (∀ kind, (w.flush srv i closing site).1 ≠ .error (.overflow kind)) ∧
      (Delivery.ended srv w.terms (w.delivery srv closing slot site).1
        (w.delivery srv closing slot site).2).slot.charged = 0 := by
  obtain ⟨d, hd, hflush⟩ | ⟨e, n, d, count, hd, -, hflush⟩ := (h.backed hm).flush_cases srv closing hi
  · have hcharged := delivery_charged hd
    rw [h.charged i slot hi, ite_self] at hcharged
    rw [hd, hflush]
    exact ⟨rfl, nofun, hcharged⟩
  · have hsame : site.manager.rollback i count = site.manager := by
      rw [h.manager]
      exact Placement.Manager.rollback_byUri hm i count
    rw [hd, hflush, hsame]
    refine ⟨rfl, fun kind => ?_, rfl⟩
    unfold Delivery.outcome
    split <;> nofun

theorem flush (h : Steady w₀ m w site) (hm : m.policy.ByUri) (srv : Server σ) (i : Nat) (closing : Bool) :
    Steady w₀ m (w.flush srv i closing site).2.1 (w.flush srv i closing site).2.2 := by
  have hbeside := beside_flush srv i closing w site
  cases hi : w.slots[i]? with
  | none => simpa [Writer.flush, hi] using h
  | some slot =>
    obtain ⟨hflush, -, hcharged⟩ := h.flush_eq hm srv closing hi
    refine h.beside hbeside hbeside.closed ?_ fun slot' hslot' => ?_
    · rw [hflush]
      rfl
    · have hlt : i < w.slots.length := (List.getElem?_eq_some_iff.mp hi).1
      rw [hflush, getElem?_put hlt] at hslot'
      cases hslot'
      exact hcharged

theorem drainSlot_eq (h : Steady w₀ m w site) (hm : m.policy.ByUri) (srv : Server σ) (i : Nat) :
    (∃ result, (w.drainSlot srv i site).1 = .ok result) ∧
      (w.drainSlot srv i site).2 =
        (if w.isBusy i then w.flush srv i true site else (.ok (), w, site)).2.1.hangUp srv i
          (if w.isBusy i then w.flush srv i true site else (.ok (), w, site)).2.2 := by
  obtain ⟨kind, hd, -⟩ | ⟨result, w₁, site₁, hd, he⟩ := drainSlot_cases srv i w site
  · exfalso
    split at hd
    · cases hi : w.slots[i]? with
      | none =>
        rw [Writer.flush, hi] at hd
        cases hd
      | some slot => exact (h.flush_eq hm srv true hi).2.1 kind (congrArg Prod.fst hd)
    · cases hd
  · rw [hd, he]
    exact ⟨⟨result, rfl⟩, rfl⟩

theorem modify (h : Steady w₀ m w site) (i : Nat) {change : Slot → Slot}
    (hcharged : ∀ slot, (change slot).charged = slot.charged) :
    Steady w₀ m { w with slots := w.slots.modify i change } site where
  settings := by rw [h.settings]
  length := (List.length_modify ..).trans h.length
  manager := h.manager
  charged j slot' hj := by
    rw [List.getElem?_modify] at hj
    obtain ⟨slot, hslot, rfl⟩ := Option.map_eq_some_iff.mp hj
    split
    · exact (hcharged slot).trans (h.charged j slot hslot)
    · exact h.charged j slot hslot

theorem gather (h : Steady w₀ m w site) (i : Nat) (content : Content) :
    Steady w₀ m (w.gather i content) site :=
  h.modify i fun _ => rfl

theorem kept (hm : m.policy.ByUri) (hfast : w₀.fastLoad = true) (srv : Server σ) :
    Kept srv (Steady w₀ m) where
  receive files uri source payload w site h := by
    rw [h.receive_snd hm hfast srv]
    exact h
  skip source e w site h := by
    refine ⟨?_, h.length, h.manager, h.charged⟩
    unfold Writer.skip
    rw [h.settings]
  push i content w site h := by
    unfold Writer.push
    dsimp only
    split
    · exact (h.gather i content).flush hm srv i false
    · exact h.gather i content
  flush i w site h := h.flush hm srv i true
  hangUp i w site h := by
    have hmodified : Steady w₀ m
        { w with slots := w.slots.modify i fun s => { s with session := none } } site :=
      h.modify i fun _ => rfl
    unfold Writer.hangUp
    split
    · exact h
    · exact ⟨hmodified.settings, hmodified.length, hmodified.manager, hmodified.charged⟩
  close w site h := by
    refine ⟨?_, h.length, h.manager, h.charged⟩
    rw [h.settings]
  count counters w site h := ⟨h.settings, h.length, h.manager, h.charged⟩

end Steady

/-- Two writers with the same slot `i`, that have counted the same since two points of time. -/
structure Peers (i : Nat) (s₁ s₂ : Stats) (w₁ w₂ : Writer) : Prop where
  slot : (w₁.slots[i]?).map Slot.unnumbered = (w₂.slots[i]?).map Slot.unnumbered
  stats : ∃ gain, w₁.stats = s₁ + gain ∧ w₂.stats = s₂ + gain

namespace Peers

variable {i : Nat} {s₁ s₂ : Stats} {w₀ w₁ w₂ : Writer} {m : Placement.Manager} {site₁ : Site σ₁}
  {site₂ : Site σ₂} (srv₁ : Server σ₁) (srv₂ : Server σ₂)

/-- Either both have the slot, and the same one but for the number of its session, or none has. -/
theorem slot_cases (h : Peers i s₁ s₂ w₁ w₂) :
    w₁.slots[i]? = none ∧ w₂.slots[i]? = none ∨
      ∃ a b, w₁.slots[i]? = some a ∧ w₂.slots[i]? = some b ∧ a.unnumbered = b.unnumbered :=
  map_eq_map_cases h.slot

theorem load (h : Peers i s₁ s₂ w₁ w₂) (hterms : w₂.terms = w₁.terms) (closing : Bool) {a b : Slot}
    (hsame : a.unnumbered = b.unnumbered) (site₁ : Site σ₁) (site₂ : Site σ₂) :
    Delivery.Twins s₁ s₂ (w₁.load closing a site₁).1 (w₂.load closing b site₂).1 ∧
      (w₁.load closing a site₁).2 = (w₂.load closing b site₂).2 := by
  have hpending : a.pending = b.pending := (Slot.mk.inj hsame).2.2.1
  have hbatches : a.batches = b.batches := (Slot.mk.inj hsame).2.2.2.2.1
  refine ⟨⟨?_, hpending, h.stats⟩, ?_⟩
  · have hslot := congrArg (fun s : Slot => { s with
      pending := [], batches := if a.pending.isEmpty then s.batches else s.batches + 1,
      stage := .flushing }) hsame
    exact hslot.trans (by rw [hpending]; rfl)
  · unfold Writer.load
    rw [hpending, hbatches, hterms]

theorem flush (h : Peers i s₁ s₂ w₁ w₂) (h₁ : Steady w₀ m w₁ site₁) (h₂ : Steady w₀ m w₂ site₂)
    (hm : m.policy.ByUri) (closing : Bool) :
    Wire.Abreast (Peers i s₁ s₂ (w₁.flush srv₁ i closing site₁).2.1 (w₂.flush srv₂ i closing site₂).2.1)
      site₁.wire (w₁.flush srv₁ i closing site₁).2.2.wire site₂.wire
      (w₂.flush srv₂ i closing site₂).2.2.wire := by
  obtain ⟨hi₁, hi₂⟩ | ⟨a, b, hi₁, hi₂, hsame⟩ := h.slot_cases
  · have hflush₁ : w₁.flush srv₁ i closing site₁ = (.ok (), w₁, site₁) := by simp [Writer.flush, hi₁]
    have hflush₂ : w₂.flush srv₂ i closing site₂ = (.ok (), w₂, site₂) := by simp [Writer.flush, hi₂]
    rw [hflush₁, hflush₂]
    exact .of_same h rfl rfl
  · have hlt₁ : i < w₁.slots.length := (List.getElem?_eq_some_iff.mp hi₁).1
    have hlt₂ : i < w₂.slots.length := (List.getElem?_eq_some_iff.mp hi₂).1
    have hterms : w₂.terms = w₁.terms := h₂.terms.trans h₁.terms.symm
    obtain ⟨hloaded, hending⟩ := h.load hterms closing hsame site₁ site₂
    have hdelivered : Wire.Abreast
        (Concur Eq (w₁.delivery srv₁ closing a site₁).1 (w₂.delivery srv₂ closing b site₂).1 ∧
          Delivery.Twins s₁ s₂ (w₁.delivery srv₁ closing a site₁).2 (w₂.delivery srv₂ closing b site₂).2)
        site₁.wire (w₁.delivery srv₁ closing a site₁).2.wire site₂.wire
        (w₂.delivery srv₂ closing b site₂).2.wire := by
      unfold delivery Delivery.deliver
      rw [hterms, ← hending]
      exact Delivery.inStep_run srv₁ srv₂ w₁.terms _ _ 1 false _ _ hloaded
    rw [(h₁.flush_eq hm srv₁ closing hi₁).1, (h₂.flush_eq hm srv₂ closing hi₂).1, hterms]
    refine hdelivered.trans (Delivery.ended_records srv₁ ..).suffix (Delivery.ended_records srv₂ ..).suffix
      fun hboth => ?_
    rw [← hboth.1.eq]
    refine (hboth.2.ended srv₁ srv₂ w₁.terms _).mono fun hended => ⟨?_, hended.stats⟩
    rw [getElem?_put hlt₁, getElem?_put hlt₂]
    exact congrArg some hended.slot

theorem gather (h : Peers i s₁ s₂ w₁ w₂) (content : Content) :
    Peers i s₁ s₂ (w₁.gather i content) (w₂.gather i content) := by
  refine ⟨?_, h.stats⟩
  dsimp only [Writer.gather]
  rw [List.getElem?_modify_eq, List.getElem?_modify_eq]
  obtain ⟨hi₁, hi₂⟩ | ⟨a, b, hi₁, hi₂, hsame⟩ := h.slot_cases
  · rw [hi₁, hi₂]
  · rw [hi₁, hi₂]
    exact congrArg (fun s : Slot => some
      { s with pending := s.pending ++ [content], stage := .batching }) hsame

theorem push (h : Peers i s₁ s₂ w₁ w₂) (h₁ : Steady w₀ m w₁ site₁) (h₂ : Steady w₀ m w₂ site₂)
    (hm : m.policy.ByUri) (content : Content) :
    Wire.Abreast (Peers i s₁ s₂ (w₁.push srv₁ i content site₁).2.1 (w₂.push srv₂ i content site₂).2.1)
      site₁.wire (w₁.push srv₁ i content site₁).2.2.wire site₂.wire
      (w₂.push srv₂ i content site₂).2.2.wire := by
  have hgathered := h.gather content
  have hfull : (w₁.gather i content).isFull i = (w₂.gather i content).isFull i := by
    have hterms : (w₁.gather i content).terms = (w₂.gather i content).terms :=
      h₁.terms.trans h₂.terms.symm
    unfold isFull
    obtain ⟨hi₁, hi₂⟩ | ⟨a, b, hi₁, hi₂, hsame⟩ := hgathered.slot_cases
    · rw [hi₁, hi₂]
      rfl
    · have hpending : a.pending = b.pending := (Slot.mk.inj hsame).2.2.1
      rw [hi₁, hi₂, Option.any_some, Option.any_some, hpending, hterms]
  unfold Writer.push
  dsimp only
  rw [hfull]
  split
  · exact hgathered.flush srv₁ srv₂ (h₁.gather i content) (h₂.gather i content) hm false
  · exact .of_same hgathered rfl rfl

theorem hangUp (h : Peers i s₁ s₂ w₁ w₂) :
    Wire.Abreast (Peers i s₁ s₂ (w₁.hangUp srv₁ i site₁).1 (w₂.hangUp srv₂ i site₂).1)
      site₁.wire (w₁.hangUp srv₁ i site₁).2.wire site₂.wire (w₂.hangUp srv₂ i site₂).2.wire := by
  unfold Writer.hangUp
  obtain ⟨hi₁, hi₂⟩ | ⟨a, b, hi₁, hi₂, hsame⟩ := h.slot_cases
  · rw [hi₁, hi₂]
    exact .of_same h rfl rfl
  · rw [hi₁, hi₂, Option.bind_some, Option.bind_some]
    obtain ⟨hs₁, hs₂⟩ | ⟨session₁, session₂, hs₁, hs₂, hsession⟩ := map_eq_map_cases (Slot.mk.inj hsame).2.1
    · rw [hs₁, hs₂]
      exact .of_same h rfl rfl
    · rw [hs₁, hs₂]
      refine (Wire.abreast_close srv₁ srv₂ hsession).mono fun _ => ⟨?_, h.stats⟩
      dsimp only
      rw [List.getElem?_modify_eq, List.getElem?_modify_eq, hi₁, hi₂]
      exact congrArg (fun s : Slot => some { s with session := none }) hsame

theorem drainSlot (h : Peers i s₁ s₂ w₁ w₂) (h₁ : Steady w₀ m w₁ site₁) (h₂ : Steady w₀ m w₂ site₂)
    (hm : m.policy.ByUri) :
    Wire.Abreast (Peers i s₁ s₂ (w₁.drainSlot srv₁ i site₁).2.1 (w₂.drainSlot srv₂ i site₂).2.1)
      site₁.wire (w₁.drainSlot srv₁ i site₁).2.2.wire site₂.wire
      (w₂.drainSlot srv₂ i site₂).2.2.wire := by
  have hbusy : w₁.isBusy i = w₂.isBusy i := by
    unfold isBusy
    obtain ⟨hi₁, hi₂⟩ | ⟨a, b, hi₁, hi₂, hsame⟩ := h.slot_cases
    · rw [hi₁, hi₂]
    · have hpending : a.pending = b.pending := (Slot.mk.inj hsame).2.2.1
      have hqueue : a.queue = b.queue := (Slot.mk.inj hsame).2.2.2.1
      rw [hi₁, hi₂, Option.any_some, Option.any_some, hpending, hqueue]
  have hsuffix {τ : Type} (srv : Server τ) (w : Writer) (site : Site τ) :
      site.wire.trace <:+ (w.hangUp srv i site).2.wire.trace := by
    unfold Writer.hangUp
    split
    · exact List.suffix_refl _
    · exact ⟨[_], rfl⟩
  rw [(h₁.drainSlot_eq hm srv₁ i).2, (h₂.drainSlot_eq hm srv₂ i).2, hbusy]
  split
  · exact (h.flush srv₁ srv₂ h₁ h₂ hm true).trans (hsuffix srv₁ _ _) (hsuffix srv₂ _ _) fun hflushed =>
      hflushed.hangUp srv₁ srv₂
  · exact h.hangUp srv₁ srv₂

end Peers

def gained (w w' : Writer) : Stats :=
  ⟨w'.stats.succeeded - w.stats.succeeded, w'.stats.failed - w.stats.failed,
    w'.stats.rotations - w.stats.rotations⟩

theorem gained_eq {w w' : Writer} {gain : Stats} (h : w'.stats = w.stats + gain) : gained w w' = gain := by
  unfold gained
  rw [h, Stats.add_def]
  simp only [Nat.add_sub_cancel_left]

theorem Peers.refl (i : Nat) (w : Writer) : Peers i w.stats w.stats w w :=
  ⟨rfl, 0, (add_zero _).symm, (add_zero _).symm⟩

theorem stats_eq_add_gained {i : Nat} {w w' : Writer} {site site' : Site σ}
    (h : Wire.Abreast (Peers i w.stats w.stats w' w') site.wire site'.wire site.wire site'.wire) :
    w'.stats = w.stats + gained w w' := by
  obtain ⟨x₁, x₂, hx₁, hx₂, hx⟩ := h
  rcases hx with ⟨-, hpeers⟩ | ⟨pre, e₁, post₁, e₂, post₂, h₁, h₂, -, hne⟩
  · obtain ⟨gain, hgain, -⟩ := hpeers.stats
    rw [gained_eq hgain]
    exact hgain
  · have hsame : x₁ = x₂ := List.reverse_injective (List.append_cancel_right (hx₁.symm.trans hx₂))
    rw [hsame, h₂] at h₁
    exact absurd (List.cons.inj (List.append_cancel_left h₁)).1.symm hne

end ForestCourier.Writer
