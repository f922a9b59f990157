import ForestCourier.Proofs.Writer.Aim
import ForestCourier.Proofs.Writer.Charges

/-!
A writer whose charges are covered by the loads of its manager. A slot is charged only together with the
load of its forest, so that what a failed flush gives back is never more than the load, nor too large a
word: no flush is abandoned. What the loads hold besides is left alone, so that there may be other writers
whose charges it covers.
-/

namespace ForestCourier.Writer

variable {σ : Type}

def charge (w : Writer) (i : Nat) : Nat := ((w.slots[i]?).map fun slot => slot.charged.toNat).getD 0

theorem charge_eq {w : Writer} {i : Nat} {slot : Slot} (h : w.slots[i]? = some slot) :
    w.charge i = slot.charged.toNat := by
  rw [charge, h]
  rfl

/-- The manager charges batches of the writer's size, and its loads cover the charges of the slots and a
reserve. -/
structure Backed (reserve : Nat → Nat) (w : Writer) (m : Placement.Manager) : Prop where
  prices : m.policy.Prices w.terms.batchSize
  covered : ∀ i, w.charge i * w.terms.batchSize.toNat + reserve i ≤ (m.policy.load i).toNat

theorem resolvePartition_manager (srv : Server σ) (w : Writer) (site : Site σ) :
    (w.resolvePartition srv site).2.manager = site.manager ∨
      ∃ name ids, (w.resolvePartition srv site).2.manager = (site.manager.cachePartition name ids).2 := by
  unfold resolvePartition
  split
  · exact .inl rfl
  · next name _ =>
    split
    · exact .inl rfl
    · split
      · exact .inl rfl
      · split
        dsimp only
        split
        · exact .inl rfl
        · next ids _ =>
          right
          refine ⟨name, ids, ?_⟩
          split
          · next hc => rw [hc]
          · next hc => rw [hc]

namespace Backed

variable {reserve : Nat → Nat} {w w' : Writer} {m m' : Placement.Manager} {site : Site σ}

theorem of_slots (hprices : m.policy.Prices w.terms.batchSize)
    (hcovered : ∀ (i : Nat) (slot : Slot), w.slots[i]? = some slot →
      slot.charged.toNat * w.terms.batchSize.toNat ≤ (m.policy.load i).toNat) : w.Backed (fun _ => 0) m := by
  refine ⟨hprices, fun i => ?_⟩
  cases hi : w.slots[i]? with
  | none =>
    rw [charge, hi]
    exact Nat.le_trans (Nat.le_of_eq (Nat.zero_mul _)) (Nat.zero_le _)
  | some slot =>
    rw [charge_eq hi]
    exact hcovered i slot hi

theorem charged_le (h : w.Backed reserve m) {i : Nat} {slot : Slot} (hi : w.slots[i]? = some slot) :
    slot.charged.toNat * w.terms.batchSize.toNat ≤ (m.policy.load i).toNat := by
  have hcovered := h.covered i
  rw [charge_eq hi] at hcovered
  exact Nat.le_trans (Nat.le_add_right _ _) hcovered

theorem of_le (h : w.Backed reserve m) (hterms : w'.terms = w.terms) (hprices : m'.policy.Prices w.terms.batchSize)
    (hload : ∀ i, (m.policy.load i).toNat ≤ (m'.policy.load i).toNat)
    (hcharge : ∀ i, w'.charge i ≤ w.charge i) : w'.Backed reserve m' where
  prices := hterms ▸ hprices
  covered i := by
    rw [hterms]
    have hless := Nat.mul_le_mul_right w.terms.batchSize.toNat (hcharge i)
    have hcovered := h.covered i
    have hmore := hload i
    omega

theorem charge_modify {i : Nat} {change : Slot → Slot} (hcharged : ∀ slot, (change slot).charged = slot.charged)
    (hslots : w'.slots = w.slots.modify i change) (j : Nat) : w'.charge j = w.charge j := by
  unfold charge
  rw [hslots, ← List.getElem?_map, ← List.getElem?_map, map_modify_of_eq]
  intro slot
  rw [hcharged]

theorem modify (h : w.Backed reserve m) {i : Nat} {change : Slot → Slot}
    (hslots : w'.slots = w.slots.modify i change) (hterms : w'.terms = w.terms)
    (hcharged : ∀ slot, (change slot).charged = slot.charged) : w'.Backed reserve m :=
  h.of_le hterms h.prices (fun _ => Nat.le_refl _) fun j => Nat.le_of_eq (charge_modify hcharged hslots j)

theorem gather (h : w.Backed reserve m) (i : Nat) (content : Content) : (w.gather i content).Backed reserve m :=
  h.modify rfl rfl fun _ => rfl

theorem hangUp (h : w.Backed reserve site.manager) (srv : Server σ) (i : Nat) :
    (w.hangUp srv i site).1.Backed reserve (w.hangUp srv i site).2.manager := by
  unfold Writer.hangUp
  split
  · exact h
  · exact h.modify rfl rfl fun _ => rfl

theorem place (h : w.Backed reserve site.manager) (uri : Uri) :
    w.Backed reserve (w.place uri site).2.manager := by
  refine h.of_le rfl (h.prices.place uri w.partition) (fun i => ?_) fun _ => Nat.le_refl _
  have hload := Placement.Policy.load_place h.prices uri w.partition i
  exact Nat.le_trans (Nat.le_add_right _ _) (Nat.le_of_eq hload.symm)

theorem cachePartition (h : w.Backed reserve m) (name : String) (ids : List ForestId) :
    w.Backed reserve (m.cachePartition name ids).2 := by
  obtain ⟨hprices, hload⟩ := Placement.Manager.prices_cachePartition h.prices name ids
  exact h.of_le rfl hprices (fun i => Nat.le_of_eq (by rw [hload])) fun _ => Nat.le_refl _

theorem resolvePartition (h : w.Backed reserve site.manager) (srv : Server σ) :
    w.Backed reserve (w.resolvePartition srv site).2.manager := by
  obtain hsame | ⟨name, ids, hcached⟩ := resolvePartition_manager srv w site
  · rw [hsame]
    exact h
  · rw [hcached]
    exact h.cachePartition name ids

theorem chargeSlot (h : w.Backed reserve site.manager) (hpos : 0 < w.terms.batchSize.toNat)
    {loads : List UInt64} (hpolicy : site.manager.policy = .statistical ⟨w.terms.batchSize, loads⟩) {i : Nat}
    {load load' : UInt64} (hi : loads[i]? = some load) (hsum : load'.toNat = load.toNat + w.terms.batchSize.toNat)
    {m : Placement.Manager} (hplaced : m.policy = .statistical ⟨w.terms.batchSize, loads.set i load'⟩) :
    Backed reserve { w with
      slots := w.slots.modify i fun slot => { slot with charged := slot.charged + 1 }
      filling := some i } m := by
  refine ⟨fun _ => ⟨_, hplaced⟩, fun j => ?_⟩
  have hcovered := h.covered j
  rw [hpolicy] at hcovered
  rw [hplaced, Placement.Policy.load_set hi]
  unfold charge at hcovered ⊢
  dsimp only
  rw [List.getElem?_modify]
  by_cases hji : j = i
  · rw [hji, Placement.Policy.load_statistical, hi, Option.getD_some] at hcovered
    rw [hji, if_pos rfl, hsum]
    cases hslot : w.slots[i]? with
    | none =>
      rw [hslot] at hcovered
      exact Nat.le_trans hcovered (Nat.le_add_right _ _)
    | some slot =>
      rw [hslot] at hcovered
      have hcovered : slot.charged.toNat * w.terms.batchSize.toNat + reserve i ≤ load.toNat := hcovered
      have hone : slot.charged.toNat + 1 ≤ (slot.charged.toNat + 1) * w.terms.batchSize.toNat :=
        Nat.le_mul_of_pos_right _ hpos
      have hmore : (slot.charged.toNat + 1) * w.terms.batchSize.toNat =
          slot.charged.toNat * w.terms.batchSize.toNat + w.terms.batchSize.toNat := Nat.succ_mul _ _
      have hword : load'.toNat < UInt64.size := load'.toNat_lt
      have hcharged : (slot.charged + 1).toNat = slot.charged.toNat + 1 := by
        rw [UInt64.toNat_add]
        exact Nat.mod_eq_of_lt (by dsimp [UInt64.size] at hword ⊢; omega)
      have hnow : (slot.charged + 1).toNat * w.terms.batchSize.toNat + reserve i ≤
          load.toNat + w.terms.batchSize.toNat := by
        rw [hcharged, hmore]
        omega
      simpa using hnow
  · rw [if_neg hji]
    rw [show (fun slot : Slot => if i = j then { slot with charged := slot.charged + 1 } else slot) = id from
      funext fun slot => if_neg (Ne.symm hji)]
    simpa using hcovered

theorem slotFor (h : w.Backed reserve site.manager) (hpos : 0 < w.terms.batchSize.toNat) (srv : Server σ)
    (uri : Uri) :
    (w.slotFor srv uri site).2.1.Backed reserve (w.slotFor srv uri site).2.2.manager := by
  cases hfast : w.fastLoad with
  | false => rwa [slotFor_shared srv uri hfast]
  | true =>
    by_cases hload : site.manager.kind = .statistical
    · obtain ⟨loads, hpolicy⟩ := h.prices hload
      obtain ⟨i, -, hslot⟩ | ⟨fault, hslot⟩ | ⟨i, load, load', m, -, hi, hsum, hplaced, hslot⟩ :=
        slotFor_cases srv uri hfast hpolicy
      · rwa [hslot]
      · rwa [hslot]
      · rw [hslot]
        exact h.chargeSlot hpos hpolicy hi hsum hplaced
    · cases hlookup : site.manager.kind.partitioned with
      | false =>
        rw [slotFor_place srv uri hfast hload hlookup]
        exact h.place uri
      | true =>
        have hresolved := h.resolvePartition srv
        unfold Writer.slotFor
        rw [if_neg (by simp [hfast]), if_neg hload, if_pos hlookup]
        split
        · next hr => rwa [hr] at hresolved
        · next hr =>
          rw [hr] at hresolved
          exact hresolved.place uri

theorem receive (h : w.Backed reserve site.manager) (hpos : 0 < w.terms.batchSize.toNat) (srv : Server σ)
    (files : FileStore) (uri : Uri) (source : Option Source) (payload : Payload) :
    (w.receive srv files uri source payload site).2.1.Backed reserve
      (w.receive srv files uri source payload site).2.2.manager := by
  have hslot := h.slotFor hpos srv (uri.wrap w.uriPrefix w.uriSuffix)
  unfold Writer.receive
  split
  · exact h
  · dsimp only
    split
    · exact h
    · split
      · next hs => rwa [hs] at hslot
      · next hs => rwa [hs] at hslot

/-- No flush is abandoned: it succeeds, or it gives up and gives the charges of its slot back. -/
theorem flush_cases (h : w.Backed reserve site.manager) (srv : Server σ) {i : Nat} (closing : Bool) {slot : Slot}
    (hi : w.slots[i]? = some slot) :
    (∃ d, w.delivery srv closing slot site = (.ok (), d) ∧
      w.flush srv i closing site = (.ok (), (w.leave i).put i d site)) ∨
    ∃ e n d count, w.delivery srv closing slot site = (.error (e, n), d) ∧
      count.toNat = slot.charged.toNat * w.terms.batchSize.toNat ∧
      w.flush srv i closing site = ((Delivery.outcome e n).mapError .failed,
        (w.leave i).put i ((d.clear srv w.terms).report e n d.lost)
          { site with manager := site.manager.rollback i count }) := by
  cases hd : w.delivery srv closing slot site with
  | mk result d =>
    cases result with
    | ok u =>
      unfold delivery at hd
      exact .inl ⟨d, rfl, by simp [flush, hi, hd]⟩
    | error failure =>
      obtain ⟨e, n⟩ := failure
      have hcharged : d.slot.charged = slot.charged :=
        congrArg (fun bill => bill.2.1) (Delivery.bill_run hd)
      obtain ⟨count, hmul, hcount⟩ := Word.mul_of_le (ε := TransferError) (h.charged_le hi)
      rw [← hcharged] at hmul
      exact .inr ⟨e, n, d, count, rfl, hcount, flush_gives_back hi hd hmul⟩

theorem flush_unbroken (h : w.Backed reserve site.manager) (srv : Server σ) (i : Nat) (closing : Bool)
    (kind : Overflow) : (w.flush srv i closing site).1 ≠ .error (.overflow kind) := by
  cases hi : w.slots[i]? with
  | none => simp [Writer.flush, hi]
  | some slot =>
    obtain ⟨d, -, hflush⟩ | ⟨e, n, d, count, -, -, hflush⟩ := h.flush_cases srv closing hi
    · rw [hflush]
      exact fun hover => by cases hover
    · rw [hflush]
      exact mapError_ne_overflow _ kind

theorem charge_beside {i j : Nat} (hw : Beside i w w') (hji : j ≠ i) : w'.charge j = w.charge j := by
  rw [charge, charge, hw.others j hji]

theorem flush (h : w.Backed reserve site.manager) (srv : Server σ) (i : Nat) (closing : Bool) :
    (w.flush srv i closing site).2.1.Backed reserve (w.flush srv i closing site).2.2.manager := by
  have hbeside := beside_flush srv i closing w site
  cases hi : w.slots[i]? with
  | none => simpa [Writer.flush, hi] using h
  | some slot =>
    have hlt : i < w.slots.length := (List.getElem?_eq_some_iff.mp hi).1
    obtain ⟨d, hd, hflush⟩ | ⟨e, n, d, count, hd, hcount, hflush⟩ := h.flush_cases srv closing hi
    · have hcharged := delivery_charged hd
      rw [hflush] at hbeside ⊢
      refine h.of_le hbeside.terms h.prices (fun _ => Nat.le_refl _) fun j => ?_
      by_cases hji : j = i
      · rw [hji, charge_eq (getElem?_put hlt d site), charge_eq hi, hcharged]
        split
        · exact Nat.zero_le _
        · exact Nat.le_refl _
      · exact Nat.le_of_eq (charge_beside hbeside hji)
    · rw [hflush] at hbeside ⊢
      refine ⟨?_, fun j => ?_⟩
      · rw [hbeside.terms]
        exact h.prices.rollback i count
      · have hcovered := h.covered j
        have hload : _ = _ := Placement.Policy.load_rollback site.manager.policy i count j
        rw [hbeside.terms]
        refine Nat.le_trans ?_ (Nat.le_of_eq hload.symm)
        by_cases hji : j = i
        · rw [hji, charge_eq hi] at hcovered
          rw [hji, charge_eq (getElem?_put hlt _ _), if_pos rfl, hcount]
          refine Nat.le_sub_of_add_le ?_
          rw [show ((d.clear srv w.terms).report e n d.lost).slot.charged.toNat = 0 from rfl, Nat.zero_mul, Nat.zero_add,
            Nat.add_comm]
          exact hcovered
        · rw [if_neg hji, charge_beside hbeside hji]
          exact hcovered

theorem push (h : w.Backed reserve site.manager) (srv : Server σ) (i : Nat) (content : Content) :
    (w.push srv i content site).2.1.Backed reserve (w.push srv i content site).2.2.manager := by
  have hgathered := h.gather i content
  unfold Writer.push
  dsimp only
  split
  · exact hgathered.flush srv i false
  · exact hgathered

theorem drainSlot (h : w.Backed reserve site.manager) (srv : Server σ) (i : Nat) :
    (w.drainSlot srv i site).2.1.Backed reserve (w.drainSlot srv i site).2.2.manager := by
  have hflush : (if w.isBusy i then w.flush srv i true site else (.ok (), w, site)).2.1.Backed reserve
      (if w.isBusy i then w.flush srv i true site else (.ok (), w, site)).2.2.manager := by
    split
    · exact h.flush srv i true
    · exact h
  obtain ⟨kind, hd, -⟩ | ⟨result, w₁, site₁, hd, he⟩ := drainSlot_cases srv i w site
  · rwa [hd] at hflush
  · rw [hd] at hflush
    rw [he]
    exact hflush.hangUp srv i

end Backed

end ForestCourier.Writer
