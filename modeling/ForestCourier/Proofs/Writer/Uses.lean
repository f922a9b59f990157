import ForestCourier.Proofs.Writer.Kept
import ForestCourier.Proofs.Writer.Lookup

/-!
What a writer asks of the manager that it shares. A document is given a place, after its partition was cached
where that is needed, and a flush that fails gives charges back. Whatever is asked leaves the settings of the
manager as they are.
-/

namespace ForestCourier.Writer

open Placement (Manager Use)

variable {σ : Type}

def resolveUses (srv : Server σ) (w : Writer) (site : Site σ) : List Use :=
  match w.partition.or site.manager.standardPartition with
  | none => []
  | some name =>
    if site.manager.isCached name then []
    else
      match Failover.openFirst srv w.hosts w.terms.port .auto site.wire with
      | (.error _, _) => []
      | (.ok session, wire) =>
        match (Discovery.partitionForests srv session name wire).1 with
        | .error _ => []
        | .ok ids => [.cache name ids]

def slotUses (srv : Server σ) (uri : Uri) (w : Writer) (site : Site σ) : List Use :=
  if !w.fastLoad then []
  else if site.manager.kind = .statistical then
    match w.filling with
    | some _ => []
    | none => [.place uri w.partition]
  else if site.manager.kind.partitioned then
    match (w.resolvePartition srv site).1 with
    | .error _ => w.resolveUses srv site
    | .ok () => w.resolveUses srv site ++ [.place uri w.partition]
  else [.place uri w.partition]

def receiveUses (srv : Server σ) (files : FileStore) (uri : Uri) (source : Option Source) (payload : Payload)
    (w : Writer) (site : Site σ) : List Use :=
  if w.closed then []
  else
    match Content.create files w.options source (uri.wrap w.uriPrefix w.uriSuffix) payload with
    | .error _ => []
    | .ok _ => w.slotUses srv (uri.wrap w.uriPrefix w.uriSuffix) site

def flushUses (srv : Server σ) (i : Nat) (closing : Bool) (w : Writer) (site : Site σ) : List Use :=
  match w.slots[i]? with
  | none => []
  | some slot =>
    match w.delivery srv closing slot site with
    | (.ok (), _) => []
    | (.error _, d) =>
      match Word.mul (ε := TransferError) d.slot.charged w.terms.batchSize with
      | .error _ => []
      | .ok count => [.rollback i count]

def pushUses (srv : Server σ) (i : Nat) (content : Content) (w : Writer) (site : Site σ) : List Use :=
  if (w.gather i content).isFull i then (w.gather i content).flushUses srv i false site else []

def drainUses (srv : Server σ) (i : Nat) (w : Writer) (site : Site σ) : List Use :=
  if w.isBusy i then w.flushUses srv i true site else []

theorem resolvePartition_uses (srv : Server σ) (w : Writer) (site : Site σ) :
    (w.resolvePartition srv site).2.manager = site.manager.useAll (w.resolveUses srv site) := by
  cases hname : w.partition.or site.manager.standardPartition with
  | none =>
    simp only [resolvePartition, resolveUses, hname]
    rfl
  | some name =>
    cases hcached : site.manager.isCached name with
    | true =>
      simp only [resolvePartition, resolveUses, hname, hcached, if_true]
      rfl
    | false =>
      simp only [resolvePartition, resolveUses, hname, hcached, Bool.false_eq_true, if_false]
      cases Failover.openFirst srv w.hosts w.terms.port .auto site.wire with
      | mk opened wire =>
        cases opened with
        | error e => rfl
        | ok session =>
          cases ha : Discovery.partitionForests srv session name wire with
          | mk answer wire₁ =>
            cases answer with
            | error e =>
              simp only [ha]
              rfl
            | ok ids =>
              have huse : site.manager.useAll [.cache name ids] = (site.manager.cachePartition name ids).2 := rfl
              simp only [ha, huse]
              cases site.manager.cachePartition name ids with
              | mk r m => cases r <;> rfl

theorem flush_uses (srv : Server σ) (i : Nat) (closing : Bool) (w : Writer) (site : Site σ) :
    (w.flush srv i closing site).2.2.manager = site.manager.useAll (w.flushUses srv i closing site) := by
  cases hi : w.slots[i]? with
  | none =>
    simp only [flush, flushUses, hi]
    rfl
  | some slot =>
    cases hd : w.delivery srv closing slot site with
    | mk r d =>
      simp only [flushUses, hi, hd]
      unfold delivery at hd
      cases r with
      | ok u =>
        simp only [flush, hi, hd]
        rfl
      | error en =>
        obtain ⟨e, n⟩ := en
        have hflush : w.flush srv i closing site = abandon srv i e n d (w.leave i) site := by
          simp [flush, hi, hd]
        have hterms : (w.leave i).terms = w.terms := rfl
        rw [hflush, abandon, hterms]
        dsimp only
        cases Word.mul (ε := TransferError) d.slot.charged w.terms.batchSize with
        | error fault => rfl
        | ok count => rfl

theorem push_uses (srv : Server σ) (i : Nat) (content : Content) (w : Writer) (site : Site σ) :
    (w.push srv i content site).2.2.manager = site.manager.useAll (w.pushUses srv i content site) := by
  unfold push pushUses
  dsimp only
  split
  · exact flush_uses srv i false _ site
  · rfl

theorem drainSlot_uses (srv : Server σ) (i : Nat) (w : Writer) (site : Site σ) :
    (w.drainSlot srv i site).2.2.manager = site.manager.useAll (w.drainUses srv i site) := by
  have hflush : (if w.isBusy i then w.flush srv i true site else (.ok (), w, site)).2.2.manager =
      site.manager.useAll (w.drainUses srv i site) := by
    unfold drainUses
    split
    · exact flush_uses srv i true w site
    · rfl
  obtain ⟨kind, hd, -⟩ | ⟨result, w₁, site₁, hd, he⟩ := drainSlot_cases srv i w site
  · rwa [hd] at hflush
  · rw [hd] at hflush
    rw [he, manager_hangUp]
    exact hflush

/-- Two steps of a writer that come to the same end by the same requests, whatever else it shares. -/
structure Apart {α : Type} (step step' : Step σ α) : Prop where
  result : step'.1 = step.1
  writer : step'.2.1 = step.2.1
  wire : step'.2.2.wire = step.2.2.wire

section Apart

variable (srv : Server σ) (i : Nat) {w : Writer} {site site' : Site σ}

/-- Of what writers share, a flush looks at the server alone. It asks the manager once, after the last request, and
asks it the same whatever the manager has become until then. -/
theorem flush_apart (closing : Bool) (h : site'.wire = site.wire) :
    Apart (w.flush srv i closing site) (w.flush srv i closing site') ∧
      w.flushUses srv i closing site' = w.flushUses srv i closing site ∧
      (w.flushUses srv i closing site).length ≤ 1 := by
  unfold flush flushUses
  cases hi : w.slots[i]? with
  | none => exact ⟨⟨rfl, rfl, h⟩, rfl, Nat.zero_le 1⟩
  | some slot =>
    have hload : w.load closing slot site' = w.load closing slot site := by rw [load, load, h]
    have hdelivery : w.delivery srv closing slot site' = w.delivery srv closing slot site := by
      rw [delivery, delivery, hload]
    dsimp only
    rw [hdelivery, hload]
    rw [show (w.load closing slot site).1.deliver srv w.terms (w.load closing slot site).2 =
      w.delivery srv closing slot site from rfl]
    cases w.delivery srv closing slot site with
    | mk r d =>
      cases r with
      | ok u => exact ⟨⟨rfl, rfl, rfl⟩, rfl, Nat.zero_le 1⟩
      | error en =>
        dsimp only [abandon]
        rw [show (w.leave i).terms = w.terms from rfl]
        cases Word.mul (ε := TransferError) d.slot.charged w.terms.batchSize with
        | error fault => exact ⟨⟨rfl, rfl, rfl⟩, rfl, Nat.zero_le 1⟩
        | ok count => exact ⟨⟨rfl, rfl, rfl⟩, rfl, Nat.le_refl 1⟩

theorem push_apart (content : Content) (h : site'.wire = site.wire) :
    Apart (w.push srv i content site) (w.push srv i content site') ∧
      w.pushUses srv i content site' = w.pushUses srv i content site ∧
      (w.pushUses srv i content site).length ≤ 1 := by
  unfold push pushUses
  dsimp only
  split
  · exact flush_apart srv i false h
  · exact ⟨⟨rfl, rfl, h⟩, rfl, Nat.zero_le 1⟩

theorem hangUp_apart (h : site'.wire = site.wire) :
    (w.hangUp srv i site').1 = (w.hangUp srv i site).1 ∧
      (w.hangUp srv i site').2.wire = (w.hangUp srv i site).2.wire := by
  unfold hangUp
  split
  · exact ⟨rfl, h⟩
  · exact ⟨rfl, by rw [h]⟩

theorem drainSlot_apart (h : site'.wire = site.wire) :
    Apart (w.drainSlot srv i site) (w.drainSlot srv i site') ∧
      w.drainUses srv i site' = w.drainUses srv i site ∧ (w.drainUses srv i site).length ≤ 1 := by
  obtain ⟨hflush, huses⟩ : Apart (if w.isBusy i then w.flush srv i true site else (.ok (), w, site))
        (if w.isBusy i then w.flush srv i true site' else (.ok (), w, site')) ∧
      w.drainUses srv i site' = w.drainUses srv i site ∧ (w.drainUses srv i site).length ≤ 1 := by
    unfold drainUses
    split
    · exact flush_apart srv i true h
    · exact ⟨⟨rfl, rfl, h⟩, rfl, Nat.zero_le 1⟩
  refine ⟨?_, huses⟩
  unfold drainSlot
  generalize (if w.isBusy i then w.flush srv i true site else (.ok (), w, site)) = flushed at *
  generalize (if w.isBusy i then w.flush srv i true site' else (.ok (), w, site')) = flushed' at *
  obtain ⟨result, w₁, site₁⟩ := flushed
  obtain ⟨result', w₁', site₁'⟩ := flushed'
  obtain rfl : result' = result := hflush.result
  obtain rfl : w₁' = w₁ := hflush.writer
  obtain ⟨hwriter, hwire⟩ := hangUp_apart srv i (w := w₁') hflush.wire
  rcases result' with (e | kind) | u
  · exact ⟨rfl, hwriter, hwire⟩
  · exact ⟨rfl, rfl, hflush.wire⟩
  · exact ⟨rfl, hwriter, hwire⟩

end Apart

/-- What a writer asks for a slot: a place, at most, after what it has asked for a partition. The slot that it
goes on filling is the one that it has filled before or the one of the place. -/
theorem slotFor_asks (srv : Server σ) (uri : Uri) (w : Writer) (site : Site σ) :
    ((w.slotFor srv uri site).2.2.manager = site.manager.useAll (w.slotUses srv uri site) ∧
      (w.slotFor srv uri site).2.1.filling = w.filling ∧
      (w.fastLoad = true → ∀ i, (w.slotFor srv uri site).1 = .ok i → w.filling = some i)) ∨
    ∃ (earlier : List Use) (site₁ : Site σ), w.slotUses srv uri site = earlier ++ [.place uri w.partition] ∧
      site₁.manager = site.manager.useAll earlier ∧
      (w.slotFor srv uri site).2.2.manager = (w.place uri site₁).2.manager ∧
      (∀ i, (w.slotFor srv uri site).1 = .ok i → (w.place uri site₁).1 = .ok i) ∧
      ∀ i, (w.slotFor srv uri site).2.1.filling = some i → w.filling = some i ∨ (w.place uri site₁).1 = .ok i := by
  cases hfast : w.fastLoad with
  | false =>
    rw [slotFor_shared srv uri hfast, show w.slotUses srv uri site = [] by simp [slotUses, hfast]]
    exact .inl ⟨rfl, rfl, nofun⟩
  | true =>
    by_cases hload : site.manager.kind = .statistical
    · cases hfill : w.filling with
      | some i =>
        rw [slotFor_filling srv uri hfast hload hfill,
          show w.slotUses srv uri site = [] by simp [slotUses, hfast, hload, hfill]]
        refine .inl ⟨rfl, hfill, fun _ j hj => ?_⟩
        cases hj
        rfl
      | none =>
        refine .inr ⟨[], site, by simp [slotUses, hfast, hload, hfill], rfl, ?_⟩
        cases hp : w.place uri site with
        | mk r site₁ =>
          cases r with
          | error fault =>
            rw [slotFor_unplaced srv uri hfast hload hfill hp]
            exact ⟨rfl, nofun, fun i hi => .inl (hfill ▸ hi)⟩
          | ok i =>
            rw [slotFor_charge srv uri hfast hload hfill hp]
            refine ⟨rfl, fun j hj => hj, fun j hj => ?_⟩
            cases hj
            exact .inr rfl
    · cases hlookup : site.manager.kind.partitioned with
      | true =>
        have hresolved := resolvePartition_uses srv w site
        cases hr : w.resolvePartition srv site with
        | mk r site₁ =>
          rw [hr] at hresolved
          rw [slotFor_lookup srv uri hfast hload hlookup hr]
          cases r with
          | error e =>
            rw [show w.slotUses srv uri site = w.resolveUses srv site by simp [slotUses, hfast, hload, hlookup, hr]]
            exact .inl ⟨hresolved, rfl, nofun⟩
          | ok u =>
            refine .inr ⟨w.resolveUses srv site, site₁, ?_, hresolved, rfl, fun i hi => hi, fun i hi => .inl hi⟩
            simp [slotUses, hfast, hload, hlookup, hr]
      | false =>
        rw [slotFor_place srv uri hfast hload hlookup]
        refine .inr ⟨[], site, ?_, rfl, rfl, fun i hi => hi, fun i hi => .inl hi⟩
        simp [slotUses, hfast, hload, hlookup]

theorem slotFor_uses (srv : Server σ) (uri : Uri) (w : Writer) (site : Site σ) :
    (w.slotFor srv uri site).2.2.manager = site.manager.useAll (w.slotUses srv uri site) := by
  obtain ⟨hmanager, -, -⟩ | ⟨earlier, site₁, huses, hearlier, hmanager, -, -⟩ := slotFor_asks srv uri w site
  · exact hmanager
  · rw [hmanager, huses, Manager.useAll_append, ← hearlier]
    rfl

theorem receive_uses (srv : Server σ) (files : FileStore) (uri : Uri) (source : Option Source)
    (payload : Payload) (w : Writer) (site : Site σ) :
    (w.receive srv files uri source payload site).2.2.manager =
      site.manager.useAll (w.receiveUses srv files uri source payload site) := by
  cases hclosed : w.closed with
  | true =>
    simp only [receive, receiveUses, hclosed, if_true]
    rfl
  | false =>
    cases hcontent : Content.create files w.options source (uri.wrap w.uriPrefix w.uriSuffix) payload with
    | error e =>
      rw [receive_skipping srv site hclosed hcontent]
      simp only [receiveUses, hclosed, hcontent]
      rfl
    | ok content =>
      rw [receive_placing srv site hclosed hcontent]
      simp only [receiveUses, hclosed, hcontent, Bool.false_eq_true, if_false]
      exact slotFor_uses srv _ w site

theorem Asks.settled {before w : Writer} {m m' : Manager} {events : List Event} (h : w.Asks m' events)
    (hw : before.Settled w) (hm : m'.standardPartition = m.standardPartition) : before.Asks m events := by
  unfold Asks at h ⊢
  rwa [hw.partition, hw.terms, hw.hosts, hm] at h

theorem kept_settled (srv : Server σ) (before : Writer) (m : Manager) : Kept srv fun w (site : Site σ) =>
    before.Settled w ∧ site.manager.standardPartition = m.standardPartition where
  receive files uri source payload w site h := by
    refine ⟨h.1.trans (.of_found (found_receive srv files uri source payload w site)), ?_⟩
    rw [receive_uses]
    exact (Manager.useAll_alike _ _).standard.trans h.2
  skip source e w site h := ⟨⟨h.1.terms, h.1.partition, h.1.hosts, h.1.fastLoad⟩, h.2⟩
  push i content w site h := by
    refine ⟨h.1.trans (.of_beside (beside_push srv i content w site)), ?_⟩
    rw [push_uses]
    exact (Manager.useAll_alike _ _).standard.trans h.2
  flush i w site h := by
    refine ⟨h.1.trans (.of_beside (beside_flush srv i true w site)), ?_⟩
    rw [flush_uses]
    exact (Manager.useAll_alike _ _).standard.trans h.2
  hangUp i w site h := by
    refine ⟨h.1.trans (.of_beside (beside_hangUp srv i w site)), ?_⟩
    rw [manager_hangUp]
    exact h.2
  close w site h := ⟨⟨h.1.terms, h.1.partition, h.1.hosts, h.1.fastLoad⟩, h.2⟩
  count counters w site h := h

end ForestCourier.Writer
