import ForestCourier.Proofs.Placement.Loads
import ForestCourier.Proofs.Writer.Success

/-!
Charges of a writer that places documents by load. A batch is charged when its first document is
placed; the charges of a slot are settled when what it holds is stored, and given back when it is lost
for good. Deeds name these three, by what can be seen of documents and deliveries, without the charges.
-/

namespace ForestCourier.Writer

variable {σ : Type}

inductive Deed where
  /-- A document has been placed on the slot while its batch was empty. -/
  | started (slot : Nat)
  /-- What the slot held has been stored: a batch on its own, or a transaction that was committed. -/
  | settled (slot : Nat)
  /-- A flush of the slot has failed for good. -/
  | failed (slot : Nat)
deriving DecidableEq

/-- The batches of each slot that were started and not yet settled nor failed. -/
def Deed.owe (owed : Nat → Nat) : Deed → Nat → Nat
  | started i => Function.update owed i (owed i + 1)
  | settled i | failed i => Function.update owed i 0

/-- A flush that succeeds settles a slot, unless it leaves the transaction open. -/
def flushDeed (srv : Server σ) (i : Nat) (closing : Bool) (w : Writer) (site : Site σ) : Option Deed :=
  match w.slots[i]? with
  | none => none
  | some slot =>
    match (w.delivery srv closing slot site).1 with
    | .error _ => some (.failed i)
    | .ok () =>
      if w.terms.transaction = .auto ∨ (w.load closing slot site).2 = true then some (.settled i)
      else none

def receiveDeed (srv : Server σ) (files : FileStore) (uri : Uri) (source : Option Source)
    (payload : Payload) (w : Writer) (site : Site σ) : Option Deed :=
  match (w.receive srv files uri source payload site).1 with
  | .ok (.placed i _) =>
    if (w.slots[i]?).any (·.pending.isEmpty) then some (.started i) else none
  | _ => none

def placeDeed (uri : Uri) (w : Writer) (site : Site σ) : Option Deed :=
  match (w.place uri site).1 with
  | .ok i => if (w.slots[i]?).any (·.pending.isEmpty) then some (.started i) else none
  | .error _ => none

def pushDeed (srv : Server σ) (i : Nat) (content : Content) (w : Writer) (site : Site σ) : Option Deed :=
  if (w.gather i content).isFull i then (w.gather i content).flushDeed srv i false site else none

def drainDeed (srv : Server σ) (i : Nat) (w : Writer) (site : Site σ) : Option Deed :=
  if w.isBusy i then w.flushDeed srv i true site else none

def owedAfter (owed : Nat → Nat) (deed : Option Deed) : Nat → Nat := deed.elim owed (Deed.owe owed)

/-- What a step does to the loads: a batch that is started is charged, and when what a slot held is lost
exactly the batches that the slot owes are given back. -/
def Shifts (batch : UInt64) (owed : Nat → Nat) (loads loads' : List UInt64) : Option Deed → Prop
  | some (.started i) => ∃ load load' : UInt64, loads[i]? = some load ∧
      load'.toNat = load.toNat + batch.toNat ∧ loads' = loads.set i load'
  | some (.failed i) => ∃ load load' : UInt64, loads[i]? = some load ∧
      load'.toNat + batch.toNat * owed i = load.toNat ∧ loads' = loads.set i load'
  | _ => loads' = loads

/-- A writer on `n` slots that are charged for the batches they owe. Documents are pending only on the
slot that fills up; `due` is the slot of a document that has been placed and is not pending yet. -/
structure Owes (batch : UInt64) (n : Nat) (due : Option Nat) (owed : Nat → Nat) (w : Writer) : Prop where
  batchSize : w.terms.batchSize = batch
  fastLoad : w.fastLoad = true
  length : w.slots.length = n
  charged : ∀ (i : Nat) (slot : Slot), w.slots[i]? = some slot → slot.charged.toNat = owed i
  filling : ∀ i, w.filling = some i ↔
    due = some i ∨ ∃ slot : Slot, w.slots[i]? = some slot ∧ slot.pending ≠ []
  due_lt : ∀ i, due = some i → i < n

structure Charges (batch : UInt64) (n : Nat) (due : Option Nat) (owed : Nat → Nat) (loads : List UInt64)
    (deed : Option Deed) (w' : Writer) (site' : Site σ) : Prop where
  owes : w'.Owes batch n due (owedAfter owed deed)
  loads : ∃ loads', site'.manager.policy = .statistical ⟨batch, loads'⟩ ∧
    Shifts batch owed loads loads' deed

variable {srv : Server σ} {batch : UInt64} {n : Nat} {due : Option Nat} {owed : Nat → Nat}
  {loads : List UInt64} {w w' : Writer} {site : Site σ} {i : Nat}

def Covers (batch : UInt64) (owed : Nat → Nat) (loads : List UInt64) : Prop :=
  ∀ (i : Nat) (load : UInt64), loads[i]? = some load → batch.toNat * owed i ≤ load.toNat

theorem Owes.still (h : w.Owes batch n due owed)
    (hm : site.manager.policy = .statistical ⟨batch, loads⟩) :
    Charges batch n due owed loads none w site :=
  ⟨h, loads, hm, rfl⟩

/-- Work on slot `i` that empties it and has it owe no more, or as much as before. -/
theorem Owes.emptied (h : w.Owes batch n none owed) {slot' : Slot} {owed' : Nat → Nat}
    (hbeside : Beside i w w') (hi : w'.slots[i]? = some slot') (hpending : slot'.pending = [])
    (hfilling : w'.filling = (w.leave i).filling) (hcharged : slot'.charged.toNat = owed' i)
    (howed : ∀ j, j ≠ i → owed' j = owed j) : w'.Owes batch n none owed' where
  batchSize := hbeside.terms ▸ h.batchSize
  fastLoad := hbeside.fastLoad.trans h.fastLoad
  length := hbeside.length.trans h.length
  charged j slot hj := by
    by_cases hji : j = i
    · subst hji
      cases hi.symm.trans hj
      exact hcharged
    · rw [hbeside.others j hji] at hj
      rw [howed j hji]
      exact h.charged j slot hj
  filling j := by
    rw [hfilling, leave]
    dsimp only
    by_cases hji : j = i
    · subst hji
      rw [hi]
      simp only [reduceCtorEq, false_or, Option.some.injEq, exists_eq_left', hpending, ne_eq,
        not_true_eq_false, iff_false]
      split
      · exact (Option.some_ne_none j).symm
      · next hne => exact hne
    · rw [hbeside.others j hji, ← h.filling j]
      split
      · next heq =>
        rw [heq]
        constructor
        · intro hnone
          cases hnone
        · intro hij
          exact absurd (Option.some.inj hij).symm hji
      · rfl
  due_lt _ hdue := by cases hdue

theorem delivery_charged {closing : Bool} {slot : Slot} {d : Delivery σ}
    (hd : w.delivery srv closing slot site = (.ok (), d)) :
    d.slot.charged =
      if w.terms.transaction = .auto ∨ (w.load closing slot site).2 = true then 0 else slot.charged := by
  have hbilled := Delivery.billed_run hd
  split
  · next hsettled =>
    rcases hsettled with hauto | hending
    · exact (hbilled.auto hauto).2
    · cases hmode : w.terms.transaction with
      | auto => exact (hbilled.auto hmode).2
      | update => exact (hbilled.ended hmode hending).2
  · next hopen =>
    obtain ⟨hmode, hending⟩ := not_or.mp hopen
    have hupdate : w.terms.transaction = .update := by
      cases hmode' : w.terms.transaction with
      | auto => exact absurd hmode' hmode
      | update => rfl
    exact congrArg (fun bill => bill.2.1) (hbilled.open_ hupdate (by simpa using hending))

theorem flush_gives_back {closing : Bool} {slot : Slot} (hi : w.slots[i]? = some slot) {e : RequestError}
    {attempts : Nat} {d : Delivery σ} (hd : w.delivery srv closing slot site = (.error (e, attempts), d))
    {count : UInt64} (hmul : Word.mul (ε := TransferError) d.slot.charged w.terms.batchSize = .ok count) :
    w.flush srv i closing site = ((Delivery.outcome e attempts).mapError .failed,
      (w.leave i).put i ((d.clear srv w.terms).report e attempts d.lost)
        { site with manager := site.manager.rollback i count }) := by
  have hterms : (w.leave i).terms = w.terms := rfl
  unfold delivery at hd
  simp only [flush, hi, hd, abandon, hterms, hmul]

theorem flush_charges (srv : Server σ) (closing : Bool) (h : w.Owes batch n none owed)
    (hm : site.manager.policy = .statistical ⟨batch, loads⟩) (hlength : loads.length = n)
    (hcovers : Covers batch owed loads) :
    Charges batch n none owed loads (w.flushDeed srv i closing site) (w.flush srv i closing site).2.1
      (w.flush srv i closing site).2.2 := by
  have hbeside := beside_flush srv i closing w site
  cases hi : w.slots[i]? with
  | none =>
    have hdeed : w.flushDeed srv i closing site = none := by simp [flushDeed, hi]
    have hflush : w.flush srv i closing site = (.ok (), w, site) := by simp [flush, hi]
    rw [hdeed, hflush]
    exact h.still hm
  | some slot =>
    have hlt : i < w.slots.length := (List.getElem?_eq_some_iff.mp hi).1
    cases hd : w.delivery srv closing slot site with
    | mk result d =>
      have hpending := pending_delivery srv closing slot w site
      rw [hd] at hpending
      cases result with
      | ok u =>
        have hcharged := delivery_charged hd
        have hflush : w.flush srv i closing site = (.ok (), (w.leave i).put i d site) := by
          unfold delivery at hd
          simp [flush, hi, hd]
        have hdeed : w.flushDeed srv i closing site =
            if w.terms.transaction = .auto ∨ (w.load closing slot site).2 = true then some (.settled i)
            else none := by
          simp [flushDeed, hi, hd]
        rw [hflush] at hbeside ⊢
        rw [hdeed]
        split
        · next hsettled =>
          rw [if_pos hsettled] at hcharged
          refine ⟨h.emptied hbeside (getElem?_put hlt d site) hpending rfl ?_ fun j hj => ?_, loads, hm, rfl⟩
          · rw [hcharged]
            exact (Function.update_self i 0 owed).symm
          · exact Function.update_of_ne hj 0 owed
        · next hopen =>
          rw [if_neg hopen] at hcharged
          refine ⟨h.emptied hbeside (getElem?_put hlt d site) hpending rfl ?_ fun j hj => rfl, loads, hm, rfl⟩
          rw [hcharged]
          exact h.charged i slot hi
      | error failure =>
        obtain ⟨e, attempts⟩ := failure
        have hdeed : w.flushDeed srv i closing site = some (.failed i) := by simp [flushDeed, hi, hd]
        have hcharged : d.slot.charged = slot.charged :=
          congrArg (fun bill => bill.2.1) (Delivery.bill_run hd)
        obtain ⟨load, hload⟩ : ∃ load, loads[i]? = some load :=
          ⟨_, List.getElem?_eq_getElem (by rw [hlength, ← h.length]; exact hlt)⟩
        have howed : d.slot.charged.toNat = owed i := by
          rw [hcharged]
          exact h.charged i slot hi
        have hcover : d.slot.charged.toNat * w.terms.batchSize.toNat ≤ load.toNat := by
          rw [howed, h.batchSize, Nat.mul_comm]
          exact hcovers i load hload
        obtain ⟨count, hmul, hcount⟩ := Word.mul_of_le (ε := TransferError) hcover
        rw [flush_gives_back hi hd hmul] at hbeside ⊢
        rw [hdeed]
        refine ⟨h.emptied hbeside (getElem?_put hlt _ _) ?_ rfl ?_ fun j hj => Function.update_of_ne hj 0 owed, ?_⟩
        · exact (Delivery.pending_clear srv w.terms d).trans hpending
        · exact (Function.update_self i 0 owed).symm
        · have hrolled : site.manager.policy.rollback i count =
              .statistical ⟨batch, loads.set i (Word.monus load count)⟩ := by
            rw [hm]
            exact congrArg Placement.Policy.statistical (Placement.Statistical.rollback_eq hload count)
          refine ⟨_, hrolled, load, _, hload, ?_, rfl⟩
          rw [Word.toNat_monus, hcount, howed, h.batchSize, Nat.mul_comm]
          rw [howed, h.batchSize, Nat.mul_comm] at hcover
          omega

theorem Owes.gather (h : w.Owes batch n (some i) owed) (content : Content) :
    (w.gather i content).Owes batch n none owed := by
  have hlt : i < w.slots.length := h.length ▸ h.due_lt i rfl
  have hslots (j : Nat) : (w.gather i content).slots[j]? = (w.slots[j]?).map fun slot =>
      if i = j then { slot with pending := slot.pending ++ [content], stage := .batching } else slot := by
    dsimp only [Writer.gather]
    rw [List.getElem?_modify]
    rfl
  refine ⟨h.batchSize, h.fastLoad, (List.length_modify ..).trans h.length, fun j slot' hj => ?_, fun j => ?_,
    nofun⟩
  · rw [hslots] at hj
    obtain ⟨slot, hslot, rfl⟩ := Option.map_eq_some_iff.mp hj
    split
    · exact h.charged j slot hslot
    · exact h.charged j slot hslot
  · have hfilling : (w.gather i content).filling = w.filling := rfl
    rw [hfilling, h.filling j, hslots]
    by_cases hij : i = j
    · subst hij
      simp [List.getElem?_eq_getElem hlt]
    · simp [hij]

theorem push_charges (srv : Server σ) (content : Content) (h : w.Owes batch n (some i) owed)
    (hm : site.manager.policy = .statistical ⟨batch, loads⟩) (hlength : loads.length = n)
    (hcovers : Covers batch owed loads) :
    Charges batch n none owed loads (w.pushDeed srv i content site) (w.push srv i content site).2.1
      (w.push srv i content site).2.2 := by
  have hgathered := h.gather content
  unfold push pushDeed
  dsimp only
  split
  · exact flush_charges srv false hgathered hm hlength hcovers
  · exact hgathered.still hm

theorem Owes.hangUp (h : w.Owes batch n none owed) (srv : Server σ) (i : Nat) (site : Site σ) :
    (w.hangUp srv i site).1.Owes batch n none owed := by
  have hbeside := beside_hangUp srv i w site
  have hslots (j : Nat) : (w.hangUp srv i site).1.slots[j]? = (w.slots[j]?).map fun slot =>
      if i = j then { slot with session := none } else slot := by
    rw [hangUp_slots, List.getElem?_modify]
    rfl
  have hfilling : (w.hangUp srv i site).1.filling = w.filling := by
    unfold Writer.hangUp
    split
    · rfl
    · rfl
  refine ⟨hbeside.terms ▸ h.batchSize, hbeside.fastLoad.trans h.fastLoad, hbeside.length.trans h.length,
    fun j slot' hj => ?_, fun j => ?_, nofun⟩
  · rw [hslots] at hj
    obtain ⟨slot, hslot, rfl⟩ := Option.map_eq_some_iff.mp hj
    split
    · exact h.charged j slot hslot
    · exact h.charged j slot hslot
  · rw [hfilling, h.filling j, hslots]
    by_cases hij : i = j
    · simp [hij]
    · simp [hij]

theorem drainSlot_charges (srv : Server σ) (i : Nat) (h : w.Owes batch n none owed)
    (hm : site.manager.policy = .statistical ⟨batch, loads⟩) (hlength : loads.length = n)
    (hcovers : Covers batch owed loads) :
    Charges batch n none owed loads (w.drainDeed srv i site) (w.drainSlot srv i site).2.1
      (w.drainSlot srv i site).2.2 := by
  have hflush : Charges batch n none owed loads (w.drainDeed srv i site)
      (if w.isBusy i then w.flush srv i true site else (.ok (), w, site)).2.1
      (if w.isBusy i then w.flush srv i true site else (.ok (), w, site)).2.2 := by
    unfold drainDeed
    split
    · exact flush_charges srv true h hm hlength hcovers
    · exact h.still hm
  obtain ⟨kind, hd, -⟩ | ⟨result, w₁, site₁, hd, he⟩ := drainSlot_cases srv i w site
  · rwa [hd] at hflush
  · rw [hd] at hflush
    rw [he]
    refine ⟨hflush.owes.hangUp srv i site₁, ?_⟩
    rw [manager_hangUp]
    exact hflush.loads

def placedAt : Except (Fault TransferError) Receipt → Option Nat
  | .ok (.placed i _) => some i
  | _ => none

/-- Placed by load, a document goes to the slot that fills up, or a slot is charged and fills up from
now on. -/
theorem slotFor_cases (srv : Server σ) (uri : Uri) (hfast : w.fastLoad = true)
    (hm : site.manager.policy = .statistical ⟨batch, loads⟩) :
    (∃ i, w.filling = some i ∧ w.slotFor srv uri site = (.ok i, w, site)) ∨
    (∃ fault, w.slotFor srv uri site = (.error fault, w, site)) ∨
    ∃ (i : Nat) (load load' : UInt64) (m : Placement.Manager), w.filling = none ∧ loads[i]? = some load ∧
      load'.toNat = load.toNat + batch.toNat ∧ m.policy = .statistical ⟨batch, loads.set i load'⟩ ∧
      w.slotFor srv uri site = (.ok i, { w with
        slots := w.slots.modify i fun slot => { slot with charged := slot.charged + 1 }
        filling := some i }, { site with manager := m }) := by
  have hkind : site.manager.kind = .statistical := by rw [Placement.Manager.kind, hm]; rfl
  cases hfilling : w.filling with
  | some i => exact .inl ⟨i, rfl, slotFor_filling srv uri hfast hkind hfilling⟩
  | none =>
    right
    have hpolicy : site.manager.policy.place uri w.partition =
        ((Placement.Statistical.mk batch loads).place.1,
          .statistical (Placement.Statistical.mk batch loads).place.2) := by
      rw [hm]
      rfl
    obtain ⟨i, load, load', hload, hsum, hplaced⟩ | ⟨fault, hplaced⟩ :=
      Placement.Statistical.place_cases ⟨batch, loads⟩
    · rw [hplaced] at hpolicy
      have hplace : w.place uri site = (.ok i, { site with manager := { site.manager with
          policy := .statistical ⟨batch, loads.set i load'⟩ } }) := by
        rw [place, Placement.Manager.place, hpolicy]
        rfl
      exact .inr ⟨i, load, load', _, rfl, hload, hsum, rfl, slotFor_charge srv uri hfast hkind hfilling hplace⟩
    · rw [hplaced, ← hm] at hpolicy
      have hplace : w.place uri site = (.error (fault.map .placement), site) := by
        rw [place, Placement.Manager.place, hpolicy]
        rfl
      exact .inl ⟨_, slotFor_unplaced srv uri hfast hkind hfilling hplace⟩

/-- The slot that fills up has a document pending, so that another one does not start a batch. -/
theorem Owes.again (h : w.Owes batch n none owed) (hi : w.filling = some i) :
    (w.slots[i]?).any (·.pending.isEmpty) = false ∧ w.Owes batch n (some i) owed := by
  obtain ⟨slot, hslot, hpending⟩ := ((h.filling i).mp hi).resolve_left nofun
  refine ⟨?_, h.batchSize, h.fastLoad, h.length, h.charged, fun j => ?_, fun j hj => ?_⟩
  · rw [hslot, Option.any_some]
    simpa using hpending
  · constructor
    · intro hj
      exact .inl (hi.symm.trans hj)
    · rintro (hj | hj)
      · exact hi.trans hj
      · exact (h.filling j).mpr (.inr hj)
  · cases hj
    exact h.length ▸ (List.getElem?_eq_some_iff.mp hslot).1

theorem Owes.charge (h : w.Owes batch n none owed) (hfilling : w.filling = none) (hi : i < n)
    (howed : owed i + 1 < UInt64.size) :
    (w.slots[i]?).any (·.pending.isEmpty) = true ∧
      Owes batch n (some i) (Function.update owed i (owed i + 1)) { w with
        slots := w.slots.modify i fun slot => { slot with charged := slot.charged + 1 }
        filling := some i } := by
  have hempty (j : Nat) (slot : Slot) (hj : w.slots[j]? = some slot) : slot.pending = [] := by
    by_contra hpending
    have hfull := (h.filling j).mpr (.inr ⟨slot, hj, hpending⟩)
    rw [hfilling] at hfull
    cases hfull
  have hslots (j : Nat) : (w.slots.modify i fun slot =>
      { slot with charged := slot.charged + 1 })[j]? = (w.slots[j]?).map fun slot =>
        if i = j then { slot with charged := slot.charged + 1 } else slot := by
    rw [List.getElem?_modify]
    rfl
  refine ⟨?_, h.batchSize, h.fastLoad, (List.length_modify ..).trans h.length, fun j slot' hj => ?_,
    fun j => ?_, fun j hj => ?_⟩
  · have hlt : i < w.slots.length := h.length ▸ hi
    have hslot : w.slots[i]? = some w.slots[i] := List.getElem?_eq_getElem hlt
    rw [hslot, Option.any_some, hempty i _ hslot]
    rfl
  · dsimp only at hj
    rw [hslots] at hj
    obtain ⟨slot, hslot, rfl⟩ := Option.map_eq_some_iff.mp hj
    have hcharged := h.charged j slot hslot
    by_cases hij : i = j
    · subst hij
      rw [if_pos rfl, Function.update_self]
      dsimp only
      rw [UInt64.toNat_add, hcharged]
      exact Nat.mod_eq_of_lt howed
    · rw [if_neg hij, Function.update_of_ne (Ne.symm hij)]
      exact hcharged
  · dsimp only
    rw [hslots]
    constructor
    · exact .inl
    · rintro (hj | ⟨slot', hj, hpending⟩)
      · exact hj
      · obtain ⟨slot, hslot, rfl⟩ := Option.map_eq_some_iff.mp hj
        refine absurd (hempty j slot hslot) ?_
        split at hpending
        · exact hpending
        · exact hpending
  · cases hj
    exact hi

theorem slotFor_charges (srv : Server σ) (uri : Uri) (h : w.Owes batch n none owed)
    (hm : site.manager.policy = .statistical ⟨batch, loads⟩) (hlength : loads.length = n)
    (hpos : 0 < batch.toNat) (hcovers : Covers batch owed loads) :
    match w.slotFor srv uri site with
    | (.ok i, w', site') => Charges batch n (some i) owed loads
        (if (w.slots[i]?).any (·.pending.isEmpty) then some (.started i) else none) w' site'
    | (.error _, w', site') => Charges batch n none owed loads none w' site' := by
  obtain ⟨i, hfilling, hslot⟩ | ⟨fault, hslot⟩ |
    ⟨i, load, load', m, hfilling, hload, hsum, hpolicy, hslot⟩ := slotFor_cases srv uri h.fastLoad hm
  · rw [hslot]
    dsimp only
    obtain ⟨hpending, howes⟩ := h.again hfilling
    rw [hpending]
    exact howes.still hm
  · rw [hslot]
    exact h.still hm
  · rw [hslot]
    dsimp only
    have hi : i < n := hlength ▸ (List.getElem?_eq_some_iff.mp hload).1
    have howed : owed i + 1 < UInt64.size := by
      have hcover := hcovers i load hload
      have hlt : load'.toNat < UInt64.size := load'.toNat_lt
      have hone : owed i + 1 ≤ batch.toNat * (owed i + 1) := Nat.le_mul_of_pos_left _ hpos
      have hmore : batch.toNat * (owed i + 1) = batch.toNat * owed i + batch.toNat := Nat.mul_succ ..
      omega
    obtain ⟨hpending, howes⟩ := h.charge hfilling hi howed
    rw [hpending]
    exact ⟨howes, _, hpolicy, load, load', hload, hsum, rfl⟩

theorem receive_charges (srv : Server σ) (files : FileStore) (uri : Uri) (source : Option Source)
    (payload : Payload) (h : w.Owes batch n none owed)
    (hm : site.manager.policy = .statistical ⟨batch, loads⟩) (hlength : loads.length = n)
    (hpos : 0 < batch.toNat) (hcovers : Covers batch owed loads) :
    Charges batch n (placedAt (w.receive srv files uri source payload site).1) owed loads
      (w.receiveDeed srv files uri source payload site)
      (w.receive srv files uri source payload site).2.1
      (w.receive srv files uri source payload site).2.2 := by
  unfold receiveDeed
  cases hclosed : w.closed with
  | true =>
    rw [receive_closed hclosed]
    exact h.still hm
  | false =>
    cases hcontent : Content.create files w.options source (uri.wrap w.uriPrefix w.uriSuffix) payload with
    | error e =>
      rw [receive_skipping srv site hclosed hcontent]
      exact h.still hm
    | ok content =>
      rw [receive_placing srv site hclosed hcontent]
      have hslot := slotFor_charges srv (uri.wrap w.uriPrefix w.uriSuffix) h hm hlength hpos hcovers
      split at hslot
      · next hs =>
        rw [hs]
        exact hslot
      · next hs =>
        rw [hs]
        exact hslot

end ForestCourier.Writer
