import ForestCourier.Proofs.Writer.Run
import ForestCourier.Proofs.Writer.Steps

/-!
What the calls of a writer leave alone. Work on one slot keeps all other slots and the settings;
finding a slot for a document changes charges only, and the slot it finds exists as long as the
writer `Fits` its manager, which every step keeps.
-/

namespace ForestCourier.Writer

variable {σ : Type}

structure Beside (i : Nat) (w w' : Writer) : Prop where
  settings : w' = { w with slots := w'.slots, stats := w'.stats, filling := w'.filling }
  length : w'.slots.length = w.slots.length
  others : ∀ j, j ≠ i → w'.slots[j]? = w.slots[j]?
  filling : ∀ j, w'.filling = some j → w.filling = some j

namespace Beside

variable {i : Nat} {w w' w'' : Writer}

theorem refl (i : Nat) (w : Writer) : Beside i w w := ⟨rfl, rfl, fun _ _ => rfl, fun _ h => h⟩

theorem trans (h : Beside i w w') (h' : Beside i w' w'') : Beside i w w'' where
  settings := by rw [h'.settings, h.settings]
  length := h'.length.trans h.length
  others j hj := (h'.others j hj).trans (h.others j hj)
  filling j hj := h.filling j (h'.filling j hj)

theorem terms (h : Beside i w w') : w'.terms = w.terms := by rw [h.settings]

theorem closed (h : Beside i w w') : w'.closed = w.closed := by rw [h.settings]

theorem fastLoad (h : Beside i w w') : w'.fastLoad = w.fastLoad := by rw [h.settings]

theorem partition (h : Beside i w w') : w'.partition = w.partition := by rw [h.settings]

end Beside

theorem map_modify {β : Type} {f : Slot → β} {change : Slot → Slot} {change' : β → β}
    (h : ∀ slot, f (change slot) = change' (f slot)) (slots : List Slot) (i : Nat) :
    (slots.modify i change).map f = (slots.map f).modify i change' := by
  induction slots generalizing i with
  | nil => rw [List.map_nil, List.modify_nil, List.modify_nil, List.map_nil]
  | cons slot slots ih =>
    cases i with
    | zero => rw [List.modify_zero_cons, List.map_cons, List.map_cons, List.modify_zero_cons, h]
    | succ i => rw [List.modify_succ_cons, List.map_cons, List.map_cons, List.modify_succ_cons, ih]

theorem map_modify_of_eq {β : Type} {f : Slot → β} {change : Slot → Slot}
    (h : ∀ slot, f (change slot) = f slot) (slots : List Slot) (i : Nat) :
    (slots.modify i change).map f = slots.map f :=
  (map_modify h slots i).trans (List.modify_id i _)

theorem beside_put (i : Nat) (d : Delivery σ) (w : Writer) (site : Site σ) :
    Beside i w (w.put i d site).1 where
  settings := rfl
  length := List.length_set
  others _ hj := List.getElem?_set_ne (Ne.symm hj)
  filling _ h := h

theorem getElem?_put {i : Nat} {w : Writer} (h : i < w.slots.length) (d : Delivery σ) (site : Site σ) :
    ((w.leave i).put i d site).1.slots[i]? = some d.slot :=
  List.getElem?_set_self h

theorem beside_leave (i : Nat) (w : Writer) : Beside i w (w.leave i) where
  settings := rfl
  length := rfl
  others _ _ := rfl
  filling _ h := by
    simp only [leave] at h
    split at h
    · cases h
    · exact h

theorem beside_gather (i : Nat) (content : Content) (w : Writer) :
    Beside i w (w.gather i content) where
  settings := rfl
  length := List.length_modify ..
  others j hj := by simp [gather, Ne.symm hj]
  filling _ h := h

def delivery (srv : Server σ) (closing : Bool) (slot : Slot) (w : Writer) (site : Site σ) :
    Except (RequestError × Nat) Unit × Delivery σ :=
  (w.load closing slot site).1.deliver srv w.terms (w.load closing slot site).2

theorem outcome_eq (srv : Server σ) {i : Nat} (closing : Bool) {w : Writer} {slot : Slot} (site : Site σ)
    (hi : w.slots[i]? = some slot) :
    w.outcome srv i closing site = (w.delivery srv closing slot site).1 := by
  simp [outcome, hi, delivery]

theorem Delivery.Steps.delivery {srv : Server σ} {w : Writer} {R : Delivery σ → Delivery σ → Prop}
    (h : Delivery.Steps srv w.terms R) (closing : Bool) (slot : Slot) (site : Site σ) :
    R (w.load closing slot site).1 (w.delivery srv closing slot site).2 :=
  h.deliver (w.load closing slot site).2 (w.load closing slot site).1

theorem pending_delivery (srv : Server σ) (closing : Bool) (slot : Slot) (w : Writer) (site : Site σ) :
    (w.delivery srv closing slot site).2.slot.pending = [] :=
  (Delivery.steps_pending srv w.terms).delivery closing slot site

theorem delivery_ok {srv : Server σ} {closing : Bool} {slot : Slot} {w : Writer} {site : Site σ}
    {d : Delivery σ} (hd : w.delivery srv closing slot site = (.ok (), d)) :
    d.batch = [] ∧
      (w.terms.transaction = .update → (w.load closing slot site).2 = true → d.slot.queue = []) :=
  Delivery.run_ok hd

/-- The three ends of a flush: the delivery succeeds, it is given up and settled, or the charges to be
given back need too large a word. -/
theorem flush_cases (srv : Server σ) {i : Nat} (closing : Bool) {w : Writer} {slot : Slot}
    (site : Site σ) (hi : w.slots[i]? = some slot) :
    (∃ d, w.delivery srv closing slot site = (.ok (), d) ∧
      w.flush srv i closing site = (.ok (), (w.leave i).put i d site)) ∨
    (∃ e n d count, w.delivery srv closing slot site = (.error (e, n), d) ∧
      w.flush srv i closing site = ((Delivery.outcome e n).mapError .failed,
        (w.leave i).put i ((d.clear srv w.terms).report e n d.lost)
          { site with manager := site.manager.rollback i count })) ∨
    ∃ e n d kind, w.delivery srv closing slot site = (.error (e, n), d) ∧
      w.flush srv i closing site =
        (.error (.overflow kind), (w.leave i).put i (d.clear srv w.terms) site) := by
  cases hd : w.delivery srv closing slot site with
  | mk r d =>
    unfold delivery at hd
    cases r with
    | ok u => exact .inl ⟨d, rfl, by simp [flush, hi, hd]⟩
    | error en =>
      obtain ⟨e, n⟩ := en
      have hflush : w.flush srv i closing site = abandon srv i e n d (w.leave i) site := by
        simp [flush, hi, hd]
      right
      unfold abandon at hflush
      cases hm : Word.mul (ε := TransferError) d.slot.charged (w.leave i).terms.batchSize with
      | ok count =>
        rw [hm] at hflush
        exact .inl ⟨e, n, d, count, rfl, hflush⟩
      | error fault =>
        rw [hm] at hflush
        unfold Word.mul at hm
        split at hm
        · cases hm
        · cases hm
          exact .inr ⟨e, n, d, .multiplication, rfl, hflush⟩

theorem beside_flush (srv : Server σ) (i : Nat) (closing : Bool) (w : Writer) (site : Site σ) :
    Beside i w (w.flush srv i closing site).2.1 := by
  cases hi : w.slots[i]? with
  | none => simpa [flush, hi] using Beside.refl i w
  | some slot =>
    obtain ⟨d, -, h⟩ | ⟨e, n, d, count, -, h⟩ | ⟨e, n, d, kind, -, h⟩ :=
      flush_cases srv closing site hi
    all_goals
      rw [h]
      exact (beside_leave i w).trans (beside_put i _ _ _)

theorem beside_push (srv : Server σ) (i : Nat) (content : Content) (w : Writer) (site : Site σ) :
    Beside i w (w.push srv i content site).2.1 := by
  unfold push
  dsimp only
  split
  · exact (beside_gather i content w).trans (beside_flush srv i false _ site)
  · exact beside_gather i content w

theorem beside_hangUp (srv : Server σ) (i : Nat) (w : Writer) (site : Site σ) :
    Beside i w (w.hangUp srv i site).1 := by
  unfold hangUp
  split
  · exact Beside.refl i w
  · exact ⟨rfl, List.length_modify .., fun j hj => by simp [Ne.symm hj],
      fun _ h => h⟩

theorem manager_hangUp (srv : Server σ) (i : Nat) (w : Writer) (site : Site σ) :
    (w.hangUp srv i site).2.manager = site.manager := by
  unfold hangUp
  split
  · rfl
  · rfl

theorem mapError_ne_overflow {α ε : Type} (result : Except ε α) (kind : Overflow) :
    result.mapError Fault.failed ≠ .error (.overflow kind) := by
  cases result with
  | error e => nofun
  | ok a => nofun

theorem drainSlot_cases (srv : Server σ) (i : Nat) (w : Writer) (site : Site σ) :
    (∃ kind, (if w.isBusy i then w.flush srv i true site else (.ok (), w, site)) =
        (.error (.overflow kind), (w.drainSlot srv i site).2) ∧
      (w.drainSlot srv i site).1 = .error (.overflow kind)) ∨
    ∃ result w₁ site₁, (if w.isBusy i then w.flush srv i true site else (.ok (), w, site)) =
        (result.mapError .failed, w₁, site₁) ∧
      w.drainSlot srv i site = (.ok result, w₁.hangUp srv i site₁) := by
  unfold drainSlot
  match h : (if w.isBusy i then w.flush srv i true site else (.ok (), w, site)) with
  | (.error (.overflow kind), w₁, site₁) => exact .inl ⟨kind, rfl, rfl⟩
  | (.error (.failed e), w₁, site₁) => exact .inr ⟨.error e, w₁, site₁, rfl, rfl⟩
  | (.ok (), w₁, site₁) => exact .inr ⟨.ok (), w₁, site₁, rfl, rfl⟩

theorem beside_drainSlot (srv : Server σ) (i : Nat) (w : Writer) (site : Site σ) :
    Beside i w (w.drainSlot srv i site).2.1 := by
  have hflush : Beside i w (if w.isBusy i then w.flush srv i true site else (.ok (), w, site)).2.1 := by
    split
    · exact beside_flush srv i true w site
    · exact Beside.refl i w
  obtain ⟨kind, h, -⟩ | ⟨result, w₁, site₁, h, hd⟩ := drainSlot_cases srv i w site
  · rwa [h] at hflush
  · rw [h] at hflush
    rw [hd]
    exact hflush.trans (beside_hangUp srv i w₁ site₁)

/-- Every slot that a document can be placed on exists. -/
structure Fits (w : Writer) (m : Placement.Manager) : Prop where
  manager : m.Sound
  slots : w.slots.length = if w.fastLoad then m.forestCount else 1
  filling : ∀ i, w.filling = some i → i < w.slots.length

theorem new_cases {config : Config.Output} {fastLoad : Bool} {m : Placement.Manager} {task : Nat}
    {w : Writer} (hw : Writer.new config fastLoad m task = .ok w) :
    ∃ routes : List Route, w.slots = routes.map Slot.new ∧
      routes.length = (if fastLoad then m.forests.length else 1) ∧
      w.fastLoad = fastLoad ∧ w.filling = none ∧ w.stats = .zero ∧ w.closed = false := by
  unfold Writer.new at hw
  cases hs : slotsFor config fastLoad m task with
  | error e => rw [hs] at hw; cases hw
  | ok slots =>
    rw [hs] at hw
    cases hw
    unfold slotsFor at hs
    split at hs
    · next hf =>
      cases hs
      exact ⟨m.forests.map Route.ofForest, by simp, by simp [hf], rfl, rfl, rfl, rfl⟩
    · next hf =>
      split at hs
      · next rotation _ =>
        cases hs
        exact ⟨[.hosts rotation], rfl, by simp [hf], rfl, rfl, rfl, rfl⟩
      · cases hs

theorem new_slot {config : Config.Output} {fastLoad : Bool} {m : Placement.Manager} {task : Nat}
    {w : Writer} (hw : Writer.new config fastLoad m task = .ok w) {i : Nat} {slot : Slot}
    (hi : w.slots[i]? = some slot) : ∃ route, slot = Slot.new route := by
  obtain ⟨routes, hslots, -⟩ := new_cases hw
  rw [hslots, List.getElem?_map] at hi
  obtain ⟨route, -, rfl⟩ := Option.map_eq_some_iff.mp hi
  exact ⟨route, rfl⟩

theorem fits_new {config : Config.Output} {fastLoad : Bool} {m : Placement.Manager} {task : Nat}
    {w : Writer} (hm : m.Sound) (hw : Writer.new config fastLoad m task = .ok w) : w.Fits m := by
  obtain ⟨routes, hslots, hlen, hfast, hfill, -⟩ := new_cases hw
  refine ⟨hm, ?_, fun i h => by rw [hfill] at h; cases h⟩
  rw [hslots, List.length_map, hlen, hfast, hm.forests]

theorem Fits.beside {i : Nat} {w w' : Writer} {m : Placement.Manager} (h : w.Fits m)
    (hw : Beside i w w') : w'.Fits m where
  manager := h.manager
  slots := by rw [hw.length, hw.fastLoad, h.slots]
  filling j hj := by rw [hw.length]; exact h.filling j (hw.filling j hj)

theorem Fits.rollback {w : Writer} {m : Placement.Manager} (h : w.Fits m) (i : Nat) (count : UInt64) :
    w.Fits (m.rollback i count) := ⟨h.manager.rollback i count, h.slots, h.filling⟩

theorem Fits.flush {w : Writer} {site : Site σ} (h : w.Fits site.manager) (srv : Server σ) (i : Nat)
    (closing : Bool) :
    (w.flush srv i closing site).2.1.Fits (w.flush srv i closing site).2.2.manager := by
  have hw := h.beside (beside_flush srv i closing w site)
  cases hi : w.slots[i]? with
  | none => simpa [Writer.flush, hi] using h
  | some slot =>
    obtain ⟨d, -, hf⟩ | ⟨e, n, d, count, -, hf⟩ | ⟨e, n, d, kind, -, hf⟩ :=
      flush_cases srv closing site hi
    · rw [hf] at hw ⊢
      exact hw
    · rw [hf] at hw ⊢
      exact hw.rollback i count
    · rw [hf] at hw ⊢
      exact hw

theorem Fits.push {w : Writer} {site : Site σ} (h : w.Fits site.manager) (srv : Server σ) (i : Nat)
    (content : Content) :
    (w.push srv i content site).2.1.Fits (w.push srv i content site).2.2.manager := by
  have hg := h.beside (beside_gather i content w)
  unfold Writer.push
  dsimp only
  split
  · exact hg.flush srv i false
  · exact hg

theorem Fits.drainSlot {w : Writer} {site : Site σ} (h : w.Fits site.manager) (srv : Server σ)
    (i : Nat) :
    (w.drainSlot srv i site).2.1.Fits (w.drainSlot srv i site).2.2.manager := by
  have hflush : (if w.isBusy i then w.flush srv i true site else (.ok (), w, site)).2.1.Fits
      (if w.isBusy i then w.flush srv i true site else (.ok (), w, site)).2.2.manager := by
    split
    · exact h.flush srv i true
    · exact h
  obtain ⟨kind, hd, -⟩ | ⟨result, w₁, site₁, hd, he⟩ := drainSlot_cases srv i w site
  · rwa [hd] at hflush
  · rw [hd] at hflush
    rw [he, manager_hangUp]
    exact hflush.beside (beside_hangUp srv i w₁ site₁)

/-- The writer after a slot was found: at most a charge and the slot that fills up are new. -/
structure Found (w w' : Writer) : Prop where
  settings : w' = { w with slots := w'.slots, filling := w'.filling }
  slots : ∃ charge : Nat → Slot → UInt64,
    w'.slots = w.slots.mapIdx fun j slot => { slot with charged := charge j slot }

namespace Found

variable {w w' : Writer}

theorem refl (w : Writer) : Found w w :=
  ⟨rfl, fun _ slot => slot.charged, (List.mapIdx_eq_iff.mpr fun j => by simp).symm⟩

theorem length (h : Found w w') : w'.slots.length = w.slots.length := by
  obtain ⟨charge, hs⟩ := h.slots
  rw [hs, List.length_mapIdx]

theorem stats (h : Found w w') : w'.stats = w.stats := by rw [h.settings]

theorem terms (h : Found w w') : w'.terms = w.terms := by rw [h.settings]

theorem closed (h : Found w w') : w'.closed = w.closed := by rw [h.settings]

theorem fastLoad (h : Found w w') : w'.fastLoad = w.fastLoad := by rw [h.settings]

theorem partition (h : Found w w') : w'.partition = w.partition := by rw [h.settings]

theorem map_slots {α : Type} (h : Found w w') {f : Slot → α}
    (hf : ∀ (slot : Slot) (charged : UInt64), f { slot with charged := charged } = f slot) :
    w'.slots.map f = w.slots.map f := by
  obtain ⟨charge, hs⟩ := h.slots
  apply List.ext_getElem?
  intro j
  rw [hs, List.getElem?_map, List.getElem?_mapIdx, List.getElem?_map]
  cases w.slots[j]? <;> simp [hf]

theorem getElem? (h : Found w w') {j : Nat} {slot' : Slot} (hj : w'.slots[j]? = some slot') :
    ∃ slot charged, w.slots[j]? = some slot ∧ slot' = { slot with charged := charged } := by
  obtain ⟨charge, hs⟩ := h.slots
  rw [hs, List.getElem?_mapIdx] at hj
  obtain ⟨slot, hslot, rfl⟩ := Option.map_eq_some_iff.mp hj
  exact ⟨slot, _, hslot, rfl⟩

end Found

theorem found_charge (w : Writer) (i : Nat) (filling : Option Nat) :
    Found w { w with
      slots := w.slots.modify i fun s => { s with charged := s.charged + 1 }, filling := filling } := by
  refine ⟨rfl, fun j slot => if j = i then slot.charged + 1 else slot.charged, ?_⟩
  refine (List.mapIdx_eq_iff.mpr fun j => ?_).symm
  rw [List.getElem?_modify]
  by_cases hji : j = i
  · cases w.slots[j]? <;> simp [hji]
  · cases w.slots[j]? <;> simp [hji, Ne.symm hji]

theorem found_slotFor (srv : Server σ) (uri : Uri) (w : Writer) (site : Site σ) :
    Found w (w.slotFor srv uri site).2.1 := by
  unfold slotFor
  split
  · exact Found.refl w
  · split
    · split
      · exact Found.refl w
      · split
        · exact Found.refl w
        · exact found_charge w _ _
    · split
      · split
        · exact Found.refl w
        · exact Found.refl w
      · exact Found.refl w

theorem Fits.found {w w' : Writer} {m : Placement.Manager} (h : w.Fits m) (hw : Found w w')
    (hfill : ∀ i, w'.filling = some i → i < w.slots.length) : w'.Fits m where
  manager := h.manager
  slots := by rw [hw.length, hw.fastLoad, h.slots]
  filling i hi := by rw [hw.length]; exact hfill i hi

theorem Fits.manager_of {w : Writer} {m m' : Placement.Manager} (h : w.Fits m) (hm : m'.Sound)
    (hcount : m'.forestCount = m.forestCount) : w.Fits m' :=
  ⟨hm, by rw [hcount, h.slots], h.filling⟩

theorem Fits.place {w : Writer} {site : Site σ} (h : w.Fits site.manager) (uri : Uri) :
    w.Fits (w.place uri site).2.manager :=
  h.manager_of (h.manager.place uri w.partition) rfl

theorem Fits.place_lt {w : Writer} {site : Site σ} (h : w.Fits site.manager)
    (hfast : w.fastLoad = true) {uri : Uri} {i : Nat} (hp : (w.place uri site).1 = .ok i) :
    i < w.slots.length := by
  rw [h.slots, if_pos hfast]
  unfold Writer.place at hp
  dsimp only at hp
  cases hr : (site.manager.place uri w.partition).1 with
  | error fault => rw [hr] at hp; cases hp
  | ok j =>
    rw [hr] at hp
    cases hp
    exact h.manager.place_lt hr

theorem Fits.resolvePartition {w : Writer} {site : Site σ} (h : w.Fits site.manager)
    (srv : Server σ) : w.Fits (w.resolvePartition srv site).2.manager := by
  have hcache (name : String) (ids : List ForestId) :
      w.Fits (site.manager.cachePartition name ids).2 := by
    refine h.manager_of (h.manager.cachePartition name ids) ?_
    unfold Placement.Manager.cachePartition
    split
    · rfl
    · split <;> rfl
  unfold Writer.resolvePartition
  split
  · exact h
  · next name _ =>
    split
    · exact h
    · split
      · exact h
      · split
        dsimp only
        split
        · exact h
        · next ids _ =>
          have hkept := hcache name ids
          split
          · next hc => rwa [hc] at hkept
          · next hc => rwa [hc] at hkept

theorem Fits.slotFor {w : Writer} {site : Site σ} (h : w.Fits site.manager) (srv : Server σ)
    (uri : Uri) :
    (w.slotFor srv uri site).2.1.Fits (w.slotFor srv uri site).2.2.manager ∧
      ∀ i, (w.slotFor srv uri site).1 = .ok i → i < w.slots.length := by
  have hplace := h.place uri
  unfold Writer.slotFor
  split
  · next hfast =>
    refine ⟨h, fun i hi => ?_⟩
    cases hi
    rw [h.slots]
    simp_all
  · next hfast =>
    have hfast : w.fastLoad = true := by simpa using hfast
    split
    · split
      · next i hi => exact ⟨h, fun j hj => by cases hj; exact h.filling i hi⟩
      · split
        · next hp =>
          rw [hp] at hplace
          exact ⟨hplace, fun i hi => by cases hi⟩
        · next i site₁ hp =>
          have hlt := h.place_lt hfast (show (w.place uri site).1 = .ok i by rw [hp])
          rw [hp] at hplace
          refine ⟨hplace.found (found_charge w i (some i)) fun j hj => ?_, fun j hj => ?_⟩
          · cases hj; exact hlt
          · cases hj; exact hlt
    · split
      · have hresolve := h.resolvePartition srv
        split
        · next hr =>
          rw [hr] at hresolve
          exact ⟨hresolve, fun i hi => by cases hi⟩
        · next site₁ hr =>
          rw [hr] at hresolve
          exact ⟨hresolve.place uri, fun i hi => hresolve.place_lt hfast hi⟩
      · exact ⟨hplace, fun i hi => h.place_lt hfast hi⟩

theorem found_receive (srv : Server σ) (files : FileStore) (uri : Uri) (source : Option Source)
    (payload : Payload) (w : Writer) (site : Site σ) :
    Found w (w.receive srv files uri source payload site).2.1 := by
  unfold receive
  split
  · exact Found.refl w
  · dsimp only
    split
    · exact Found.refl w
    · next content _ =>
      have hfound := found_slotFor srv (uri.wrap w.uriPrefix w.uriSuffix) w site
      split
      · next h => rwa [h] at hfound
      · next h => rwa [h] at hfound

theorem Fits.receive {w : Writer} {site : Site σ} (h : w.Fits site.manager) (srv : Server σ)
    (files : FileStore) (uri : Uri) (source : Option Source) (payload : Payload) :
    (w.receive srv files uri source payload site).2.1.Fits
        (w.receive srv files uri source payload site).2.2.manager ∧
      ∀ i content, (w.receive srv files uri source payload site).1 = .ok (.placed i content) →
        i < w.slots.length := by
  unfold Writer.receive
  split
  · exact ⟨h, fun i content hr => by cases hr⟩
  · dsimp only
    split
    · exact ⟨h, fun i content hr => by cases hr⟩
    · obtain ⟨hfits, hlt⟩ := h.slotFor srv (uri.wrap w.uriPrefix w.uriSuffix)
      split
      · next hs =>
        rw [hs] at hfits
        exact ⟨hfits, fun i content hr => by cases hr⟩
      · next j w₁ site₁ hs =>
        rw [hs] at hfits hlt
        refine ⟨hfits, fun i content hr => ?_⟩
        cases hr
        exact hlt j rfl

section

variable {w : Writer} {site : Site σ} (srv : Server σ) (uri : Uri)

theorem slotFor_shared (hfast : w.fastLoad = false) : w.slotFor srv uri site = (.ok 0, w, site) := by
  simp [slotFor, hfast]

theorem slotFor_filling (hfast : w.fastLoad = true) (hload : site.manager.kind = .statistical)
    {i : Nat} (hi : w.filling = some i) : w.slotFor srv uri site = (.ok i, w, site) := by
  simp [slotFor, hfast, hload, hi]

theorem slotFor_unplaced (hfast : w.fastLoad = true) (hload : site.manager.kind = .statistical)
    (hnone : w.filling = none) {fault : Fault TransferError} {site₁ : Site σ}
    (hplace : w.place uri site = (.error fault, site₁)) :
    w.slotFor srv uri site = (.error fault, w, site₁) := by
  simp [slotFor, hfast, hload, hnone, hplace]

theorem slotFor_charge (hfast : w.fastLoad = true) (hload : site.manager.kind = .statistical)
    (hnone : w.filling = none) {i : Nat} {site₁ : Site σ}
    (hplace : w.place uri site = (.ok i, site₁)) :
    w.slotFor srv uri site = (.ok i, { w with
      slots := w.slots.modify i fun s => { s with charged := s.charged + 1 }, filling := some i }, site₁) := by
  rw [slotFor, if_neg (by simp [hfast]), if_pos hload]
  simp only [hnone, hplace]

def placeKnown (uri : Uri) (partition : Option String) (m : Placement.Manager) :
    Except TransferError Unit → Except (Fault TransferError) Nat × Placement.Manager
  | .error e => (.error (.failed e), m)
  | .ok () => ((m.place uri partition).1.mapError (Fault.map .placement), (m.place uri partition).2)

theorem slotFor_lookup (hfast : w.fastLoad = true) (hload : site.manager.kind ≠ .statistical)
    (hlookup : site.manager.kind.partitioned = true) {r : Except TransferError Unit} {site₁ : Site σ}
    (hr : w.resolvePartition srv site = (r, site₁)) :
    w.slotFor srv uri site = ((placeKnown uri w.partition site₁.manager r).1, w,
      { site₁ with manager := (placeKnown uri w.partition site₁.manager r).2 }) := by
  simp only [slotFor, hfast, hload, hlookup, hr, Bool.not_true, Bool.false_eq_true, if_false, if_true]
  cases r <;> rfl

theorem slotFor_place (hfast : w.fastLoad = true) (hload : site.manager.kind ≠ .statistical)
    (hlookup : site.manager.kind.partitioned = false) :
    w.slotFor srv uri site = ((w.place uri site).1, w, (w.place uri site).2) := by
  simp [slotFor, hfast, hload, hlookup]

end

theorem receive_skipping (srv : Server σ) {files : FileStore} {uri : Uri} {source : Option Source}
    {payload : Payload} {w : Writer} (site : Site σ) (hopen : w.closed = false) {e : ContentError}
    (hcontent : Content.create files w.options source (uri.wrap w.uriPrefix w.uriSuffix) payload =
      .error e) :
    w.receive srv files uri source payload site = (.ok (.skipped e), w, site) := by
  simp [receive, hopen, hcontent]

theorem receive_placing (srv : Server σ) {files : FileStore} {uri : Uri} {source : Option Source}
    {payload : Payload} {w : Writer} (site : Site σ) (hopen : w.closed = false) {content : Content}
    (hcontent : Content.create files w.options source (uri.wrap w.uriPrefix w.uriSuffix) payload =
      .ok content) :
    w.receive srv files uri source payload site =
      ((w.slotFor srv (uri.wrap w.uriPrefix w.uriSuffix) site).1.map (.placed · content),
        (w.slotFor srv (uri.wrap w.uriPrefix w.uriSuffix) site).2) := by
  simp only [receive, hopen, hcontent, Bool.false_eq_true, if_false]
  cases w.slotFor srv (uri.wrap w.uriPrefix w.uriSuffix) site with
  | mk r s => cases r <;> rfl

theorem receive_closed {w : Writer} (h : w.closed = true) (srv : Server σ) (files : FileStore)
    (uri : Uri) (source : Option Source) (payload : Payload) (site : Site σ) :
    w.receive srv files uri source payload site = (.error (.failed .closed), w, site) := by
  simp [receive, h]

theorem receive_cases (srv : Server σ) (files : FileStore) (uri : Uri) (source : Option Source)
    (payload : Payload) (w : Writer) (site : Site σ) :
    w.receive srv files uri source payload site = (.error (.failed .closed), w, site) ∨
    (∃ e, w.receive srv files uri source payload site = (.ok (.skipped e), w, site)) ∨
    ∃ content, w.receive srv files uri source payload site =
      ((w.slotFor srv (uri.wrap w.uriPrefix w.uriSuffix) site).1.map (.placed · content),
        (w.slotFor srv (uri.wrap w.uriPrefix w.uriSuffix) site).2) := by
  cases hclosed : w.closed with
  | true => exact .inl (receive_closed hclosed srv files uri source payload site)
  | false =>
    cases hcontent : Content.create files w.options source (uri.wrap w.uriPrefix w.uriSuffix) payload with
    | error e => exact .inr (.inl ⟨e, receive_skipping srv site hclosed hcontent⟩)
    | ok content => exact .inr (.inr ⟨content, receive_placing srv site hclosed hcontent⟩)

/-- A document is turned away, passed over or pushed on its slot. -/
theorem write_cases (srv : Server σ) (files : FileStore) (uri : Uri) (source : Option Source)
    (payload : Payload) (w : Writer) (site : Site σ) :
    (∃ fault w₁ site₁, w.receive srv files uri source payload site = (.error fault, w₁, site₁) ∧
      w.write srv files uri source payload site = (.error fault, w₁, site₁)) ∨
    (∃ e w₁ site₁, w.receive srv files uri source payload site = (.ok (.skipped e), w₁, site₁) ∧
      w.write srv files uri source payload site = w₁.skip source e site₁) ∨
    ∃ i content w₁ site₁,
      w.receive srv files uri source payload site = (.ok (.placed i content), w₁, site₁) ∧
      w.write srv files uri source payload site = w₁.push srv i content site₁ := by
  unfold write
  match w.receive srv files uri source payload site with
  | (.error fault, w₁, site₁) => exact .inl ⟨fault, w₁, site₁, rfl, rfl⟩
  | (.ok (.skipped e), w₁, site₁) => exact .inr (.inl ⟨e, w₁, site₁, rfl, rfl⟩)
  | (.ok (.placed i content), w₁, site₁) => exact .inr (.inr ⟨i, content, w₁, site₁, rfl, rfl⟩)

theorem drain_cons_error {srv : Server σ} {i : Nat} {w w₁ : Writer} {site site₁ : Site σ}
    {fault : Fault TransferError} (h : w.drainSlot srv i site = (.error fault, w₁, site₁))
    (is : List Nat) :
    drain srv (i :: is) w site = (.error fault, w₁, site₁) := by
  simp [drain, h]

theorem drain_cons_ok {srv : Server σ} {i : Nat} {w w₁ : Writer} {site site₁ : Site σ}
    {first : Except TransferError Unit} (h : w.drainSlot srv i site = (.ok first, w₁, site₁))
    (is : List Nat) :
    (drain srv (i :: is) w site).2 = (drain srv is w₁ site₁).2 := by
  rw [drain, h]
  dsimp only
  cases drain srv is w₁ site₁ with
  | mk result s => cases result <;> rfl

theorem drain_cons_overflow {srv : Server σ} {i : Nat} {w w₁ : Writer} {site site₁ : Site σ}
    {first : Except TransferError Unit} (h : w.drainSlot srv i site = (.ok first, w₁, site₁)) {is : List Nat}
    {kind : Overflow} (hlater : (drain srv is w₁ site₁).1 = .error (.overflow kind)) :
    (drain srv (i :: is) w site).1 = .error (.overflow kind) := by
  rw [drain, h]
  dsimp only
  cases hd : drain srv is w₁ site₁ with
  | mk result s =>
    rw [hd] at hlater
    cases hlater
    rfl

/-- A relation that draining one slot keeps to, and that can be chained, is kept by draining many. -/
theorem drain_induction {srv : Server σ} {R : Writer × Site σ → Writer × Site σ → Prop}
    (refl : ∀ s, R s s) (trans : ∀ {a b c}, R a b → R b c → R a c)
    (slot : ∀ i w site, R (w, site) (w.drainSlot srv i site).2) (is : List Nat) (w : Writer)
    (site : Site σ) : R (w, site) (drain srv is w site).2 := by
  induction is generalizing w site with
  | nil => exact refl _
  | cons i is ih =>
    have hslot := slot i w site
    match h : w.drainSlot srv i site with
    | (.error fault, w₁, site₁) =>
      rw [h] at hslot
      rwa [drain_cons_error h]
    | (.ok first, w₁, site₁) =>
      rw [h] at hslot
      rw [drain_cons_ok h]
      exact trans hslot (ih w₁ site₁)

theorem drain_settings (srv : Server σ) (is : List Nat) (w : Writer) (site : Site σ) :
    (drain srv is w site).2.1.terms = w.terms ∧ (drain srv is w site).2.1.closed = w.closed ∧
      (drain srv is w site).2.1.slots.length = w.slots.length := by
  refine drain_induction (R := fun s s' => s'.1.terms = s.1.terms ∧ s'.1.closed = s.1.closed ∧
    s'.1.slots.length = s.1.slots.length) (fun _ => ⟨rfl, rfl, rfl⟩) ?_ ?_ is w site
  · rintro a b c ⟨h₁, h₂, h₃⟩ ⟨h₁', h₂', h₃'⟩
    exact ⟨h₁'.trans h₁, h₂'.trans h₂, h₃'.trans h₃⟩
  · intro i w site
    have h := beside_drainSlot srv i w site
    exact ⟨h.terms, h.closed, h.length⟩

theorem counters_flush (srv : Server σ) (i : Nat) (closing : Bool) (w : Writer) (site : Site σ) :
    (w.flush srv i closing site).2.2.counters = site.counters := by
  cases hi : w.slots[i]? with
  | none => simp [flush, hi]
  | some slot =>
    obtain ⟨d, -, h⟩ | ⟨e, n, d, count, -, h⟩ | ⟨e, n, d, kind, -, h⟩ :=
      flush_cases srv closing site hi
    all_goals rw [h]; rfl

theorem counters_push (srv : Server σ) (i : Nat) (content : Content) (w : Writer) (site : Site σ) :
    (w.push srv i content site).2.2.counters = site.counters := by
  unfold push
  dsimp only
  split
  · exact counters_flush srv i false _ site
  · rfl

theorem counters_drainSlot (srv : Server σ) (i : Nat) (w : Writer) (site : Site σ) :
    (w.drainSlot srv i site).2.2.counters = site.counters := by
  have hflush : (if w.isBusy i then w.flush srv i true site else (.ok (), w, site)).2.2.counters =
      site.counters := by
    split
    · exact counters_flush srv i true w site
    · rfl
  obtain ⟨kind, h, -⟩ | ⟨result, w₁, site₁, h, hd⟩ := drainSlot_cases srv i w site
  · rwa [h] at hflush
  · rw [h] at hflush
    rw [hd, ← hflush]
    unfold hangUp
    split <;> rfl

theorem counters_drain (srv : Server σ) (is : List Nat) (w : Writer) (site : Site σ) :
    (drain srv is w site).2.2.counters = site.counters :=
  drain_induction (R := fun s s' => s'.2.counters = s.2.counters) (fun _ => rfl)
    (fun h h' => h'.trans h) (fun i w site => counters_drainSlot srv i w site) is w site

theorem counters_place (uri : Uri) (w : Writer) (site : Site σ) :
    (w.place uri site).2.counters = site.counters := rfl

theorem counters_resolvePartition (srv : Server σ) (w : Writer) (site : Site σ) :
    (w.resolvePartition srv site).2.counters = site.counters := by
  unfold resolvePartition
  split
  · rfl
  · split
    · rfl
    · split
      · rfl
      · split
        dsimp only
        split
        · rfl
        · split <;> rfl

theorem counters_slotFor (srv : Server σ) (uri : Uri) (w : Writer) (site : Site σ) :
    (w.slotFor srv uri site).2.2.counters = site.counters := by
  have hresolve := counters_resolvePartition srv w site
  unfold slotFor
  split
  · rfl
  · split
    · split
      · rfl
      · split
        · next h => rw [← counters_place uri w site, h]
        · next h => rw [← counters_place uri w site, h]
    · split
      · split
        · next h => rwa [h] at hresolve
        · next h => rwa [h] at hresolve
      · rfl

theorem counters_receive (srv : Server σ) (files : FileStore) (uri : Uri) (source : Option Source)
    (payload : Payload) (w : Writer) (site : Site σ) :
    (w.receive srv files uri source payload site).2.2.counters = site.counters := by
  unfold receive
  split
  · rfl
  · dsimp only
    split
    · rfl
    · have hslot := counters_slotFor srv (uri.wrap w.uriPrefix w.uriSuffix) w site
      split
      · next h => rwa [h] at hslot
      · next h => rwa [h] at hslot

theorem Fits.drain {w : Writer} {site : Site σ} (h : w.Fits site.manager) (srv : Server σ)
    (is : List Nat) :
    (Writer.drain srv is w site).2.1.Fits (Writer.drain srv is w site).2.2.manager :=
  drain_induction (R := fun s s' => s.1.Fits s.2.manager → s'.1.Fits s'.2.manager) (fun _ => id)
    (fun h h' => h' ∘ h) (fun i _ _ h => h.drainSlot srv i) is w site h

theorem Fits.close {w : Writer} {site : Site σ} (h : w.Fits site.manager) (srv : Server σ) :
    (w.close srv site).2.1.Fits (w.close srv site).2.2.manager ∧
      (w.close srv site).2.1.slots.length = w.slots.length := by
  have hclosing : Fits { w with closed := true } site.manager := ⟨h.manager, h.slots, h.filling⟩
  have hkept := hclosing.drain srv (List.range w.slots.length)
  have hlen := (drain_settings srv (List.range w.slots.length) { w with closed := true } site).2.2
  unfold Writer.close
  split
  · exact ⟨h, rfl⟩
  · split
    · next hd =>
      rw [hd] at hkept hlen
      exact ⟨hkept, hlen⟩
    · next hd =>
      rw [hd] at hkept hlen
      exact ⟨hkept, hlen⟩

end ForestCourier.Writer
