import ForestCourier.Proofs.Writer.Flushes

/-!
What is pending on the slots of a writer, and the batches that it makes. A document that is pushed joins what is
pending on its slot, a flush takes all of that along, and by load a document goes to the slot that is filling up.
What was placed is dispatched if it is cut into the batches that were flushed, and something left over.
-/

namespace ForestCourier.Writer

variable {σ : Type}

def pendingAt (w : Writer) (i : Nat) : List Content := ((w.slots[i]?).map (·.pending)).getD []

def lone (i : Nat) (docs : List Content) : Nat → List Content := Function.update (fun _ => []) i docs

theorem lone_self (i : Nat) (docs : List Content) : lone i docs i = docs := Function.update_self ..

theorem lone_of_ne {i j : Nat} (h : j ≠ i) (docs : List Content) : lone i docs j = [] := Function.update_of_ne h ..

theorem lone_nil (i : Nat) : lone i [] = fun _ => [] := Function.update_eq_self i fun _ => []

theorem update_lone (i : Nat) (docs docs' : List Content) : Function.update (lone i docs) i docs' = lone i docs' :=
  Function.update_idem ..

theorem update_lone_of_nil {i j : Nat} {docs : List Content} (h : lone i docs j = []) :
    Function.update (lone i docs) j [] = lone i docs := by
  rw [← h, Function.update_eq_self]

section

variable {w w' : Writer} {i : Nat}

theorem pendingAt_eq {slot : Slot} (hi : w.slots[i]? = some slot) : w.pendingAt i = slot.pending := by
  rw [pendingAt, hi]
  rfl

theorem pendingAt_of_map (h : w'.slots.map (·.pending) = w.slots.map (·.pending)) : w'.pendingAt = w.pendingAt := by
  funext i
  rw [pendingAt, pendingAt, ← List.getElem?_map, ← List.getElem?_map, h]

theorem pendingAt_found (h : Found w w') : w'.pendingAt = w.pendingAt :=
  pendingAt_of_map (h.map_slots fun _ _ => rfl)

theorem pendingAt_new {config : Config.Output} {fastLoad : Bool} {m : Placement.Manager} {task : Nat}
    (hw : Writer.new config fastLoad m task = .ok w) (i : Nat) : w.pendingAt = lone i [] := by
  rw [lone_nil]
  funext j
  cases hj : w.slots[j]? with
  | none =>
    rw [pendingAt, hj]
    rfl
  | some slot =>
    obtain ⟨route, rfl⟩ := new_slot hw hj
    exact pendingAt_eq hj

theorem pendingAt_beside (h : Beside i w w') : w'.pendingAt = Function.update w.pendingAt i (w'.pendingAt i) := by
  refine Function.eq_update_iff.mpr ⟨rfl, fun j hj => ?_⟩
  rw [pendingAt, pendingAt, h.others j hj]

theorem pendingAt_gather (hi : i < w.slots.length) (content : Content) :
    (w.gather i content).pendingAt = Function.update w.pendingAt i (w.pendingAt i ++ [content]) := by
  have hslot : w.slots[i]? = some w.slots[i] := List.getElem?_eq_getElem hi
  have hgathered : (w.gather i content).slots[i]? =
      some { w.slots[i] with pending := w.slots[i].pending ++ [content], stage := .batching } := by
    simp [gather, hslot]
  rw [pendingAt_beside (beside_gather i content w), pendingAt_eq hgathered, pendingAt_eq hslot]

theorem pendingAt_flush (srv : Server σ) (i : Nat) (closing : Bool) (w : Writer) (site : Site σ) :
    (w.flush srv i closing site).2.1.pendingAt = Function.update w.pendingAt i [] := by
  rw [pendingAt_beside (beside_flush srv i closing w site)]
  congr 1
  cases hi : w.slots[i]? with
  | none => simp [flush, hi, pendingAt]
  | some slot =>
    have hlt : i < w.slots.length := (List.getElem?_eq_some_iff.mp hi).1
    have hpending := pending_delivery srv closing slot w site
    obtain ⟨d, hd, hf⟩ | ⟨e, n, d, count, hd, hf⟩ | ⟨e, n, d, kind, hd, hf⟩ := flush_cases srv closing site hi
    all_goals
      rw [hd] at hpending
      rw [hf, pendingAt_eq (getElem?_put hlt _ _)]
    · exact hpending
    · exact (Delivery.pending_clear srv w.terms d).trans hpending
    · exact (Delivery.pending_clear srv w.terms d).trans hpending

theorem filling_flush (srv : Server σ) (closing : Bool) (site : Site σ) (hi : i < w.slots.length) :
    (w.flush srv i closing site).2.1.filling = (w.leave i).filling := by
  obtain ⟨d, -, hf⟩ | ⟨e, n, d, count, -, hf⟩ | ⟨e, n, d, kind, -, hf⟩ :=
    flush_cases srv closing site (List.getElem?_eq_getElem hi)
  all_goals
    rw [hf]
    rfl

theorem leave_filling (j : Nat) (h : w.filling = some i ∨ w.filling = none) :
    (w.leave j).filling = some i ∨ (w.leave j).filling = none ∧ (j = i ∨ w.filling = none) := by
  rw [leave]
  rcases h with hi | hnone
  · by_cases hj : w.filling = some j
    · exact .inr ⟨if_pos hj, .inl (Option.some.inj (hj.symm.trans hi))⟩
    · exact .inl ((if_neg hj).trans hi)
  · exact .inr ⟨(if_neg fun hj => by cases hnone.symm.trans hj).trans hnone, .inr hnone⟩

theorem isFull_gather (hi : i < w.slots.length) (content : Content) :
    (w.gather i content).isFull i = true ↔ w.terms.batchSize.toNat ≤ (w.pendingAt i).length + 1 := by
  simp [isFull, gather, pendingAt, hi]

theorem isBusy_lt (h : w.isBusy i = true) : i < w.slots.length := by
  obtain ⟨slot, hslot⟩ := Option.isSome_iff_exists.mp (Option.isSome_of_any h)
  exact (List.getElem?_eq_some_iff.mp hslot).1

theorem pendingAt_hangUp (srv : Server σ) (i : Nat) (w : Writer) (site : Site σ) :
    (w.hangUp srv i site).1.pendingAt = w.pendingAt := by
  refine pendingAt_of_map ?_
  rw [hangUp_slots]
  apply map_modify_of_eq
  intro slot
  rfl

theorem filling_hangUp (srv : Server σ) (i : Nat) (w : Writer) (site : Site σ) :
    (w.hangUp srv i site).1.filling = w.filling := by
  unfold hangUp
  split <;> rfl

theorem drainSlot_flush (srv : Server σ) (i : Nat) (w : Writer) (site : Site σ) :
    let flushed := if w.isBusy i then w.flush srv i true site else (.ok (), w, site)
    (w.drainSlot srv i site).2.1.pendingAt = flushed.2.1.pendingAt ∧
      (w.drainSlot srv i site).2.1.filling = flushed.2.1.filling := by
  intro flushed
  obtain ⟨kind, hd, -⟩ | ⟨result, w₁, site₁, hd, he⟩ := drainSlot_cases srv i w site
  · rw [show flushed = _ from hd]
    exact ⟨rfl, rfl⟩
  · rw [show flushed = _ from hd, he]
    exact ⟨pendingAt_hangUp srv i w₁ site₁, filling_hangUp srv i w₁ site₁⟩

/-- By load, a document is placed on the slot that is filling up, and where there is none it begins to fill the one
that it is placed on. -/
theorem slotFor_by_load (srv : Server σ) (uri : Uri) {site : Site σ} (hfast : w.fastLoad = true)
    (hload : site.manager.kind = .statistical) :
    (∃ i, (w.slotFor srv uri site).1 = .ok i ∧ (w.slotFor srv uri site).2.1.filling = some i ∧
      (w.filling = none ∨ w.filling = some i)) ∨
    ∃ fault, (w.slotFor srv uri site).1 = .error fault ∧ (w.slotFor srv uri site).2.1.filling = w.filling := by
  cases hfill : w.filling with
  | some i =>
    rw [slotFor_filling srv uri hfast hload hfill]
    exact .inl ⟨i, rfl, hfill, .inr rfl⟩
  | none =>
    cases hp : w.place uri site with
    | mk r site₁ =>
      cases r with
      | error fault =>
        rw [slotFor_unplaced srv uri hfast hload hfill hp]
        exact .inr ⟨fault, rfl, hfill⟩
      | ok i =>
        rw [slotFor_charge srv uri hfast hload hfill hp]
        exact .inl ⟨i, rfl, rfl, .inl rfl⟩

theorem receive_by_load (srv : Server σ) (files : FileStore) (uri : Uri) (source : Option Source) (payload : Payload)
    {site : Site σ} (hfast : w.fastLoad = true) (hload : site.manager.kind = .statistical) :
    (∃ i content, (w.receive srv files uri source payload site).1 = .ok (.placed i content) ∧
      (w.receive srv files uri source payload site).2.1.filling = some i ∧ (w.filling = none ∨ w.filling = some i)) ∨
    (∀ i content, (w.receive srv files uri source payload site).1 ≠ .ok (.placed i content)) ∧
      (w.receive srv files uri source payload site).2.1.filling = w.filling := by
  obtain hr | ⟨e, hr⟩ | ⟨content, hr⟩ := receive_cases srv files uri source payload w site
  · rw [hr]
    exact .inr ⟨(fun _ _ h => by cases h), rfl⟩
  · rw [hr]
    exact .inr ⟨(fun _ _ h => by cases h), rfl⟩
  · rw [hr]
    obtain ⟨i, hi, hfilling, hbefore⟩ | ⟨fault, hfault, hfilling⟩ :=
      slotFor_by_load srv (uri.wrap w.uriPrefix w.uriSuffix) hfast hload
    · rw [hi]
      exact .inl ⟨i, content, rfl, hfilling, hbefore⟩
    · rw [hfault]
      exact .inr ⟨(fun _ _ h => by cases h), hfilling⟩

end

namespace Flush

def batch (f : Flush σ) : List Content := f.writer.pendingAt f.slot

def parcel (f : Flush σ) : List (Nat × Content) := f.batch.map (f.slot, ·)

def laden (flushed : List (Flush σ)) : List (Flush σ) := flushed.filter fun f => !f.batch.isEmpty

/-- Batches of which the last one alone was flushed by closing, and is not full. -/
def Ended (b : Nat) (batches : List (Flush σ)) : Prop :=
  ∃ full f, batches = full ++ [f] ∧ (∀ g ∈ full, g.closing = false) ∧ f.closing = true ∧ f.batch.length < b

variable {f : Flush σ} {b : Nat}

theorem laden_append_of_nil (flushed : List (Flush σ)) (h : f.batch = []) :
    laden (flushed ++ [f]) = laden flushed := by
  simp [laden, h]

theorem laden_append_of_ne (flushed : List (Flush σ)) (h : f.batch ≠ []) :
    laden (flushed ++ [f]) = laden flushed ++ [f] := by
  simp [laden, h]

theorem length_parcel (f : Flush σ) : f.parcel.length = f.batch.length := List.length_map ..

theorem length_parcels {batches : List (Flush σ)} (h : ∀ f ∈ batches, f.batch.length = b) :
    (batches.flatMap parcel).length = batches.length * b := by
  rw [List.length_flatMap, List.map_congr_left fun f hf => (length_parcel f).trans (h f hf), List.map_const',
    List.sum_replicate_nat]

theorem Ended.at {batches : List (Flush σ)} (h : Ended b batches) {n : Nat} (hn : batches[n]? = some f) :
    (∀ g ∈ batches.take n, g.closing = false) ∧
      (f.closing = false ∨ f.closing = true ∧ f.batch.length < b ∧ n + 1 = batches.length) := by
  obtain ⟨full, last, rfl, hfull, hclosing, hlast⟩ := h
  obtain ⟨hlt, -⟩ := List.getElem?_eq_some_iff.mp hn
  rw [List.length_append, List.length_singleton] at hlt ⊢
  refine ⟨fun g hg => ?_, ?_⟩
  · rw [List.take_append_of_le_length (Nat.le_of_lt_succ hlt)] at hg
    exact hfull g (List.mem_of_mem_take hg)
  · by_cases hend : n = full.length
    · rw [hend, List.getElem?_concat_length] at hn
      cases hn
      exact .inr ⟨hclosing, hlast, by rw [hend]⟩
    · rw [List.getElem?_append_left (by omega)] at hn
      exact .inl (hfull f (List.mem_of_getElem? hn))

end Flush

/-- Documents that were flushed in batches of `b`, but for those that are left over. Only closing flushes a batch
that is not full, and nothing is left over then. -/
structure Dispatched (b : Nat) (placed : List (Nat × Content)) (flushed : List (Flush σ)) (closed : Bool)
    (left : List (Nat × Content)) : Prop where
  account : placed = (Flush.laden flushed).flatMap Flush.parcel ++ left
  full : ∀ f ∈ flushed, f.closing = false → f.batch.length = b
  last : (∀ f ∈ Flush.laden flushed, f.closing = false) ∨
    left = [] ∧ closed = true ∧ Flush.Ended b (Flush.laden flushed)

namespace Dispatched

variable {b n : Nat} {placed left : List (Nat × Content)} {flushed : List (Flush σ)} {closed : Bool} {f : Flush σ}

theorem nil (b : Nat) (closed : Bool) : Dispatched b [] ([] : List (Flush σ)) closed [] :=
  ⟨rfl, List.forall_mem_nil _, .inl (List.forall_mem_nil _)⟩

theorem close (h : Dispatched b placed flushed closed left) : Dispatched b placed flushed true left :=
  ⟨h.account, h.full, h.last.imp_right fun hlast => ⟨hlast.1, rfl, hlast.2.2⟩⟩

theorem unclosed (h : Dispatched b placed flushed false left) : ∀ f ∈ Flush.laden flushed, f.closing = false :=
  h.last.resolve_right fun hlast => Bool.false_ne_true hlast.2.1

theorem full_of_laden (h : Dispatched b placed flushed closed left) (hf : f ∈ Flush.laden flushed)
    (hclosing : f.closing = false) : f.batch.length = b :=
  h.full f (List.mem_of_mem_filter hf) hclosing

theorem place (h : Dispatched b placed flushed false left) (d : Nat × Content) :
    Dispatched b (placed ++ [d]) flushed false (left ++ [d]) where
  account := by rw [h.account, List.append_assoc]
  full := h.full
  last := .inl h.unclosed

theorem flush (h : Dispatched b placed flushed closed left) (hf : f.parcel = left) (hne : f.batch ≠ [])
    (hopen : f.closing = false → f.batch.length = b) (hlast : f.closing = true → closed = true ∧ f.batch.length < b) :
    Dispatched b placed (flushed ++ [f]) closed [] := by
  have hunclosed : ∀ g ∈ Flush.laden flushed, g.closing = false := by
    refine h.last.resolve_right fun hlast => hne ?_
    exact List.map_eq_nil_iff.mp (hf.trans hlast.1)
  have hladen := Flush.laden_append_of_ne flushed hne
  refine ⟨?_, fun g hg hclosing => ?_, ?_⟩
  · rw [hladen, List.flatMap_append, List.flatMap_singleton, List.append_nil, hf]
    exact h.account
  · rcases List.mem_append.mp hg with hg | hg
    · exact h.full g hg hclosing
    · cases List.mem_singleton.mp hg
      exact hopen hclosing
  · rw [hladen]
    cases hclosing : f.closing with
    | false =>
      refine .inl fun g hg => ?_
      rcases List.mem_append.mp hg with hg | hg
      · exact hunclosed g hg
      · exact List.mem_singleton.mp hg ▸ hclosing
    | true => exact .inr ⟨rfl, (hlast hclosing).1, _, f, rfl, hunclosed, hclosing, (hlast hclosing).2⟩

theorem flush_nil (h : Dispatched b placed flushed closed left) (hf : f.batch = []) (hclosing : f.closing = true) :
    Dispatched b placed (flushed ++ [f]) closed left := by
  refine ⟨?_, fun g hg hg' => ?_, ?_⟩
  · rw [Flush.laden_append_of_nil flushed hf]
    exact h.account
  · rcases List.mem_append.mp hg with hg | hg
    · exact h.full g hg hg'
    · rw [List.mem_singleton.mp hg, hclosing] at hg'
      cases hg'
  · rw [Flush.laden_append_of_nil flushed hf]
    exact h.last

/-- A batch that was flushed by closing is the last one, and nothing is left over. -/
theorem cases (h : Dispatched b placed flushed closed left) (hf : (Flush.laden flushed)[n]? = some f) :
    (∀ g ∈ (Flush.laden flushed).take n, g.batch.length = b) ∧
      (f.closing = false ∧ f.batch.length = b ∨ f.closing = true ∧ f.batch.length < b ∧
        n + 1 = (Flush.laden flushed).length ∧ left = []) := by
  have hmem : f ∈ Flush.laden flushed := List.mem_of_getElem? hf
  obtain hunclosed | ⟨hleft, -, hended⟩ := h.last
  · exact ⟨fun g hg => h.full_of_laden (List.mem_of_mem_take hg) (hunclosed g (List.mem_of_mem_take hg)),
      .inl ⟨hunclosed f hmem, h.full_of_laden hmem (hunclosed f hmem)⟩⟩
  · obtain ⟨hbefore, hat⟩ := hended.at hf
    refine ⟨fun g hg => h.full_of_laden (List.mem_of_mem_take hg) (hbefore g hg), ?_⟩
    obtain hclosing | ⟨hclosing, hsmall, hend⟩ := hat
    · exact .inl ⟨hclosing, h.full_of_laden hmem hclosing⟩
    · exact .inr ⟨hclosing, hsmall, hend, hleft⟩

theorem parcel_eq (h : Dispatched b placed flushed closed left) (hf : (Flush.laden flushed)[n]? = some f) :
    f.parcel = (placed.drop (n * b)).take b := by
  obtain ⟨hlt, hget⟩ := List.getElem?_eq_some_iff.mp hf
  obtain ⟨hbefore, hat⟩ := h.cases hf
  have hlength : (((Flush.laden flushed).take n).flatMap Flush.parcel).length = n * b := by
    rw [Flush.length_parcels hbefore, List.length_take_of_le hlt.le]
  have hplaced : placed = ((Flush.laden flushed).take n).flatMap Flush.parcel ++
      (f.parcel ++ (((Flush.laden flushed).drop (n + 1)).flatMap Flush.parcel ++ left)) := by
    have hsplit : Flush.laden flushed = (Flush.laden flushed).take n ++ f :: (Flush.laden flushed).drop (n + 1) := by
      rw [← hget, ← List.drop_eq_getElem_cons hlt, List.take_append_drop]
    have haccount := h.account
    rw [hsplit, List.flatMap_append, List.flatMap_cons] at haccount
    simpa only [List.append_assoc] using haccount
  rw [hplaced, List.drop_left' hlength]
  obtain ⟨-, hfull⟩ | ⟨-, hsmall, hend, hleft⟩ := hat
  · exact (List.take_left' ((Flush.length_parcel f).trans hfull)).symm
  · rw [hend, List.drop_length, hleft, List.flatMap_nil, List.append_nil, List.append_nil,
      List.take_of_length_le ((Flush.length_parcel f).trans_le hsmall.le)]

theorem first (h : Dispatched b placed flushed closed left) (hb : 0 < b) (hf : (Flush.laden flushed)[n]? = some f) :
    ∃ content, placed[n * b]? = some (f.slot, content) := by
  have hne : f.batch ≠ [] := by simpa using (List.mem_filter.mp (List.mem_of_getElem? hf)).2
  obtain ⟨content, docs, hbatch⟩ := List.exists_cons_of_ne_nil hne
  have hparcel := h.parcel_eq hf
  rw [Flush.parcel, hbatch, List.map_cons] at hparcel
  have hhead := congrArg (·[0]?) hparcel
  rw [List.getElem?_take_of_lt hb, List.getElem?_drop] at hhead
  exact ⟨content, hhead.symm⟩

end Dispatched

end ForestCourier.Writer
