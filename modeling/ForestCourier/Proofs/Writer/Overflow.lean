import ForestCourier.Proofs.Placement.Balance
import ForestCourier.Proofs.Writer.Conservation
import ForestCourier.Proofs.Writer.Solvency

/-!
Where the steps of writers overflow that share a manager which places by load. To give charges back never does, as
the loads cover them. What is left is the charge of a document that starts a batch, and that overflows only if it
does so on every forest.
-/

namespace ForestCourier.Writer

variable {σ : Type}

def failure? {ε α : Type} : Except ε α → Option ε
  | .error fault => some fault
  | .ok _ => none

theorem failure?_eq_some {ε α : Type} {r : Except ε α} {fault : ε} (h : failure? r = some fault) :
    r = .error fault := by
  cases r with
  | error e => cases h; rfl
  | ok x => cases h

def Hand.fault? (srv : Server σ) (hand : Hand) (site : Site σ) : Option (Fault TransferError) :=
  match hand.work with
  | .receiving files uri source payload =>
    if (hand.writer.unresolved? files uri source payload site.manager).isSome then none
    else failure? (hand.writer.receive srv files uri source payload site).1
  | .inquiring _ _ partition inquiry =>
    match (inquiry.step srv hand.writer partition site).1 with
    | .inl (.error e) => some (.failed e)
    | _ => none
  | .placing uri _ => failure? (hand.writer.place uri site).1
  | .pushing i content => failure? (hand.writer.push srv i content site).1
  | .draining (i :: _) => failure? (hand.writer.drainSlot srv i site).1
  | _ => none

theorem Hand.fault_of_receive (srv : Server σ) {files : FileStore} {uri : Uri} {source : Option Source}
    {payload : Payload} {w : Writer} {site : Site σ} {kind : Overflow}
    (h : (w.receive srv files uri source payload site).1 = .error (.overflow kind)) :
    ∃ n, (goes srv n ⟨w, .receiving files uri source payload⟩ site).1.fault? srv
      (goes srv n ⟨w, .receiving files uri source payload⟩ site).2 = some (.overflow kind) := by
  cases hlookup : w.unresolved? files uri source payload site.manager with
  | none =>
    have hfault : fault? srv ⟨w, .receiving files uri source payload⟩ site =
        failure? (w.receive srv files uri source payload site).1 := by
      simp only [fault?, hlookup, Option.isSome_none, Bool.false_eq_true, if_false]
    exact ⟨0, hfault.trans (congrArg failure? h)⟩
  | some missing =>
    obtain ⟨content, partition⟩ := missing
    obtain ⟨n, hn⟩ := goes_inquire srv w (uri.wrap w.uriPrefix w.uriSuffix) content partition (.search w.hosts none) site
    rw [receive_unresolved srv hlookup] at h
    cases hr : (Inquiry.search w.hosts none).result srv w partition site with
    | mk r site₁ =>
      rw [hr] at hn h
      cases r with
      | error e => cases h
      | ok u =>
        refine ⟨n + 1, ?_⟩
        rw [goes_succ, go_unresolved srv hlookup, hn]
        change failure? (w.place (uri.wrap w.uriPrefix w.uriSuffix) site₁).1 = _
        dsimp only at h
        cases hp : (w.place (uri.wrap w.uriPrefix w.uriSuffix) site₁).1 with
        | error fault =>
          rw [hp] at h
          cases h
          rfl
        | ok i =>
          rw [hp] at h
          cases h

theorem Hand.fault_of_drain (srv : Server σ) (is : List Nat) {w : Writer} {site : Site σ} {kind : Overflow}
    (h : (drain srv is w site).1 = .error (.overflow kind)) :
    ∃ n, (goes srv n ⟨w, .draining is⟩ site).1.fault? srv (goes srv n ⟨w, .draining is⟩ site).2 =
      some (.overflow kind) := by
  induction is generalizing w site with
  | nil => cases h
  | cons i is ih =>
    cases hd : w.drainSlot srv i site with
    | mk result state =>
      obtain ⟨w₁, site₁⟩ := state
      cases result with
      | error fault =>
        rw [drain_cons_error hd] at h
        cases h
        exact ⟨0, congrArg failure? (congrArg Prod.fst hd)⟩
      | ok first =>
        have hgo : go srv ⟨w, .draining (i :: is)⟩ site = (⟨w₁, .draining is⟩, site₁) := by
          simp [go, hd]
        have hlater : (drain srv is w₁ site₁).1 = .error (.overflow kind) := by
          rw [drain, hd] at h
          dsimp only at h
          split at h
          · next hr =>
            rw [hr]
            exact h
          · cases h
        obtain ⟨n, hn⟩ := ih hlater
        refine ⟨n + 1, ?_⟩
        rw [goes_succ, hgo]
        exact hn

theorem Call.fault_of_run (srv : Server σ) (call : Call) {w : Writer} {site : Site σ} {kind : Overflow}
    (h : (call.run srv w site).1 = .error (.overflow kind)) :
    ∃ n, ((call.begin w).goes srv n site).1.fault? srv ((call.begin w).goes srv n site).2 =
      some (.overflow kind) := by
  cases call with
  | write files uri source payload =>
    dsimp only [Call.run, Call.begin] at h ⊢
    obtain ⟨fault, w₁, site₁, hr, hw⟩ | ⟨e, w₁, site₁, -, hw⟩ | ⟨i, content, w₁, site₁, hr, hw⟩ :=
      write_cases srv files uri source payload w site
    · rw [hw] at h
      cases h
      exact Hand.fault_of_receive srv (congrArg Prod.fst hr)
    · rw [hw] at h
      cases h
    · rw [hw] at h
      obtain ⟨n, hn⟩ := Hand.goes_receive srv files uri source payload w site
      refine ⟨n, ?_⟩
      rw [hn, Hand.received, hr]
      exact congrArg failure? h
  | close =>
    dsimp only [Call.run, Call.begin] at h ⊢
    rw [Writer.close] at h
    split at h
    · cases h
    · next hopen =>
      rw [if_neg hopen]
      refine Hand.fault_of_drain srv _ ?_
      split at h
      · next hd =>
        rw [hd]
        exact congrArg Except.error (Except.error.inj h)
      · next result _ _ _ =>
        cases result <;> cases h

section Unbroken

variable {reserve : Nat → Nat} {w : Writer} {site : Site σ} {kind : Overflow}

theorem Backed.push_unbroken (h : w.Backed reserve site.manager) (srv : Server σ) (i : Nat) (content : Content) :
    (w.push srv i content site).1 ≠ .error (.overflow kind) := by
  unfold Writer.push
  dsimp only
  split
  · exact (h.gather i content).flush_unbroken srv i false kind
  · nofun

theorem Backed.drainSlot_unbroken (h : w.Backed reserve site.manager) (srv : Server σ) (i : Nat) :
    (w.drainSlot srv i site).1 ≠ .error (.overflow kind) := by
  obtain ⟨kind', hd, -⟩ | ⟨result, w₁, site₁, -, he⟩ := drainSlot_cases srv i w site
  · split at hd
    · exact absurd (congrArg Prod.fst hd) (h.flush_unbroken srv i true kind')
    · cases hd
  · rw [he]
    nofun

variable {batch : UInt64} {loads : List UInt64}

/-- A document that is placed by load overflows only if there is no forest with room for a batch. -/
theorem slotFor_overflow (srv : Server σ) (uri : Uri) (hfast : w.fastLoad = true)
    (hm : site.manager.policy = .statistical ⟨batch, loads⟩) (hloads : loads ≠ [])
    (h : (w.slotFor srv uri site).1 = .error (.overflow kind)) :
    kind = .addition ∧ w.filling = none ∧ ∀ i < loads.length, 2 ^ 64 ≤ site.manager.load i + batch.toNat := by
  have hload : site.manager.kind = .statistical := by rw [Placement.Manager.kind, hm]; rfl
  cases hfilling : w.filling with
  | some i =>
    rw [slotFor_filling srv uri hfast hload hfilling] at h
    cases h
  | none =>
    obtain ⟨i, -, hcharges, -⟩ := Placement.Manager.place_charges hm hloads uri w.partition
    have hplace : (w.place uri site).1 =
        (site.manager.place uri w.partition).1.mapError (Fault.map .placement) := rfl
    rw [hcharges.answer] at hplace
    cases hp : w.place uri site with
    | mk r site₁ =>
      rw [hp] at hplace
      split at hplace
      · subst hplace
        rw [slotFor_charge srv uri hfast hload hfilling hp] at h
        cases h
      · next hfull =>
        subst hplace
        rw [slotFor_unplaced srv uri hfast hload hfilling hp] at h
        cases h
        refine ⟨rfl, rfl, fun j hj => ?_⟩
        have hleast : site.manager.load i ≤ site.manager.load j := hcharges.lightest.least j hj
        omega

theorem receive_overflow (srv : Server σ) (files : FileStore) (uri : Uri) (source : Option Source)
    (payload : Payload) (hfast : w.fastLoad = true) (hm : site.manager.policy = .statistical ⟨batch, loads⟩)
    (hloads : loads ≠ []) (h : (w.receive srv files uri source payload site).1 = .error (.overflow kind)) :
    kind = .addition ∧ w.closed = false ∧ w.filling = none ∧
      ∀ i < loads.length, 2 ^ 64 ≤ site.manager.load i + batch.toNat := by
  have hopen : w.closed = false := Bool.eq_false_iff.mpr fun hclosed => by
    rw [receive_closed hclosed] at h
    cases h
  obtain hr | ⟨e, hr⟩ | ⟨content, hr⟩ := receive_cases srv files uri source payload w site
  · rw [hr] at h
    cases h
  · rw [hr] at h
    cases h
  · rw [hr] at h
    have hslot : (w.slotFor srv (uri.wrap w.uriPrefix w.uriSuffix) site).1 = .error (.overflow kind) := by
      cases hs : (w.slotFor srv (uri.wrap w.uriPrefix w.uriSuffix) site).1 with
      | error fault =>
        rw [hs] at h
        cases h
        rfl
      | ok i =>
        rw [hs] at h
        cases h
    obtain ⟨hkind, hfilling, hfull⟩ := slotFor_overflow srv _ hfast hm hloads hslot
    exact ⟨hkind, hopen, hfilling, hfull⟩

end Unbroken

namespace Crew.Conserves

variable {batch : UInt64} {documents : List UInt64} {crew : Crew σ} {k : Nat} {hand : Hand}

theorem load_le (h : crew.Conserves batch documents) {i : Nat} {count : UInt64} (hi : documents[i]? = some count) :
    crew.site.manager.load i ≤ count.toNat + batch.toNat * started i crew.deeds := by
  obtain ⟨loads, hm, hlength, haccount⟩ := h.loads
  have hlt : i < loads.length := hlength ▸ (List.getElem?_eq_some_iff.mp hi).1
  have hload : loads[i]? = some loads[i] := List.getElem?_eq_getElem hlt
  have hsame : crew.site.manager.load i = loads[i].toNat := by
    rw [Placement.Manager.load, hm, Placement.Policy.load_statistical, hload, Option.getD_some]
  have := haccount i _ count hload hi
  omega

theorem backed (h : crew.Conserves batch documents) (hk : crew.hands[k]? = some hand) :
    hand.writer.Backed (fun _ => 0) crew.site.manager := by
  obtain ⟨loads, hm, hlength, haccount⟩ := h.loads
  obtain ⟨howes, -⟩ := h.hands k hand hk
  refine .of_slots (fun _ => ⟨loads, howes.batchSize ▸ hm⟩) fun i slot hi => ?_
  have hlt : i < documents.length := howes.length ▸ (List.getElem?_eq_some_iff.mp hi).1
  have hlt' : i < loads.length := hlength ▸ hlt
  have hload : loads[i]? = some loads[i] := List.getElem?_eq_getElem hlt'
  have hcover := load_covers (haccount i _ _ hload (List.getElem?_eq_getElem hlt)) {k}
  rw [Finset.sum_singleton, ← howes.charged i slot hi] at hcover
  rw [hm, Placement.Policy.load_statistical, hload, howes.batchSize, Nat.mul_comm]
  exact Nat.le_trans (Nat.le_add_left _ _) hcover

/-- A step overflows only where a document starts a batch and no forest has room for one. -/
theorem fault_cases (h : crew.Conserves batch documents) (hdocuments : documents ≠ []) {srv : Server σ}
    (hk : crew.hands[k]? = some hand) {kind : Overflow}
    (hfault : hand.fault? srv crew.site = some (.overflow kind)) :
    kind = .addition ∧ (∃ files uri source payload, hand.work = .receiving files uri source payload) ∧
      hand.writer.closed = false ∧ hand.writer.filling = none ∧
      ∀ i < documents.length, 2 ^ 64 ≤ crew.site.manager.load i + batch.toNat := by
  have hbacked := h.backed hk
  obtain ⟨howes, hwork⟩ := h.hands k hand hk
  obtain ⟨w, work⟩ := hand
  cases work with
  | idle => cases hfault
  | inquiring | placing => cases hwork
  | receiving files uri source payload =>
    obtain ⟨loads, hm, hlength, -⟩ := h.loads
    have hload : crew.site.manager.kind = .statistical := by rw [Placement.Manager.kind, hm]; rfl
    simp only [Hand.fault?, unresolved?_statistical hload, Option.isSome_none, Bool.false_eq_true, if_false] at hfault
    have hloads : loads ≠ [] := by
      rw [← List.length_pos_iff_ne_nil, hlength]
      exact List.length_pos_of_ne_nil hdocuments
    obtain ⟨hkind, hopen, hfilling, hfull⟩ :=
      receive_overflow srv files uri source payload howes.fastLoad hm hloads (failure?_eq_some hfault)
    exact ⟨hkind, ⟨files, uri, source, payload, rfl⟩, hopen, hfilling, hlength ▸ hfull⟩
  | pushing i content => exact absurd (failure?_eq_some hfault) (hbacked.push_unbroken srv i content)
  | draining is =>
    cases is with
    | nil => cases hfault
    | cons i is => exact absurd (failure?_eq_some hfault) (hbacked.drainSlot_unbroken srv i)

end Crew.Conserves

end ForestCourier.Writer
