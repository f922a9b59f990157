import ForestCourier.Proofs.Writer.Digest
import ForestCourier.Proofs.Writer.Trace

/-!
Two runs whose digests are equal place a document alike. What they may learn from a server is the
forests of a partition, so that this has to be answered alike; and where no host can be reached, the
run that is not to have failed requests has no hosts at all.
-/

namespace ForestCourier

variable {σ τ : Type}

theorem Failover.openAmong_continues (srv : Server σ) (all : List String) (port : UInt16)
    (transaction : Transaction) (hosts : List String) (last : Option RequestError) (w : Wire σ) :
    w.Continues (openAmong srv all port transaction hosts last w).2 ∧
      (hosts = [] ∨ ∀ e, (openAmong srv all port transaction hosts last w).1 = .error e →
        (openAmong srv all port transaction hosts last w).2.Failed) := by
  induction hosts generalizing last w with
  | nil => exact ⟨.refl w, .inl rfl⟩
  | cons host hosts ih =>
    have hopen := Writer.continues_openSession srv ⟨host, port, none⟩ transaction w
    unfold openAmong
    split
    · next h =>
      rw [h] at hopen
      exact ⟨hopen, .inr fun e he => by cases he⟩
    · next e w₁ h =>
      obtain ⟨hrest, -⟩ := ih (some e) (w₁.note (.hostUnreachable host e))
      have hrefused := Wire.openSession_failed h
      rw [h] at hopen
      exact ⟨hopen.trans hrest, .inr fun e' _ => hrest.failed hrefused⟩

namespace Writer

def takePartition (name : String) (m : Placement.Manager) (answer : Except RequestError (List Item)) :
    Except TransferError Unit × Placement.Manager :=
  match Discovery.readPartition answer with
  | .error e => (.error e, m)
  | .ok ids =>
    match m.cachePartition name ids with
    | (.error e, m) => (.error (.placement e), m)
    | (.ok _, m) => (.ok (), m)

/-- How a partition gets known: it is already, or there is no host to ask, or no host can be
reached, or one is asked. -/
inductive Lookup (w : Writer) (site : Site σ) : Except TransferError Unit × Site σ → Prop
  | known : w.missingPartition site.manager = none → Lookup w site (.ok (), site)
  | hostless {name : String} : w.missingPartition site.manager = some name → w.hosts = [] →
      Lookup w site (.error (.noReachableHost [] none), site)
  | unreached {name : String} {e : TransferError} {wire : Wire σ} :
      w.missingPartition site.manager = some name → w.hosts ≠ [] → site.wire.Continues wire →
      wire.Failed → Lookup w site (.error e, { site with wire := wire })
  | asked {name : String} {answer : Except RequestError (List Item)} {wire : Wire σ}
      {events : List Event} :
      w.missingPartition site.manager = some name → w.hosts ≠ [] →
      wire.trace = events ++ site.wire.trace → answered events = [answer] →
      Lookup w site ((takePartition name site.manager answer).1,
        { site with manager := (takePartition name site.manager answer).2, wire := wire })

theorem lookup_resolvePartition (srv : Server σ) (w : Writer) (site : Site σ) :
    Lookup w site (w.resolvePartition srv site) := by
  unfold resolvePartition
  cases hname : w.partition.or site.manager.standardPartition with
  | none => exact .known (by rw [missingPartition, hname, Option.filter_none])
  | some name =>
    cases hcached : site.manager.isCached name with
    | true => simpa [hcached] using Lookup.known (by simp [missingPartition, hname, hcached])
    | false =>
      have hmissing : w.missingPartition site.manager = some name := by
        simp [missingPartition, hname, hcached]
      simp only [hcached, Bool.false_eq_true, if_false, Failover.openFirst]
      by_cases hhosts : w.hosts = []
      · rw [hhosts]
        exact .hostless hmissing hhosts
      · obtain ⟨hopen, hfailed⟩ :=
          Failover.openAmong_continues srv w.hosts w.terms.port .auto w.hosts none site.wire
        replace hfailed := hfailed.resolve_left hhosts
        cases h : Failover.openAmong srv w.hosts w.terms.port .auto w.hosts none site.wire with
        | mk r wire =>
          rw [h] at hopen hfailed
          cases r with
          | error e => exact .unreached hmissing hhosts hopen (hfailed e rfl)
          | ok session =>
            obtain ⟨events, htrace, hnone⟩ := hopen
            let asked := wire.submit srv session ⟨Discovery.Queries.partitionForests, [("partition", name)]⟩
            have hadds : (asked.2.close srv session).trace =
                .closed session (srv.close session asked.2.state).1 ::
                  .submitted session ⟨Discovery.Queries.partitionForests, [("partition", name)]⟩ asked.1 ::
                    events ++ site.wire.trace :=
              congrArg (fun trace => Event.closed _ _ :: Event.submitted _ _ _ :: trace) htrace
            have hlookup := Lookup.asked hmissing hhosts hadds (congrArg (asked.1 :: ·) hnone)
            dsimp only
            rw [Discovery.partitionForests_eq]
            unfold takePartition at hlookup
            dsimp only
            revert hlookup
            cases Discovery.readPartition asked.1 with
            | error e => exact id
            | ok ids =>
              dsimp only
              cases site.manager.cachePartition name ids with
              | mk r m => cases r <;> exact id

/-- Two runs that get the same answer learn the same forests, if the first fails in no request. -/
theorem resolvePartition_alike {srv₁ : Server σ} {srv₂ : Server τ} {w₁ w₂ : Writer} {site₁ : Site σ}
    {site₂ : Site τ} (hpartition : w₁.partition = w₂.partition) (hhosts : w₁.hosts = w₂.hosts)
    (hm : site₁.manager = site₂.manager) (hfine : ¬ (w₁.resolvePartition srv₁ site₁).2.wire.Failed)
    {events₁ events₂ : List Event}
    (h₁ : (w₁.resolvePartition srv₁ site₁).2.wire.trace = events₁ ++ site₁.wire.trace)
    (h₂ : (w₂.resolvePartition srv₂ site₂).2.wire.trace = events₂ ++ site₂.wire.trace)
    (hanswers : answered events₁ = answered events₂) :
    (∃ r m wire₁ wire₂,
      w₁.resolvePartition srv₁ site₁ = (r, { site₁ with manager := m, wire := wire₁ }) ∧
      w₂.resolvePartition srv₂ site₂ = (r, { site₂ with manager := m, wire := wire₂ })) ∧
    (answered events₁ = [] → events₁ = [] ∧ events₂ = []) := by
  have hmissing : w₁.missingPartition site₁.manager = w₂.missingPartition site₂.manager := by
    rw [missingPartition, missingPartition, hpartition, hm]
  have hlookup₁ := lookup_resolvePartition srv₁ w₁ site₁
  have hlookup₂ := lookup_resolvePartition srv₂ w₂ site₂
  generalize w₁.resolvePartition srv₁ site₁ = resolved₁ at *
  generalize w₂.resolvePartition srv₂ site₂ = resolved₂ at *
  cases hlookup₁ with
  | known hknown =>
    cases hlookup₂ with
    | known =>
      refine ⟨⟨_, _, _, _, rfl, by rw [hm]⟩, fun _ => ⟨?_, ?_⟩⟩
      · simpa using h₁.symm
      · simpa using h₂.symm
    | hostless h => simp [hknown, h] at hmissing
    | unreached h => simp [hknown, h] at hmissing
    | asked h => simp [hknown, h] at hmissing
  | hostless hname hnone =>
    cases hlookup₂ with
    | known h => simp [hname, h] at hmissing
    | hostless =>
      refine ⟨⟨_, _, _, _, rfl, by rw [hm]⟩, fun _ => ⟨?_, ?_⟩⟩
      · simpa using h₁.symm
      · simpa using h₂.symm
    | unreached _ hsome => exact absurd (hhosts ▸ hnone) hsome
    | asked _ hsome => exact absurd (hhosts ▸ hnone) hsome
  | unreached _ _ _ hfailed => exact absurd hfailed hfine
  | asked hname hsome htrace hanswer =>
    have hevents₁ := List.append_cancel_right (htrace.symm.trans h₁)
    subst hevents₁
    rw [hanswer] at hanswers ⊢
    refine ⟨?_, fun hnone => by cases hnone⟩
    cases hlookup₂ with
    | known h => simp [hname, h] at hmissing
    | hostless _ hnone => exact absurd (hhosts ▸ hnone) hsome
    | unreached _ _ hcontinues =>
      obtain ⟨events, htrace₂, hnone⟩ := hcontinues
      have hevents₂ := List.append_cancel_right (htrace₂.symm.trans h₂)
      simp [← hevents₂, hnone] at hanswers
    | asked hname₂ _ htrace₂ hanswer₂ =>
      have hevents₂ := List.append_cancel_right (htrace₂.symm.trans h₂)
      rw [← hevents₂, hanswer₂] at hanswers
      rw [hname, hname₂] at hmissing
      cases hanswers
      cases hmissing
      exact ⟨_, _, _, _, rfl, by rw [hm]⟩

theorem digest_charge (stints : List Stint) (w : Writer) (site : Site σ) (i : Nat)
    (filling : Option Nat) :
    digest stints { w with
        slots := w.slots.modify i fun s => { s with charged := s.charged + 1 }, filling := filling } site =
      { digest stints w site with
        settings := { (digest stints w site).settings with filling := filling }
        holdings := (digest stints w site).holdings.modify i fun h =>
          { h with charged := h.charged + 1 } } := by
  have hholdings : (w.slots.modify i fun s => { s with charged := s.charged + 1 }).map Slot.holdings =
      (w.slots.map Slot.holdings).modify i fun h => { h with charged := h.charged + 1 } := by
    apply map_modify
    intro slot
    rfl
  simp only [digest, hholdings]

theorem digest_looks (stints : List Stint) (w : Writer) {site : Site σ} {wire : Wire σ}
    (h : site.wire.Looks wire) (m : Placement.Manager) :
    digest stints w { site with manager := m, wire := wire } =
      { digest stints w site with manager := m } := by
  have hstored : storedOn stints wire.ledger = storedOn stints site.wire.ledger := by
    funext i
    rw [storedOn, storedOn, h.stored]
  simp only [digest, hstored]

/-- Two steps end alike, and make no request if the first asks nothing. -/
structure Same {α : Type} (stints₁ stints₂ : List Stint) (events₁ events₂ : List Event)
    (step₁ : Step σ α) (step₂ : Step τ α) : Prop where
  result : step₁.1 = step₂.1
  digests : digest stints₁ step₁.2.1 step₁.2.2 = digest stints₂ step₂.2.1 step₂.2.2
  quiet : answered events₁ = [] → events₁ = [] ∧ events₂ = []

section

variable {stints₁ stints₂ : List Stint} {srv₁ : Server σ} {srv₂ : Server τ} {w₁ w₂ : Writer}
  {site₁ : Site σ} {site₂ : Site τ} {events₁ events₂ : List Event}

theorem Same.of_still {α : Type} {step₁ : Step σ α} {step₂ : Step τ α} (hresult : step₁.1 = step₂.1)
    (hdigests : digest stints₁ step₁.2.1 step₁.2.2 = digest stints₂ step₂.2.1 step₂.2.2)
    (h₁ : step₁.2.2.wire.trace = events₁ ++ step₁.2.2.wire.trace)
    (h₂ : step₂.2.2.wire.trace = events₂ ++ step₂.2.2.wire.trace) :
    Same stints₁ stints₂ events₁ events₂ step₁ step₂ where
  result := hresult
  digests := hdigests
  quiet _ := ⟨List.self_eq_append_left.mp h₁, List.self_eq_append_left.mp h₂⟩

theorem place_alike (hdigest : digest stints₁ w₁ site₁ = digest stints₂ w₂ site₂) (uri : Uri) :
    (w₁.place uri site₁).1 = (w₂.place uri site₂).1 ∧
      digest stints₁ w₁ (w₁.place uri site₁).2 = digest stints₂ w₂ (w₂.place uri site₂).2 := by
  have hm : site₁.manager = site₂.manager := congrArg Digest.manager hdigest
  have hpartition : w₁.partition = w₂.partition := congrArg (fun g => g.settings.partition) hdigest
  have hmanager : (w₁.place uri site₁).2.manager = (w₂.place uri site₂).2.manager := by
    simp only [place, hm, hpartition]
  refine ⟨?_, congrArg₂ (fun g m => { g with manager := m }) hdigest hmanager⟩
  simp only [place, hm, hpartition]

theorem slotFor_alike_charge (hdigest : digest stints₁ w₁ site₁ = digest stints₂ w₂ site₂) (uri : Uri)
    (hf₁ : w₁.fastLoad = true) (hf₂ : w₂.fastLoad = true) (hload₁ : site₁.manager.kind = .statistical)
    (hload₂ : site₂.manager.kind = .statistical) (hi₁ : w₁.filling = none) (hi₂ : w₂.filling = none)
    (h₁ : (w₁.slotFor srv₁ uri site₁).2.2.wire.trace = events₁ ++ site₁.wire.trace)
    (h₂ : (w₂.slotFor srv₂ uri site₂).2.2.wire.trace = events₂ ++ site₂.wire.trace) :
    Same stints₁ stints₂ events₁ events₂ (w₁.slotFor srv₁ uri site₁) (w₂.slotFor srv₂ uri site₂) := by
  obtain ⟨hplace, hplaced⟩ := place_alike hdigest uri
  have hstill₁ : (w₁.place uri site₁).2.wire.trace = site₁.wire.trace := rfl
  have hstill₂ : (w₂.place uri site₂).2.wire.trace = site₂.wire.trace := rfl
  cases hp₁ : w₁.place uri site₁ with
  | mk r₁ after₁ =>
    cases hp₂ : w₂.place uri site₂ with
    | mk r₂ after₂ =>
      rw [hp₁] at hstill₁
      rw [hp₂] at hstill₂
      rw [hp₁, hp₂] at hplace hplaced
      rw [← hstill₁] at h₁
      rw [← hstill₂] at h₂
      cases hplace
      cases r₁ with
      | error fault =>
        rw [slotFor_unplaced srv₁ uri hf₁ hload₁ hi₁ hp₁] at h₁ ⊢
        rw [slotFor_unplaced srv₂ uri hf₂ hload₂ hi₂ hp₂] at h₂ ⊢
        exact .of_still rfl hplaced h₁ h₂
      | ok i =>
        rw [slotFor_charge srv₁ uri hf₁ hload₁ hi₁ hp₁] at h₁ ⊢
        rw [slotFor_charge srv₂ uri hf₂ hload₂ hi₂ hp₂] at h₂ ⊢
        refine .of_still rfl ?_ h₁ h₂
        rw [digest_charge, digest_charge, hplaced]

theorem slotFor_alike_lookup (hdigest : digest stints₁ w₁ site₁ = digest stints₂ w₂ site₂) (uri : Uri)
    (hf₁ : w₁.fastLoad = true) (hf₂ : w₂.fastLoad = true)
    (hload₁ : site₁.manager.kind ≠ .statistical) (hload₂ : site₂.manager.kind ≠ .statistical)
    (hlookup₁ : site₁.manager.kind.partitioned = true)
    (hlookup₂ : site₂.manager.kind.partitioned = true)
    (hfine : ¬ (w₁.slotFor srv₁ uri site₁).2.2.wire.Failed)
    (h₁ : (w₁.slotFor srv₁ uri site₁).2.2.wire.trace = events₁ ++ site₁.wire.trace)
    (h₂ : (w₂.slotFor srv₂ uri site₂).2.2.wire.trace = events₂ ++ site₂.wire.trace)
    (hanswers : answered events₁ = answered events₂) :
    Same stints₁ stints₂ events₁ events₂ (w₁.slotFor srv₁ uri site₁) (w₂.slotFor srv₂ uri site₂) := by
  have hm : site₁.manager = site₂.manager := congrArg Digest.manager hdigest
  have hpartition : w₁.partition = w₂.partition := congrArg (fun g => g.settings.partition) hdigest
  have hhosts : w₁.hosts = w₂.hosts := congrArg (fun g => g.settings.hosts) hdigest
  have hlooks₁ := slotFor_looks srv₁ uri w₁ site₁
  have hlooks₂ := slotFor_looks srv₂ uri w₂ site₂
  cases hr₁ : w₁.resolvePartition srv₁ site₁ with
  | mk r₁ after₁ =>
    cases hr₂ : w₂.resolvePartition srv₂ site₂ with
    | mk r₂ after₂ =>
      rw [slotFor_lookup srv₁ uri hf₁ hload₁ hlookup₁ hr₁] at hfine h₁ hlooks₁ ⊢
      rw [slotFor_lookup srv₂ uri hf₂ hload₂ hlookup₂ hr₂] at h₂ hlooks₂ ⊢
      obtain ⟨⟨r, m, wire₁, wire₂, hknown₁, hknown₂⟩, hquiet⟩ :=
        resolvePartition_alike hpartition hhosts hm (by rw [hr₁]; exact hfine) (by rw [hr₁]; exact h₁)
          (by rw [hr₂]; exact h₂) hanswers
      rw [hr₁] at hknown₁
      rw [hr₂] at hknown₂
      cases hknown₁
      cases hknown₂
      refine ⟨by rw [hpartition], ?_, hquiet⟩
      rw [digest_looks stints₁ w₁ hlooks₁, digest_looks stints₂ w₂ hlooks₂, hdigest, hpartition]

theorem slotFor_alike (hdigest : digest stints₁ w₁ site₁ = digest stints₂ w₂ site₂) (uri : Uri)
    (hfine : ¬ (w₁.slotFor srv₁ uri site₁).2.2.wire.Failed)
    (h₁ : (w₁.slotFor srv₁ uri site₁).2.2.wire.trace = events₁ ++ site₁.wire.trace)
    (h₂ : (w₂.slotFor srv₂ uri site₂).2.2.wire.trace = events₂ ++ site₂.wire.trace)
    (hanswers : answered events₁ = answered events₂) :
    Same stints₁ stints₂ events₁ events₂ (w₁.slotFor srv₁ uri site₁) (w₂.slotFor srv₂ uri site₂) := by
  have hm : site₁.manager = site₂.manager := congrArg Digest.manager hdigest
  have hfast : w₁.fastLoad = w₂.fastLoad := congrArg (fun g => g.settings.fastLoad) hdigest
  have hfilling : w₁.filling = w₂.filling := congrArg (fun g => g.settings.filling) hdigest
  cases hf : w₁.fastLoad with
  | false =>
    rw [slotFor_shared srv₁ uri hf] at h₁ ⊢
    rw [slotFor_shared srv₂ uri (hfast ▸ hf)] at h₂ ⊢
    exact .of_still rfl hdigest h₁ h₂
  | true =>
    by_cases hload : site₁.manager.kind = .statistical
    · cases hi : w₁.filling with
      | some i =>
        rw [slotFor_filling srv₁ uri hf hload hi] at h₁ ⊢
        rw [slotFor_filling srv₂ uri (hfast ▸ hf) (hm ▸ hload) (hfilling ▸ hi)] at h₂ ⊢
        exact .of_still rfl hdigest h₁ h₂
      | none =>
        exact slotFor_alike_charge hdigest uri hf (hfast ▸ hf) hload (hm ▸ hload) hi (hfilling ▸ hi) h₁ h₂
    · cases hlookup : site₁.manager.kind.partitioned with
      | true =>
        exact slotFor_alike_lookup hdigest uri hf (hfast ▸ hf) hload (hm ▸ hload) hlookup (hm ▸ hlookup)
          hfine h₁ h₂ hanswers
      | false =>
        obtain ⟨hplace, hplaced⟩ := place_alike hdigest uri
        rw [slotFor_place srv₁ uri hf hload hlookup] at h₁ ⊢
        rw [slotFor_place srv₂ uri (hfast ▸ hf) (hm ▸ hload) (hm ▸ hlookup)] at h₂ ⊢
        exact .of_still hplace hplaced h₁ h₂

end

theorem receive_alike {stints₁ stints₂ : List Stint} {srv₁ : Server σ} {srv₂ : Server τ}
    {w₁ w₂ : Writer} {site₁ : Site σ} {site₂ : Site τ}
    (hdigest : digest stints₁ w₁ site₁ = digest stints₂ w₂ site₂) (files : FileStore) (uri : Uri)
    (source : Option Source) (payload : Payload)
    (hfine : ¬ (w₁.receive srv₁ files uri source payload site₁).2.2.wire.Failed)
    {events₁ events₂ : List Event}
    (h₁ : (w₁.receive srv₁ files uri source payload site₁).2.2.wire.trace = events₁ ++ site₁.wire.trace)
    (h₂ : (w₂.receive srv₂ files uri source payload site₂).2.2.wire.trace = events₂ ++ site₂.wire.trace)
    (hanswers : answered events₁ = answered events₂) :
    Same stints₁ stints₂ events₁ events₂ (w₁.receive srv₁ files uri source payload site₁)
      (w₂.receive srv₂ files uri source payload site₂) := by
  have hclosed : w₁.closed = w₂.closed := congrArg (fun g => g.settings.closed) hdigest
  have hoptions : w₁.options = w₂.options := congrArg (fun g => g.settings.options) hdigest
  have hprefix : w₁.uriPrefix = w₂.uriPrefix := congrArg (fun g => g.settings.uriPrefix) hdigest
  have hsuffix : w₁.uriSuffix = w₂.uriSuffix := congrArg (fun g => g.settings.uriSuffix) hdigest
  cases hopen : w₁.closed with
  | true =>
    rw [receive_closed hopen srv₁] at h₁ ⊢
    rw [receive_closed (hclosed ▸ hopen) srv₂] at h₂ ⊢
    exact .of_still rfl hdigest h₁ h₂
  | false =>
    cases hc : Content.create files w₁.options source (uri.wrap w₁.uriPrefix w₁.uriSuffix) payload with
    | error e =>
      have hc₂ := hc
      rw [hoptions, hprefix, hsuffix] at hc₂
      rw [receive_skipping srv₁ site₁ hopen hc] at h₁ ⊢
      rw [receive_skipping srv₂ site₂ (hclosed ▸ hopen) hc₂] at h₂ ⊢
      exact .of_still rfl hdigest h₁ h₂
    | ok content =>
      have hc₂ := hc
      rw [hoptions, hprefix, hsuffix] at hc₂
      rw [receive_placing srv₁ site₁ hopen hc] at hfine h₁ ⊢
      rw [receive_placing srv₂ site₂ (hclosed ▸ hopen) hc₂, ← hprefix, ← hsuffix] at h₂ ⊢
      have hslot := slotFor_alike hdigest _ hfine h₁ h₂ hanswers
      exact ⟨congrArg (Except.map (Receipt.placed · content)) hslot.result, hslot.digests, hslot.quiet⟩

end Writer

end ForestCourier
