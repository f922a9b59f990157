import ForestCourier.Proofs.Session.Confinement
import ForestCourier.Proofs.Writer.Aim
import ForestCourier.Proofs.Writer.Attempts
import ForestCourier.Proofs.Writer.Kept
import ForestCourier.Proofs.Writer.Lookup

/-!
A writer whose slots know none but the given hosts opens no session with any other. Deliveries turn to
the failover targets of their slots, and the forests of a partition are asked for at the output hosts.
-/

namespace ForestCourier.Writer

variable {σ : Type} {srv : Server σ} {hosts : List String}

theorem Route.target_mem_known (port : UInt16) (route : Route) :
    route.target port ∈ route.known port :=
  List.mem_of_getElem? (getElem?_position port route)

namespace Delivery

variable {terms : Terms} {d : Delivery σ}

theorem within_insert (srv : Server σ) (session : Session) (docs : List Content) (h : d.wire.Within hosts) :
    (d.insert srv session docs).2.wire.Within hosts := by
  have hinsert := h.insert srv session docs
  unfold insert
  split
  · exact h
  · split
    · next hw => rwa [hw] at hinsert
    · next hw =>
      rw [hw] at hinsert
      unfold Wire.Within
      rwa [Wire.trace_foldl_note]

theorem within_discardSession (h : d.wire.Within hosts) :
    (d.discardSession srv terms).wire.Within hosts := by
  unfold discardSession
  split
  · exact h
  · split
    · exact h.close srv _
    · exact (h.rollback srv _).close srv _

theorem steps_within (srv : Server σ) (terms : Terms) {targets : List Target}
    (htargets : ∀ target ∈ targets, target.host ∈ hosts) :
    Steps srv terms fun d d' => d.slot.Aims terms.port targets ∧ d.wire.Within hosts →
      d'.slot.Aims terms.port targets ∧ d'.wire.Within hosts where
  refl _ h := h
  trans h h' hd := h' (h hd)
  ensureSession d := by
    rintro ⟨haims, hwire⟩
    refine ⟨(steps_aims srv terms targets).ensureSession d haims, ?_⟩
    have htarget : (d.slot.route.target terms.port).host ∈ hosts :=
      htargets _ (haims.known ▸ d.slot.route.target_mem_known terms.port)
    have hopened := hwire.openSession srv htarget terms.transaction
    unfold Delivery.ensureSession
    split
    · exact hwire
    · split
      · next ho => rwa [ho] at hopened
      · next ho => rwa [ho] at hopened
  replayQueue session d := by
    rintro ⟨haims, hwire⟩
    refine ⟨(steps_aims srv terms targets).replayQueue session d haims, ?_⟩
    have hinsert := within_insert srv session d.slot.queue hwire
    unfold Delivery.replayQueue
    split
    · next hi => rwa [hi] at hinsert
    · next hi => rwa [hi] at hinsert
  insertBatch session d := by
    rintro ⟨haims, hwire⟩
    refine ⟨(steps_aims srv terms targets).insertBatch session d haims, ?_⟩
    have hinsert := within_insert srv session d.batch hwire
    unfold Delivery.insertBatch
    split
    · next hi => rwa [hi] at hinsert
    · next hi => rwa [hi] at hinsert
  settleAuto hauto d := fun ⟨haims, hwire⟩ =>
    ⟨(steps_aims srv terms targets).settleAuto hauto d haims, hwire⟩
  enqueue hupdate d := fun ⟨haims, hwire⟩ =>
    ⟨(steps_aims srv terms targets).enqueue hupdate d haims, hwire⟩
  commit hupdate session d := by
    rintro ⟨haims, hwire⟩
    refine ⟨(steps_aims srv terms targets).commit hupdate session d haims, ?_⟩
    have hcommit := hwire.commit srv session
    unfold Delivery.commit
    split
    · next hc => rwa [hc] at hcommit
    · next hc => rwa [hc] at hcommit
  failOver e n d := fun ⟨haims, hwire⟩ =>
    ⟨(steps_aims srv terms targets).failOver e n d haims,
      ((within_discardSession hwire).note _).wait srv _⟩
  stage stage d := fun ⟨haims, hwire⟩ =>
    ⟨(steps_aims srv terms targets).stage stage d haims, hwire⟩

end Delivery

theorem resolvePartition_within {w : Writer} {site : Site σ} (h : site.wire.Within w.hosts) :
    (w.resolvePartition srv site).2.wire.Within w.hosts := by
  unfold resolvePartition
  split
  · exact h
  · next name _ =>
    split
    · exact h
    · have hopened := Failover.openFirst_within srv w.terms.port .auto h
      split
      · next ho => rwa [ho] at hopened
      · next session wire ho =>
        rw [ho] at hopened
        rw [Discovery.partitionForests_eq]
        have hclosed := (hopened.submit srv session
          ⟨Discovery.Queries.partitionForests, [("partition", name)]⟩).close srv session
        dsimp only
        split
        · exact hclosed
        · split <;> exact hclosed

structure Confined (terms : Terms) (targets : Nat → List Target) (hosts : List String) (w : Writer)
    (site : Site σ) : Prop where
  aimed : w.Aimed terms targets
  known : w.hosts = hosts
  wire : site.wire.Within hosts

namespace Confined

variable {terms : Terms} {targets : Nat → List Target} {w : Writer} {site : Site σ}

theorem flush (htargets : ∀ i, ∀ target ∈ targets i, target.host ∈ hosts)
    (h : w.Confined terms targets hosts site) (i : Nat) (closing : Bool) :
    (w.flush srv i closing site).2.1.Confined terms targets hosts (w.flush srv i closing site).2.2 := by
  refine ⟨h.aimed.flush srv i closing site, ?_, ?_⟩
  · rw [(beside_flush srv i closing w site).settings]
    exact h.known
  · cases hi : w.slots[i]? with
    | none =>
      rw [Writer.flush, hi]
      exact h.wire
    | some slot =>
      have haims := h.aimed.slots i slot hi
      rw [← h.aimed.kept] at haims
      have hdelivered := (Delivery.steps_within srv w.terms (htargets i)).delivery closing slot site
        ⟨⟨haims.known, haims.tidy, haims.session⟩, h.wire⟩
      have hsettled : (w.settled srv closing slot site).wire.Within hosts := by
        unfold settled
        split
        · next hd =>
          rw [hd] at hdelivered
          exact hdelivered.2
        · next hd =>
          rw [hd] at hdelivered
          exact Delivery.within_discardSession hdelivered.2
      obtain ⟨_, _, _, _, htrace, _⟩ := flush_settled srv closing site hi
      unfold Wire.Within
      rwa [htrace]

theorem receive (h : w.Confined terms targets hosts site) (files : FileStore) (uri : Uri)
    (source : Option Source) (payload : Payload) :
    (w.receive srv files uri source payload site).2.1.Confined terms targets hosts
      (w.receive srv files uri source payload site).2.2 := by
  have hfound := found_receive srv files uri source payload w site
  refine ⟨h.aimed.found hfound, ?_, ?_⟩
  · rw [hfound.settings]
    exact h.known
  · have hresolved : (w.resolvePartition srv site).2.wire.Within hosts :=
      h.known ▸ resolvePartition_within (h.known.symm ▸ h.wire)
    rcases receive_wire srv files uri source payload w site with hw | hw
    · exact hw ▸ h.wire
    · exact hw ▸ hresolved

theorem hangUp (h : w.Confined terms targets hosts site) (i : Nat) :
    (w.hangUp srv i site).1.Confined terms targets hosts (w.hangUp srv i site).2 := by
  refine ⟨h.aimed.hangUp srv i site, ?_, ?_⟩
  · rw [(beside_hangUp srv i w site).settings]
    exact h.known
  · unfold Writer.hangUp
    split
    · exact h.wire
    · exact h.wire.close srv _

theorem kept (srv : Server σ) (htargets : ∀ i, ∀ target ∈ targets i, target.host ∈ hosts) :
    Kept srv fun w site => w.Confined terms targets hosts site where
  receive files uri source payload _ _ h := h.receive files uri source payload
  skip _ _ _ _ h := ⟨⟨h.aimed.kept, h.aimed.slots⟩, h.known, h.wire⟩
  push i content w site h := by
    have hgathered : (w.gather i content).Confined terms targets hosts site :=
      ⟨h.aimed.gather i content, h.known, h.wire⟩
    unfold Writer.push
    dsimp only
    split
    · exact hgathered.flush htargets i false
    · exact hgathered
  flush i _ _ h := h.flush htargets i true
  hangUp i _ _ h := h.hangUp i
  close _ _ h := ⟨⟨h.aimed.kept, h.aimed.slots⟩, h.known, h.wire⟩
  count _ _ _ h := ⟨h.aimed, h.known, h.wire⟩

end Confined

end ForestCourier.Writer
