import ForestCourier.Proofs.Writer.Run
import ForestCourier.Proofs.Writer.Line
import ForestCourier.Proofs.Writer.Lookup

/-!
The discipline of a writer with its sessions. A journal of a run has every request with the slot it was
made for, or with none if it looks up a partition. The requests of a slot keep to the line of the slot,
and those of the lookups open one session at a time and close it before they end.
-/

namespace ForestCourier

variable {σ : Type}

/-- What a request makes of the session that looks up a partition, if it may be made. -/
def lookStep : Option Session → Event → Option (Option Session)
  | none, .opened session =>
    if session.target.forest = none ∧ session.transaction = .auto then some (some session) else none
  | none, .refused target transaction _ =>
    if target.forest = none ∧ transaction = .auto then some none else none
  | some session, .submitted s _ _ => if s = session then some (some session) else none
  | some session, .closed s _ => if s = session then some none else none
  | _, _ => none

theorem Failover.openAmong_drives (srv : Server σ) (all : List String) (port : UInt16)
    (hosts : List String) (last : Option RequestError) (w : Wire σ) :
    match openAmong srv all port .auto hosts last w with
    | (.ok session, w') => Wire.Drives lookStep none w (some session) w'
    | (.error _, w') => Wire.Drives lookStep none w none w' := by
  induction hosts generalizing last w with
  | nil => exact .of_same rfl rfl rfl
  | cons host hosts ih =>
    unfold openAmong
    cases hopen : w.openSession srv ⟨host, port, none⟩ .auto with
    | mk answer w₁ =>
      cases answer with
      | ok session =>
        obtain ⟨hsession, hopened, -⟩ := Wire.openSession_ok hopen
        refine .of_opened (Wire.trace_openSession_ok hopen) hopened (by rw [hsession]) ?_
        simp [lookStep, hsession]
      | error e =>
        have hrefused : Wire.Drives lookStep none w none w₁ := by
          refine .of_cons (Wire.trace_openSession_error hopen) (Wire.openSession_error hopen).1 rfl ?_
          simp [lookStep]
        have hnoted : Wire.Drives lookStep none w none (w₁.note (.hostUnreachable host e)) :=
          hrefused.trans (.of_same rfl rfl rfl)
        have hrest := ih (some e) (w₁.note (.hostUnreachable host e))
        dsimp only
        split at hrest
        · exact hnoted.trans hrest
        · exact hnoted.trans hrest

namespace Writer

variable {srv : Server σ} {w w' : Writer} {site site' : Site σ}

theorem resolvePartition_drives (srv : Server σ) (w : Writer) (site : Site σ) :
    Wire.Drives lookStep none site.wire none (w.resolvePartition srv site).2.wire := by
  unfold resolvePartition
  split
  · exact .of_same rfl rfl rfl
  · next name _ =>
    split
    · exact .of_same rfl rfl rfl
    · have hopen := Failover.openAmong_drives srv w.hosts w.terms.port w.hosts none site.wire
      unfold Failover.openFirst
      split
      · next he =>
        rw [he] at hopen
        exact hopen
      · next session wire he =>
        rw [he] at hopen
        rw [Discovery.partitionForests_eq]
        have hsubmitted : Wire.Drives lookStep (some session) wire (some session) (wire.submit srv session
            ⟨Discovery.Queries.partitionForests, [("partition", name)]⟩).2 :=
          .of_cons rfl rfl rfl (by simp [lookStep])
        have hclosed (w : Wire σ) : Wire.Drives lookStep (some session) w none (w.close srv session) :=
          .of_cons rfl rfl rfl (by simp [lookStep])
        have hlooked := (hopen.trans hsubmitted).trans (hclosed _)
        dsimp only
        split
        · exact hlooked
        · split
          · exact hlooked
          · exact hlooked

theorem receive_drives (srv : Server σ) (files : FileStore) (uri : Uri) (source : Option Source)
    (payload : Payload) (w : Writer) (site : Site σ) :
    Wire.Drives lookStep none site.wire none
      (w.receive srv files uri source payload site).2.2.wire := by
  rcases receive_wire srv files uri source payload w site with h | h
  · rw [h]
    exact .of_same rfl rfl rfl
  · rw [h]
    exact resolvePartition_drives srv w site

abbrev Journal := List (Option Nat × Event)

namespace Journal

def entries (owner : Option Nat) (w w' : Wire σ) : Journal := (w.since w').map fun event => (owner, event)

def eventsOf (owner : Option Nat) (journal : Journal) : List Event :=
  (journal.filter fun entry => entry.1 = owner).map Prod.snd

def events (journal : Journal) : List Event := journal.map Prod.snd

theorem eventsOf_append (owner : Option Nat) (journal journal' : Journal) :
    eventsOf owner (journal ++ journal') = eventsOf owner journal ++ eventsOf owner journal' := by
  rw [eventsOf, List.filter_append, List.map_append]
  rfl

theorem events_entries (owner : Option Nat) (w w' : Wire σ) :
    (entries owner w w').events = w.since w' := by
  rw [entries, events, List.map_map]
  exact List.map_id _

theorem eventsOf_entries (owner : Option Nat) (w w' : Wire σ) :
    eventsOf owner (entries owner w w') = w.since w' := by
  have hall : (entries owner w w').filter (fun entry => entry.1 = owner) = entries owner w w' :=
    List.filter_eq_self.mpr fun entry hentry => by
      obtain ⟨event, -, rfl⟩ := List.mem_map.mp hentry
      exact decide_eq_true rfl
  rw [eventsOf, hall]
  exact events_entries owner w w'

theorem eventsOf_entries_of_ne {owner owner' : Option Nat} (h : owner' ≠ owner) (w w' : Wire σ) :
    eventsOf owner' (entries owner w w') = [] := by
  have hnone : (entries owner w w').filter (fun entry => entry.1 = owner') = [] :=
    List.filter_eq_nil_iff.mpr fun entry hentry => by
      obtain ⟨event, -, rfl⟩ := List.mem_map.mp hentry
      simpa using h.symm
  rw [eventsOf, hnone]
  rfl

end Journal

open Journal

/-- A part of a run with its journal: all requests are in it, those of each slot keep to the line of the
slot, and those of lookups leave no session. -/
structure Orderly (w : Writer) (site : Site σ) (journal : Journal) (w' : Writer) (site' : Site σ) :
    Prop where
  adds : site.wire.Adds journal.events site'.wire
  slots : ∀ (i : Nat) (slot : Slot), w.slots[i]? = some slot → ∃ slot' : Slot,
    w'.slots[i]? = some slot' ∧
      (journal.eventsOf (some i)).foldlM (Post.step w.terms) slot.post = some slot'.post
  absent : ∀ i, w.slots[i]? = none → w'.slots[i]? = none ∧ journal.eventsOf (some i) = []
  lookups : (journal.eventsOf none).foldlM lookStep none = some none
  terms : w'.terms = w.terms

namespace Orderly

variable {journal journal' : Journal} {w'' : Writer} {site'' : Site σ}

theorem trans (h : Orderly w site journal w' site') (h' : Orderly w' site' journal' w'' site'') :
    Orderly w site (journal ++ journal') w'' site'' where
  adds := by
    rw [Journal.events, List.map_append]
    exact h.adds.trans h'.adds
  slots i slot hi := by
    obtain ⟨slot', hi', hrun⟩ := h.slots i slot hi
    obtain ⟨slot'', hi'', hrun'⟩ := h'.slots i slot' hi'
    refine ⟨slot'', hi'', ?_⟩
    rw [eventsOf_append, List.foldlM_append, hrun, ← h.terms]
    exact hrun'
  absent i hi := by
    obtain ⟨hi', hnone⟩ := h.absent i hi
    obtain ⟨hi'', hnone'⟩ := h'.absent i hi'
    exact ⟨hi'', by rw [eventsOf_append, hnone, hnone', List.append_nil]⟩
  lookups := by
    rw [eventsOf_append, List.foldlM_append, h.lookups]
    exact h'.lookups
  terms := h'.terms.trans h.terms

theorem of_still (hslots : w'.slots.map Slot.post = w.slots.map Slot.post) (hterms : w'.terms = w.terms)
    (htrace : site'.wire.trace = site.wire.trace) (hopened : site'.wire.opened = site.wire.opened) :
    Orderly w site [] w' site' where
  adds := .of_same htrace hopened
  slots i slot hi := by
    have hpost := congrArg (fun posts => posts[i]?) hslots
    rw [List.getElem?_map, List.getElem?_map, hi] at hpost
    obtain ⟨slot', hi', hsame⟩ := Option.map_eq_some_iff.mp hpost
    exact ⟨slot', hi', by rw [hsame]; rfl⟩
  absent i hi := by
    have hpost := congrArg (fun posts => posts[i]?) hslots
    rw [List.getElem?_map, List.getElem?_map, hi] at hpost
    exact ⟨Option.map_eq_none_iff.mp hpost, rfl⟩
  lookups := rfl
  terms := hterms

theorem of_lookup (hdrives : Wire.Drives lookStep none site.wire none site'.wire)
    (hslots : w'.slots.map Slot.post = w.slots.map Slot.post) (hterms : w'.terms = w.terms) :
    Orderly w site (entries none site.wire site'.wire) w' site' := by
  obtain ⟨events, hadds, hrun⟩ := hdrives
  have hstill : Orderly w site [] w' { site' with wire := site.wire } :=
    of_still hslots hterms rfl rfl
  refine ⟨?_, fun i slot hi => ?_, fun i hi => ⟨(hstill.absent i hi).1, ?_⟩, ?_, hterms⟩
  · rw [events_entries, hadds.since_eq]
    exact hadds
  · rw [eventsOf_entries_of_ne (Option.some_ne_none i)]
    exact hstill.slots i slot hi
  · exact eventsOf_entries_of_ne (Option.some_ne_none i) _ _
  · rw [eventsOf_entries, hadds.since_eq]
    exact hrun

theorem of_work {i : Nat} {slot slot' : Slot} (hbeside : Beside i w w') (hi : w.slots[i]? = some slot)
    (hi' : w'.slots[i]? = some slot')
    (hdrives : Wire.Drives (Post.step w.terms) slot.post site.wire slot'.post site'.wire) :
    Orderly w site (entries (some i) site.wire site'.wire) w' site' := by
  obtain ⟨events, hadds, hrun⟩ := hdrives
  have hothers {j : Nat} (hj : j ≠ i) : eventsOf (some j) (entries (some i) site.wire site'.wire) = [] :=
    eventsOf_entries_of_ne (fun h => hj (Option.some.inj h)) _ _
  refine ⟨?_, fun j slot₁ hslot₁ => ?_, fun j hnone => ?_, ?_, hbeside.terms⟩
  · rw [events_entries, hadds.since_eq]
    exact hadds
  · by_cases hj : j = i
    · subst hj
      cases hslot₁.symm.trans hi
      refine ⟨slot', hi', ?_⟩
      rw [eventsOf_entries, hadds.since_eq]
      exact hrun
    · rw [hothers hj]
      exact ⟨slot₁, (hbeside.others j hj).trans hslot₁, rfl⟩
  · have hj : j ≠ i := by
      rintro rfl
      cases hnone.symm.trans hi
    exact ⟨(hbeside.others j hj).trans hnone, hothers hj⟩
  · rw [eventsOf_entries_of_ne (Option.some_ne_none i).symm]
    rfl

end Orderly

theorem Found.posts (h : Found w w') : w'.slots.map Slot.post = w.slots.map Slot.post :=
  h.map_slots fun _ _ => rfl

def drainJournal (srv : Server σ) : List Nat → Writer → Site σ → Journal
  | [], _, _ => []
  | i :: is, w, site =>
    match w.drainSlot srv i site with
    | (.error _, _, site') => entries (some i) site.wire site'.wire
    | (.ok _, w', site') => entries (some i) site.wire site'.wire ++ drainJournal srv is w' site'

/-- What a call asks for: the lookup of a partition comes first, then the requests for the slot that the
document is placed on. -/
def Call.journal (srv : Server σ) : Call → Writer → Site σ → Journal
  | write files uri source payload, w, site =>
    match w.receive srv files uri source payload site with
    | (.ok (.placed i content), w₁, site₁) => entries none site.wire site₁.wire ++
        entries (some i) site₁.wire (w₁.push srv i content site₁).2.2.wire
    | (_, _, site₁) => entries none site.wire site₁.wire
  | close, w, site =>
    if w.closed then []
    else drainJournal srv (List.range w.slots.length) { w with closed := true } site

namespace Course

def journal (srv : Server σ) : List Call → Course σ → Journal
  | [], _ => []
  | call :: calls, c => call.journal srv c.writer c.site ++ journal srv calls (c.step srv call)

end Course

theorem entries_of_still {owner : Option Nat} (h : site' = site) :
    entries owner site.wire site'.wire = [] := by
  rw [h, entries, (Wire.Adds.of_same rfl rfl).since_eq]
  rfl

theorem push_absent (srv : Server σ) {i : Nat} (content : Content) {w : Writer} (site : Site σ)
    (hi : w.slots[i]? = none) : w.push srv i content site = (.ok (), w.gather i content, site) := by
  have hfull : (w.gather i content).isFull i = false := by simp [isFull, gather, hi]
  simp [push, hfull]

theorem push_orderly (srv : Server σ) (i : Nat) (content : Content) (w : Writer) (site : Site σ) :
    Orderly w site (entries (some i) site.wire (w.push srv i content site).2.2.wire)
      (w.push srv i content site).2.1 (w.push srv i content site).2.2 := by
  cases hi : w.slots[i]? with
  | none =>
    have hposts : (w.gather i content).slots.map Slot.post = w.slots.map Slot.post := by
      apply map_modify_of_eq
      exact fun _ => rfl
    rw [push_absent srv content site hi, entries_of_still rfl]
    exact .of_still hposts rfl rfl rfl
  | some slot =>
    obtain ⟨slot', hi', hdrives⟩ := push_drives srv content site hi
    exact .of_work (beside_push srv i content w site) hi hi' hdrives

theorem drainSlot_orderly (srv : Server σ) (i : Nat) (w : Writer) (site : Site σ) :
    Orderly w site (entries (some i) site.wire (w.drainSlot srv i site).2.2.wire)
      (w.drainSlot srv i site).2.1 (w.drainSlot srv i site).2.2 := by
  cases hi : w.slots[i]? with
  | none =>
    have hsame : w.drainSlot srv i site = (.ok (.ok ()), w, site) := by
      simp [drainSlot, isBusy, hangUp, hi]
    rw [hsame, entries_of_still rfl]
    exact .of_still rfl rfl rfl rfl
  | some slot =>
    obtain ⟨slot', hi', -, hdrives⟩ := drainSlot_drives srv site hi
    exact .of_work (beside_drainSlot srv i w site) hi hi' hdrives

theorem drain_orderly (srv : Server σ) (is : List Nat) (w : Writer) (site : Site σ) :
    Orderly w site (drainJournal srv is w site) (drain srv is w site).2.1 (drain srv is w site).2.2 := by
  induction is generalizing w site with
  | nil => exact .of_still rfl rfl rfl rfl
  | cons i is ih =>
    have hslot := drainSlot_orderly srv i w site
    unfold drainJournal
    match hd : w.drainSlot srv i site with
    | (.error fault, w₁, site₁) =>
      rw [hd] at hslot
      rw [drain_cons_error hd]
      exact hslot
    | (.ok first, w₁, site₁) =>
      rw [hd] at hslot
      rw [drain_cons_ok hd]
      exact hslot.trans (ih w₁ site₁)

theorem Call.orderly (srv : Server σ) (call : Call) (w : Writer) (site : Site σ) :
    Orderly w site (call.journal srv w site) (call.run srv w site).2.1 (call.run srv w site).2.2 := by
  cases call with
  | write files uri source payload =>
    have hfound := found_receive srv files uri source payload w site
    have hlooked := receive_drives srv files uri source payload w site
    have hreceived : Orderly w site
        (entries none site.wire (w.receive srv files uri source payload site).2.2.wire)
        (w.receive srv files uri source payload site).2.1
        (w.receive srv files uri source payload site).2.2 := .of_lookup hlooked hfound.posts hfound.terms
    dsimp only [Call.run, Call.journal]
    obtain ⟨fault, w₁, site₁, hr, hw⟩ | ⟨e, w₁, site₁, hr, hw⟩ | ⟨i, content, w₁, site₁, hr, hw⟩ :=
      write_cases srv files uri source payload w site
    · rw [hr] at hreceived
      rw [hr, hw]
      exact hreceived
    · rw [hr] at hreceived
      rw [hr, hw]
      have hskipped : Orderly w₁ site₁ [] (w₁.skip source e site₁).2.1 (w₁.skip source e site₁).2.2 :=
        .of_still rfl rfl rfl rfl
      have horderly := hreceived.trans hskipped
      rwa [List.append_nil] at horderly
    · rw [hr] at hreceived
      rw [hr, hw]
      exact hreceived.trans (push_orderly srv i content w₁ site₁)
  | close =>
    have hclosing : Orderly w site [] { w with closed := true } site := .of_still rfl rfl rfl rfl
    have hdrained := hclosing.trans (drain_orderly srv (List.range w.slots.length) _ site)
    rw [List.nil_append] at hdrained
    dsimp only [Call.run, Call.journal]
    unfold Writer.close
    split
    · exact .of_still rfl rfl rfl rfl
    · split
      · next hd =>
        rw [hd] at hdrained
        exact hdrained
      · next hd =>
        rw [hd] at hdrained
        exact ⟨hdrained.adds, hdrained.slots, hdrained.absent, hdrained.lookups, hdrained.terms⟩

theorem Course.orderly (srv : Server σ) (calls : List Call) (c : Course σ) :
    Orderly c.writer c.site (journal srv calls c) (follow srv calls c).writer
      (follow srv calls c).site := by
  induction calls generalizing c with
  | nil => exact .of_still rfl rfl rfl rfl
  | cons call calls ih => exact (call.orderly srv c.writer c.site).trans (ih (c.step srv call))

end Writer

end ForestCourier
