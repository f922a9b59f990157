import ForestCourier.Proofs.Placement.Rotations
import ForestCourier.Proofs.Writer.Alike
import ForestCourier.Proofs.Writer.Housing

/-!
Documents that find no place, and what is asked for one. A write that ends before its document has a slot
changes nothing but, perhaps, that a partition is known now. Writers with fast load that share a manager look a
partition up, each time that a document is to be placed in it, until the manager has cached its forests. What
counts is the time of the check: writers look the same partition up at once if each of them has found it missing
before one of them has cached it, and each goes through with its lookup.
-/

namespace ForestCourier

variable {σ : Type}

namespace Placement

theorem Policy.place_error {p : Policy} {uri : Uri} {partition : Option String} {fault : Fault PlacementError}
    (h : (p.place uri partition).1 = .error fault) : (p.place uri partition).2 = p := by
  cases p with
  | legacy n =>
    simp only [place] at h ⊢
    split <;> rfl
  | segment n => rfl
  | bucket b =>
    obtain ⟨_, _, _, _, hok, -⟩ | ⟨-, -, hsame⟩ := Policy.turns_bucket b
    · cases h.symm.trans hok
    · exact hsame
  | statistical s =>
    obtain ⟨i, _, _, -, -, hplace⟩ | ⟨_, hplace⟩ := s.place_cases
    · rw [place, hplace] at h
      cases h
    · rw [place, hplace]
  | partitioned q =>
    obtain ⟨_, _, _, _, hok, -⟩ | ⟨-, -, hsame⟩ := Policy.turns_partitioned q partition
    · cases h.symm.trans hok
    · exact hsame

theorem Policy.loads?_insertPartition (p : Policy) (name : String) (forests : List Nat) :
    (p.insertPartition name forests).loads? = p.loads? := by
  cases p <;> rfl

theorem Policy.assigned_of_insertPartition {p : Policy} {name k : String} {forests : List Nat}
    (h : ((p.insertPartition name forests).assigned k).isSome = true) : (p.assigned k).isSome = true ∨ k = name := by
  cases p with
  | partitioned q =>
    by_cases hk : k = name
    · exact .inr hk
    · rw [((Policy.partitioned q).insertPartition_alike name forests).2 rfl k, if_neg hk, Option.or_none] at h
      exact .inl h
  | _ => exact .inl h

theorem Manager.isCached_eq (m : Manager) (name : String) : m.isCached name = (m.policy.assigned name).isSome := by
  unfold isCached Policy.assigned
  cases m.policy.cache? with
  | none => rfl
  | some cache => simp [PartitionCache.contains]

/-- A request to cache the partition has succeeded. -/
def Manager.Knows (m : Manager) (name : String) (uses : List Use) : Prop :=
  ∃ before ids after, uses = before ++ .cache name ids :: after ∧
    ((m.useAll before).cachePartition name ids).1.isOk = true

theorem Manager.firstNamed_isSome_iff (m : Manager) (name : String) (uses : List Use) :
    (m.firstNamed name uses).isSome = true ↔ m.Knows name uses := by
  induction uses generalizing m with
  | nil => simp [firstNamed, Knows]
  | cons use uses ih =>
    rw [firstNamed, Option.isSome_or, Bool.or_eq_true, ih]
    constructor
    · rintro (hnow | ⟨before, ids, after, rfl, hok⟩)
      · cases use with
        | cache name' ids =>
          simp only [named?, Option.isSome_ite] at hnow
          obtain ⟨rfl, hok⟩ := hnow
          exact ⟨[], ids, uses, rfl, hok⟩
        | _ => cases hnow
      · exact ⟨use :: before, ids, after, rfl, hok⟩
    · rintro ⟨before, ids, after, huses, hok⟩
      cases before with
      | nil =>
        obtain ⟨rfl, rfl⟩ := List.cons_eq_cons.mp huses
        exact .inl (by simpa [named?, useAll] using hok)
      | cons first before =>
        obtain ⟨rfl, rfl⟩ := List.cons_eq_cons.mp huses
        exact .inr ⟨before, ids, after, rfl, hok⟩

theorem Manager.isCached_iff {m : Manager} (hcaches : m.policy.cache?.isSome = true)
    (hassigned : ∀ name, m.policy.assigned name = none) (name : String) (uses : List Use) :
    (m.useAll uses).isCached name = true ↔ m.Knows name uses := by
  have hrel := (tracks hassigned uses).assigned hcaches name
  rw [← firstNamed_isSome_iff, isCached_eq]
  generalize m.firstNamed name uses = named at hrel ⊢
  generalize (m.useAll uses).policy.assigned name = kept at hrel ⊢
  cases hrel with
  | some h => exact iff_of_true rfl rfl
  | none => exact iff_of_false nofun nofun

end Placement

namespace Writer

open Placement (Manager)

theorem place_unplaced {uri : Uri} {w : Writer} {site : Site σ} {fault : Fault TransferError}
    (h : (w.place uri site).1 = .error fault) : (w.place uri site).2 = site := by
  have hplace : (site.manager.policy.place uri w.partition).2 = site.manager.policy := by
    change (site.manager.policy.place uri w.partition).1.mapError (Fault.map .placement) = .error fault at h
    cases hr : (site.manager.policy.place uri w.partition).1 with
    | ok i =>
      rw [hr] at h
      cases h
    | error cause => exact Placement.Policy.place_error hr
  change { site with manager := { site.manager with policy := (site.manager.policy.place uri w.partition).2 } } = site
  rw [hplace]

/-- A document that has no slot leaves nothing behind, but for what its partition was looked up for. -/
theorem slotFor_error {srv : Server σ} {uri : Uri} {w : Writer} {site : Site σ} {fault : Fault TransferError}
    (h : (w.slotFor srv uri site).1 = .error fault) :
    (w.slotFor srv uri site).2.1 = w ∧
      ((w.slotFor srv uri site).2.2 = site ∨ w.Seeks site (w.slotFor srv uri site).2.2) := by
  cases hfast : w.fastLoad with
  | false =>
    rw [slotFor_shared srv uri hfast] at h
    cases h
  | true =>
    by_cases hload : site.manager.kind = .statistical
    · cases hfill : w.filling with
      | some i =>
        rw [slotFor_filling srv uri hfast hload hfill] at h
        cases h
      | none =>
        cases hp : w.place uri site with
        | mk r site₁ =>
          cases r with
          | ok i =>
            rw [slotFor_charge srv uri hfast hload hfill hp] at h
            cases h
          | error cause =>
            have hsame := place_unplaced (congrArg Prod.fst hp)
            rw [hp] at hsame
            rw [slotFor_unplaced srv uri hfast hload hfill hp]
            exact ⟨rfl, .inl hsame⟩
    · cases hlookup : site.manager.kind.partitioned with
      | false =>
        rw [slotFor_place srv uri hfast hload hlookup] at h ⊢
        exact ⟨rfl, .inl (place_unplaced h)⟩
      | true =>
        have hseeks := resolvePartition_seeks srv w site
        cases hr : w.resolvePartition srv site with
        | mk r site₁ =>
          rw [hr] at hseeks
          rw [slotFor_lookup srv uri hfast hload hlookup hr] at h ⊢
          refine ⟨rfl, .inr ?_⟩
          cases r with
          | error e => exact hseeks
          | ok u =>
            have hsame : (w.place uri site₁).2 = site₁ := place_unplaced h
            change w.Seeks site (w.place uri site₁).2
            rwa [hsame]

theorem receive_error {srv : Server σ} {files : FileStore} {uri : Uri} {source : Option Source} {payload : Payload}
    {w : Writer} {site : Site σ} {fault : Fault TransferError}
    (h : (w.receive srv files uri source payload site).1 = .error fault) :
    (w.receive srv files uri source payload site).2.1 = w ∧
      ((w.receive srv files uri source payload site).2.2 = site ∨
        w.Seeks site (w.receive srv files uri source payload site).2.2) := by
  obtain hr | ⟨e, hr⟩ | ⟨content, hr⟩ := receive_cases srv files uri source payload w site
  · rw [hr]
    exact ⟨rfl, .inl rfl⟩
  · rw [hr] at h
    cases h
  · rw [hr] at h ⊢
    cases hs : (w.slotFor srv (uri.wrap w.uriPrefix w.uriSuffix) site).1 with
    | ok i =>
      rw [hs] at h
      cases h
    | error cause => exact slotFor_error hs

/-- A batch that is not stored ends a task after its last attempt or by a request that no attempt mends. -/
theorem push_error {srv : Server σ} {i : Nat} {content : Content} {w : Writer} {site : Site σ} {e : TransferError}
    (h : (w.push srv i content site).1 = .error (.failed e)) :
    (∃ attempts last, e = .retriesExhausted .batchWrite attempts last) ∨ ∃ cause, e = .request cause := by
  unfold push at h
  dsimp only at h
  split at h
  · cases hi : (w.gather i content).slots[i]? with
    | none =>
      rw [flush, hi] at h
      cases h
    | some slot =>
      obtain ⟨d, -, hflush⟩ | ⟨cause, n, d, count, -, hflush⟩ | ⟨cause, n, d, kind, -, hflush⟩ :=
        flush_cases srv false site hi
      · rw [hflush] at h
        cases h
      · rw [hflush] at h
        unfold Delivery.outcome at h
        split at h
        · cases h
        · cases h
          exact .inl ⟨_, _, rfl⟩
        · cases h
          exact .inr ⟨_, rfl⟩
      · rw [hflush] at h
        cases h
  · cases h

/-- An error that ends a write before its document has a slot. -/
inductive Unplaced (srv : Server σ) (w : Writer) (site : Site σ) : TransferError → Prop
  | closed : Unplaced srv w site .closed
  | placement (cause : PlacementError) : Unplaced srv w site (.placement cause)
  | unreached (hosts : List String) (last : Option RequestError) : Unplaced srv w site (.noReachableHost hosts last)
  | malformed (cause : ProtocolError) : Unplaced srv w site (.protocol cause)
  | lookup {e : TransferError} : w.fastLoad = true → site.manager.kind.partitioned = true →
      (w.resolvePartition srv site).1 = .error e → Unplaced srv w site e

theorem Unplaced.receive {srv : Server σ} {files : FileStore} {uri : Uri} {source : Option Source}
    {payload : Payload} {w : Writer} {site : Site σ} {e : TransferError} (he : Unplaced srv w site e)
    (h : (w.write srv files uri source payload site).1 = .error (.failed e)) :
    w.receive srv files uri source payload site =
      (.error (.failed e), (w.write srv files uri source payload site).2) := by
  obtain ⟨fault, w₁, site₁, hr, hw⟩ | ⟨cause, w₁, site₁, -, hw⟩ | ⟨i, content, w₁, site₁, hr, hw⟩ :=
    write_cases srv files uri source payload w site
  · rw [hw] at h ⊢
    cases h
    exact hr
  · rw [hw] at h
    cases h
  · rw [hw] at h
    have hpush := push_error h
    cases he with
    | closed | placement | unreached | malformed => simp at hpush
    | lookup hfast hpartitioned hlookup =>
      cases hs : w.resolvePartition srv site with
      | mk r site₂ =>
        rw [hs] at hlookup
        subst hlookup
        obtain hreceived | ⟨cause, hreceived⟩ | ⟨made, hreceived⟩ := receive_cases srv files uri source payload w site
        · cases hr.symm.trans hreceived
        · cases hr.symm.trans hreceived
        · rw [slotFor_lookup srv _ hfast (Placement.Kind.ne_statistical hpartitioned) hpartitioned hs] at hreceived
          cases hr.symm.trans hreceived

/-- What a write leaves that has ended before its document had a slot: all is as before, but that the partition
that was missing may be known. -/
structure Spared (w : Writer) (site site' : Site σ) : Prop where
  counters : site'.counters = site.counters
  manager : site'.manager = site.manager ∨ ∃ name forests, w.missingPartition site.manager = some name ∧
    site'.manager = { site.manager with policy := site.manager.policy.insertPartition name forests }
  loads : site'.manager.policy.loads? = site.manager.policy.loads?
  rotations : ∀ lane e, site.manager.policy.rotation? lane = some e → site'.manager.policy.rotation? lane = some e
  cached : ∀ name, site'.manager.isCached name = true →
    site.manager.isCached name = true ∨ w.missingPartition site.manager = some name
  sessions : ∃ events, site.wire.Adds events site'.wire ∧
    ∀ session, events.countP (Event.opens session) = events.countP (Event.closes session)

theorem Seeks.spared {w : Writer} {site site' : Site σ} (h : w.Seeks site site') : w.Spared site site' := by
  have hsessions : ∃ events, site.wire.Adds events site'.wire ∧
      ∀ session, events.countP (Event.opens session) = events.countP (Event.closes session) := by
    obtain ⟨events, hadds, hasks⟩ := h.asks
    refine ⟨events, hadds, fun session => ?_⟩
    cases hname : w.missingPartition site.manager with
    | none =>
      rw [hname] at hasks
      rw [hasks]
      rfl
    | some name =>
      rw [hname] at hasks
      exact hasks.balanced session
  obtain hsame | ⟨name, forests, hname, hinsert⟩ := h.policy
  · have hmanager : site'.manager = site.manager := by rw [h.manager, hsame]
    exact ⟨h.counters, .inl hmanager, by rw [hmanager], fun _ _ he => by rwa [hmanager],
      fun _ hk => .inl (hmanager ▸ hk), hsessions⟩
  · have hmanager := h.manager
    rw [hinsert] at hmanager
    refine ⟨h.counters, .inr ⟨name, forests, hname, hmanager⟩, ?_, fun lane e he => ?_, fun k hk => ?_, hsessions⟩
    · rw [hinsert, Placement.Policy.loads?_insertPartition]
    · rw [hinsert]
      obtain hsame | ⟨hnone, -⟩ := site.manager.policy.rotation?_insertPartition name forests lane
      · rwa [hsame]
      · cases he.symm.trans hnone
    · rw [Manager.isCached_eq, hinsert] at hk
      rw [Manager.isCached_eq]
      obtain hbefore | rfl := Placement.Policy.assigned_of_insertPartition hk
      · exact .inl hbefore
      · exact .inr hname

theorem Spared.refl (w : Writer) (site : Site σ) : w.Spared site site :=
  ⟨rfl, .inl rfl, rfl, fun _ _ he => he, fun _ hk => .inl hk, [], .of_same rfl rfl, fun _ => rfl⟩

theorem Unplaced.spared {srv : Server σ} {files : FileStore} {uri : Uri} {source : Option Source}
    {payload : Payload} {w : Writer} {site : Site σ} {e : TransferError} (he : Unplaced srv w site e)
    (h : (w.write srv files uri source payload site).1 = .error (.failed e)) :
    (w.write srv files uri source payload site).2.1 = w ∧
      w.Spared site (w.write srv files uri source payload site).2.2 := by
  have hr := he.receive h
  have hleft := receive_error (congrArg Prod.fst hr)
  rw [hr] at hleft
  obtain ⟨hw, hsame | hseeks⟩ := hleft
  · exact ⟨hw, hsame.symm ▸ .refl w site⟩
  · exact ⟨hw, hseeks.spared⟩

/-- The partition that is missing is the one of the writer, unless a request to cache it has succeeded. -/
theorem missingPartition_useAll {w : Writer} {m : Manager} (hcaches : m.policy.cache?.isSome = true)
    (hassigned : ∀ name, m.policy.assigned name = none) {name : String}
    (hname : w.partition.or m.standardPartition = some name) (uses : List Placement.Use) :
    (m.Knows name uses → w.missingPartition (m.useAll uses) = none) ∧
      (¬ m.Knows name uses → w.missingPartition (m.useAll uses) = some name) := by
  have hstandard : (m.useAll uses).standardPartition = m.standardPartition :=
    (Manager.tracks hassigned uses).alike.standard
  have hcached := Manager.isCached_iff hcaches hassigned name uses
  rw [missingPartition, hstandard, hname, ← hcached]
  constructor
  · intro h
    simp [h]
  · intro h
    simp [h]

namespace Hand

/-- Whether a document is to be placed next: it is received by a writer that is open, and it has content. -/
def places (hand : Hand) : Bool :=
  match hand.work with
  | .receiving files uri source payload =>
    !hand.writer.closed && (Content.create files hand.writer.options source
      (uri.wrap hand.writer.uriPrefix hand.writer.uriSuffix) payload).isOk
  | _ => false

def requests (srv : Server σ) (hand : Hand) (site : Site σ) : List Event := site.wire.since (hand.go srv site).2.wire

theorem requests_answered (srv : Server σ) {hand : Hand} (site : Site σ) (h : hand.work.inquires = false) :
    answered (hand.requests srv site) = [] := by
  have hcontinues : site.wire.Continues (hand.go srv site).2.wire := by
    obtain ⟨w, work⟩ := hand
    cases work with
    | idle | placing => exact .refl _
    | receiving files uri source payload =>
      cases hlookup : w.unresolved? files uri source payload site.manager with
      | some missing =>
        rw [go_unresolved srv hlookup]
        exact .refl _
      | none =>
        have hreceived : site.wire.Continues (w.receive srv files uri source payload site).2.2.wire := by
          rw [receive_resolved srv hlookup]
          exact .refl _
        rw [go_resolved srv hlookup]
        exact received_induction (P := fun _ site' => site.wire.Continues site'.wire) hreceived
          fun _ _ _ h => h.trans ⟨[], rfl, rfl⟩
    | inquiring => cases h
    | pushing i content => exact (push_continues srv i content w site).1
    | draining is =>
      cases is with
      | nil => exact .refl _
      | cons i is =>
        rw [(go_draining srv w i is site).2]
        exact (drainSlot_continues srv i w site).1
  obtain ⟨events, htrace, hnone⟩ := hcontinues
  rw [← List.reverse_reverse events] at htrace
  rw [requests, Wire.since_of_trace htrace]
  unfold answered at hnone ⊢
  rw [List.filterMap_reverse, hnone]
  rfl

/-- A document that is to be placed waits for a lookup if its partition is missing, and only then. -/
theorem go_places {hand : Hand} (h : hand.places = true) (hfast : hand.writer.fastLoad = true) (srv : Server σ)
    {site : Site σ} (hpartitioned : site.manager.kind.partitioned = true) :
    (hand.go srv site).2.wire = site.wire ∧
      match hand.writer.missingPartition site.manager with
      | none => (hand.go srv site).1.work.inquires = false
      | some name => ∃ uri content, hand.go srv site =
          (⟨hand.writer, .inquiring uri content name (.search hand.writer.hosts none)⟩, site) := by
  obtain ⟨w, work⟩ := hand
  cases work with
  | receiving files uri source payload =>
    obtain ⟨hopen, hok⟩ := Bool.and_eq_true_iff.mp h
    have hopen : w.closed = false := by simpa using hopen
    obtain ⟨content, hcontent⟩ : ∃ content, Content.create files w.options source
        (uri.wrap w.uriPrefix w.uriSuffix) payload = .ok content := by
      dsimp only at hok
      cases hcontent : Content.create files w.options source (uri.wrap w.uriPrefix w.uriSuffix) payload with
      | error e =>
        rw [hcontent] at hok
        cases hok
      | ok content => exact ⟨content, rfl⟩
    have hlookup : w.unresolved? files uri source payload site.manager =
        (w.missingPartition site.manager).map (content, ·) := by
      simp [unresolved?, hopen, show w.fastLoad = true from hfast, hpartitioned, hcontent]
    dsimp only
    cases hmissing : w.missingPartition site.manager with
    | none =>
      rw [hmissing] at hlookup
      rw [go_resolved srv hlookup]
      have hwire := receive_resolved srv hlookup
      unfold received
      split
      · next hr =>
        rw [hr] at hwire
        exact ⟨hwire, rfl⟩
      · next hr =>
        rw [receive_placing srv site hopen hcontent] at hr
        cases hs : (w.slotFor srv (uri.wrap w.uriPrefix w.uriSuffix) site).1 with
        | error fault =>
          rw [hs] at hr
          cases hr
        | ok i =>
          rw [hs] at hr
          cases hr
      · next hr =>
        rw [hr] at hwire
        exact ⟨hwire, rfl⟩
    | some name =>
      rw [hmissing] at hlookup
      rw [go_unresolved srv hlookup]
      exact ⟨rfl, _, content, rfl⟩
  | idle | inquiring | placing | pushing | draining => cases h

theorem inquires_go {srv : Server σ} {hand : Hand} {site : Site σ} (h : (hand.go srv site).1.work.inquires = true) :
    hand.work.inquires = true ∨ hand.places = true ∧ ∃ name, hand.writer.missingPartition site.manager = some name := by
  obtain ⟨w, work⟩ := hand
  cases work with
  | receiving files uri source payload =>
    right
    cases hlookup : w.unresolved? files uri source payload site.manager with
    | none =>
      rw [go_resolved srv hlookup, received] at h
      split at h <;> cases h
    | some missing =>
      obtain ⟨hopen, -, -, hcontent, hmissing⟩ := unresolved?_eq_some.mp hlookup
      exact ⟨by simp [places, hopen, hcontent, Except.isOk, Except.toBool], _, hmissing⟩
  | inquiring => exact .inl rfl
  | placing uri content => cases h.symm.trans (Work.inquires_placed content (w.place uri site).1)
  | idle | pushing => cases h
  | draining is =>
    cases is with
    | nil => cases h
    | cons i is =>
      dsimp only [Hand.go] at h
      split at h <;> cases h

end Hand

namespace Crew

def requests (srv : Server σ) (k : Nat) (turns : List Turn) (crew : Crew σ) : List (List Event) :=
  crew.record (fun hand site => some (hand.requests srv site)) srv k turns

section

variable (srv : Server σ) {crew : Crew σ} {k : Nat} {w : Writer} {uri : Uri} {content : Content} {name : String}
  {inquiry : Inquiry}

theorem turn_inquiring (hk : crew.hands[k]? = some ⟨w, .inquiring uri content name inquiry⟩) (turn : Turn) :
    ((crew.turn srv turn).hands[k]? = some ⟨w, .inquiring uri content name inquiry⟩ ∧
      crew.requests srv k [turn] = []) ∨
    (crew.turn srv turn).hands[k]? = some ⟨w, .inquired uri content name (inquiry.step srv w name crew.site).1⟩ ∧
      crew.requests srv k [turn] = [crew.site.wire.since (inquiry.step srv w name crew.site).2.wire] := by
  have hlt : k < (crew.turn srv turn).hands.length := by
    rw [length_turn]
    exact (List.getElem?_eq_some_iff.mp hk).1
  have hk' := List.getElem?_eq_getElem hlt
  have hrequests : crew.requests srv k [turn] =
      (crew.shown? (fun hand site => some (hand.requests srv site)) k turn).toList := List.append_nil _
  rw [hrequests]
  obtain ⟨hsame, hshown⟩ | ⟨_, _, hidle, -⟩ | ⟨before, hbefore, hgo, hshown⟩ := turn_cases srv hk'
  · rw [hk'] at *
    exact .inl ⟨hsame.symm.trans hk, by rw [hshown]; rfl⟩
  · cases hk.symm.trans hidle
  · cases hk.symm.trans hbefore
    rw [hk', hgo, hshown]
    exact .inr ⟨rfl, rfl⟩

/-- A lookup is done after some of the turns, by the requests that were left of it, or it goes on after all of
them. -/
theorem play_inquiring (turns : List Turn) (hk : crew.hands[k]? = some ⟨w, .inquiring uri content name inquiry⟩) :
    (∃ during after, turns = during ++ after ∧
      inquiry.Rest w.terms.port name (crew.requests srv k during).flatten ∧
      ∃ hand, (crew.play srv during).hands[k]? = some hand ∧ hand.work.inquires = false) ∨
    ∃ later, (crew.play srv turns).hands[k]? = some ⟨w, .inquiring uri content name later⟩ ∧
      later.left + (crew.requests srv k turns).length ≤ inquiry.left ∧
      ∀ rest, later.Rest w.terms.port name rest →
        inquiry.Rest w.terms.port name ((crew.requests srv k turns).flatten ++ rest) := by
  induction turns generalizing crew inquiry with
  | nil => exact .inr ⟨inquiry, hk, Nat.le_refl _, fun _ h => h⟩
  | cons turn turns ih =>
    have hrequests (turns : List Turn) : crew.requests srv k (turn :: turns) =
        crew.requests srv k [turn] ++ (crew.turn srv turn).requests srv k turns := by
      simp only [requests, record, List.append_nil]
    obtain ⟨hk', hnone⟩ | ⟨hk', hone⟩ := turn_inquiring srv hk turn
    · obtain ⟨during, after, rfl, hrest, hdone⟩ | ⟨later, hlater, hleft, hrest⟩ := ih hk'
      · refine .inl ⟨turn :: during, after, rfl, ?_, hdone⟩
        rwa [hrequests, hnone]
      · refine .inr ⟨later, hlater, ?_, ?_⟩
        · rwa [hrequests, hnone]
        · rwa [hrequests, hnone]
    · obtain ⟨events, hadds, hstep⟩ := inquiry.step_rest srv w name crew.site
      rw [hadds.since_eq] at hone
      cases hnext : (inquiry.step srv w name crew.site).1 with
      | inl r =>
        rw [hnext] at hk' hstep
        refine .inl ⟨[turn], turns, rfl, ?_, _, hk', Work.inquires_ended uri content name r⟩
        rwa [hone, List.flatten_singleton]
      | inr next =>
        rw [hnext] at hk' hstep
        have hfewer := Inquiry.left_step hnext
        obtain ⟨during, after, rfl, hrest, hdone⟩ | ⟨later, hlater, hleft, hrest⟩ := ih hk'
        · refine .inl ⟨turn :: during, after, rfl, ?_, hdone⟩
          rw [hrequests, hone, List.flatten_append, List.flatten_singleton]
          exact hstep _ hrest
        · refine .inr ⟨later, hlater, ?_, fun rest h => ?_⟩
          · rw [hrequests, hone, List.length_append, List.length_singleton]
            omega
          · rw [hrequests, hone, List.flatten_append, List.flatten_singleton, List.append_assoc]
            exact hstep _ (hrest rest h)

theorem play_began (turns : List Turn) (hstart : ∀ hand, crew.hands[k]? = some hand → hand.work.inquires = false)
    {hand : Hand} (hk : (crew.play srv turns).hands[k]? = some hand) (h : hand.work.inquires = true) :
    ∃ before during hand', turns = before ++ .move k .go :: during ∧
      (crew.play srv before).hands[k]? = some hand' ∧ hand'.places = true ∧
      ∃ name, hand'.writer.missingPartition (crew.play srv before).site.manager = some name := by
  induction turns using List.reverseRecOn generalizing hand with
  | nil => cases h.symm.trans (hstart hand hk)
  | append_singleton turns turn ih =>
    have hgrow {hand : Hand} (hk : (crew.play srv turns).hands[k]? = some hand) (h : hand.work.inquires = true) :
        ∃ before during hand', turns ++ [turn] = before ++ .move k .go :: during ∧
          (crew.play srv before).hands[k]? = some hand' ∧ hand'.places = true ∧
          ∃ name, hand'.writer.missingPartition (crew.play srv before).site.manager = some name := by
      obtain ⟨before, during, hand', rfl, hbefore⟩ := ih hk h
      exact ⟨before, during ++ [turn], hand', by rw [List.append_assoc]; rfl, hbefore⟩
    rw [play_concat] at hk
    obtain ⟨hsame, -⟩ | ⟨w, call, -, rfl, -⟩ | ⟨before, hbefore, rfl, hshown⟩ := turn_cases srv hk
    · exact hgrow hsame h
    · cases h.symm.trans (call.begin_inquires w)
    · obtain hon | ⟨hplaces, hmissing⟩ := Hand.inquires_go h
      · exact hgrow hbefore hon
      · have hturn : turn = .move k .go := turn_eq_go (hshown fun _ _ => some ())
        exact ⟨turns, [], before, by rw [hturn], hbefore, hplaces, hmissing⟩

end

end Crew

/-- Writer `k` is at a lookup. Some of the turns bring it to an end, by the requests of a lookup, or it goes on after
all of them, and its requests are the first of such. It has not made more steps than hosts can be tried and one of
them asked: the next one after these is the last. -/
def Crew.LooksUp (srv : Server σ) (k : Nat) (port : UInt16) (name : String) (hosts : List String) (turns : List Turn)
    (crew : Crew σ) : Prop :=
  (∃ during after, turns = during ++ after ∧ Inquires port name hosts (crew.requests srv k during).flatten ∧
    ∃ hand, (crew.play srv during).hands[k]? = some hand ∧ hand.work.inquires = false) ∨
  (∃ hand, (crew.play srv turns).hands[k]? = some hand ∧ hand.work.inquires = true) ∧
    (crew.requests srv k turns).length ≤ hosts.length + 1 ∧
    ∃ rest, Inquires port name hosts ((crew.requests srv k turns).flatten ++ rest)

theorem Crew.looksUp (srv : Server σ) {crew : Crew σ} {k : Nat} {w : Writer} {uri : Uri} {content : Content}
    {name : String} {hosts : List String} {last : Option RequestError}
    (hk : crew.hands[k]? = some ⟨w, .inquiring uri content name (.search hosts last)⟩) (turns : List Turn) :
    crew.LooksUp srv k w.terms.port name hosts turns := by
  obtain hdone | ⟨later, hlater, hleft, hrest⟩ := play_inquiring srv turns hk
  · exact .inl hdone
  · obtain ⟨rest, h⟩ := later.exists_rest w.terms.port name
    exact .inr ⟨⟨_, hlater, rfl⟩, Nat.le_trans (Nat.le_add_left _ _) hleft, rest, hrest rest h⟩

/-- A writer that is to place a document asks nothing yet; it turns to the lookup of the partition that is missing. -/
theorem Crew.turn_places (srv : Server σ) {crew : Crew σ} {k : Nat} {hand : Hand} (hk : crew.hands[k]? = some hand)
    (hplaces : hand.places = true) (hfast : hand.writer.fastLoad = true)
    (hpartitioned : crew.site.manager.kind.partitioned = true) :
    let next := crew.turn srv (.move k .go)
    crew.site.wire.Adds [] next.site.wire ∧
      match hand.writer.missingPartition crew.site.manager with
      | none => ∃ hand', next.hands[k]? = some hand' ∧ hand'.work.inquires = false
      | some name => ∀ later, next.LooksUp srv k hand.writer.terms.port name hand.writer.hosts later := by
  intro next
  obtain ⟨hwire, hgo⟩ := Hand.go_places hplaces hfast srv hpartitioned
  have hlt : k < crew.hands.length := (List.getElem?_eq_some_iff.mp hk).1
  have hstep : next = crew.step srv (k, .go) := rfl
  rw [Crew.step_go srv hk] at hstep
  have hnext : next.hands[k]? = some (hand.go srv crew.site).1 := by
    rw [hstep]
    exact List.getElem?_set_self hlt
  refine ⟨?_, ?_⟩
  · rw [hstep]
    exact .of_same (congrArg Wire.trace hwire) (congrArg Wire.opened hwire)
  · cases hmissing : hand.writer.missingPartition crew.site.manager with
    | none =>
      rw [hmissing] at hgo
      exact ⟨_, hnext, hgo⟩
    | some name =>
      rw [hmissing] at hgo
      obtain ⟨uri, content, hgo⟩ := hgo
      rw [hgo] at hnext
      exact Crew.looksUp srv hnext

/-- A document that finds no place leaves writer and site as they were, but that its partition may be known, and no
session behind; one without content is counted as failed and noted, no more. Writers with fast load that share a
manager, whoever else turns to it in between, look a partition up whenever a document is to be placed in it, as long
as no request to cache it has succeeded, and do not begin to do so again once one has. A lookup that was begun goes
on to its end, and a step that belongs to none asks no query. -/
theorem write_unplaced :
    (∀ (srv : Server σ) (files : FileStore) (uri : Uri) (source : Option Source) (payload : Payload) (w : Writer)
      (site : Site σ) (e : TransferError), Unplaced srv w site e →
        (w.write srv files uri source payload site).1 = .error (.failed e) →
          (w.write srv files uri source payload site).2.1 = w ∧
            w.Spared site (w.write srv files uri source payload site).2.2) ∧
    (∀ (srv : Server σ) (files : FileStore) (uri : Uri) (source : Option Source) (payload : Payload) (w : Writer)
      (site : Site σ) (e : ContentError), w.closed = false →
        Content.create files w.options source (uri.wrap w.uriPrefix w.uriSuffix) payload = .error e →
          w.write srv files uri source payload site =
            (.ok (), { w with stats := { w.stats with failed := w.stats.failed + 1 } },
              { site with wire := site.wire.note (.documentSkipped source e) })) ∧
    ∀ (kind : Placement.Kind) (t : Topology) (batch : UInt64) (standard : Option String) (m : Manager),
      Manager.new kind t batch standard = .ok m → kind.partitioned = true →
      ∀ (srv : Server σ) (earlier : List Placement.Use) (writers : List Writer) (counters : Counters) (wire : Wire σ)
        (turns : List Turn),
        (∀ w ∈ writers, ∃ (config : Config.Output) (uses : List Placement.Use) (task : Nat),
          Writer.new config true (m.useAll uses) task = .ok w) →
        let start := Crew.start writers ⟨m.useAll earlier, counters, wire⟩
        let uses (turns : List Turn) := earlier ++ start.history srv turns
        let crew := start.play srv turns
        crew.site.manager = m.useAll (uses turns) ∧
          ∀ (k : Nat) (w : Writer) (hand : Hand), writers[k]? = some w → crew.hands[k]? = some hand →
            ∃ name, w.partition.or m.standardPartition = some name ∧
              (hand.places = true →
                let next := crew.turn srv (.move k .go)
                crew.site.wire.Adds [] next.site.wire ∧
                (m.Knows name (uses turns) → ∃ hand', next.hands[k]? = some hand' ∧ hand'.work.inquires = false) ∧
                (¬ m.Knows name (uses turns) → ∀ later, next.LooksUp srv k w.terms.port name w.hosts later)) ∧
              (hand.work.inquires = true → ∃ before during hand', turns = before ++ .move k .go :: during ∧
                (start.play srv before).hands[k]? = some hand' ∧ hand'.places = true ∧
                ¬ m.Knows name (uses before)) ∧
              (hand.work.inquires = false → answered (hand.requests srv crew.site) = []) := by
  refine ⟨fun srv files uri source payload w site e he h => he.spared h,
    fun srv files uri source payload w site e hopen hcontent => ?_, ?_⟩
  · rw [write, receive_skipping srv site hopen hcontent]
    rfl
  · intro kind t batch standard m hm hkind srv earlier writers counters wire turns hwriters start uses crew
    have hfresh := Manager.fresh_new hm
    have hpartitioned : m.kind.partitioned = true := by
      rw [(Manager.new_settings hm).2.2.1, hkind]
    have hstart : start.Housed m earlier := by
      refine Crew.housed_start hfresh (fun w hw => ?_) earlier counters wire
      obtain ⟨config, before, task, hnew⟩ := hwriters w hw
      exact ⟨config, true, before, task, hnew⟩
    have hmanager (turns : List Turn) : (start.play srv turns).site.manager = m.useAll (uses turns) :=
      (hstart.play srv hfresh turns).manager
    refine ⟨hmanager turns, fun k w hand hw hk => ?_⟩
    obtain ⟨name, hname⟩ : ∃ name, w.partition.or m.standardPartition = some name := by
      obtain ⟨name, hpolicy, -⟩ := Manager.new_partitioned hkind hm
      have hstandard : m.standardPartition = some name := congrArg Placement.Policy.standardPartition hpolicy
      rw [hstandard]
      cases w.partition with
      | none => exact ⟨name, rfl⟩
      | some other => exact ⟨other, rfl⟩
    have hsettled {turns : List Turn} {hand : Hand} (hk : (start.play srv turns).hands[k]? = some hand) :
        w.Settled hand.writer := by
      obtain ⟨before, hbefore, hsettled⟩ := (Crew.play_settled srv turns start).2 k hand hk
      rw [show start.hands = writers.map (Hand.mk · .idle) from rfl, List.getElem?_map, hw] at hbefore
      cases hbefore
      exact hsettled
    have hmissing {turns : List Turn} {hand : Hand} (hk : (start.play srv turns).hands[k]? = some hand) :
        (m.Knows name (uses turns) → hand.writer.missingPartition (start.play srv turns).site.manager = none) ∧
        (¬ m.Knows name (uses turns) →
          hand.writer.missingPartition (start.play srv turns).site.manager = some name) := by
      rw [hmanager turns]
      exact missingPartition_useAll (hfresh.caches hpartitioned) hfresh.unassigned
        ((hsettled hk).partition.symm ▸ hname) (uses turns)
    refine ⟨name, hname, fun hplaces => ?_, fun hinquires => ?_, fun hnone => hand.requests_answered srv _ hnone⟩
    · obtain ⟨hterms, -, hhosts, hfast⟩ := hsettled hk
      obtain ⟨config, before, task, hnew⟩ := hwriters w (List.mem_of_getElem? hw)
      obtain ⟨-, -, -, hnew, -⟩ := new_cases hnew
      have hkind' : crew.site.manager.kind.partitioned = true := by
        rw [hmanager turns]
        exact (congrArg Placement.Kind.partitioned (Manager.useAll_alike (uses turns) m).kind).trans hpartitioned
      obtain ⟨hwire, hnext⟩ := Crew.turn_places srv hk hplaces (hfast.trans hnew) hkind'
      refine ⟨hwire, fun hknows => ?_, fun hunknown => ?_⟩
      · rw [(hmissing hk).1 hknows] at hnext
        exact hnext
      · rw [(hmissing hk).2 hunknown, hterms, hhosts] at hnext
        exact hnext
    · have hidle (hand : Hand) (hk : start.hands[k]? = some hand) : hand.work.inquires = false := by
        obtain ⟨w', -, rfl⟩ := List.mem_map.mp (List.mem_of_getElem? hk)
        rfl
      obtain ⟨before, during, hand', hturns, hbefore, hplaces, other, hother⟩ :=
        Crew.play_began srv turns hidle hk hinquires
      refine ⟨before, during, hand', hturns, hbefore, hplaces, fun hknows => ?_⟩
      cases ((hmissing hbefore).1 hknows).symm.trans hother

namespace Sample

/-- The first host is down, and the other one has no answer when it is asked for the first time. -/
def late : Server Bool where
  accept session s := (if session.target.host = "a" then .error (.connection "refused") else .ok (), s)
  insert _ _ s := (.ok [], s)
  commit _ s := (.ok (), s)
  rollback _ s := (.ok (), s)
  submit _ _ s := (if s then .ok [.text "1"] else .error (.connection "reset"), true)
  range _ _ s := (.ok (), s)
  next _ s := (.ok none, s)
  close _ s := (.ok (), s)
  wait _ s := s

/-- After the check the lookup goes to the first host, then to the second, which is asked and left. -/
def lookup : List Turn := .replicate 4 (.move 0 .go)

/-- One document finds no place, and another one is to be placed. -/
def second : List Turn := [.move 0 (.call (call 1)), .move 0 .go] ++ lookup ++ [.move 0 (.call (call 2))]

/-- The other one has been placed and pushed on its slot, and one more is to be placed. -/
def third : List Turn := second ++ [.move 0 .go] ++ lookup ++ [.move 0 .go, .move 0 .go, .move 0 (.call (call 3))]

end Sample

/-- The forests of the standard partition are not told when they are asked for first. So they are asked for with the
next document, and then no more. -/
theorem write_unplaced_late :
    ∃ m w, Manager.new .query Sample.mixed 2 none = .ok m ∧ Writer.new (Sample.config 2) true m 0 = .ok w ∧
      let site : Site Bool := ⟨m, .zero, .new false⟩
      let crew (turns : List Turn) := Crew.play Sample.late turns (.start [w] site)
      let next (turns : List Turn) := (crew turns).turn Sample.late (.move 0 .go)
      let write := w.write Sample.late .empty ⟨"x"⟩ none (.binary [1]) site
      write.1 = .error (.failed (.request (.connection "reset"))) ∧ write.2.1 = w ∧ w.Spared site write.2.2 ∧
      (∃ during after, Sample.lookup = during ++ after ∧
        Inquires 8006 "default" ["a", "b"] ((next Sample.second).requests Sample.late 0 during).flatten) ∧
      (crew Sample.third).site.wire.Adds [] (next Sample.third).site.wire ∧
        ∃ hand, (next Sample.third).hands[0]? = some hand ∧ hand.work.inquires = false := by
  obtain ⟨m, hm⟩ : ∃ m, Manager.new .query Sample.mixed 2 none = .ok m := ⟨_, rfl⟩
  obtain ⟨w, hw⟩ : ∃ w, Writer.new (Sample.config 2) true m 0 = .ok w := by
    cases hm
    exact ⟨_, rfl⟩
  refine ⟨m, w, hm, hw, ?_⟩
  intro site crew next write
  obtain ⟨hspared, -, hasks⟩ := write_unplaced (σ := Bool)
  have hasks := hasks .query Sample.mixed 2 none m hm rfl Sample.late [] [w] .zero (.new false)
  rw [show m.useAll [] = m from rfl] at hasks
  have hlookup (turns : List Turn) := (hasks turns (by simpa using ⟨_, [], 0, hw⟩)).2 0 w
  have hfailed : write.1 = .error (.failed (.request (.connection "reset"))) := by
    cases hm
    cases hw
    rfl
  have hunplaced : Unplaced Sample.late w site (.request (.connection "reset")) := by
    cases hm
    cases hw
    exact .lookup rfl rfl rfl
  obtain ⟨hwriter, hsite⟩ := hspared Sample.late .empty ⟨"x"⟩ none (.binary [1]) w site _ hunplaced hfailed
  refine ⟨hfailed, hwriter, hsite, ?_, ?_⟩
  · have hplaces : (crew Sample.second).hands[0]?.any Hand.places = true := by
      cases hm
      cases hw
      decide +kernel
    obtain ⟨hand, hhand, hplaces⟩ := (Option.any_eq_true _ _).mp hplaces
    obtain ⟨name, hname, hnext, -⟩ := hlookup Sample.second hand rfl hhand
    have hunknown : ¬ m.Knows name ([] ++ Crew.history Sample.late Sample.second (.start [w] site)) := by
      rw [← Manager.firstNamed_isSome_iff]
      cases hm
      cases hw
      cases hname
      decide +kernel
    have hsettings : w.terms.port = 8006 ∧ w.hosts = ["a", "b"] ∧ name = "default" := by
      cases hm
      cases hw
      cases hname
      exact ⟨rfl, rfl, rfl⟩
    have hlooksUp := (hnext hplaces).2.2 hunknown Sample.lookup
    rw [hsettings.1, hsettings.2.1, hsettings.2.2] at hlooksUp
    obtain ⟨during, after, hturns, hinquires, -⟩ | ⟨⟨hand', hhand', hon⟩, -⟩ := hlooksUp
    · exact ⟨during, after, hturns, hinquires⟩
    · have hdone : ((next Sample.second).play Sample.late Sample.lookup).hands[0]?.any (·.work.inquires) = false := by
        cases hm
        cases hw
        decide +kernel
      rw [show ((next Sample.second).play Sample.late Sample.lookup).hands[0]? = some hand' from hhand',
        Option.any_some, hon] at hdone
      cases hdone
  · have hplaces : (crew Sample.third).hands[0]?.any Hand.places = true := by
      cases hm
      cases hw
      decide +kernel
    obtain ⟨hand, hhand, hplaces⟩ := (Option.any_eq_true _ _).mp hplaces
    obtain ⟨name, hname, hnext, -⟩ := hlookup Sample.third hand rfl hhand
    have hknown : m.Knows name ([] ++ Crew.history Sample.late Sample.third (.start [w] site)) := by
      rw [← Manager.firstNamed_isSome_iff]
      cases hm
      cases hw
      cases hname
      decide +kernel
    dsimp only [site, crew, next]
    exact ⟨(hnext hplaces).1, (hnext hplaces).2.1 hknown⟩

end Writer

end ForestCourier
