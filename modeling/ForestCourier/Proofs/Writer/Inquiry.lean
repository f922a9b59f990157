import ForestCourier.Proofs.Writer.Uses

/-!
The lookup of a partition, request by request. It tries the hosts in turn, asks the first one that accepts,
leaves it and has the manager cache the answer. Between two requests other writers may go on. Requests that
nobody interrupts come to what the lookup comes to as a whole.
-/

namespace ForestCourier.Writer

open Placement (Manager Use)

variable {σ : Type}

/-- How far a lookup has come: there are hosts to be tried, or one has accepted, or it has answered. -/
inductive Inquiry where
  | search (hosts : List String) (last : Option RequestError)
  | ask (session : Session)
  | leave (session : Session) (answer : Except TransferError (List ForestId))

namespace Inquiry

def settle (name : String) (answer : Except TransferError (List ForestId)) (site : Site σ) :
    Except TransferError Unit × Site σ :=
  match answer with
  | .error e => (.error e, site)
  | .ok ids =>
    match site.manager.cachePartition name ids with
    | (.error e, manager) => (.error (.placement e), { site with manager := manager })
    | (.ok _, manager) => (.ok (), { site with manager := manager })

/-- The next request. Either the lookup comes to an end by it, or something is left to do. -/
def step (srv : Server σ) (w : Writer) (name : String) (site : Site σ) :
    Inquiry → (Except TransferError Unit ⊕ Inquiry) × Site σ
  | search [] last => (.inl (.error (.noReachableHost w.hosts last)), site)
  | search (host :: hosts) _ =>
    match site.wire.openSession srv ⟨host, w.terms.port, none⟩ .auto with
    | (.ok session, wire) => (.inr (ask session), { site with wire := wire })
    | (.error e, wire) =>
      (.inr (search hosts (some e)), { site with wire := wire.note (.hostUnreachable host e) })
  | ask session =>
    match Discovery.partitionForests srv session name site.wire with
    | (answer, wire) => (.inr (leave session answer), { site with wire := wire })
  | leave session answer =>
    match settle name answer { site with wire := site.wire.close srv session } with
    | (result, site) => (.inl result, site)

def uses (name : String) : Inquiry → List Use
  | leave _ (.ok ids) => [.cache name ids]
  | _ => []

theorem step_uses (srv : Server σ) (w : Writer) (name : String) (site : Site σ) (inquiry : Inquiry) :
    (inquiry.step srv w name site).2.manager = site.manager.useAll (inquiry.uses name) := by
  cases inquiry with
  | search hosts last =>
    cases hosts with
    | nil => rfl
    | cons host hosts =>
      dsimp only [step]
      split
      · rfl
      · rfl
  | ask session => rfl
  | leave session answer =>
    cases answer with
    | error e => rfl
    | ok ids =>
      have huse : site.manager.useAll (uses name (leave session (.ok ids))) =
          (site.manager.cachePartition name ids).2 := rfl
      rw [huse]
      dsimp only [step, settle]
      cases site.manager.cachePartition name ids with
      | mk r m => cases r <;> rfl

def Rest (port : UInt16) (name : String) : Inquiry → List Event → Prop
  | search hosts _, events => Inquires port name hosts events
  | ask session, events => ∃ answer bye, events =
      [.submitted session ⟨Discovery.Queries.partitionForests, [("partition", name)]⟩ answer, .closed session bye]
  | leave session _, events => ∃ bye, events = [.closed session bye]

theorem exists_rest (port : UInt16) (name : String) (inquiry : Inquiry) : ∃ events, inquiry.Rest port name events := by
  cases inquiry with
  | search hosts last =>
    induction hosts with
    | nil => exact ⟨[], .nobody⟩
    | cons host hosts ih =>
      obtain ⟨events, hevents⟩ := ih
      exact ⟨_, .refused (.connection "") hevents⟩
  | ask session => exact ⟨_, .ok [], .ok (), rfl⟩
  | leave session answer => exact ⟨_, .ok (), rfl⟩

theorem step_rest (srv : Server σ) (w : Writer) (name : String) (site : Site σ) (inquiry : Inquiry) :
    ∃ events, site.wire.Adds events (inquiry.step srv w name site).2.wire ∧
      match (inquiry.step srv w name site).1 with
      | .inl _ => inquiry.Rest w.terms.port name events
      | .inr next => ∀ rest, next.Rest w.terms.port name rest → inquiry.Rest w.terms.port name (events ++ rest) := by
  cases inquiry with
  | search hosts last =>
    cases hosts with
    | nil => exact ⟨[], .of_same rfl rfl, .nobody⟩
    | cons host hosts =>
      have hopen := site.wire.openSession_adds srv ⟨host, w.terms.port, none⟩ .auto
      dsimp only [step]
      cases ho : site.wire.openSession srv ⟨host, w.terms.port, none⟩ .auto with
      | mk r wire =>
        rw [ho] at hopen
        cases r with
        | ok session =>
          obtain ⟨htarget, htransaction, hadds⟩ := hopen
          refine ⟨_, hadds, fun rest hrest => ?_⟩
          obtain ⟨answer, bye, rfl⟩ := hrest
          exact .asked hosts answer bye htarget htransaction
        | error e => exact ⟨_, hopen.note _, fun rest hrest => .refused e hrest⟩
  | ask session =>
    refine ⟨[.submitted session ⟨Discovery.Queries.partitionForests, [("partition", name)]⟩
      (site.wire.submit srv session ⟨Discovery.Queries.partitionForests, [("partition", name)]⟩).1], ?_, ?_⟩
    · dsimp only [step]
      rw [Discovery.partitionForests_eq]
      exact .of_cons rfl rfl rfl
    · rintro rest ⟨bye, rfl⟩
      exact ⟨_, bye, rfl⟩
  | leave session answer =>
    have hclose : site.wire.Adds [.closed session (srv.close session site.wire.state).1]
        (site.wire.close srv session) := .of_cons rfl rfl rfl
    refine ⟨[.closed session (srv.close session site.wire.state).1], ?_, _, rfl⟩
    dsimp only [step, settle]
    split
    · exact hclose
    · split <;> exact hclose

def result (srv : Server σ) (w : Writer) (name : String) (site : Site σ) :
    Inquiry → Except TransferError Unit × Site σ
  | search hosts last =>
    match Failover.openAmong srv w.hosts w.terms.port .auto hosts last site.wire with
    | (.error e, wire) => (.error e, { site with wire := wire })
    | (.ok session, wire) =>
      match Discovery.partitionForests srv session name wire with
      | (answer, wire) => settle name answer { site with wire := wire.close srv session }
  | ask session =>
    match Discovery.partitionForests srv session name site.wire with
    | (answer, wire) => settle name answer { site with wire := wire.close srv session }
  | leave session answer => settle name answer { site with wire := site.wire.close srv session }

theorem result_step (srv : Server σ) (w : Writer) (name : String) (site : Site σ) (inquiry : Inquiry) :
    inquiry.result srv w name site =
      match (inquiry.step srv w name site).1 with
      | .inl r => (r, (inquiry.step srv w name site).2)
      | .inr next => next.result srv w name (inquiry.step srv w name site).2 := by
  cases inquiry with
  | search hosts last =>
    cases hosts with
    | nil => rfl
    | cons host hosts =>
      dsimp only [step, result]
      rw [Failover.openAmong]
      cases site.wire.openSession srv ⟨host, w.terms.port, none⟩ .auto with
      | mk r wire => cases r <;> rfl
  | ask session => rfl
  | leave session answer => rfl

/-- How many steps are left, at most. -/
def left : Inquiry → Nat
  | search hosts _ => hosts.length + 1
  | ask _ => 1
  | leave _ _ => 0

theorem left_step {srv : Server σ} {w : Writer} {name : String} {site : Site σ} {inquiry next : Inquiry}
    (h : (inquiry.step srv w name site).1 = .inr next) : next.left < inquiry.left := by
  cases inquiry with
  | search hosts last =>
    cases hosts with
    | nil => cases h
    | cons host hosts =>
      dsimp only [step] at h
      split at h
      · cases h
        simp [left]
      · cases h
        simp [left]
  | ask session =>
    cases h
    exact Nat.zero_lt_one
  | leave session answer => cases h

end Inquiry

theorem resolvePartition_eq (srv : Server σ) (w : Writer) (site : Site σ) :
    w.resolvePartition srv site =
      match w.missingPartition site.manager with
      | none => (.ok (), site)
      | some name => (Inquiry.search w.hosts none).result srv w name site := by
  unfold resolvePartition missingPartition
  cases w.partition.or site.manager.standardPartition with
  | none => rfl
  | some name =>
    cases hcached : site.manager.isCached name with
    | true => simp [hcached, Option.filter]
    | false =>
      simp only [hcached, Bool.false_eq_true, if_false, Option.filter, Bool.not_false, if_true]
      unfold Failover.openFirst
      dsimp only [Inquiry.result]
      cases Failover.openAmong srv w.hosts w.terms.port .auto w.hosts none site.wire with
      | mk opened wire =>
        cases opened with
        | error e => rfl
        | ok session => rfl

/-- The content of a document that cannot be placed before its partition has been looked up, and the partition. -/
def unresolved? (files : FileStore) (uri : Uri) (source : Option Source) (payload : Payload) (w : Writer)
    (m : Manager) : Option (Content × String) :=
  if w.closed || !w.fastLoad || !m.kind.partitioned then none
  else
    match Content.create files w.options source (uri.wrap w.uriPrefix w.uriSuffix) payload with
    | .error _ => none
    | .ok content => (w.missingPartition m).map (content, ·)

section

variable {files : FileStore} {uri : Uri} {source : Option Source} {payload : Payload} {w : Writer}

theorem unresolved?_eq_some {m : Manager} {content : Content} {name : String} :
    w.unresolved? files uri source payload m = some (content, name) ↔
      w.closed = false ∧ w.fastLoad = true ∧ m.kind.partitioned = true ∧
        Content.create files w.options source (uri.wrap w.uriPrefix w.uriSuffix) payload = .ok content ∧
        w.missingPartition m = some name := by
  constructor
  · intro h
    unfold unresolved? at h
    split at h
    · cases h
    · next hlookup =>
      split at h
      · cases h
      · next hcontent =>
        obtain ⟨name, hmissing, hpair⟩ := Option.map_eq_some_iff.mp h
        cases hpair
        simp only [Bool.or_eq_true, Bool.not_eq_true', not_or, Bool.not_eq_true, Bool.not_eq_false] at hlookup
        exact ⟨hlookup.1.1, hlookup.1.2, hlookup.2, hcontent, hmissing⟩
  · rintro ⟨hopen, hfast, hpartitioned, hcontent, hmissing⟩
    simp [unresolved?, hopen, hfast, hpartitioned, hcontent, hmissing]

theorem unresolved?_statistical {m : Manager} (h : m.kind = .statistical) :
    w.unresolved? files uri source payload m = none := by
  simp [unresolved?, h, Placement.Kind.partitioned]

theorem slotFor_resolved (srv : Server σ) (uri : Uri) {site : Site σ}
    (h : w.fastLoad = true → site.manager.kind.partitioned = true → w.missingPartition site.manager = none) :
    (w.slotFor srv uri site).2.2.wire = site.wire := by
  have hplace : (w.place uri site).2.wire = site.wire := rfl
  cases hfast : w.fastLoad with
  | false => rw [slotFor_shared srv uri hfast]
  | true =>
    cases hpartitioned : site.manager.kind.partitioned with
    | true =>
      have hresolve := resolvePartition_eq srv w site
      rw [h hfast hpartitioned] at hresolve
      rw [slotFor_lookup srv uri hfast (Placement.Kind.ne_statistical hpartitioned) hpartitioned hresolve]
    | false =>
      by_cases hload : site.manager.kind = .statistical
      · cases hfilling : w.filling with
        | some i => rw [slotFor_filling srv uri hfast hload hfilling]
        | none =>
          cases hp : w.place uri site with
          | mk r site₁ =>
            rw [hp] at hplace
            cases r with
            | error fault =>
              rw [slotFor_unplaced srv uri hfast hload hfilling hp]
              exact hplace
            | ok i =>
              rw [slotFor_charge srv uri hfast hload hfilling hp]
              exact hplace
      · rw [slotFor_place srv uri hfast hload hpartitioned]
        exact hplace

theorem receive_resolved (srv : Server σ) {site : Site σ}
    (h : w.unresolved? files uri source payload site.manager = none) :
    (w.receive srv files uri source payload site).2.2.wire = site.wire := by
  cases hclosed : w.closed with
  | true => rw [receive_closed hclosed]
  | false =>
    cases hcontent : Content.create files w.options source (uri.wrap w.uriPrefix w.uriSuffix) payload with
    | error e => rw [receive_skipping srv site hclosed hcontent]
    | ok content =>
      rw [receive_placing srv site hclosed hcontent]
      refine slotFor_resolved srv _ fun hfast hpartitioned => ?_
      simpa [unresolved?, hclosed, hfast, hpartitioned, hcontent] using h

/-- A document that has to wait for a lookup is received when that has come to its end. -/
theorem receive_unresolved (srv : Server σ) {site : Site σ} {content : Content} {name : String}
    (h : w.unresolved? files uri source payload site.manager = some (content, name)) :
    w.receive srv files uri source payload site =
      match (Inquiry.search w.hosts none).result srv w name site with
      | (.error e, site) => (.error (.failed e), w, site)
      | (.ok (), site) =>
        ((w.place (uri.wrap w.uriPrefix w.uriSuffix) site).1.map (.placed · content), w,
          (w.place (uri.wrap w.uriPrefix w.uriSuffix) site).2) := by
  obtain ⟨hopen, hfast, hpartitioned, hcontent, hmissing⟩ := unresolved?_eq_some.mp h
  have hresolve := resolvePartition_eq srv w site
  rw [hmissing] at hresolve
  dsimp only at hresolve
  rw [receive_placing srv site hopen hcontent]
  cases hr : (Inquiry.search w.hosts none).result srv w name site with
  | mk r site₁ =>
    rw [hr] at hresolve
    rw [slotFor_lookup srv _ hfast (Placement.Kind.ne_statistical hpartitioned) hpartitioned hresolve]
    cases r <;> rfl

end

end ForestCourier.Writer
