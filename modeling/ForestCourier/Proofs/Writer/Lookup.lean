import ForestCourier.Proofs.Placement.Uses
import ForestCourier.Proofs.Session.Protocol
import ForestCourier.Proofs.Writer.Ledger
import ForestCourier.Writer.Basic

/-!
What a writer asks the server before it knows where a document goes. The question after the forests of
a partition takes a session of its own, on the first host that accepts one, which inserts nothing and is
closed again, so that the ledger stays as it is.
-/

namespace ForestCourier

/-- Requests that insert nothing, and leave no session that they open with anything. -/
structure Wire.Looks {σ : Type} (w w' : Wire σ) : Prop where
  opened : w.opened ≤ w'.opened
  stored : w'.ledger.stored = w.ledger.stored
  held : ∀ n, w'.ledger.held n = w.ledger.held n ∨ w.opened < n ∧ w'.ledger.held n = []

namespace Wire.Looks

variable {σ : Type} {a b c : Wire σ}

theorem of_same (hopened : b.opened = a.opened) (hledger : b.ledger = a.ledger) : a.Looks b :=
  ⟨Nat.le_of_eq hopened.symm, by rw [hledger], fun n => .inl (by rw [hledger])⟩

theorem refl (a : Wire σ) : a.Looks a := of_same rfl rfl

theorem trans (h : a.Looks b) (h' : b.Looks c) : a.Looks c where
  opened := Nat.le_trans h.opened h'.opened
  stored := by rw [h'.stored, h.stored]
  held n := by
    rcases h'.held n with hn | ⟨hlt, hn⟩
    · rw [hn]
      exact h.held n
    · exact .inr ⟨Nat.lt_of_le_of_lt h.opened hlt, hn⟩

/-- Dropping what a session holds is no more than a look if the session is a new one. -/
theorem of_hold {n : Nat} (hopened : a.opened ≤ b.opened) (hn : a.opened < n)
    (hledger : b.ledger = a.ledger.hold n []) : a.Looks b where
  opened := hopened
  stored := by rw [hledger, Ledger.stored_hold]
  held m := by
    by_cases hm : m = n
    · subst hm
      exact .inr ⟨hn, by rw [hledger, Ledger.held_hold]⟩
    · exact .inl (by rw [hledger, Ledger.held_hold_of_ne _ hm])

theorem close (h : a.Looks b) (srv : Server σ) {session : Session} (hn : a.opened < session.number) :
    a.Looks (b.close srv session) where
  opened := h.opened
  stored := h.stored
  held m := by
    by_cases hm : m = session.number
    · subst hm
      exact .inr ⟨hn, by rw [ledger_close, Ledger.held_hold]⟩
    · rw [ledger_close, Ledger.held_hold_of_ne _ hm]
      exact h.held m

end Wire.Looks

variable {σ : Type}

theorem Failover.openAmong_looks (srv : Server σ) (all : List String) (port : UInt16)
    (transaction : Transaction) (hosts : List String) (last : Option RequestError) (w : Wire σ) :
    w.Looks (openAmong srv all port transaction hosts last w).2 ∧
      ∀ session, (openAmong srv all port transaction hosts last w).1 = .ok session →
        w.opened < session.number := by
  induction hosts generalizing last w with
  | nil => exact ⟨.refl w, nofun⟩
  | cons host hosts ih =>
    unfold openAmong
    split
    · next session w₁ h =>
      obtain ⟨hsession, hopened, hledger⟩ := Wire.openSession_ok h
      have hn : w.opened < session.number := by
        rw [hsession]
        exact Nat.lt_succ_self _
      refine ⟨.of_hold (Nat.le_of_lt (hopened ▸ Nat.lt_succ_self _)) hn hledger, fun s hs => ?_⟩
      cases hs
      exact hn
    · next e w₁ h =>
      obtain ⟨hopened, hledger⟩ := Wire.openSession_error h
      obtain ⟨hlooks, hnumber⟩ := ih (some e) (w₁.note (.hostUnreachable host e))
      refine ⟨(Wire.Looks.of_same (b := w₁.note _) hopened hledger).trans hlooks, fun s hs => ?_⟩
      have hlt := hnumber s hs
      rw [Wire.opened_note, hopened] at hlt
      exact hlt

def Discovery.readPartition : Except RequestError (List Item) → Except TransferError (List ForestId)
  | .error e => .error (.request e)
  | .ok items => (readForestIds items).mapError .protocol

theorem Discovery.partitionForests_eq (srv : Server σ) (session : Session) (name : String)
    (w : Wire σ) :
    partitionForests srv session name w =
      (readPartition (w.submit srv session ⟨Queries.partitionForests, [("partition", name)]⟩).1,
        (w.submit srv session ⟨Queries.partitionForests, [("partition", name)]⟩).2) := by
  simp only [partitionForests, bind, ExceptT.bind, ExceptT.mk, StateT.bind, ExceptT.bindCont, ask]
  cases w.submit srv session ⟨Queries.partitionForests, [("partition", name)]⟩ with
  | mk answer w₁ => cases answer <;> rfl

/-- The question for the forests of a partition. Hosts refuse a session, each in its turn, up to one that accepts
it, and is asked, and is left again. -/
inductive Inquires (port : UInt16) (name : String) : List String → List Event → Prop
  | nobody : Inquires port name [] []
  | refused {host : String} {hosts : List String} {events : List Event} (e : RequestError) :
      Inquires port name hosts events →
      Inquires port name (host :: hosts) (.refused ⟨host, port, none⟩ .auto e :: events)
  | asked {host : String} (hosts : List String) {session : Session} (answer : Except RequestError (List Item))
      (bye : Except RequestError Unit) :
      session.target = ⟨host, port, none⟩ → session.transaction = .auto →
      Inquires port name (host :: hosts) [.opened session,
        .submitted session ⟨Discovery.Queries.partitionForests, [("partition", name)]⟩ answer, .closed session bye]

theorem Inquires.balanced {port : UInt16} {name : String} {hosts : List String} {events : List Event}
    (h : Inquires port name hosts events) (session : Session) :
    events.countP (Event.opens session) = events.countP (Event.closes session) := by
  induction h with
  | nobody => rfl
  | refused e _ ih => simpa [Event.opens, Event.closes] using ih
  | asked => simp [List.countP_cons, Event.opens, Event.closes]

theorem Failover.openAmong_inquires (srv : Server σ) (all : List String) (port : UInt16) (name : String)
    (hosts : List String) (last : Option RequestError) (w : Wire σ) :
    ∃ events, w.Adds events (openAmong srv all port .auto hosts last w).2 ∧
      match (openAmong srv all port .auto hosts last w).1 with
      | .error _ => Inquires port name hosts events
      | .ok session => ∀ answer bye, Inquires port name hosts (events ++
          [.submitted session ⟨Discovery.Queries.partitionForests, [("partition", name)]⟩ answer,
            .closed session bye]) := by
  -- The question is of the host that accepts, so it is put off until the session is known.
  induction hosts generalizing last w with
  | nil => exact ⟨[], .of_same rfl rfl, .nobody⟩
  | cons host hosts ih =>
    have hopen := w.openSession_adds srv ⟨host, port, none⟩ .auto
    unfold openAmong
    cases ho : w.openSession srv ⟨host, port, none⟩ .auto with
    | mk r w₁ =>
      rw [ho] at hopen
      cases r with
      | ok session =>
        obtain ⟨htarget, htransaction, hadds⟩ := hopen
        exact ⟨_, hadds, fun answer bye => .asked hosts answer bye htarget htransaction⟩
      | error e =>
        obtain ⟨events, hadds, hinquires⟩ := ih (some e) (w₁.note (.hostUnreachable host e))
        refine ⟨_, (hopen.note _).trans hadds, ?_⟩
        revert hinquires
        dsimp only
        cases (openAmong srv all port .auto hosts (some e) (w₁.note (.hostUnreachable host e))).1 with
        | error e' => exact .refused e
        | ok session => exact fun h answer bye => .refused e (h answer bye)

namespace Writer

open Placement (Manager)

/-- The partition that has to be looked up before a document can be placed. -/
def missingPartition (w : Writer) (m : Placement.Manager) : Option String :=
  (w.partition.or m.standardPartition).filter fun name => !m.isCached name

/-- What is left by looking for a place. A partition that was missing is asked for, and may be known by now. -/
structure Seeks (w : Writer) (site site' : Site σ) : Prop where
  counters : site'.counters = site.counters
  manager : site'.manager = { site.manager with policy := site'.manager.policy }
  policy : site'.manager.policy = site.manager.policy ∨ ∃ name forests,
    w.missingPartition site.manager = some name ∧
      site'.manager.policy = site.manager.policy.insertPartition name forests
  asks : ∃ events, site.wire.Adds events site'.wire ∧
    match w.missingPartition site.manager with
    | none => events = []
    | some name => Inquires w.terms.port name w.hosts events

theorem Seeks.refl {w : Writer} {site : Site σ} (h : w.missingPartition site.manager = none) : w.Seeks site site :=
  ⟨rfl, rfl, .inl rfl, [], .of_same rfl rfl, by rw [h]⟩

theorem resolvePartition_seeks (srv : Server σ) (w : Writer) (site : Site σ) :
    w.Seeks site (w.resolvePartition srv site).2 := by
  unfold resolvePartition
  cases hname : w.partition.or site.manager.standardPartition with
  | none => exact .refl (by rw [missingPartition, hname, Option.filter_none])
  | some name =>
    cases hcached : site.manager.isCached name with
    | true =>
      simp only [hcached, if_true]
      exact .refl (by simp [missingPartition, hname, hcached])
    | false =>
      have hmissing : w.missingPartition site.manager = some name := by
        simp [missingPartition, hname, hcached]
      have hseeks {m : Manager} {wire : Wire σ} {events : List Event}
          (hm : m = { site.manager with policy := m.policy }) (hpolicy : m.policy = site.manager.policy ∨
            ∃ forests, m.policy = site.manager.policy.insertPartition name forests)
          (hadds : site.wire.Adds events wire) (hinquires : Inquires w.terms.port name w.hosts events) :
          w.Seeks site { site with manager := m, wire := wire } := by
        refine ⟨rfl, hm, ?_, events, hadds, ?_⟩
        · obtain hsame | ⟨forests, hinsert⟩ := hpolicy
          · exact .inl hsame
          · exact .inr ⟨name, forests, hmissing, hinsert⟩
        · rw [hmissing]
          exact hinquires
      obtain ⟨events, hadds, hinquires⟩ :=
        Failover.openAmong_inquires srv w.hosts w.terms.port name w.hosts none site.wire
      simp only [hcached, Bool.false_eq_true, if_false, Failover.openFirst]
      cases hopen : Failover.openAmong srv w.hosts w.terms.port .auto w.hosts none site.wire with
      | mk opened wire =>
        rw [hopen] at hadds hinquires
        cases opened with
        | error e => exact hseeks rfl (.inl rfl) hadds hinquires
        | ok session =>
          dsimp only at hadds hinquires ⊢
          rw [Discovery.partitionForests_eq]
          have hasked := hadds.trans
            (wire.submit_close_adds srv session ⟨Discovery.Queries.partitionForests, [("partition", name)]⟩)
          dsimp only
          cases Discovery.readPartition
              (wire.submit srv session ⟨Discovery.Queries.partitionForests, [("partition", name)]⟩).1 with
          | error e => exact hseeks rfl (.inl rfl) hasked (hinquires _ _)
          | ok ids =>
            have hfixed := site.manager.fixed_cachePartition name ids
            have hpolicy := site.manager.policy_cachePartition name ids
            dsimp only
            cases hcache : site.manager.cachePartition name ids with
            | mk r m =>
              rw [hcache] at hfixed hpolicy
              have hlearnt := hseeks hfixed hpolicy hasked (hinquires _ _)
              cases r with
              | error e => exact hlearnt
              | ok kept => exact hlearnt

theorem resolvePartition_looks (srv : Server σ) (w : Writer) (site : Site σ) :
    site.wire.Looks (w.resolvePartition srv site).2.wire := by
  unfold resolvePartition
  split
  · exact .refl _
  · next name _ =>
    split
    · exact .refl _
    · obtain ⟨hopen, hnumber⟩ := Failover.openAmong_looks srv w.hosts w.terms.port .auto w.hosts none
        site.wire
      unfold Failover.openFirst
      split
      · next h => rwa [h] at hopen
      · next session wire h =>
        rw [h] at hopen hnumber
        rw [Discovery.partitionForests_eq]
        have hsubmit : site.wire.Looks ((wire.submit srv session
            ⟨Discovery.Queries.partitionForests, [("partition", name)]⟩).2) := hopen.trans (.of_same rfl rfl)
        have hlooks := hsubmit.close srv (hnumber session rfl)
        dsimp only
        split
        · exact hlooks
        · split <;> exact hlooks

theorem slotFor_wire (srv : Server σ) (uri : Uri) (w : Writer) (site : Site σ) :
    (w.slotFor srv uri site).2.2.wire = site.wire ∨
      (w.slotFor srv uri site).2.2.wire = (w.resolvePartition srv site).2.wire := by
  have hplace (site : Site σ) : (w.place uri site).2.wire = site.wire := rfl
  unfold slotFor
  split
  · exact .inl rfl
  · split
    · split
      · exact .inl rfl
      · split
        · next h => exact .inl (by rw [← hplace site, h])
        · next h => exact .inl (by rw [← hplace site, h])
    · split
      · split
        · next h => exact .inr (by rw [h])
        · next h =>
          rw [h]
          exact .inr rfl
      · exact .inl rfl

theorem receive_wire (srv : Server σ) (files : FileStore) (uri : Uri) (source : Option Source)
    (payload : Payload) (w : Writer) (site : Site σ) :
    (w.receive srv files uri source payload site).2.2.wire = site.wire ∨
      (w.receive srv files uri source payload site).2.2.wire =
        (w.resolvePartition srv site).2.wire := by
  unfold receive
  split
  · exact .inl rfl
  · dsimp only
    split
    · exact .inl rfl
    · have hslot := slotFor_wire srv (uri.wrap w.uriPrefix w.uriSuffix) w site
      split
      · next h => rwa [h] at hslot
      · next h => rwa [h] at hslot

theorem slotFor_looks (srv : Server σ) (uri : Uri) (w : Writer) (site : Site σ) :
    site.wire.Looks (w.slotFor srv uri site).2.2.wire := by
  rcases slotFor_wire srv uri w site with h | h
  · rw [h]
    exact .refl _
  · rw [h]
    exact resolvePartition_looks srv w site

theorem receive_looks (srv : Server σ) (files : FileStore) (uri : Uri) (source : Option Source)
    (payload : Payload) (w : Writer) (site : Site σ) :
    site.wire.Looks (w.receive srv files uri source payload site).2.2.wire := by
  rcases receive_wire srv files uri source payload w site with h | h
  · rw [h]
    exact .refl _
  · rw [h]
    exact resolvePartition_looks srv w site

/-- The requests of a lookup of the partition that a writer places in, or none. -/
def Asks (w : Writer) (m : Manager) (events : List Event) : Prop :=
  events = [] ∨ ∃ name, w.partition.or m.standardPartition = some name ∧
    Inquires w.terms.port name w.hosts events

theorem Seeks.asked {w : Writer} {site site' : Site σ} (h : w.Seeks site site') :
    ∃ events, site.wire.Adds events site'.wire ∧ w.Asks site.manager events := by
  obtain ⟨events, hadds, hasks⟩ := h.asks
  refine ⟨events, hadds, ?_⟩
  cases hname : w.missingPartition site.manager with
  | none =>
    rw [hname] at hasks
    exact .inl hasks
  | some name =>
    rw [hname] at hasks
    exact .inr ⟨name, (Option.filter_eq_some_iff.mp hname).1, hasks⟩

theorem receive_asks (srv : Server σ) (files : FileStore) (uri : Uri) (source : Option Source)
    (payload : Payload) (w : Writer) (site : Site σ) :
    ∃ events, site.wire.Adds events (w.receive srv files uri source payload site).2.2.wire ∧
      w.Asks site.manager events := by
  rcases receive_wire srv files uri source payload w site with h | h
  · exact ⟨[], .of_same (congrArg Wire.trace h) (congrArg Wire.opened h), .inl rfl⟩
  · rw [h]
    exact (resolvePartition_seeks srv w site).asked

end Writer

end ForestCourier
