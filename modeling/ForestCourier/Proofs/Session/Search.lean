import Mathlib.Algebra.GroupWithZero.Nat
import ForestCourier.Proofs.Session.Protocol
import ForestCourier.Session.Failover

/-!
A search through hosts, visit by visit. Hosts are visited in the order of their list, up to the first one that does
what is asked; a visit to any other host ends with a failed request, and the failure of the last one is told when
nobody is left to ask. A session that is opened to put a query is closed before the next visit, and what its host
answers to that has no bearing on the search.
-/

namespace ForestCourier

/-- A visit to a host: the requests that were made there, and what came of them. -/
structure Visit (α : Type) where
  host : String
  requests : List Event
  outcome : Except RequestError α

namespace Visit

inductive Opens (port : UInt16) (transaction : Transaction) : Visit Session → Prop
  | refused (host : String) (e : RequestError) :
      Opens port transaction ⟨host, [.refused ⟨host, port, none⟩ transaction e], .error e⟩
  | accepted {host : String} {session : Session} :
      session.target = ⟨host, port, none⟩ → session.transaction = transaction →
      Opens port transaction ⟨host, [.opened session], .ok session⟩

inductive Asks (port : UInt16) (query : Query) : Visit (List Item) → Prop
  | refused (host : String) (e : RequestError) :
      Asks port query ⟨host, [.refused ⟨host, port, none⟩ .auto e], .error e⟩
  | asked {host : String} {session : Session} (answer : Except RequestError (List Item))
      (bye : Except RequestError Unit) :
      session.target = ⟨host, port, none⟩ → session.transaction = .auto →
      Asks port query ⟨host, [.opened session, .submitted session query answer, .closed session bye], answer⟩

end Visit

/-- A search through a list of hosts, told by its visits: one host after the other, up to the first success or to the
end of the list. `last` is the failure that is told where there is no host at all. -/
inductive Search {α : Type} (all : List String) (last : Option RequestError) :
    List String → List (Visit α) → Except TransferError α → Prop
  | found {v : Visit α} {a : α} (tried : List (Visit α)) (errors : List RequestError) (untried : List String) :
      tried.map Visit.outcome = errors.map .error → v.outcome = .ok a →
      Search all last (tried.map Visit.host ++ v.host :: untried) (tried ++ [v]) (.ok a)
  | exhausted (tried : List (Visit α)) (errors : List RequestError) :
      tried.map Visit.outcome = errors.map .error →
      Search all last (tried.map Visit.host) tried (.error (.noReachableHost all (errors.getLast?.or last)))

namespace Search

variable {α : Type} {all hosts : List String} {last : Option RequestError} {visits : List (Visit α)}
  {result : Except TransferError α}

theorem first {v : Visit α} {a : α} (h : v.outcome = .ok a) (untried : List String) :
    Search all last (v.host :: untried) [v] (.ok a) :=
  .found [] [] untried rfl h

theorem onward {v : Visit α} {e : RequestError} (hv : v.outcome = .error e)
    (h : Search all (some e) hosts visits result) : Search all last (v.host :: hosts) (v :: visits) result := by
  cases h with
  | found tried errors untried htried ha =>
    refine .found (v :: tried) (e :: errors) untried ?_ ha
    rw [List.map_cons, List.map_cons, hv, htried]
  | exhausted _ errors htried =>
    -- The failure of the first host is told only where it is the last one.
    have hlast : errors.getLast?.or (some e) = (e :: errors).getLast?.or last := by
      rw [List.getLast?_cons, Option.or_some, Option.some_or]
    rw [hlast]
    refine .exhausted (v :: visits) (e :: errors) ?_
    rw [List.map_cons, List.map_cons, hv, htried]

theorem failed_iff (h : Search all last hosts visits result) :
    (∃ e, result = .error e) ↔ visits.map Visit.host = hosts ∧ ∀ v ∈ visits, ∃ e, v.outcome = .error e := by
  cases h with
  | found tried errors untried htried ha =>
    refine ⟨nofun, fun ⟨_, hfailed⟩ => ?_⟩
    obtain ⟨e, he⟩ := hfailed _ (List.mem_append_right _ List.mem_cons_self)
    rw [ha] at he
    cases he
  | exhausted _ errors htried =>
    refine ⟨fun _ => ⟨rfl, fun v hv => ?_⟩, fun _ => ⟨_, rfl⟩⟩
    have hmem : v.outcome ∈ errors.map .error := htried ▸ List.mem_map_of_mem hv
    obtain ⟨e, -, he⟩ := List.mem_map.mp hmem
    exact ⟨e, he.symm⟩

theorem sum_outcomes (h : Search all last hosts visits result) (count : Option α → Nat) (hnone : count none = 0) :
    (visits.map fun v => count v.outcome.toOption).sum = count result.toOption := by
  have hfailed {tried : List (Visit α)} {errors : List RequestError}
      (htried : tried.map Visit.outcome = errors.map .error) :
      (tried.map fun v => count v.outcome.toOption).sum = 0 := by
    calc (tried.map fun v => count v.outcome.toOption).sum
      _ = ((tried.map Visit.outcome).map fun r => count r.toOption).sum := by rw [List.map_map]; rfl
      _ = (errors.map fun _ => count none).sum := by rw [htried, List.map_map]; rfl
      _ = 0 := by simp [hnone]
  cases h with
  | found _ _ untried htried ha =>
    rw [List.map_append, List.sum_append, hfailed htried, Nat.zero_add, List.map_singleton, List.sum_singleton, ha]
    rfl
  | exhausted _ _ htried => rw [hfailed htried, ← hnone]; rfl

end Search

variable {σ α : Type}

structure Wire.Searches (P : Visit α → Prop) (all : List String) (last : Option RequestError) (hosts : List String)
    (w : Wire σ) (r : Except TransferError α × Wire σ) (visits : List (Visit α)) : Prop where
  made : ∀ v ∈ visits, P v
  adds : w.Adds (visits.flatMap Visit.requests) r.2
  search : Search all last hosts visits r.1

namespace Wire.Searches

variable {P : Visit α → Prop} {all hosts : List String} {last : Option RequestError} {w w' : Wire σ}
  {r : Except TransferError α × Wire σ} {visits : List (Visit α)} {v : Visit α}

theorem nobody (P : Visit α → Prop) (all : List String) (last : Option RequestError) (w : Wire σ) :
    w.Searches P all last [] (.error (.noReachableHost all last), w) [] where
  made := nofun
  adds := .of_same rfl rfl
  search := .exhausted [] [] rfl

theorem first {a : α} (hv : P v) (hadds : w.Adds v.requests w') (ha : v.outcome = .ok a) (untried : List String) :
    w.Searches P all last (v.host :: untried) (.ok a, w') [v] where
  made := List.forall_mem_singleton.mpr hv
  adds := by rwa [List.flatMap_singleton]
  search := .first ha untried

theorem onward {e : RequestError} (hv : P v) (hadds : w.Adds v.requests w') (he : v.outcome = .error e)
    (h : w'.Searches P all (some e) hosts r visits) : w.Searches P all last (v.host :: hosts) r (v :: visits) where
  made := List.forall_mem_cons.mpr ⟨hv, h.made⟩
  adds := hadds.trans h.adds
  search := h.search.onward he

end Wire.Searches

namespace Failover

theorem openAmong_searches (srv : Server σ) (all : List String) (port : UInt16) (transaction : Transaction)
    (hosts : List String) (last : Option RequestError) (w : Wire σ) :
    ∃ visits, w.Searches (Visit.Opens port transaction) all last hosts
      (openAmong srv all port transaction hosts last w) visits := by
  induction hosts generalizing last w with
  | nil => exact ⟨[], .nobody _ all last w⟩
  | cons host hosts ih =>
    have hopen := w.openSession_adds srv ⟨host, port, none⟩ transaction
    unfold openAmong
    cases ho : w.openSession srv ⟨host, port, none⟩ transaction with
    | mk answer w₁ =>
      rw [ho] at hopen
      cases answer with
      | ok session =>
        obtain ⟨htarget, htransaction, hadds⟩ := hopen
        exact ⟨_, .first (Visit.Opens.accepted htarget htransaction) hadds rfl hosts⟩
      | error e =>
        obtain ⟨visits, hvisits⟩ := ih (some e) (w₁.note (.hostUnreachable host e))
        exact ⟨_, hvisits.onward (.refused host e) (hopen.note _) rfl⟩

theorem queryAmong_searches (srv : Server σ) (all : List String) (port : UInt16) (query : Query)
    (hosts : List String) (last : Option RequestError) (w : Wire σ) :
    ∃ visits, w.Searches (Visit.Asks port query) all last hosts (queryAmong srv all port query hosts last w)
      visits := by
  induction hosts generalizing last w with
  | nil => exact ⟨[], .nobody _ all last w⟩
  | cons host hosts ih =>
    have hopen := w.openSession_adds srv ⟨host, port, none⟩ .auto
    unfold queryAmong
    cases ho : w.openSession srv ⟨host, port, none⟩ .auto with
    | mk answer w₁ =>
      rw [ho] at hopen
      cases answer with
      | error e =>
        obtain ⟨visits, hvisits⟩ := ih (some e) (w₁.note (.hostUnreachable host e))
        exact ⟨_, hvisits.onward (.refused host e) (hopen.note _) rfl⟩
      | ok session =>
        obtain ⟨htarget, htransaction, hopened⟩ := hopen
        have hasked := hopened.trans (w₁.submit_close_adds srv session query)
        dsimp only
        cases hs : w₁.submit srv session query with
        | mk answer w₂ =>
          rw [hs] at hasked
          cases answer with
          | ok items => exact ⟨_, .first (Visit.Asks.asked (.ok items) _ htarget htransaction) hasked rfl hosts⟩
          | error e =>
            obtain ⟨visits, hvisits⟩ := ih (some e) ((w₂.close srv session).note (.queryFailed host e))
            exact ⟨_, hvisits.onward (.asked (.error e) _ htarget htransaction) (hasked.note _) rfl⟩

end Failover

/-- The same server with other answers where a session is closed. -/
def Server.parting (srv : Server σ) (bye : Session → σ → Except RequestError Unit) : Server σ :=
  { srv with close := fun session s => (bye session s, (srv.close session s).2) }

/-- Two wires that the next request finds alike, whatever was asked and told on them before. -/
structure Wire.Level (w w' : Wire σ) : Prop where
  state : w'.state = w.state
  opened : w'.opened = w.opened

namespace Wire.Level

variable {w w' : Wire σ} (h : w.Level w') (srv : Server σ) (bye : Session → σ → Except RequestError Unit)

include h

theorem openSession (target : Target) (transaction : Transaction) :
    (w'.openSession (srv.parting bye) target transaction).1 = (w.openSession srv target transaction).1 ∧
      (w.openSession srv target transaction).2.Level (w'.openSession (srv.parting bye) target transaction).2 := by
  unfold Wire.openSession
  rw [h.state, h.opened]
  dsimp only [Server.parting]
  cases srv.accept ⟨w.opened + 1, target, transaction⟩ w.state with
  | mk answer s =>
    cases answer with
    | ok _ => exact ⟨rfl, rfl, rfl⟩
    | error e => exact ⟨rfl, rfl, h.opened⟩

theorem submit (session : Session) (query : Query) :
    (w'.submit (srv.parting bye) session query).1 = (w.submit srv session query).1 ∧
      (w.submit srv session query).2.Level (w'.submit (srv.parting bye) session query).2 := by
  unfold Wire.submit
  rw [h.state]
  exact ⟨rfl, rfl, h.opened⟩

theorem close (session : Session) : (w.close srv session).Level (w'.close (srv.parting bye) session) := by
  unfold Wire.close
  rw [h.state]
  exact ⟨rfl, h.opened⟩

theorem note (n n' : Notice) : (w.note n).Level (w'.note n') := ⟨h.state, h.opened⟩

end Wire.Level

namespace Failover

theorem queryAmong_parting {w w' : Wire σ} (h : w.Level w') (srv : Server σ)
    (bye : Session → σ → Except RequestError Unit) (all : List String) (port : UInt16) (query : Query)
    (hosts : List String) (last : Option RequestError) :
    (queryAmong (srv.parting bye) all port query hosts last w').1 = (queryAmong srv all port query hosts last w).1 := by
  induction hosts generalizing last w w' with
  | nil => rfl
  | cons host hosts ih =>
    obtain ⟨hanswer, hlevel⟩ := h.openSession srv bye ⟨host, port, none⟩ .auto
    unfold queryAmong
    cases ho : w.openSession srv ⟨host, port, none⟩ .auto with
    | mk answer w₁ =>
      cases ho' : w'.openSession (srv.parting bye) ⟨host, port, none⟩ .auto with
      | mk answer' w₁' =>
        rw [ho, ho'] at hanswer hlevel
        cases hanswer
        cases answer with
        | error e => exact ih (hlevel.note ..) _
        | ok session =>
          obtain ⟨hanswer, hlevel⟩ := hlevel.submit srv bye session query
          dsimp only
          cases hs : w₁.submit srv session query with
          | mk answer w₂ =>
            cases hs' : w₁'.submit (srv.parting bye) session query with
            | mk answer' w₂' =>
              rw [hs, hs'] at hanswer hlevel
              cases hanswer
              cases answer with
              | ok items => rfl
              | error e => exact ih ((hlevel.close srv bye session).note ..) _

end Failover

theorem Visit.Opens.count {port : UInt16} {transaction : Transaction} {v : Visit Session}
    (h : v.Opens port transaction) (session : Session) :
    v.requests.countP (Event.opens session) = session.count v.outcome.toOption ∧
      v.requests.countP (Event.closes session) = 0 := by
  cases h with
  | refused host e => exact ⟨rfl, rfl⟩
  | @accepted _ s _ _ =>
    refine ⟨?_, rfl⟩
    rw [List.countP_singleton]
    by_cases hs : s = session
    · simp [Event.opens, Session.count, Except.toOption, hs]
    · simp [Event.opens, Session.count, Except.toOption, hs]

theorem Visit.Asks.balanced {port : UInt16} {query : Query} {v : Visit (List Item)} (h : v.Asks port query)
    (session : Session) : v.requests.countP (Event.opens session) = v.requests.countP (Event.closes session) := by
  cases h with
  | refused host e => rfl
  | asked => simp [List.countP_cons, Event.opens, Event.closes]

namespace Wire.Searches

variable {hosts : List String} {port : UInt16} {w : Wire σ}

theorem count {transaction : Transaction} {all : List String} {last : Option RequestError}
    {r : Except TransferError Session × Wire σ} {visits : List (Visit Session)}
    (h : w.Searches (Visit.Opens port transaction) all last hosts r visits) (session : Session) :
    (visits.flatMap Visit.requests).countP (Event.opens session) = session.count r.1.toOption ∧
      (visits.flatMap Visit.requests).countP (Event.closes session) = 0 := by
  constructor
  · rw [List.countP_flatMap, ← h.search.sum_outcomes session.count rfl]
    exact congrArg List.sum (List.map_congr_left fun v hv => ((h.made v hv).count session).1)
  · rw [List.countP_eq_zero]
    intro event hevent
    obtain ⟨v, hv, hevent⟩ := List.mem_flatMap.mp hevent
    exact List.countP_eq_zero.mp ((h.made v hv).count session).2 event hevent

theorem balanced {query : Query} {all : List String} {last : Option RequestError}
    {r : Except TransferError (List Item) × Wire σ} {visits : List (Visit (List Item))}
    (h : w.Searches (Visit.Asks port query) all last hosts r visits) (session : Session) :
    (visits.flatMap Visit.requests).countP (Event.opens session) =
        (visits.flatMap Visit.requests).countP (Event.closes session) ∧
      (visits.flatMap Visit.requests).countP (Event.closes session) ≤ 1 := by
  have heq : (visits.flatMap Visit.requests).countP (Event.opens session) =
      (visits.flatMap Visit.requests).countP (Event.closes session) := by
    rw [List.countP_flatMap, List.countP_flatMap]
    exact congrArg List.sum (List.map_congr_left fun v hv => (h.made v hv).balanced session)
  exact ⟨heq, heq ▸ h.adds.countP_opens session⟩

end Wire.Searches

/-- A setup request is made of one host after the other, in the order of the list. It ends with the first host that
does what is asked, or else with all hosts and the failure of the last. A session that is searched for is the only one
to be opened, and stays open; one that is opened for a query is closed once, before the next visit, and however its
closing ends, the answer is the same. -/
theorem hosts_searched (srv : Server σ) (hosts : List String) (port : UInt16) (transaction : Transaction)
    (query : Query) (w : Wire σ) :
    let opened := Failover.openFirst srv hosts port transaction w
    let asked := Failover.queryFirst srv hosts port query w
    (∃ visits, w.Searches (Visit.Opens port transaction) hosts none hosts opened visits ∧
      ((∃ e, opened.1 = .error e) ↔
        visits.map Visit.host = hosts ∧ ∀ v ∈ visits, ∃ e, v.outcome = .error e) ∧
      ∀ session, (visits.flatMap Visit.requests).countP (Event.opens session) = session.count opened.1.toOption ∧
        (visits.flatMap Visit.requests).countP (Event.closes session) = 0) ∧
    (∃ visits, w.Searches (Visit.Asks port query) hosts none hosts asked visits ∧
      ((∃ e, asked.1 = .error e) ↔
        visits.map Visit.host = hosts ∧ ∀ v ∈ visits, ∃ e, v.outcome = .error e) ∧
      ∀ session, (visits.flatMap Visit.requests).countP (Event.opens session) =
          (visits.flatMap Visit.requests).countP (Event.closes session) ∧
        (visits.flatMap Visit.requests).countP (Event.closes session) ≤ 1) ∧
    ∀ bye, (Failover.queryFirst (srv.parting bye) hosts port query w).1 = asked.1 := by
  intro opened asked
  obtain ⟨visits, hvisits⟩ := Failover.openAmong_searches srv hosts port transaction hosts none w
  obtain ⟨visits', hvisits'⟩ := Failover.queryAmong_searches srv hosts port query hosts none w
  exact ⟨⟨visits, hvisits, hvisits.search.failed_iff, hvisits.count⟩,
    ⟨visits', hvisits', hvisits'.search.failed_iff, hvisits'.balanced⟩,
    fun bye => Failover.queryAmong_parting ⟨rfl, rfl⟩ srv bye hosts port query hosts none⟩

namespace Sample

def patchy : Server Unit where
  accept session s := (if session.target.host = "a" then .error (.connection "refused") else .ok (), s)
  insert _ _ s := (.ok [], s)
  commit _ s := (.ok (), s)
  rollback _ s := (.ok (), s)
  submit session _ s := (if session.target.host = "b" then .error (.connection "reset") else .ok [.int 1], s)
  range _ _ s := (.ok (), s)
  next _ s := (.ok none, s)
  close _ s := (.error (.connection "reset"), s)
  wait _ s := s

end Sample

/-- The third of four hosts is the last one to be asked. -/
theorem hosts_searched_third :
    let asked := Failover.queryFirst Sample.patchy ["a", "b", "c", "d"] 8006 ⟨"q", []⟩ (.new ())
    asked.1 = .ok [.int 1] ∧ asked.2.opened = 2 ∧ asked.2.trace.length = 7 ∧
      ∀ bye, (Failover.queryFirst (Sample.patchy.parting bye) ["a", "b", "c", "d"] 8006 ⟨"q", []⟩ (.new ())).1 =
        .ok [.int 1] :=
  ⟨rfl, rfl, rfl, (hosts_searched Sample.patchy ["a", "b", "c", "d"] 8006 .auto ⟨"q", []⟩ (.new ())).2.2⟩

end ForestCourier
