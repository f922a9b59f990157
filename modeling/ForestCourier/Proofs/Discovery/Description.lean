import Mathlib.Data.List.Nodup
import ForestCourier.Discovery.Survey
import ForestCourier.Proofs.Session.Forms

/-!
What a server says of its database. Each question of a survey has its documented answers, in which names may be
told in either way and the groups of replicas in any order. A survey that is given such answers, one question
after the other, ends with the database as it is, or as much of it as older functions tell.
-/

namespace ForestCourier.Discovery

open Answer (Row Exact)

/-- What there is to learn about a database. A count that is told as an integer is below `2 ^ 63`. -/
structure Database where
  capabilities : Capabilities
  policy : Placement.Kind
  forests : List Forest
  directories : DirectoryCreation
  distinct : (forests.map (·.id)).Nodup

inductive Question where
  | functions
  | policy
  | forests
  | legacyForests
  | replicas
  | legacyReplicas
  | directories

def Question.query : Question → Query
  | functions =>
    ⟨Queries.functionProbe,
      [("functions", String.intercalate "," [assignmentPolicyFunction, forestHostInfoFunction, replicaHostsFunction])]⟩
  | policy => ⟨Queries.assignmentPolicy, []⟩
  | forests => ⟨Queries.forestHostInfo, []⟩
  | legacyForests => ⟨Queries.legacyForestHost, []⟩
  | replicas => ⟨Queries.replicaHosts, []⟩
  | legacyReplicas => ⟨Queries.legacyReplica, []⟩
  | directories => ⟨Queries.directoryCreation, []⟩

def infoForm : Answer.Form Forest := fun f items =>
  ∃ (name : Item) (n : Int64), name.Names f.id ∧ n.toInt = f.documents.toNat ∧
    items = [name, .text f.host, .bool f.updatable, .int n]

def legacyForm : Answer.Form Forest := fun f items => ∃ name : Item, name.Names f.id ∧ items = [name, .text f.host]

namespace Database

variable (d : Database)

/-- Every group is a forest's, with all of its replicas. A forest with replicas has a group, and a group told
twice tells nothing new. -/
structure Grouped (groups : List (ForestId × List Replica)) : Prop where
  own : ∀ group ∈ groups, ∃ f ∈ d.forests, group = (f.id, f.replicas)
  every : ∀ f ∈ d.forests, f.replicas ≠ [] → f.id ∈ groups.map (·.1)

/-- The documented answers. A policy's name is told in any letter case. -/
def Documents : Question → List Item → Prop
  | .functions, items =>
    items = [.bool d.capabilities.assignmentPolicy, .bool d.capabilities.forestHostInfo,
      .bool d.capabilities.replicaHosts]
  | .policy, items => ∃ name, Text.lower (Text.trim name) = d.policy.name ∧ items = [.text name]
  | .forests, items => Row infoForm d.forests items
  | .legacyForests, items => Row legacyForm d.forests items
  | .replicas, items | .legacyReplicas, items => ∃ groups, d.Grouped groups ∧ Row Answer.groupForm groups items
  | .directories, items => items = [.text d.directories.name]

theorem eq_of_id {d : Database} {f f' : Forest} (hf : f ∈ d.forests) (hf' : f' ∈ d.forests) (hid : f.id = f'.id) :
    f = f' :=
  List.inj_on_of_nodup_map d.distinct hf hf' hid

theorem Grouped.lookup {d : Database} {groups : List (ForestId × List Replica)} (h : d.Grouped groups) {f : Forest}
    (hf : f ∈ d.forests) : (groups.reverse.lookup f.id).getD [] = f.replicas := by
  cases hlookup : groups.reverse.lookup f.id with
  | none =>
    rw [List.lookup_eq_none_iff] at hlookup
    by_contra hsome
    obtain ⟨group, hgroup, hid⟩ := List.mem_map.mp (h.every f hf (Ne.symm hsome))
    simpa [hid] using hlookup group (List.mem_reverse.mpr hgroup)
  | some replicas =>
    obtain ⟨before, after, hgroups, -⟩ := List.lookup_eq_some_iff.mp hlookup
    have hgroup : (f.id, replicas) ∈ groups := by
      rw [← List.mem_reverse, hgroups]
      simp
    obtain ⟨f', hf', hown⟩ := h.own _ hgroup
    obtain ⟨hid, hreplicas⟩ := Prod.mk.inj hown
    rw [eq_of_id hf hf' hid]
    exact hreplicas

end Database

end ForestCourier.Discovery

namespace ForestCourier

variable {σ : Type}

/-- The server answers the questions of a session in turn, each with what is documented. -/
inductive Server.Replies (srv : Server σ) (d : Discovery.Database) (session : Session) :
    List Discovery.Question → σ → Prop
  | nil (s : σ) : Replies srv d session [] s
  | cons {q : Discovery.Question} {qs : List Discovery.Question} {items : List Item} {s s' : σ} :
      srv.submit session q.query s = (.ok items, s') → d.Documents q items →
      Replies srv d session qs s' → Replies srv d session (q :: qs) s

namespace Discovery

open Answer (Row Exact)

section Readers

variable {d : Database} {items : List Item}

theorem exact_legacyForest : Exact legacyForest fun f items =>
    f = { f with updatable := true, replicas := [], documents := 0 } ∧ legacyForm f items := by
  refine (Answer.exact_forestId.bind fun id => (Answer.exact_text "forest host").bind fun host =>
    Answer.exact_pure (⟨id, host, true, [], 0⟩ : Forest)).congr fun f items => ⟨?_, ?_⟩
  · rintro ⟨id, _, _, ⟨name, hname, rfl⟩, ⟨host, _, _, rfl, ⟨rfl, rfl⟩, rfl⟩, rfl⟩
    exact ⟨rfl, name, hname, rfl⟩
  · rintro ⟨hf, name, hname, rfl⟩
    exact ⟨f.id, [name], _, ⟨name, hname, rfl⟩, ⟨f.host, _, _, rfl, ⟨hf, rfl⟩, rfl⟩, rfl⟩

theorem exact_forestInfo : Exact forestInfo fun f items => f.replicas = [] ∧ infoForm f items := by
  refine (Answer.exact_forestId.bind fun id => (Answer.exact_text "forest host").bind fun host =>
    (Answer.exact_bool "updatable flag").bind fun updatable => (Answer.exact_count "document count").bind fun n =>
      Answer.exact_pure (⟨id, host, updatable, [], UInt64.ofNat n⟩ : Forest)).congr fun f items => ⟨?_, ?_⟩
  · rintro ⟨id, _, _, ⟨name, hname, rfl⟩, ⟨host, _, _, rfl, ⟨updatable, _, _, rfl,
      ⟨n, _, _, ⟨k, hk, rfl⟩, ⟨rfl, rfl⟩, rfl⟩, rfl⟩, rfl⟩, rfl⟩
    have hn : n < UInt64.size := by
      have := k.toInt_lt
      change n < 2 ^ 64
      omega
    exact ⟨rfl, name, k, hname, by rw [UInt64.toNat_ofNat_of_lt' hn]; exact hk, rfl⟩
  · obtain ⟨id, host, updatable, replicas, documents⟩ := f
    rintro ⟨rfl, name, k, hname, hk, rfl⟩
    refine ⟨id, [name], _, ⟨name, hname, rfl⟩, ⟨host, _, _, rfl, ⟨updatable, _, _, rfl,
      ⟨documents.toNat, _, _, ⟨k, hk, rfl⟩, ⟨?_, rfl⟩, rfl⟩, rfl⟩, rfl⟩, rfl⟩
    rw [UInt64.ofNat_toNat]

end Readers

section Talks

variable {α β : Type} {srv : Server σ} {d : Database} {session : Session}

/-- Given documented answers to the first questions, the talk ends with such a value and leaves the others. -/
def Learns (srv : Server σ) (d : Database) (session : Session) (before after : List Question) (talk : Talk σ α)
    (P : α → Prop) : Prop :=
  ∀ w : Wire σ, srv.Replies d session before w.state →
    ∃ x w', talk w = (.ok x, w') ∧ P x ∧ srv.Replies d session after w'.state

namespace Learns

variable {before mid after : List Question} {P : α → Prop}

theorem pure {x : α} (h : P x) : Learns srv d session before before (pure x : Talk σ α) P :=
  fun w hreplies => ⟨x, w, rfl, h, hreplies⟩

theorem note (n : Notice) : Learns srv d session before before (note n : Talk σ Unit) fun _ => True :=
  fun w hreplies => ⟨(), w.note n, rfl, trivial, hreplies⟩

theorem decoded {r : Except ProtocolError α} {x : α} (hr : r = .ok x) (h : P x) :
    Learns srv d session before before (decoded r : Talk σ α) P :=
  fun w hreplies => ⟨x, w, by rw [hr]; rfl, h, hreplies⟩

theorem ask (q : Question) (qs : List Question) :
    Learns srv d session (q :: qs) qs (ask srv session q.query) (d.Documents q) := by
  intro w hreplies
  cases hreplies with
  | @cons _ _ items _ s' hsubmit hitems hreplies =>
    refine ⟨items, w.after s' (.submitted session q.query (.ok items)), ?_, hitems, hreplies⟩
    simp only [Discovery.ask, Wire.submit, hsubmit]

theorem bind {talk : Talk σ α} {next : α → Talk σ β} {Q : β → Prop}
    (h : Learns srv d session before mid talk P) (h' : ∀ x, P x → Learns srv d session mid after (next x) Q) :
    Learns srv d session before after (talk >>= next) Q := by
  intro w hreplies
  obtain ⟨x, w', htalk, hx, hreplies'⟩ := h w hreplies
  obtain ⟨y, w'', hnext, hy, hreplies''⟩ := h' x hx w' hreplies'
  refine ⟨y, w'', ?_, hy, hreplies''⟩
  change ExceptT.bindCont next (talk w).1 (talk w).2 = _
  rw [htalk]
  exact hnext

end Learns

end Talks

namespace Sample

/-- Host `a` is down; the others answer what they still have to say. -/
def outspoken : Server (List (List Item)) where
  accept session left := (if session.target.host = "a" then .error (.connection "refused") else .ok (), left)
  insert _ _ left := (.ok [], left)
  commit _ left := (.ok (), left)
  rollback _ left := (.ok (), left)
  submit _ _ left :=
    match left with
    | [] => (.error (.connection "reset"), [])
    | items :: left => (.ok items, left)
  range _ _ left := (.ok (), left)
  next _ left := (.ok none, left)
  close _ left := (.ok (), left)
  wait _ left := left

def answers : List (List Item) :=
  [[.bool true, .bool true, .bool false], [.text "BUCKET"],
    [.int 7, .text "b", .bool true, .int 10, .text "old", .text "c", .bool false, .int 0],
    [.text "old", .int 0, .text "7", .int 2, .int 7, .text "b", .text "r", .text "c"], [.text "manual"]]

def toBoth : Config.Output where
  hosts := ["a", "b"]
  port := 8000
  fastLoad := none
  policy := none
  batchSize := 100
  transactionSize := 10
  content := .standard
  uriPrefix := ""
  uriSuffix := ""
  partition := none
  restrictHosts := false
  mode := .inProcess

end Sample

end Discovery

end ForestCourier
