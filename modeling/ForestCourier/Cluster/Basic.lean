import ForestCourier.Discovery.Queries
import ForestCourier.Session.Server

/-!
A cluster that answers by a script, for rehearsals. Hosts can be down, a queue of outcomes for each
kind of request and host says which requests fail, and time passes only when a client waits. The
cluster keeps a log of what it was asked, in the order of time.
-/

namespace ForestCourier.Cluster

inductive Step where
  | accept
  | insert
  | commit
  | rollback
  | submit
  | range
  | close
deriving DecidableEq

def Step.names : List (String × Step) :=
  [("open", .accept), ("insert", .insert), ("commit", .commit), ("rollback", .rollback),
    ("submit", .submit), ("range", .range), ("close", .close)]

inductive Outcome where
  | ok
  | refused
  | failed
deriving DecidableEq

def Outcome.name : Outcome → String
  | .ok => "ok"
  | .refused => "refused"
  | .failed => "failed"

structure Stored where
  host : String
  forest : Option ForestId
  content : Content

/-- What a session reads: the items left, and after how many results it fails, if it does. -/
structure Stream where
  items : List Item
  failure : Option (Nat × RequestError)

inductive Action where
  | opened (session : Option Nat) (target : Target) (transaction : Transaction) (outcome : Outcome)
  | inserted (session : Nat) (batch : List Content) (rejections : Option Nat)
  | committed (session : Nat) (outcome : Outcome)
  | rolledBack (session : Nat) (outcome : Outcome)
  | closed (session : Nat) (outcome : Outcome)
  | submitted (session : Nat) (query : String) (bindings : List (String × String))
      (outcome : Outcome)
  | ranged (session : Nat) (query : RangeQuery) (outcome : Outcome)

structure LogEntry where
  millis : Nat
  action : Action

end Cluster

structure Cluster where
  clock : Nat
  down : List String
  /-- Queued outcomes, none of them a success, by kind and host. -/
  failures : List ((Cluster.Step × String) × Option RequestError)
  rejections : List (String × Option (List Rejection))
  streams : List (String × Option (Nat × RequestError))
  responses : List (String × List Item)
  forests : List (ForestId × List Item)
  marker : Option String
  uncommitted : List (Nat × Cluster.Stored)
  reading : List (Nat × Cluster.Stream)
  /-- Committed documents, in the order in which they were committed. -/
  committed : List Cluster.Stored
  /-- Newest first. -/
  log : List Cluster.LogEntry

namespace Cluster

def empty : Cluster := ⟨0, [], [], [], [], [], [], none, [], [], [], []⟩

def assign {κ α : Type} [DecidableEq κ] (key : κ) (value : α) (xs : List (κ × α)) : List (κ × α) :=
  (key, value) :: xs.filter fun x => x.1 ≠ key

/-- Queues an outcome for the next request of the kind that no other one is queued for. -/
def queueFailure (step : Step) (host : String) (failure : Option RequestError) (c : Cluster) :
    Cluster :=
  { c with failures := c.failures ++ [((step, host), failure)] }

def queueRejections (host : String) (rejections : Option (List Rejection)) (c : Cluster) :
    Cluster :=
  { c with rejections := c.rejections ++ [(host, rejections)] }

def queueStream (host : String) (failure : Option (Nat × RequestError)) (c : Cluster) : Cluster :=
  { c with streams := c.streams ++ [(host, failure)] }

def take {κ α : Type} [DecidableEq κ] (key : κ) : List (κ × α) → Option α × List (κ × α)
  | [] => (none, [])
  | x :: xs =>
    if x.1 = key then (some x.2, xs)
    else
      match take key xs with
      | (found, xs) => (found, x :: xs)

def record (c : Cluster) (action : Action) : Cluster :=
  { c with log := ⟨c.clock, action⟩ :: c.log }

def nextOutcome (c : Cluster) (step : Step) (host : String) : Option RequestError × Cluster :=
  match take (step, host) c.failures with
  | (found, failures) => (found.join, { c with failures := failures })

def outcomeOf : Option RequestError → Outcome
  | none => .ok
  | some _ => .failed

def answerOf : Option RequestError → Except RequestError Unit
  | none => .ok ()
  | some e => .error e

/-- Names that stand for the texts of the setup queries; any other query is its own name. -/
def queryNames : List (String × String) :=
  [(Discovery.Queries.functionProbe, "probe"), (Discovery.Queries.assignmentPolicy, "policy"),
    (Discovery.Queries.forestHostInfo, "forests"),
    (Discovery.Queries.legacyForestHost, "legacy-forests"),
    (Discovery.Queries.replicaHosts, "replicas"),
    (Discovery.Queries.legacyReplica, "legacy-replicas"),
    (Discovery.Queries.directoryCreation, "directory"),
    (Discovery.Queries.partitionForests, "partition"), (Discovery.Queries.splits, "splits")]

def queryName (text : String) : String := (queryNames.lookup text).getD text

def occurs (part : List Char) : List Char → Bool
  | [] => part.isEmpty
  | c :: cs => part.isPrefixOf (c :: cs) || occurs part cs

def accept (session : Session) (c : Cluster) : Except RequestError Unit × Cluster :=
  let host := session.target.host
  if c.down.contains host then
    (.error (.connection s!"connection refused: {host}"),
      c.record (.opened none session.target session.transaction .refused))
  else
    match c.nextOutcome .accept host with
    | (none, c) =>
      (.ok (), c.record (.opened (some session.number) session.target session.transaction .ok))
    | (some e, c) =>
      (.error e, c.record (.opened none session.target session.transaction .failed))

def markedRejections (c : Cluster) (batch : List Content) : List Rejection :=
  match c.marker with
  | none => []
  | some marker =>
    (batch.zipIdx.filter fun d => occurs marker.toList d.1.uri.text.toList).map fun d =>
      ⟨d.2, some "XDMP-DOCROOTTEXT", s!"invalid root node in {d.1.uri.text}"⟩

def accepted (target : Target) (batch : List Content) (rejections : List Rejection) : List Stored :=
  (batch.zipIdx.filter fun d => !rejections.any fun r => r.index == d.2).map fun d =>
    ⟨target.host, target.forest, d.1⟩

def insert (session : Session) (batch : List Content) (c : Cluster) :
    Except RequestError (List Rejection) × Cluster :=
  match c.nextOutcome .insert session.target.host with
  | (some e, c) => (.error e, c.record (.inserted session.number batch none))
  | (none, c) =>
    match take session.target.host c.rejections with
    | (queued, rest) =>
      let rejections := c.markedRejections batch ++ queued.join.getD []
      let docs := accepted session.target batch rejections
      let c := { c with rejections := rest }
      let c := match session.transaction with
        | .auto => { c with committed := c.committed ++ docs }
        | .update =>
          { c with uncommitted := c.uncommitted ++ docs.map fun d => (session.number, d) }
      (.ok rejections, c.record (.inserted session.number batch (some rejections.length)))

def takeUncommitted (session : Session) (c : Cluster) : List Stored × Cluster :=
  ((c.uncommitted.filter fun d => d.1 = session.number).map (·.2),
    { c with uncommitted := c.uncommitted.filter fun d => d.1 ≠ session.number })

def commit (session : Session) (c : Cluster) : Except RequestError Unit × Cluster :=
  match c.nextOutcome .commit session.target.host with
  | (failure, c) =>
    match c.takeUncommitted session with
    | (docs, c) =>
      let c := match failure with
        | none => { c with committed := c.committed ++ docs }
        | some _ => c
      (answerOf failure, c.record (.committed session.number (outcomeOf failure)))

def rollback (session : Session) (c : Cluster) : Except RequestError Unit × Cluster :=
  match (c.takeUncommitted session).2.nextOutcome .rollback session.target.host with
  | (failure, c) => (answerOf failure, c.record (.rolledBack session.number (outcomeOf failure)))

def submit (session : Session) (query : Query) (c : Cluster) :
    Except RequestError (List Item) × Cluster :=
  let name := queryName query.text
  match c.nextOutcome .submit session.target.host with
  | (failure, c) =>
    let answer : Except RequestError (List Item) := match failure with
      | some e => .error e
      | none =>
        match c.responses.lookup name with
        | some items => .ok items
        | none => .error (.server "XDMP-UNDFUN" "no such query")
    (answer, c.record (.submitted session.number name query.bindings (outcomeOf failure)))

/-- The items that a range names; positions count from one. -/
def rangeItems (c : Cluster) (query : RangeQuery) : List Item :=
  let items := ((c.forests.lookup query.forest).getD []).drop (query.start.toNat - 1)
  match query.stop with
  | none => items
  | some stop => items.take (min (stop.toNat + 1) (UInt64.size - 1) - query.start.toNat)

def range (session : Session) (query : RangeQuery) (c : Cluster) :
    Except RequestError Unit × Cluster :=
  match c.nextOutcome .range session.target.host with
  | (some e, c) => (.error e, c.record (.ranged session.number query .failed))
  | (none, c) =>
    match take session.target.host c.streams with
    | (queued, rest) =>
      let stream : Stream := ⟨c.rangeItems query, queued.join⟩
      let c := { c with
        streams := rest
        reading := assign session.number stream c.reading }
      (.ok (), c.record (.ranged session.number query .ok))

/-- The next result of a stream, and the stream behind it. It fails once, when it is due. -/
def Stream.step (s : Stream) : Except RequestError (Option Item) × Stream :=
  match s.failure with
  | some (0, e) => (.error e, { s with failure := none })
  | failure =>
    (.ok s.items.head?,
      ⟨s.items.tail, failure.map fun f => (f.1 - 1, f.2)⟩)

def next (session : Session) (c : Cluster) : Except RequestError (Option Item) × Cluster :=
  match c.reading.lookup session.number with
  | none => (.ok none, c)
  | some stream =>
    match stream.step with
    | (answer, stream) => (answer, { c with reading := assign session.number stream c.reading })

def close (session : Session) (c : Cluster) : Except RequestError Unit × Cluster :=
  match (c.takeUncommitted session).2.nextOutcome .close session.target.host with
  | (failure, c) => (answerOf failure, c.record (.closed session.number (outcomeOf failure)))

def server : Server Cluster where
  accept := accept
  insert := insert
  commit := commit
  rollback := rollback
  submit := submit
  range := range
  next := next
  close := close
  wait pause c := { c with clock := c.clock + pause.millis }

/-- The documents of the database: of those committed under one URI the last, in order of URI. -/
def documents (c : Cluster) : List Stored :=
  let newest := c.committed.reverse
  let uris := (newest.map (·.content.uri)).eraseDups
  (uris.mergeSort fun a b => compare a b != .gt).filterMap fun uri =>
    newest.find? fun d => d.content.uri = uri

end Cluster

end ForestCourier
