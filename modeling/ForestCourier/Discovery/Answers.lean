import ForestCourier.Discovery.Layout
import ForestCourier.Discovery.Queries
import ForestCourier.Session.Answer

/-!
How the answers of the discovery queries are read.
-/

namespace ForestCourier.Discovery

structure Capabilities where
  assignmentPolicy : Bool
  forestHostInfo : Bool
  replicaHosts : Bool
deriving DecidableEq

def readCapabilities (items : List Item) : Except ProtocolError Capabilities := do
  let (policy, a) ← Answer.bool assignmentPolicyFunction (.ofItems items)
  let (info, a) ← Answer.bool forestHostInfoFunction a
  let (replicas, _) ← Answer.bool replicaHostsFunction a
  .ok ⟨policy, info, replicas⟩

def readPolicy (items : List Item) : Except ProtocolError Placement.Kind := do
  let (name, _) ← Answer.text "assignment policy" (.ofItems items)
  match Placement.Kind.ofName? name with
  | some kind => .ok kind
  | none => .error (.unknownPolicy name)

def readDirectoryCreation (items : List Item) : Except ProtocolError DirectoryCreation := do
  let (name, _) ← Answer.text "directory creation mode" (.ofItems items)
  (DirectoryCreation.parse name).mapError .badValue

def forestInfo : Answer.Reads Forest := fun a => do
  let (id, a) ← Answer.forestId a
  let (host, a) ← Answer.text "forest host" a
  let (updatable, a) ← Answer.bool "updatable flag" a
  let (documents, a) ← Answer.count "document count" a
  .ok (⟨id, host, updatable, [], UInt64.ofNat documents⟩, a)

/-- A server without the newer function tells id and host only. -/
def legacyForest : Answer.Reads Forest := fun a => do
  let (id, a) ← Answer.forestId a
  let (host, a) ← Answer.text "forest host" a
  .ok (⟨id, host, true, [], 0⟩, a)

def readForests (items : List Item) : Except ProtocolError (List Forest) :=
  Answer.all forestInfo (.ofItems items)

def readLegacyForests (items : List Item) : Except ProtocolError (List Forest) :=
  Answer.all legacyForest (.ofItems items)

def readReplicaGroups (items : List Item) :
    Except ProtocolError (List (ForestId × List Replica)) :=
  Answer.all Answer.replicaGroup (.ofItems items)

def readForestIds (items : List Item) : Except ProtocolError (List ForestId) :=
  Answer.all Answer.forestId (.ofItems items)

def attachReplicas (forests : List Forest) (groups : List (ForestId × List Replica)) :
    Except ProtocolError (List Forest) :=
  Answer.attach (·.id) (fun replicas f => { f with replicas := replicas }) forests groups

end ForestCourier.Discovery
