import ForestCourier.Forest.Topology
import ForestCourier.Placement.Policy

/-!
The assignment of one job: a topology, the positions of its updatable forests, which are the ones
documents are placed on, and a policy over them. An index answered by a placement counts updatable
forests only. A partition is cached under those indices; read-only forests of it are passed over.
-/

namespace ForestCourier.Placement

structure Manager where
  topology : Topology
  updatable : List Nat
  policy : Policy
  batchSize : UInt64
deriving DecidableEq

namespace Manager

def policyFor (kind : Kind) (topology : Topology) (updatable : List Nat) (batchSize : UInt64)
    (partition : Option String) : Except PlacementError Policy :=
  match kind with
  | .legacy => .ok (.legacy updatable.length)
  | .segment => .ok (.segment updatable.length)
  | .bucket => .ok (.bucket (.new updatable.length batchSize))
  | .statistical =>
    let counts := updatable.map fun i => ((topology.forests[i]?).map (·.documents)).getD 0
    .ok (.statistical (.new counts batchSize))
  | .range | .query => (Partitioned.new kind batchSize partition).map .partitioned

def new (kind : Kind) (topology : Topology) (batchSize : UInt64) (partition : Option String) :
    Except PlacementError Manager :=
  let updatable := topology.updatable
  if updatable.isEmpty then .error .noForests
  else (policyFor kind topology updatable batchSize partition).map fun policy =>
    ⟨topology, updatable, policy, batchSize⟩

def kind (m : Manager) : Kind := m.policy.kind

def forestCount (m : Manager) : Nat := m.updatable.length

def forest? (m : Manager) (i : Nat) : Option Forest :=
  (m.updatable[i]?).bind fun j => m.topology.forests[j]?

def forests (m : Manager) : List Forest := (List.range m.forestCount).filterMap m.forest?

def indexOf? (m : Manager) (id : ForestId) : Option Nat :=
  (m.topology.indexOf? id).bind fun j => m.updatable.findIdx? (· == j)

def place (m : Manager) (uri : Uri) (partition : Option String) : Result Nat × Manager :=
  match m.policy.place uri partition with
  | (r, policy) => (r, { m with policy := policy })

def rollback (m : Manager) (i : Nat) (count : UInt64) : Manager :=
  { m with policy := m.policy.rollback i count }

def standardPartition (m : Manager) : Option String := m.policy.standardPartition

def isCached (m : Manager) (name : String) : Bool :=
  match m.policy.cache? with
  | some cache => cache.contains name
  | none => false

/-- The indices of the named forests. A forest of the topology that takes no documents is left out;
any other has to be known. -/
def partitionIndices (m : Manager) : List ForestId → Except PlacementError (List Nat)
  | [] => .ok []
  | id :: ids =>
    match m.indexOf? id with
    | some i => (m.partitionIndices ids).map (i :: ·)
    | none =>
      if (m.topology.get? id).isSome then m.partitionIndices ids
      else .error (.unknownForest id)

def cachePartition (m : Manager) (name : String) (ids : List ForestId) :
    Except PlacementError (Option (List Nat)) × Manager :=
  match m.policy.cache? with
  | none => (.ok none, m)
  | some _ =>
    match m.partitionIndices ids with
    | .error e => (.error e, m)
    | .ok indices =>
      let policy := m.policy.insertPartition name indices
      let kept := (policy.cache?.bind (·.get? name)).map (·.forests)
      (.ok kept, { m with policy := policy })

end Manager

end ForestCourier.Placement
