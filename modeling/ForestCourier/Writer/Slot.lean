import ForestCourier.Retry.Cursor
import ForestCourier.Retry.Rotation
import ForestCourier.Session.Basic

/-!
Slots of a writer: one for each forest that takes documents, or a single one when the server places
them. A slot collects a batch, keeps the documents that its transaction holds uncommitted, and knows
where to turn when a request fails.
-/

namespace ForestCourier.Writer

inductive Route where
  | forest (id : ForestId) (host : String) (replicas : Option ReplicaCursor)
  | hosts (rotation : HostRotation)
deriving DecidableEq

namespace Route

def ofForest (f : Forest) : Route := forest f.id f.host (ReplicaCursor.new f.replicas f.host)

def target (port : UInt16) : Route → Target
  | forest id host none => ⟨host, port, some id⟩
  | forest _ _ (some cursor) => ⟨cursor.current.host, port, some cursor.current.forest⟩
  | hosts rotation => ⟨rotation.current, port, none⟩

def rotate : Route → Route
  | forest id host none => forest id host none
  | forest id host (some cursor) => forest id host (some cursor.advance)
  | hosts rotation => hosts rotation.fail

def moves : Route → Bool
  | forest _ _ none => false
  | forest _ _ (some cursor) => 1 < cursor.size
  | hosts rotation => rotation.fail.current ≠ rotation.current

def name : Route → String
  | forest id _ _ => id.text
  | hosts _ => "server-placed"

end Route

inductive Stage where
  | idle
  | batching
  | flushing
  | commitPending
  | committed
  | commitRetry
  | permanentFailure
deriving DecidableEq

def Stage.name : Stage → String
  | .idle => "Idle"
  | .batching => "Batching"
  | .flushing => "Flushing"
  | .commitPending => "CommitPending"
  | .committed => "Committed"
  | .commitRetry => "CommitRetry"
  | .permanentFailure => "PermanentFailure"

structure Slot where
  route : Route
  session : Option Session
  pending : List Content
  /-- Documents that are inserted but not committed, to be sent again if the transaction is lost. -/
  queue : List Content
  batches : Nat
  /-- Batches charged to the load of the forest and not yet known to be stored. -/
  charged : UInt64
  stage : Stage
deriving DecidableEq

namespace Slot

def new (route : Route) : Slot := ⟨route, none, [], [], 0, 0, .idle⟩

end Slot

structure Stats where
  succeeded : Nat
  failed : Nat
  /-- Moves to another failover target. -/
  rotations : Nat
deriving DecidableEq

namespace Stats

def zero : Stats := ⟨0, 0, 0⟩

end Stats

end ForestCourier.Writer
