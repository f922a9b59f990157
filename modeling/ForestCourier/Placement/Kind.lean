import ForestCourier.Forest.Basic
import ForestCourier.Text.Value

/-!
The rules by which a database assigns documents to forests, and what can be wrong with an
assignment.
-/

namespace ForestCourier.Placement

inductive Kind where
  | legacy
  | bucket
  | range
  | query
  | statistical
  | segment
deriving DecidableEq

namespace Kind

def names : List (String × Kind) :=
  [("legacy", legacy), ("bucket", bucket), ("range", range), ("query", query),
    ("statistical", statistical), ("segment", segment)]

def name : Kind → String
  | legacy => "legacy"
  | bucket => "bucket"
  | range => "range"
  | query => "query"
  | statistical => "statistical"
  | segment => "segment"

def title : Kind → String
  | legacy => "Legacy"
  | bucket => "Bucket"
  | range => "Range"
  | query => "Query"
  | statistical => "Statistical"
  | segment => "Segment"

def ofName? (s : String) : Option Kind := names.lookup (Text.lower (Text.trim s))

/-- Whether documents are placed within partitions that the server resolves. -/
def partitioned : Kind → Bool
  | range | query => true
  | _ => false

theorem lookup_name (k : Kind) : names.lookup k.name = some k := by cases k <;> decide

end Kind

end ForestCourier.Placement

namespace ForestCourier

inductive PlacementError where
  | noForests
  | unknownPolicy (name : String)
  | missingPartition (kind : Placement.Kind)
  | unresolvedPartition (name : String)
  | emptyPartition (name : String)
  | unknownForest (id : ForestId)
deriving DecidableEq

def PlacementError.message : PlacementError → String
  | .noForests => "no updatable forests are attached to the target database"
  | .unknownPolicy name => s!"unknown assignment policy: {name}"
  | .missingPartition kind => s!"assignment policy {kind.name} requires an output partition"
  | .unresolvedPartition name => s!"partition {name} has not been resolved"
  | .emptyPartition name => s!"partition {name} has no updatable forests"
  | .unknownForest id => s!"forest {id.text} is not an updatable forest of this job"

namespace Placement.Kind

def parse (s : String) : Except PlacementError Kind :=
  match ofName? s with
  | some k => .ok k
  | none => .error (.unknownPolicy s)

end Placement.Kind

end ForestCourier
