import ForestCourier.Error
import ForestCourier.Forest.Topology

/-!
What job setup learns about the database to write to.
-/

namespace ForestCourier.Discovery

inductive DirectoryCreation where
  | manual
  | manualEnforced
  | automatic
deriving DecidableEq

namespace DirectoryCreation

def names : List (String × DirectoryCreation) :=
  [("manual", manual), ("manual-enforced", manualEnforced), ("automatic", automatic)]

def name : DirectoryCreation → String
  | manual => "manual"
  | manualEnforced => "manual-enforced"
  | automatic => "automatic"

def parse (s : String) : Except ValueError DirectoryCreation :=
  match names.lookup s with
  | some d => .ok d
  | none => .error (.unknownDirectoryCreation s)

theorem lookup_name (d : DirectoryCreation) : names.lookup d.name = some d := by
  cases d <;> decide

end DirectoryCreation

structure Layout where
  policy : Placement.Kind
  forests : Topology
  fastLoad : Bool
  directoryCreation : DirectoryCreation
deriving DecidableEq

end ForestCourier.Discovery
