import ForestCourier.Text.Value

/-!
What a role may do with an inserted document.
-/

namespace ForestCourier

inductive Capability where
  | read
  | insert
  | update
  | nodeUpdate
  | execute
deriving DecidableEq

namespace Capability

def names : List (String × Capability) :=
  [("read", read), ("insert", insert), ("update", update), ("node-update", nodeUpdate),
    ("execute", execute)]

def name : Capability → String
  | read => "read"
  | insert => "insert"
  | update => "update"
  | nodeUpdate => "node-update"
  | execute => "execute"

theorem lookup_name (c : Capability) : names.lookup c.name = some c := by cases c <;> decide

end Capability

structure Permission where
  role : String
  capability : Capability
deriving DecidableEq

end ForestCourier
