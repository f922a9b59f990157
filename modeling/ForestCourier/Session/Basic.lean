import ForestCourier.Document.Content
import ForestCourier.Forest.Basic

/-!
What passes between a client and a host: sessions and where they lead, queries, and the items that
come back.
-/

namespace ForestCourier

inductive Transaction where
  | auto
  | update
deriving DecidableEq

def Transaction.name : Transaction → String
  | .auto => "auto"
  | .update => "update"

/-- Where a session leads; without a forest the server places documents. -/
structure Target where
  host : String
  port : UInt16
  forest : Option ForestId
deriving DecidableEq

def Target.describe (t : Target) : String :=
  match t.forest with
  | some forest => s!"{t.host}:{t.port} (forest {forest.text})"
  | none => s!"{t.host}:{t.port}"

/-- A session, by its number among all sessions opened. -/
structure Session where
  number : Nat
  target : Target
  transaction : Transaction
deriving DecidableEq

structure Rejection where
  index : Nat
  code : Option String
  message : String
deriving DecidableEq

structure Query where
  text : String
  bindings : List (String × String)
deriving DecidableEq

/-- The records of a forest from `start`, counted from one, to `stop` or to the end. -/
structure RangeQuery where
  forest : ForestId
  start : UInt64
  stop : Option UInt64
  query : String
  redactionRules : List String
deriving DecidableEq

structure Record where
  uri : Uri
  format : Format
  content : List UInt8
deriving DecidableEq

inductive Item where
  | text (s : String)
  | int (n : Int64)
  | bool (b : Bool)
  | record (r : Record)
deriving DecidableEq

namespace Item

def typeName : Item → String
  | text _ => "string"
  | int _ => "integer"
  | bool _ => "boolean"
  | record _ => "document"

def text? : Item → Option String
  | text s => some s
  | _ => none

end Item

end ForestCourier
