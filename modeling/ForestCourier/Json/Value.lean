import ForestCourier.Decimal.Notation

/-!
JSON values. Whole numbers of 64 bits, signed or not, are kept exactly; every other number keeps its
written form. A string whose escapes hold half of a surrogate pair has no text, and a record that
ignores the field can still be read. Members stand in the order in which they were written.
-/

namespace ForestCourier

inductive Json where
  | null
  | bool (value : Bool)
  | int (value : Int)
  | real (value : Decimal.Written)
  | string (text : Option String)
  | array (items : List Json)
  | object (members : List (Option String × Json))

namespace Json

def ofText (s : String) : Json := .string (some s)

def ofNat (n : Nat) : Json := .int n

def ofMembers (members : List (String × Json)) : Json :=
  .object (members.map fun m => (some m.1, m.2))

def ofOption {α : Type} (f : α → Json) : Option α → Json
  | none => .null
  | some a => f a

def ofList {α : Type} (f : α → Json) (xs : List α) : Json := .array (xs.map f)

def putMember (key : Option String) (value : Json) :
    List (Option String × Json) → List (Option String × Json)
  | [] => [(key, value)]
  | m :: ms =>
    if key = m.1 then (key, value) :: ms
    else if compare (key.getD "") (m.1.getD "") = .lt then (key, value) :: m :: ms
    else m :: putMember key value ms

mutual

/-- The value with the members of every object in the order of their keys, each key once and with
its last value. -/
def canonical : Json → Json
  | .array items => .array (canonicalItems items)
  | .object members => .object (canonicalMembers [] members)
  | .null => .null
  | .bool b => .bool b
  | .int n => .int n
  | .real x => .real x
  | .string s => .string s

def canonicalItems : List Json → List Json
  | [] => []
  | j :: js => canonical j :: canonicalItems js

def canonicalMembers (done : List (Option String × Json)) :
    List (Option String × Json) → List (Option String × Json)
  | [] => done
  | (key, value) :: ms => canonicalMembers (putMember key (canonical value) done) ms

end

end Json

end ForestCourier
