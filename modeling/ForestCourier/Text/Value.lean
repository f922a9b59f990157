/-!
How the text of a value is read. Values are trimmed of blanks on both sides, and a list value is cut at its
commas into trimmed entries, of which the empty ones are dropped. A decimal numeral is a run of ASCII digits
after an optional sign; the digits are read from the left, and the first thing wrong with them is what is
reported.
-/

namespace ForestCourier.Text

/-- A character of the Unicode property `White_Space`. -/
def isBlank (c : Char) : Bool :=
  let n := c.toNat
  (0x9 ≤ n && n ≤ 0xd) || n == 0x20 || n == 0x85 || n == 0xa0 || n == 0x1680 ||
    (0x2000 ≤ n && n ≤ 0x200a) || n == 0x2028 || n == 0x2029 || n == 0x202f || n == 0x205f ||
    n == 0x3000

def trimmed (cs : List Char) : List Char :=
  ((cs.dropWhile isBlank).reverse.dropWhile isBlank).reverse

def trim (s : String) : String := String.ofList (trimmed s.toList)

/-- The trimmed entries between the commas, empty ones left out. -/
def entries (s : String) : List String :=
  (s.toList.splitOn ',').map (fun piece => String.ofList (trimmed piece)) |>.filter (· ≠ "")

/-- ASCII capitals made small, all else kept. -/
def lower (s : String) : String := s.map Char.toLower

structure Width where
  signed : Bool
  bits : Nat
deriving DecidableEq

namespace Width

/-- The largest magnitude of the given sign that the width holds. -/
def limit (w : Width) (negative : Bool) : Nat :=
  if w.signed then (if negative then Nat.pow 2 (w.bits - 1) else Nat.pow 2 (w.bits - 1) - 1)
  else (if negative then 0 else Nat.pow 2 w.bits - 1)

end Width

inductive NumeralError where
  | empty
  | invalidDigit
  | tooLarge
  | tooSmall
deriving DecidableEq

def NumeralError.message : NumeralError → String
  | .empty => "cannot parse integer from empty string"
  | .invalidDigit => "invalid digit found in string"
  | .tooLarge => "number too large to fit in target type"
  | .tooSmall => "number too small to fit in target type"

def digit? (c : Char) : Option Nat :=
  if '0' ≤ c ∧ c ≤ '9' then some (c.toNat - '0'.toNat) else none

def magnitude (limit : Nat) (excess : NumeralError) : Nat → List Char → Except NumeralError Nat
  | acc, [] => .ok acc
  | acc, c :: cs =>
    match digit? c with
    | none => .error .invalidDigit
    | some d =>
      if 10 * acc + d ≤ limit then magnitude limit excess (10 * acc + d) cs else .error excess

def nonemptyMagnitude (limit : Nat) (excess : NumeralError) : List Char → Except NumeralError Nat
  | [] => .error .invalidDigit
  | cs => magnitude limit excess 0 cs

def numeral (w : Width) (text : String) : Except NumeralError Int :=
  match text.toList with
  | [] => .error .empty
  | '+' :: cs => Int.ofNat <$> nonemptyMagnitude (w.limit false) .tooLarge cs
  | '-' :: cs =>
    if w.signed then
      (fun m : Nat => -(m : Int)) <$> nonemptyMagnitude (w.limit true) .tooSmall cs
    else .error .invalidDigit
  | cs => Int.ofNat <$> nonemptyMagnitude (w.limit false) .tooLarge cs

end ForestCourier.Text
