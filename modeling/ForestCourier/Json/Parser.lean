import ForestCourier.Json.Value

/-!
Reading JSON text. A reader takes the characters that are left and gives a value with the characters
behind it. Strings are read in two steps: first the pieces, plain characters and four-digit escapes,
then the text, in which two escapes that form a surrogate pair stand for one character.
-/

namespace ForestCourier.Json

def isSpace (c : Char) : Bool := c == ' ' || c == '\t' || c == '\n' || c == '\r'

def skip (cs : List Char) : List Char := cs.dropWhile isSpace

inductive Piece where
  | plain (c : Char)
  | code (n : Nat)
deriving DecidableEq

def hexValue? (c : Char) : Option Nat :=
  if '0' ≤ c ∧ c ≤ '9' then some (c.toNat - 48)
  else if 'a' ≤ c ∧ c ≤ 'f' then some (c.toNat - 87)
  else if 'A' ≤ c ∧ c ≤ 'F' then some (c.toNat - 55)
  else none

def code? (a b c d : Char) : Option Nat := do
  let a ← hexValue? a
  let b ← hexValue? b
  let c ← hexValue? c
  let d ← hexValue? d
  some (((a * 16 + b) * 16 + c) * 16 + d)

def shortEscape? : Char → Option Char
  | '"' => some '"'
  | '\\' => some '\\'
  | '/' => some '/'
  | 'b' => some '\x08'
  | 'f' => some '\x0c'
  | 'n' => some '\n'
  | 'r' => some '\r'
  | 't' => some '\t'
  | _ => none

/-- The pieces up to the closing quote, and what stands behind it. -/
def pieces : List Char → Option (List Piece × List Char)
  | [] => none
  | '"' :: rest => some ([], rest)
  | '\\' :: 'u' :: a :: b :: c :: d :: rest => do
    let n ← code? a b c d
    let (ps, rest) ← pieces rest
    some (.code n :: ps, rest)
  | '\\' :: e :: rest => do
    let c ← shortEscape? e
    let (ps, rest) ← pieces rest
    some (.plain c :: ps, rest)
  | c :: rest =>
    if c.toNat < 0x20 ∨ c = '\\' then none
    else do
      let (ps, rest) ← pieces rest
      some (.plain c :: ps, rest)

/-- The characters that the pieces stand for, if no half of a surrogate pair stands alone. -/
def join : List Piece → Option (List Char)
  | [] => some []
  | .plain c :: ps => (join ps).map (c :: ·)
  | .code h :: ps =>
    if h < 0xd800 ∨ 0xe000 ≤ h then (join ps).map (Char.ofNat h :: ·)
    else match ps with
      | .code l :: qs =>
        if h < 0xdc00 ∧ 0xdc00 ≤ l ∧ l < 0xe000 then
          (join qs).map (Char.ofNat (0x10000 + (h - 0xd800) * 0x400 + (l - 0xdc00)) :: ·)
        else none
      | _ => none

def readString (cs : List Char) : Option (Option String × List Char) :=
  (pieces cs).map fun (ps, rest) => ((join ps).map String.ofList, rest)

def isDigit (c : Char) : Bool := '0' ≤ c && c ≤ '9'

def digitValue (c : Char) : Nat := c.toNat - 48

def natOfDigits (ds : List Char) : Nat := ds.foldl (fun n c => 10 * n + digitValue c) 0

def readFraction : List Char → Option (List Char × List Char)
  | '.' :: cs =>
    let ds := cs.takeWhile isDigit
    if ds.isEmpty then none else some (ds, cs.dropWhile isDigit)
  | cs => some ([], cs)

def readPower (negative : Bool) (cs : List Char) : Option (Option Int × List Char) :=
  let ds := cs.takeWhile isDigit
  if ds.isEmpty then none
  else
    let n : Int := natOfDigits ds
    some (some (if negative then -n else n), cs.dropWhile isDigit)

def readExponent : List Char → Option (Option Int × List Char)
  | e :: cs =>
    if e = 'e' ∨ e = 'E' then
      match cs with
      | '+' :: ds => readPower false ds
      | '-' :: ds => readPower true ds
      | ds => readPower false ds
    else some (none, e :: cs)
  | [] => some (none, [])

/-- A whole number is kept exactly as long as it has a 64-bit form; zero has no sign. -/
def ofDigits (negative : Bool) (whole fraction : List Char) (power : Option Int) : Json :=
  let n := natOfDigits whole
  let written : Json := .real
    ⟨negative, whole.map digitValue, fraction.map digitValue, power.getD 0⟩
  if fraction.isEmpty && power.isNone then
    if negative then (if 0 < n ∧ n ≤ UInt64.size / 2 then .int (-n) else written)
    else if n < UInt64.size then .int n else written
  else written

/-- Digits before the point: a leading zero stands alone. -/
def readMagnitude (negative : Bool) (cs : List Char) : Option (Json × List Char) :=
  let whole := cs.takeWhile isDigit
  if whole.isEmpty || (whole.head? == some '0' && whole.length != 1) then none
  else do
    let (fraction, cs) ← readFraction (cs.dropWhile isDigit)
    let (power, cs) ← readExponent cs
    some (ofDigits negative whole fraction power, cs)

def readNumber : List Char → Option (Json × List Char)
  | '-' :: cs => readMagnitude true cs
  | cs => readMagnitude false cs

mutual

def readValue : Nat → List Char → Option (Json × List Char)
  | 0, _ => none
  | fuel + 1, cs =>
    match skip cs with
    | 'n' :: 'u' :: 'l' :: 'l' :: rest => some (.null, rest)
    | 't' :: 'r' :: 'u' :: 'e' :: rest => some (.bool true, rest)
    | 'f' :: 'a' :: 'l' :: 's' :: 'e' :: rest => some (.bool false, rest)
    | '"' :: rest => (readString rest).map fun (s, rest) => (.string s, rest)
    | '[' :: rest =>
      match skip rest with
      | ']' :: rest => some (.array [], rest)
      | rest => (readItems fuel rest).map fun (js, rest) => (.array js, rest)
    | '\x7b' :: rest =>
      match skip rest with
      | '\x7d' :: rest => some (.object [], rest)
      | rest => (readMembers fuel rest).map fun (ms, rest) => (.object ms, rest)
    | rest => readNumber rest

def readItems : Nat → List Char → Option (List Json × List Char)
  | 0, _ => none
  | fuel + 1, cs => do
    let (j, cs) ← readValue fuel cs
    match skip cs with
    | ',' :: rest =>
      let (js, rest) ← readItems fuel rest
      some (j :: js, rest)
    | ']' :: rest => some ([j], rest)
    | _ => none

def readMembers : Nat → List Char → Option (List (Option String × Json) × List Char)
  | 0, _ => none
  | fuel + 1, cs =>
    match skip cs with
    | '"' :: rest => do
      let (key, rest) ← readString rest
      match skip rest with
      | ':' :: rest =>
        let (j, rest) ← readValue fuel rest
        match skip rest with
        | ',' :: rest =>
          let (ms, rest) ← readMembers fuel rest
          some ((key, j) :: ms, rest)
        | '\x7d' :: rest => some ([(key, j)], rest)
        | _ => none
      | _ => none
    | _ => none

end

/-- The value that the whole text writes. A value, an item and a member each take at least one
character, so no reader is entered more often than twice a character. -/
def parse (s : String) : Option Json :=
  let cs := s.toList
  match readValue (2 * cs.length + 2) cs with
  | some (j, rest) => if (skip rest).isEmpty then some j else none
  | none => none

end ForestCourier.Json
