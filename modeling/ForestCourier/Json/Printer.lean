import ForestCourier.Json.Value

/-!
Compact JSON text: no blanks, members in their order, and in strings an escape for the quote, the
backslash and the control characters below the blank, of which five have short names.
-/

namespace ForestCourier.Json

def hexDigit (n : Nat) : Char := if n < 10 then Char.ofNat (48 + n) else Char.ofNat (87 + n)

def escaped (c : Char) : List Char :=
  if c = '"' then ['\\', '"']
  else if c = '\\' then ['\\', '\\']
  else if c = '\x08' then ['\\', 'b']
  else if c = '\x0c' then ['\\', 'f']
  else if c = '\n' then ['\\', 'n']
  else if c = '\r' then ['\\', 'r']
  else if c = '\t' then ['\\', 't']
  else if c.toNat < 0x20 then
    ['\\', 'u', '0', '0', hexDigit (c.toNat / 16), hexDigit (c.toNat % 16)]
  else [c]

def stringText (s : String) : List Char :=
  '"' :: s.toList.flatMap escaped ++ ['"']

/-- A string without a text is written as the half of a pair that it was read with. -/
def optionalText : Option String → List Char
  | some s => stringText s
  | none => "\"\\ud800\"".toList

def intText (n : Int) : List Char :=
  if n < 0 then '-' :: Nat.toDigits 10 n.natAbs else Nat.toDigits 10 n.natAbs

mutual

def text : Json → List Char
  | .null => ['n', 'u', 'l', 'l']
  | .bool true => ['t', 'r', 'u', 'e']
  | .bool false => ['f', 'a', 'l', 's', 'e']
  | .int n => intText n
  | .real x => Decimal.floatText x.toFloat
  | .string s => optionalText s
  | .array items => '[' :: itemsText items ++ [']']
  | .object members => '\x7b' :: membersText members ++ ['\x7d']

def itemsText : List Json → List Char
  | [] => []
  | [j] => text j
  | j :: k :: js => text j ++ ',' :: itemsText (k :: js)

def membersText : List (Option String × Json) → List Char
  | [] => []
  | [(key, value)] => optionalText key ++ ':' :: text value
  | (key, value) :: m :: ms => optionalText key ++ ':' :: text value ++ ',' :: membersText (m :: ms)

end

def print (j : Json) : String := String.ofList j.text

end ForestCourier.Json
