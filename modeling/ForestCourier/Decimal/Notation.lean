import ForestCourier.Decimal.Shortest

/-!
Decimal fractions as they are written and read. A number is written with its shortest digits:
positionally while the point falls at most sixteen digits after the first and at most four zeros
before it, and with a signed exponent otherwise. A whole number keeps one zero after the point.
-/

namespace ForestCourier.Decimal

structure Written where
  negative : Bool
  whole : List Nat
  fraction : List Nat
  exponent : Int
deriving DecidableEq

/-- Takes digits as long as the significand fits a word; the rest is left over. -/
def takeWord : Nat → List Nat → Nat × List Nat
  | acc, [] => (acc, [])
  | acc, d :: ds => if 10 * acc + d < UInt64.size then takeWord (10 * acc + d) ds else (acc, d :: ds)

/-- The significand of at most one word, with its power of ten. Whole digits that do not fit only
raise the power, and digits after the point that do not fit are dropped. -/
def Written.parts (w : Written) : Nat × Int :=
  match takeWord 0 w.whole with
  | (s, rest) =>
    match takeWord s w.fraction with
    | (t, dropped) =>
      (t, w.exponent + rest.length - (w.fraction.length - dropped.length : Nat))

def scaleBy : Nat → Float → Int → Float
  | 0, x, _ => x
  | fuel + 1, x, e =>
    if e.natAbs ≤ 308 then
      let p := Float.ofScientific 1 false e.natAbs
      if 0 ≤ e then x * p else x / p
    else if x == 0.0 then x
    else if 0 ≤ e then x * Float.ofScientific 1 false 309
    else scaleBy fuel (x / Float.ofScientific 1 false 308) (e + 308)

def Written.toFloat (w : Written) : Float :=
  match w.parts with
  | (s, e) =>
    let x := scaleBy (e.natAbs / 308 + 1) (UInt64.ofNat s).toFloat e
    if w.negative then -x else x

/-- The positive double of the given bits, sign bit left out. -/
def binaryOfBits (bits : Nat) : Binary :=
  let mantissa : Nat := bits % 0x10000000000000
  let field : Nat := bits / 0x10000000000000 % 0x800
  if field = 0 then ⟨mantissa, -1074, false⟩
  else ⟨0x10000000000000 + mantissa, (field : Int) - 1075, mantissa = 0 && field != 1⟩

def digitChars (n : Nat) : List Char := Nat.toDigits 10 n

/-- Digits `ds` with the point after the first `point` of them. -/
def layout (ds : List Char) (point : Int) : List Char :=
  if (ds.length : Int) ≤ point ∧ point ≤ 16 then
    ds ++ List.replicate (point - ds.length).toNat '0' ++ ['.', '0']
  else if 0 < point ∧ point ≤ 16 then
    ds.take point.toNat ++ '.' :: ds.drop point.toNat
  else if -5 < point ∧ point ≤ 0 then
    '0' :: '.' :: List.replicate (-point).toNat '0' ++ ds
  else
    let e := point - 1
    let power := (if e < 0 then '-' else '+') :: digitChars e.natAbs
    match ds with
    | [d] => d :: 'e' :: power
    | d :: rest => d :: '.' :: rest ++ 'e' :: power
    | [] => []

def floatText (x : Float) : List Char :=
  let bits := x.toBits.toNat
  let sign := if bits / 0x8000000000000000 = 1 then ['-'] else []
  if bits % 0x8000000000000000 = 0 then sign ++ ['0', '.', '0']
  else
    match shortest (binaryOfBits bits) with
    | (d, k) =>
      let ds := digitChars d
      sign ++ layout ds (k + ds.length)

end ForestCourier.Decimal
