/-!
The shortest decimal that reads back as a given binary fraction. A double is `m * 2 ^ q`; every real
in the interval halfway to its two neighbours reads back as it, the end points included exactly when
`m` is even. Of the decimal grids, coarsest first, the first one with a point in that interval is
taken, and on it the point nearest to the value.
-/

namespace ForestCourier.Decimal

/-- A positive double `significand * 2 ^ exponent`, with the step below it halved at a power of two. -/
structure Binary where
  significand : Nat
  exponent : Int
  atPower : Bool
deriving DecidableEq

/-- The interval that reads back, as numerators over one denominator. -/
structure Interval where
  low : Nat
  value : Nat
  high : Nat
  denominator : Nat
  closed : Bool

namespace Binary

def interval (b : Binary) : Interval :=
  let m := b.significand
  let q := b.exponent - 2
  let up := Nat.pow 2 q.toNat
  { low := (4 * m - (if b.atPower then 1 else 2)) * up
    value := 4 * m * up
    high := (4 * m + 2) * up
    denominator := Nat.pow 2 (-q).toNat
    closed := m % 2 = 0 }

end Binary

namespace Interval

def scale (r : Interval) (k : Int) : Interval :=
  let up := Nat.pow 10 (-k).toNat
  { low := r.low * up
    value := r.value * up
    high := r.high * up
    denominator := r.denominator * Nat.pow 10 k.toNat
    closed := r.closed }

def contains (r : Interval) (d : Nat) : Bool :=
  let p := d * r.denominator
  if r.closed then r.low ≤ p && p ≤ r.high else r.low < p && p < r.high

/-- The whole number of the interval nearest to its value; of two equally near, the even one. -/
def nearest? (r : Interval) : Option Nat :=
  let d := r.value / r.denominator
  match r.contains d && d != 0, r.contains (d + 1) with
  | false, false => none
  | true, false => some d
  | false, true => some (d + 1)
  | true, true =>
    let below := r.value - d * r.denominator
    let above := (d + 1) * r.denominator - r.value
    if below < above then some d
    else if above < below then some (d + 1)
    else some (if d % 2 = 0 then d else d + 1)

def search (r : Interval) : Nat → Int → Nat × Int
  | 0, k => ((r.scale k).value / (r.scale k).denominator, k)
  | fuel + 1, k =>
    match (r.scale k).nearest? with
    | some d => (d, k)
    | none => search r fuel (k - 1)

end Interval

/-- Digits and decimal exponent. No double needs a grid coarser than `10 ^ 309`, nor one finer than
`10 ^ -324`. -/
def shortest (b : Binary) : Nat × Int := b.interval.search 640 309

end ForestCourier.Decimal
