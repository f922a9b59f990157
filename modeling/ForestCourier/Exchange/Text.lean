import ForestCourier.Json.Parser
import ForestCourier.Json.Printer

/-!
Records in JSON values, and values in JSON texts. A record is written as an object, in which unknown
members are passed over and a known one may stand only once, or as the array of its fields in order.
A field that may be absent is null then; a field with a default may be missing but not null. A value
is written through its JSON form and read back the same way.
-/

namespace ForestCourier.Json

inductive Presence where
  | required
  | optional
  | defaulted
deriving DecidableEq

structure Field where
  name : String
  presence : Presence := .required

/-- A field out of an object; `none` inside stands for the default. -/
def memberOf (members : List (Option String × Json)) (f : Field) : Option (Option Json) :=
  match members.filter (fun m => m.1 == some f.name), f.presence with
  | [m], _ => some (some m.2)
  | [], .required => none
  | [], .optional => some (some .null)
  | [], .defaulted => some none
  | _, _ => none

/-- The fields out of an array, in order; only fields with a default may be missing at the end. -/
def positional : List Field → List Json → Option (List (Option Json))
  | [], [] => some []
  | [], _ :: _ => none
  | f :: fs, [] => if f.presence = .defaulted then (positional fs []).map (none :: ·) else none
  | _ :: fs, j :: js => (positional fs js).map (some j :: ·)

def fields (fs : List Field) : Json → Option (List (Option Json))
  | .object members =>
    if members.any (fun m => m.1.isNone) then none else fs.mapM (memberOf members)
  | .array items => positional fs items
  | _ => none

def text? : Json → Option String
  | .string s => s
  | _ => none

def bool? : Json → Option Bool
  | .bool b => some b
  | _ => none

def int? (low high : Int) : Json → Option Int
  | .int n => if low ≤ n ∧ n ≤ high then some n else none
  | _ => none

def word? (j : Json) : Option UInt64 :=
  (j.int? 0 (UInt64.size - 1 : Nat)).map fun n => UInt64.ofNat n.toNat

def word16? (j : Json) : Option UInt16 :=
  (j.int? 0 (UInt16.size - 1 : Nat)).map fun n => UInt16.ofNat n.toNat

def int32? (j : Json) : Option Int32 :=
  (j.int? Int32.minValue.toInt Int32.maxValue.toInt).map Int32.ofInt

def list? {α : Type} (f : Json → Option α) : Json → Option (List α)
  | .array items => items.mapM f
  | _ => none

def nullable? {α : Type} (f : Json → Option α) : Json → Option (Option α)
  | .null => some none
  | j => (f j).map some

/-- A name out of a fixed set, alone or as the only key of an object that gives it nothing. -/
def name? {α : Type} (names : List (String × α)) : Json → Option α
  | .string (some s) => names.lookup s
  | .object [(some s, .null)] => names.lookup s
  | _ => none

theorem text?_ofText (s : String) : (ofText s).text? = some s := rfl

theorem int?_int {low high n : Int} (hlow : low ≤ n) (hhigh : n ≤ high) :
    (Json.int n).int? low high = some n := if_pos ⟨hlow, hhigh⟩

theorem word?_ofNat (w : UInt64) : (ofNat w.toNat).word? = some w := by
  have h : w.toNat < UInt64.size := w.toNat_lt_size
  unfold word? ofNat
  rw [int?_int (by omega) (by omega)]
  simp

theorem word16?_ofNat (w : UInt16) : (ofNat w.toNat).word16? = some w := by
  have h : w.toNat < UInt16.size := w.toNat_lt_size
  unfold word16? ofNat
  rw [int?_int (by omega) (by omega)]
  simp

theorem int32?_int (n : Int32) : (Json.int n.toInt).int32? = some n := by
  unfold int32?
  rw [int?_int n.minValue_le_toInt n.toInt_le]
  simp

theorem list?_ofList {α : Type} {f : α → Json} {g : Json → Option α} (h : ∀ a, g (f a) = some a)
    (xs : List α) : (ofList f xs).list? g = some xs := by
  induction xs with
  | nil => rfl
  | cons x xs ih =>
    have ih : (xs.map f).mapM g = some xs := ih
    simp [ofList, list?, h, ih]

theorem nullable?_ofOption {α : Type} {f : α → Json} {g : Json → Option α}
    (h : ∀ a, g (f a) = some a) (hf : ∀ a, f a ≠ .null) (x : Option α) :
    (ofOption f x).nullable? g = some x := by
  cases x with
  | none => rfl
  | some a =>
    have ha := h a
    have hn := hf a
    revert ha hn
    simp only [ofOption]
    cases f a <;> simp [nullable?]

theorem name?_ofText {α : Type} {names : List (String × α)} {s : String} {a : α}
    (h : names.lookup s = some a) : (ofText s).name? names = some a := h

end ForestCourier.Json

namespace ForestCourier.Exchange

def write {α : Type} (toJson : α → Json) (a : α) : String := (toJson a).print

def read? {α : Type} (ofJson? : Json → Option α) (text : String) : Option α :=
  (Json.parse text).bind ofJson?

end ForestCourier.Exchange
