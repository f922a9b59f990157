import ForestCourier.Config.Keys
import ForestCourier.Error
import ForestCourier.Text.Value

/-!
Options of a job as they are handed over, text under text, and how a text is read as a value. Blanks
around a value do not count, and an option with a blank value is not given.
-/

namespace ForestCourier.Config

inductive Mode where
  | inProcess
  | distributed
deriving DecidableEq

namespace Mode

def names : List (String × Mode) := [("local", inProcess), ("distributed", distributed)]

def name : Mode → String
  | inProcess => "local"
  | distributed => "distributed"

theorem lookup_name (m : Mode) : names.lookup m.name = some m := by cases m <;> decide

end Mode

structure Options where
  entries : List (String × String)

namespace Options

def empty : Options := ⟨[]⟩

def put (key value : String) : List (String × String) → List (String × String)
  | [] => [(key, value)]
  | e :: es => if e.1 = key then (key, value) :: es else e :: put key value es

theorem lookup_put (key value k : String) (es : List (String × String)) :
    (put key value es).lookup k = if k = key then some value else es.lookup k := by
  induction es with
  | nil =>
    by_cases h : k = key
    · simp [put, h]
    · have hk : (k == key) = false := by simpa using h
      simp [put, List.lookup_cons, h, hk]
  | cons e es ih =>
    obtain ⟨n, v⟩ := e
    by_cases hn : n = key
    · subst hn
      by_cases h : k = n
      · simp [put, h]
      · have hk : (k == n) = false := by simpa using h
        simp [put, List.lookup_cons, h, hk]
    · by_cases h : k = n
      · subst h
        simp [put, hn]
      · have hk : (k == n) = false := by simpa using h
        simp [put, hn, List.lookup_cons, hk, ih]

def set (o : Options) (key value : String) : Options := ⟨put key value o.entries⟩

def ofList (entries : List (String × String)) : Options :=
  entries.foldl (fun o e => o.set e.1 e.2) empty

def raw? (o : Options) (key : String) : Option String := o.entries.lookup key

theorem raw?_set (o : Options) (key value k : String) :
    (o.set key value).raw? k = if k = key then some value else o.raw? k :=
  lookup_put key value k o.entries

def get? (o : Options) (key : String) : Option String :=
  match (o.raw? key).map Text.trim with
  | some v => if v = "" then none else some v
  | none => none

def list (o : Options) (key : String) : List String :=
  match o.get? key with
  | some v => Text.entries v
  | none => []

def parsed? {α : Type} (o : Options) (read : String → Except ValueError α) (key : String) :
    Except TransferError (Option α) :=
  match o.get? key with
  | none => .ok none
  | some v =>
    match read v with
    | .ok a => .ok (some a)
    | .error cause => .error (.config (.unparsable key v cause))

end Options

namespace Value

def int (w : Text.Width) (s : String) : Except ValueError Int :=
  match Text.numeral w s with
  | .ok n => .ok n
  | .error cause => .error (.numeral cause)

def word16 (s : String) : Except ValueError UInt16 :=
  (int ⟨false, 16⟩ s).map fun n => UInt16.ofNat n.toNat

def word (s : String) : Except ValueError UInt64 :=
  (int ⟨false, 64⟩ s).map fun n => UInt64.ofNat n.toNat

def int32 (s : String) : Except ValueError Int32 := (int ⟨true, 32⟩ s).map Int32.ofInt

def int64 (s : String) : Except ValueError Int64 := (int ⟨true, 64⟩ s).map Int64.ofInt

def bool : String → Except ValueError Bool
  | "true" => .ok true
  | "false" => .ok false
  | _ => .error .notBool

def policy (s : String) : Except ValueError Placement.Kind :=
  (Placement.Kind.parse s).mapError .placement

/-- A name out of a fixed set, in any letter case; a complaint shows it in small letters. -/
def named {α : Type} (names : List (String × α)) (complaint : String → ValueError) (s : String) :
    Except ValueError α :=
  match names.lookup (Text.lower s) with
  | some a => .ok a
  | none => .error (complaint (Text.lower s))

def format : String → Except ValueError Format := named Format.names .unknownFormat

def mode : String → Except ValueError Mode := named Mode.names .unknownMode

def capability : String → Except ValueError Capability := named Capability.names .unknownCapability

end Value

end ForestCourier.Config
