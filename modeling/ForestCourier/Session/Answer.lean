import ForestCourier.Error
import ForestCourier.Session.Basic

/-!
Answers of queries, read by position. What an item means follows from where it stands; markers part
the sections of an answer. An item of the wrong type, or none where one is due, breaks the form that
client and server share and is reported with its position.
-/

namespace ForestCourier

structure Answer where
  rest : List Item
  position : Nat
deriving DecidableEq

namespace Answer

abbrev Reads (α : Type) := Answer → Except ProtocolError (α × Answer)

def ofItems (items : List Item) : Answer := ⟨items, 0⟩

def behind? (marker : String) (a : Answer) : Option Answer :=
  match a.rest with
  | .text s :: rest => if s = marker then some ⟨rest, a.position + 1⟩ else none
  | _ => none

def text (what : String) : Reads String := fun a =>
  match a.rest with
  | [] => .error (.ended what)
  | .text s :: rest => .ok (s, ⟨rest, a.position + 1⟩)
  | item :: _ => .error (.mismatch what a.position item.typeName)

def int (what : String) : Reads Int64 := fun a =>
  match a.rest with
  | [] => .error (.ended what)
  | .int n :: rest => .ok (n, ⟨rest, a.position + 1⟩)
  | item :: _ => .error (.mismatch what a.position item.typeName)

def bool (what : String) : Reads Bool := fun a =>
  match a.rest with
  | [] => .error (.ended what)
  | .bool b :: rest => .ok (b, ⟨rest, a.position + 1⟩)
  | item :: _ => .error (.mismatch what a.position item.typeName)

/-- Servers of today name a forest by number, older ones by text. -/
def forestId : Reads ForestId := fun a =>
  match a.rest with
  | [] => .error (.ended "forest id")
  | .text s :: rest => .ok (⟨s⟩, ⟨rest, a.position + 1⟩)
  | .int n :: rest =>
    if 0 ≤ n.toInt then .ok (.ofNat n.toInt.toNat, ⟨rest, a.position + 1⟩)
    else .error (.negativeForest n.toInt)
  | item :: _ => .error (.mismatch "forest id" a.position item.typeName)

def count (what : String) : Reads Nat := fun a => do
  let (n, a) ← int what a
  if 0 ≤ n.toInt then .ok (n.toInt.toNat, a) else .error (.badCount what n.toInt)

def entries {α : Type} (stop : Answer → Option Answer) (entry : Reads α) : Nat → Reads (List α)
  | 0, a => .ok ([], (stop a).getD a)
  | fuel + 1, a =>
    match stop a with
    | some a => .ok ([], a)
    | none => do
      let (x, a) ← entry a
      let (xs, a) ← entries stop entry fuel a
      .ok (x :: xs, a)

/-- A section of an answer. An entry takes an item at least, so there are no more entries than
items, and one more attempt meets the end. -/
def readSection {α : Type} (stop : Answer → Option Answer) (entry : Reads α) : Reads (List α) :=
  fun a => entries stop entry (a.rest.length + 1) a

def atEnd (a : Answer) : Option Answer := if a.rest.isEmpty then some a else none

def all {α : Type} (entry : Reads α) (a : Answer) : Except ProtocolError (List α) :=
  (readSection atEnd entry a).map (·.1)

def replicas : Nat → Reads (List Replica)
  | 0, a => .ok ([], a)
  | n + 1, a => do
    let (forest, a) ← forestId a
    let (host, a) ← text "replica host" a
    let (rs, a) ← replicas n a
    .ok (⟨forest, host⟩ :: rs, a)

/-- A forest and its replicas, whose announced number has to fit what is left of the answer. -/
def replicaGroup : Reads (ForestId × List Replica) := fun a => do
  let (forest, a) ← forestId a
  let (n, a) ← count "replica count" a
  if a.rest.length < 2 * n then .error (.tooManyReplicas forest n a.rest.length)
  else
    let (rs, a) ← replicas n a
    .ok ((forest, rs), a)

/-- Gives a forest its replicas; of several entries for the forest, the first one has them. -/
def attachGroup {α : Type} (id : α → ForestId) (put : List Replica → α → α)
    (group : ForestId × List Replica) : List α → Except ProtocolError (List α)
  | [] => .error (.unknownForest group.1)
  | x :: xs =>
    if id x = group.1 then .ok (put group.2 x :: xs) else (attachGroup id put group xs).map (x :: ·)

/-- Gives out all groups in order; a later group for a forest replaces an earlier one. -/
def attach {α : Type} (id : α → ForestId) (put : List Replica → α → α) (xs : List α)
    (groups : List (ForestId × List Replica)) : Except ProtocolError (List α) :=
  groups.foldlM (fun xs group => attachGroup id put group xs) xs

end Answer

end ForestCourier
