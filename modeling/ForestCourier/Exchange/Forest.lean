import ForestCourier.Discovery.Layout
import ForestCourier.Exchange.Text
import ForestCourier.Split.Basic

/-!
The JSON form of forests, topologies, layouts and splits, as they are handed from job setup to tasks.
Each is read back as it was written.
-/

namespace ForestCourier

namespace ForestId

def toJson (id : ForestId) : Json := .ofText id.text

def ofJson? (j : Json) : Option ForestId := j.text?.map ForestId.mk

theorem ofJson?_toJson (id : ForestId) : ofJson? id.toJson = some id := rfl

end ForestId

namespace Replica

def toJson (r : Replica) : Json :=
  .ofMembers [("forestId", r.forest.toJson), ("host", .ofText r.host)]

def ofJson? (j : Json) : Option Replica := do
  match ← j.fields [⟨"forestId", .required⟩, ⟨"host", .required⟩] with
  | [some forest, some host] => some ⟨← ForestId.ofJson? forest, ← host.text?⟩
  | _ => none

theorem ofJson?_toJson (r : Replica) : ofJson? r.toJson = some r := by
  simp [ofJson?, toJson, Json.fields, Json.ofMembers, Json.memberOf,
    Json.text?_ofText, ForestId.ofJson?_toJson]

end Replica

namespace Forest

def toJson (f : Forest) : Json :=
  .ofMembers [("id", f.id.toJson), ("host", .ofText f.host), ("updatable", .bool f.updatable),
    ("replicas", .ofList Replica.toJson f.replicas), ("docCount", .ofNat f.documents.toNat)]

/-- A forest that does not say so has no replicas and no documents. -/
def ofJson? (j : Json) : Option Forest := do
  match ← j.fields [⟨"id", .required⟩, ⟨"host", .required⟩, ⟨"updatable", .required⟩,
      ⟨"replicas", .defaulted⟩, ⟨"docCount", .defaulted⟩] with
  | [some id, some host, some updatable, replicas, documents] =>
    some {
      id := ← ForestId.ofJson? id
      host := ← host.text?
      updatable := ← updatable.bool?
      replicas := ← match replicas with
        | some replicas => replicas.list? Replica.ofJson?
        | none => some []
      documents := ← match documents with
        | some documents => documents.word?
        | none => some 0 }
  | _ => none

theorem ofJson?_toJson (f : Forest) : ofJson? f.toJson = some f := by
  simp [ofJson?, toJson, Json.fields, Json.ofMembers, Json.memberOf,
    Json.text?_ofText, ForestId.ofJson?_toJson, Json.bool?, Json.word?_ofNat,
    Json.list?_ofList Replica.ofJson?_toJson]

end Forest

namespace Topology

def toJson (t : Topology) : Json := .ofMembers [("forests", .ofList Forest.toJson t.forests)]

def ofJson? (j : Json) : Option Topology := do
  match ← j.fields [⟨"forests", .required⟩] with
  | [some forests] => some ⟨← forests.list? Forest.ofJson?⟩
  | _ => none

theorem ofJson?_toJson (t : Topology) : ofJson? t.toJson = some t := by
  simp [ofJson?, toJson, Json.fields, Json.ofMembers, Json.memberOf,
    Json.list?_ofList Forest.ofJson?_toJson]

end Topology

namespace Discovery.Layout

def toJson (l : Layout) : Json :=
  .ofMembers [("policy", .ofText l.policy.name), ("forests", l.forests.toJson),
    ("fast_load", .bool l.fastLoad), ("directory_creation", .ofText l.directoryCreation.name)]

def ofJson? (j : Json) : Option Layout := do
  match ← j.fields [⟨"policy", .required⟩, ⟨"forests", .required⟩, ⟨"fast_load", .required⟩,
      ⟨"directory_creation", .required⟩] with
  | [some policy, some forests, some fastLoad, some directories] =>
    some {
      policy := ← policy.name? Placement.Kind.names
      forests := ← Topology.ofJson? forests
      fastLoad := ← fastLoad.bool?
      directoryCreation := ← directories.name? DirectoryCreation.names }
  | _ => none

theorem ofJson?_toJson (l : Discovery.Layout) :
    ofJson? l.toJson = some l := by
  simp [ofJson?, toJson, Json.fields, Json.ofMembers,
    Json.memberOf, Json.name?_ofText l.policy.lookup_name, Topology.ofJson?_toJson, Json.bool?,
    Json.name?_ofText l.directoryCreation.lookup_name]

end Discovery.Layout

namespace Split

def toJson (s : Split) : Json :=
  .ofMembers [("forest_id", s.forest.toJson), ("host", .ofText s.host),
    ("start", .ofNat s.start.toNat), ("end", .ofOption (fun n => .ofNat n.toNat) s.stop),
    ("is_last_split", .bool s.isLast), ("replicas", .ofList Replica.toJson s.replicas),
    ("redaction_rules", .ofList .ofText s.redactionRules)]

def ofJson? (j : Json) : Option Split := do
  match ← j.fields [⟨"forest_id", .required⟩, ⟨"host", .required⟩, ⟨"start", .required⟩,
      ⟨"end", .optional⟩, ⟨"is_last_split", .required⟩, ⟨"replicas", .required⟩,
      ⟨"redaction_rules", .required⟩] with
  | [some forest, some host, some start, some stop, some isLast, some replicas, some rules] =>
    some {
      forest := ← ForestId.ofJson? forest
      host := ← host.text?
      start := ← start.word?
      stop := ← stop.nullable? Json.word?
      isLast := ← isLast.bool?
      replicas := ← replicas.list? Replica.ofJson?
      redactionRules := ← rules.list? Json.text? }
  | _ => none

theorem ofJson?_toJson (s : Split) : ofJson? s.toJson = some s := by
  simp [ofJson?, toJson, Json.fields, Json.ofMembers, Json.memberOf,
    Json.text?_ofText, ForestId.ofJson?_toJson, Json.bool?, Json.word?_ofNat,
    Json.list?_ofList Replica.ofJson?_toJson, Json.list?_ofList Json.text?_ofText,
    Json.nullable?_ofOption Json.word?_ofNat (fun _ h => Json.noConfusion h)]

end Split

end ForestCourier
