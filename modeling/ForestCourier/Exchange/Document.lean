import ForestCourier.Document.Content
import ForestCourier.Exchange.Text

/-!
The JSON form of document URIs and of the options of an insert. Each type has a writer and a reader,
which takes back what the writer gives; what it takes beyond that is said in `Exchange.Text`.
-/

namespace ForestCourier

namespace Uri

def toJson (u : Uri) : Json := .ofMembers [("uri", .ofText u.text)]

def ofJson? (j : Json) : Option Uri := do
  match ← j.fields [⟨"uri", .required⟩] with
  | [some text] => some ⟨← text.text?⟩
  | _ => none

theorem ofJson?_toJson (u : Uri) : ofJson? u.toJson = some u := rfl

end Uri

namespace Source

def toJson (s : Source) : Json :=
  .ofMembers [("src_id", .ofText s.name), ("line", .ofNat s.line.toNat),
    ("column", .ofNat s.column.toNat)]

def ofJson? (j : Json) : Option Source := do
  match ← j.fields [⟨"src_id", .required⟩, ⟨"line", .required⟩, ⟨"column", .required⟩] with
  | [some name, some line, some column] => some ⟨← name.text?, ← line.word?, ← column.word?⟩
  | _ => none

theorem ofJson?_toJson (s : Source) : ofJson? s.toJson = some s := by
  simp [ofJson?, toJson, Json.fields, Json.ofMembers, Json.memberOf, Json.word?_ofNat,
    Json.text?_ofText]

end Source

namespace SourcedUri

def toJson (s : SourcedUri) : Json :=
  .ofMembers [("uri", s.uri.toJson), ("source", s.source.toJson)]

def ofJson? (j : Json) : Option SourcedUri := do
  match ← j.fields [⟨"uri", .required⟩, ⟨"source", .required⟩] with
  | [some uri, some source] => some ⟨← Uri.ofJson? uri, ← Source.ofJson? source⟩
  | _ => none

theorem ofJson?_toJson (s : SourcedUri) : ofJson? s.toJson = some s := by
  simp [ofJson?, toJson, Json.fields, Json.ofMembers, Json.memberOf,
    Uri.ofJson?_toJson, Source.ofJson?_toJson]

end SourcedUri

namespace Permission

def toJson (p : Permission) : Json :=
  .ofMembers [("role", .ofText p.role), ("capability", .ofText p.capability.name)]

def ofJson? (j : Json) : Option Permission := do
  match ← j.fields [⟨"role", .required⟩, ⟨"capability", .required⟩] with
  | [some role, some capability] => some ⟨← role.text?, ← capability.name? Capability.names⟩
  | _ => none

theorem ofJson?_toJson (p : Permission) : ofJson? p.toJson = some p := by
  simp [ofJson?, toJson, Json.fields, Json.ofMembers, Json.memberOf,
    Json.text?_ofText, Json.name?_ofText p.capability.lookup_name]

end Permission

namespace CreateOptions

def toJson (c : CreateOptions) : Json :=
  .ofMembers [("permissions", .ofList Permission.toJson c.permissions),
    ("collections", .ofList .ofText c.collections), ("quality", .int c.quality.toInt),
    ("encoding", .ofText c.encoding), ("format", .ofText c.format.name),
    ("temporal_collection", .ofOption .ofText c.temporalCollection)]

def ofJson? (j : Json) : Option CreateOptions := do
  match ← j.fields [⟨"permissions", .required⟩, ⟨"collections", .required⟩,
      ⟨"quality", .required⟩, ⟨"encoding", .required⟩, ⟨"format", .required⟩,
      ⟨"temporal_collection", .optional⟩] with
  | [some permissions, some collections, some quality, some encoding, some format,
      some temporal] =>
    some {
      permissions := ← permissions.list? Permission.ofJson?
      collections := ← collections.list? Json.text?
      quality := ← quality.int32?
      encoding := ← encoding.text?
      format := ← format.name? Format.names
      temporalCollection := ← temporal.nullable? Json.text? }
  | _ => none

theorem ofJson?_toJson (c : CreateOptions) :
    ofJson? c.toJson = some c := by
  simp [ofJson?, toJson, Json.fields, Json.ofMembers, Json.memberOf,
    Json.text?_ofText, Json.name?_ofText c.format.lookup_name, Json.int32?_int,
    Json.list?_ofList Permission.ofJson?_toJson, Json.list?_ofList Json.text?_ofText,
    Json.nullable?_ofOption Json.text?_ofText (fun _ h => Json.noConfusion h)]

end CreateOptions

end ForestCourier
