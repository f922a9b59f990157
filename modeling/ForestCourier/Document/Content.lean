import ForestCourier.Document.Format
import ForestCourier.Document.Permission
import ForestCourier.Document.Uri
import ForestCourier.Json.Printer

/-!
Documents on their way out. A payload says what a producer has; content is what goes into an insert
request, and can be sent again as often as a batch is tried again. A file is measured when its content
is made and sent by its path; how large it is, if it can be read, the file system says, which may be any.
-/

namespace ForestCourier

/-- How large the file is that a path leads to. -/
structure FileStore where
  size? : String → Option Nat

namespace FileStore

def empty : FileStore := ⟨fun _ => none⟩

def components (path : String) : List String := (path.toList.splitOn '/').map String.ofList

/-- Where a component leads from a place below the working directory, if that is a directory of the files. -/
def step (files : List (List String × Nat)) (place : List String) (component : String) : Option (List String) :=
  if place.isEmpty || files.any fun f => place.isPrefixOf f.1 && place.length < f.1.length then
    match component with
    | "" | "." => some place
    | ".." => if place.isEmpty then none else some place.dropLast
    | c => some (place ++ [c])
  else none

/-- The file system of a run that has just these files, below the directory it works in. -/
def ofList (files : List (String × Nat)) : FileStore where
  size? path :=
    let files := files.map fun f => ((components f.1).filter fun c => c ≠ "" ∧ c ≠ ".", f.2)
    if path.isEmpty || path.toList.head? == some '/' then none
    else do
      let reached ← (components path).foldlM (step files) []
      files.lookup reached

end FileStore

structure CreateOptions where
  permissions : List Permission
  collections : List String
  quality : Int32
  encoding : String
  format : Format
  temporalCollection : Option String
deriving DecidableEq

namespace CreateOptions

def defaultEncoding : String := "UTF-8"

def standard : CreateOptions := ⟨[], [], 0, defaultEncoding, .mixed, none⟩

end CreateOptions

inductive Payload where
  | text (s : String)
  | node (xml : String)
  | binary (bytes : List UInt8)
  | file (path : String)
  | json (value : Json)
  /-- A payload with a serializer of its own, which answers bytes or a chain of causes. -/
  | custom (format : Format) (serialized : Except (List String) (List UInt8))

inductive Body where
  | bytes (data : List UInt8)
  | file (path : String) (size : Nat)
deriving DecidableEq

def Body.size : Body → Nat
  | .bytes data => data.length
  | .file _ size => size

structure Content where
  uri : Uri
  body : Body
  format : Format
  options : CreateOptions
  source : Option Source
deriving DecidableEq

inductive ContentError where
  | unreadable (path : String)
  | unserializable (uri : Uri) (causes : List String)
deriving DecidableEq

def ContentError.message : ContentError → String
  | .unreadable path => s!"failed to read {path}"
  | .unserializable uri causes =>
    s!"cannot create content for {uri.text}: " ++ String.intercalate ": " causes

namespace Content

def provenance (c : Content) : String :=
  match c.source with
  | some source => (SourcedUri.mk c.uri source).describe
  | none => c.uri.text

def create (files : FileStore) (options : CreateOptions) (source : Option Source) (uri : Uri)
    (payload : Payload) : Except ContentError Content := do
  let (body, natural) ← match payload with
    | .text s => .ok (Body.bytes s.toUTF8.toList, Format.text)
    | .node xml => .ok (.bytes xml.toUTF8.toList, .xml)
    | .binary data => .ok (.bytes data, .binary)
    | .json value => .ok (.bytes value.canonical.print.toUTF8.toList, .json)
    | .file path =>
      match files.size? path with
      | some size => .ok (.file path size, Format.ofPath path)
      | none => .error (.unreadable path)
    | .custom format serialized =>
      match serialized with
      | .ok data => .ok (.bytes data, format)
      | .error causes => .error (.unserializable uri causes)
  .ok ⟨uri, body, options.format.forced natural, options, source⟩

end Content

end ForestCourier
