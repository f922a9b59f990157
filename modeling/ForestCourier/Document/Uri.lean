/-!
Document URIs, and URIs that remember where in an import their document came from. A document is
its URI: provenance plays no part in equality or order, it only shows in reports.
-/

namespace ForestCourier

structure Uri where
  text : String
deriving DecidableEq

namespace Uri

instance : Ord Uri := ⟨fun u v => compare u.text v.text⟩

def isEmpty (u : Uri) : Bool := u.text.isEmpty

def wrap (front behind : String) (u : Uri) : Uri := ⟨front ++ u.text ++ behind⟩

end Uri

structure Source where
  name : String
  line : UInt64
  column : UInt64
deriving DecidableEq

structure SourcedUri where
  uri : Uri
  source : Source

namespace SourcedUri

instance : BEq SourcedUri := ⟨fun a b => a.uri == b.uri⟩

instance : Ord SourcedUri := ⟨fun a b => compare a.uri b.uri⟩

/-- The URI, followed by its place unless the source has no name. -/
def describe (s : SourcedUri) : String :=
  if s.source.name = "" then s.uri.text
  else s!"{s.uri.text} ({s.source.name} line {s.source.line}, column {s.source.column})"

end SourcedUri

end ForestCourier
