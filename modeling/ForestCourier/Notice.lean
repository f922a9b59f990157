import ForestCourier.Error
import ForestCourier.Retry.Backoff

/-!
What a transfer reports besides its results: each notice is an event, and its level, message and
fields are read off it.
-/

namespace ForestCourier

inductive Level where
  | warn
  | error
deriving DecidableEq

def Level.name : Level → String
  | .warn => "warn"
  | .error => "error"

inductive Notice where
  | hostUnreachable (host : String) (error : RequestError)
  | queryFailed (host : String) (error : RequestError)
  | policyIgnored (requested : Placement.Kind)
  | fastLoadRestricted
  | fastLoadDirectories
  | documentSkipped (source : Option Source) (error : ContentError)
  | batchRetried (forest host nextHost : String) (attempt : Nat) (backoff : Duration)
      (error : RequestError)
  | documentRejected (document : String) (code : Option String) (message : String)
  | batchLost (forest : String) (attempts : Nat) (documents : List String) (error : RequestError)
  | readFailed (forest : String) (error : RequestError)
  | readStranded (forest : String) (error : RequestError)
  | readExhausted (forest : String) (attempts : Nat) (error : RequestError)
  | readRetried (forest replica host : String) (attempt : Nat) (backoff : Duration) (resumeAt : Nat)
      (error : RequestError)
deriving DecidableEq

namespace Notice

def level : Notice → Level
  | hostUnreachable .. | queryFailed .. | policyIgnored .. | fastLoadRestricted
  | fastLoadDirectories | batchRetried .. | readRetried .. => .warn
  | documentSkipped .. | documentRejected .. | batchLost .. | readFailed .. | readStranded ..
  | readExhausted .. => .error

def message : Notice → String
  | hostUnreachable .. => "host unreachable, trying next"
  | queryFailed .. => "query failed, trying next host"
  | policyIgnored .. => "server predates assignment policies, using legacy"
  | fastLoadRestricted => "fastload disabled: restrict hosts is on"
  | fastLoadDirectories => "fastload disabled: directory creation is automatic"
  | documentSkipped .. => "skipping document"
  | batchRetried .. => "batch request failed, retrying"
  | documentRejected .. => "document rejected"
  | batchLost .. => "batch permanently failed"
  | readFailed .. => "split read failed"
  | readStranded .. => "split read failed, no replica to fail over to"
  | readExhausted .. => "split read retries exhausted"
  | readRetried .. => "split read failed, failing over"

def fields : Notice → List (String × String)
  | hostUnreachable host error | queryFailed host error =>
    [("host", host), ("error", error.describe)]
  | policyIgnored requested => [("requested", s!"Some({requested.title})")]
  | fastLoadRestricted | fastLoadDirectories => []
  | documentSkipped none error => [("error", error.message)]
  | documentSkipped (some source) error =>
    [("source", source.name), ("line", toString source.line), ("column", toString source.column),
      ("error", error.message)]
  | batchRetried forest host nextHost attempt backoff error =>
    [("forest", forest), ("host", host), ("next_host", nextHost), ("attempt", toString attempt),
      ("backoff_ms", toString backoff.millis), ("error", error.describe)]
  | documentRejected document code message =>
    [("document", document), ("code", code.getD ""), ("error", message)]
  | batchLost forest attempts documents error =>
    [("forest", forest), ("attempts", toString attempts), ("lost", toString documents.length),
      ("documents", Text.quotedList documents), ("error", error.describe)]
  | readFailed forest error | readStranded forest error =>
    [("forest", forest), ("error", error.describe)]
  | readExhausted forest attempts error =>
    [("forest", forest), ("attempts", toString attempts), ("error", error.describe)]
  | readRetried forest replica host attempt backoff resumeAt error =>
    [("forest", forest), ("replica", replica), ("host", host), ("attempt", toString attempt),
      ("backoff_ms", toString backoff.millis), ("resume_at", toString resumeAt),
      ("error", error.describe)]

end Notice

end ForestCourier
