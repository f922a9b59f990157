import ForestCourier.Document.Content
import ForestCourier.Fault
import ForestCourier.Placement.Kind
import ForestCourier.Request.Error
import ForestCourier.Text.Printable
import ForestCourier.Text.Value

/-!
What a job or task is told when it fails. Each constructor is a cause; the wording is in the
`message` functions alone.
-/

namespace ForestCourier

inductive ValueError where
  | numeral (cause : Text.NumeralError)
  | notBool
  | placement (cause : PlacementError)
  | unknownFormat (name : String)
  | unknownMode (name : String)
  | unknownCapability (name : String)
  | unknownDirectoryCreation (name : String)
deriving DecidableEq

def ValueError.message : ValueError → String
  | .numeral cause => cause.message
  | .notBool => "provided string was not `true` or `false`"
  | .placement cause => cause.message
  | .unknownFormat name => s!"unknown document format `{name}`"
  | .unknownMode name => s!"unknown execution mode `{name}`"
  | .unknownCapability name => s!"unknown capability `{name}`"
  | .unknownDirectoryCreation name => s!"unknown directory creation mode `{name}`"

inductive ConfigError where
  | missing (key : String)
  | notPositive (key : String)
  | unparsable (key value : String) (cause : ValueError)
  | unpaired (key : String)
  | badEntry (cause : ValueError)
  | noOutputHosts
  | unchecked
deriving DecidableEq

def ConfigError.message : ConfigError → String
  | .missing key => s!"{key} is required"
  | .notPositive key => s!"{key} must be positive"
  | .unparsable key value cause => s!"{key}={value}: {cause.message}"
  | .unpaired key => s!"{key} expects role,capability pairs"
  | .badEntry cause => cause.message
  | .noOutputHosts => "no output hosts"
  | .unchecked => "output specs have not been checked"

/-- How an answer breaks the form that both sides agreed on. -/
inductive ProtocolError where
  | ended (what : String)
  | mismatch (what : String) (position : Nat) (found : String)
  | negativeForest (id : Int)
  | badCount (what : String) (count : Int)
  | tooManyReplicas (forest : ForestId) (announced left : Nat)
  | unknownForest (id : ForestId)
  | unknownPolicy (name : String)
  | badValue (cause : ValueError)
  | notDocument (found : String)
deriving DecidableEq

def ProtocolError.message : ProtocolError → String
  | .ended what => s!"stream ended where {what} was expected"
  | .mismatch what position found => s!"expected {what} at item {position}, found {found}"
  | .negativeForest id => s!"negative forest id {id}"
  | .badCount what count => s!"invalid {what} {count}"
  | .tooManyReplicas forest announced left =>
    s!"forest {forest.text} announces {announced} replicas, {left} items left"
  | .unknownForest id => s!"replicas for unknown forest {id.text}"
  | .unknownPolicy name => s!"unknown assignment policy `{name}`"
  | .badValue cause => cause.message
  | .notDocument found => s!"expected document, found {found}"

inductive Operation where
  | batchWrite
  | splitRead
deriving DecidableEq

def Operation.name : Operation → String
  | .batchWrite => "batch write"
  | .splitRead => "split read"

inductive TransferError where
  | config (cause : ConfigError)
  | placement (cause : PlacementError)
  | noReachableHost (hosts : List String) (last : Option RequestError)
  | protocol (cause : ProtocolError)
  | retriesExhausted (operation : Operation) (attempts : Nat) (last : RequestError)
  | request (cause : RequestError)
  | content (cause : ContentError)
  | handover
  | closed
deriving DecidableEq

namespace TransferError

def message : TransferError → String
  | config cause => s!"invalid configuration: {cause.message}"
  | placement cause => cause.message
  | noReachableHost hosts _ => s!"none of the hosts {Text.quotedList hosts} could be reached"
  | protocol cause => s!"malformed result stream: {cause.message}"
  | retriesExhausted operation attempts _ => s!"{operation.name} failed after {attempts} attempts"
  | request _ => "request failed"
  | content cause => cause.message
  | handover => "malformed topology hand-off"
  | closed => "writer or reader is not open"

def source? : TransferError → Option RequestError
  | noReachableHost _ last => last
  | retriesExhausted _ _ last => some last
  | request cause => some cause
  | _ => none

end TransferError

end ForestCourier
