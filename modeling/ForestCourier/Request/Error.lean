/-!
Failed requests. A failure is classified once, when it is first seen: a lost connection and most
server errors pass with time, some mean that the request is wrong, and a security error ends the job.
-/

namespace ForestCourier

inductive ErrorClass where
  | retryable
  | permanent
  | fatal
deriving DecidableEq

namespace ErrorClass

def name : ErrorClass → String
  | retryable => "retryable"
  | permanent => "permanent"
  | fatal => "fatal"

def isRetryable (c : ErrorClass) : Bool := c = .retryable

/-- Codes of requests that are malformed rather than unlucky. -/
def permanentCodes : List String :=
  ["XDMP-UNEXPECTED", "XDMP-BADCHAR", "XDMP-UNDFUN", "XDMP-MODNOTFOUND", "XDMP-NOSUCHDB",
    "XDMP-DOCROOTTEXT", "XDMP-AS", "XDMP-ARGTYPE"]

def ofCode (code : String) : ErrorClass :=
  if "SEC-".toList.isPrefixOf code.toList then fatal
  else if permanentCodes.contains code then permanent
  else retryable

end ErrorClass

structure RequestError where
  severity : ErrorClass
  code : Option String
  message : String
deriving DecidableEq

namespace RequestError

def connection (message : String) : RequestError := ⟨.retryable, none, message⟩

def server (code message : String) : RequestError := ⟨.ofCode code, some code, message⟩

/-- A failure on this side that a second try cannot mend. -/
def permanent (message : String) : RequestError := ⟨.permanent, none, message⟩

def isRetryable (e : RequestError) : Bool := e.severity.isRetryable

def describe (e : RequestError) : String :=
  match e.code with
  | some code => s!"{code}: {e.message}"
  | none => e.message

end RequestError

end ForestCourier
