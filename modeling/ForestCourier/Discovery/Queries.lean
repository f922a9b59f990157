import ForestCourier.Session.Basic

/-!
The queries that are put to a server, with the names of the functions that it may or may not have.
-/

namespace ForestCourier.Discovery

def assignmentPolicyFunction : String := "hadoop:get-assignment-policy"

def forestHostInfoFunction : String := "hadoop:get-forest-host-info"

def replicaHostsFunction : String := "hadoop:get-forest-replica-hosts"

def redactionMarker : String := "REDACT"

def replicaMarker : String := "REPLICA"

namespace Queries

def version : String := "xquery version \"1.0-ml\";\n"

def hadoopModule : String :=
  "import module namespace hadoop = \"http://marklogic.com/xdmp/hadoop\" at " ++
    "\"/MarkLogic/hadoop.xqy\";\n"

/-- Answers one boolean per name in `$functions`, in order. -/
def functionProbe : String :=
  version ++ "declare variable $functions as xs:string external;\n" ++
    "for $f in fn:tokenize($functions, \",\")\n" ++ "return fn:function-available($f)"

def assignmentPolicy : String := version ++ hadoopModule ++ "hadoop:get-assignment-policy()"

/-- Answers forest, host, updatable flag and document count for each forest. -/
def forestHostInfo : String := version ++ hadoopModule ++ "hadoop:get-forest-host-info()"

def legacyForestHost : String :=
  version ++ "for $f in xdmp:database-forests(xdmp:database())\n" ++
    "return ($f, xdmp:host-name(xdmp:forest-host($f)))"

/-- Answers for each forest its id, the number of its replicas, and forest and host of each. -/
def replicaHosts : String := version ++ hadoopModule ++ "hadoop:get-forest-replica-hosts()"

/-- Answers the same as `replicaHosts`, read off the status of the forests. -/
def legacyReplica : String :=
  version ++ "declare namespace fs = \"http://marklogic.com/xdmp/status/forest\";\n" ++
    "for $f in xdmp:database-forests(xdmp:database())\n" ++
    "let $status := xdmp:forest-status($f)\n" ++
    "let $replicas := ($f, $status/fs:replica-forests/fs:replica-forest/fs:replica-forest-id" ++
    " ! xs:unsignedLong(.))\n" ++
    "return ($f, fn:count($replicas),\n" ++
    "  for $r in $replicas return ($r, xdmp:host-name(xdmp:forest-host($r))))"

def directoryCreation : String :=
  version ++
    "import module namespace admin = \"http://marklogic.com/xdmp/admin\" at " ++
    "\"/MarkLogic/admin.xqy\";\n" ++
    "admin:database-get-directory-creation(admin:get-configuration(), xdmp:database())"

def partitionForests : String :=
  version ++ hadoopModule ++ "declare variable $partition as xs:string external;\n" ++
    "hadoop:get-partition-forests($partition)"

/-- Answers the redaction rules behind `$redaction-rules`, if there are any, with their marker; then
forest, record count and host for each forest; then, behind their marker, groups of replicas. -/
def splits : String :=
  version ++ hadoopModule ++ "declare variable $redaction-rules as xs:string external;\n" ++
    "hadoop:get-splits(fn:tokenize($redaction-rules, \",\"))"

end Queries

end ForestCourier.Discovery
