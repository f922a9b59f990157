import ForestCourier.Config.Output
import ForestCourier.Discovery.Answers
import ForestCourier.Session.Failover

/-!
Discovery of the layout of a database, through one session on the first output host that accepts it.
Servers differ in the functions they have, so the first question is for those, and an older query
stands in for each one that is missing.
-/

namespace ForestCourier.Discovery

variable {σ : Type}

abbrev Talk (σ : Type) := ExceptT TransferError (StateM (Wire σ))

def ask (srv : Server σ) (session : Session) (query : Query) : Talk σ (List Item) := fun w =>
  match w.submit srv session query with
  | (.ok items, w) => (.ok items, w)
  | (.error e, w) => (.error (.request e), w)

def note (n : Notice) : Talk σ Unit := fun w => (.ok (), w.note n)

def decoded {α : Type} (r : Except ProtocolError α) : Talk σ α := fun w =>
  (r.mapError .protocol, w)

def probe (srv : Server σ) (session : Session) : Talk σ Capabilities := do
  let names := [assignmentPolicyFunction, forestHostInfoFunction, replicaHostsFunction]
  let items ← ask srv session
    ⟨Queries.functionProbe, [("functions", String.intercalate "," names)]⟩
  decoded (readCapabilities items)

/-- A server that has no policies places by key, whatever the configuration asks for. -/
def findPolicy (srv : Server σ) (session : Session) (config : Config.Output)
    (caps : Capabilities) : Talk σ Placement.Kind := do
  if caps.assignmentPolicy then
    let kind ← decoded (readPolicy (← ask srv session ⟨Queries.assignmentPolicy, []⟩))
    return config.policy.getD kind
  else
    match config.policy with
    | some kind => if kind ≠ .legacy then note (.policyIgnored kind)
    | none => pure ()
    return .legacy

def findForests (srv : Server σ) (session : Session) (caps : Capabilities) :
    Talk σ (List Forest) := do
  let forests ←
    if caps.forestHostInfo then
      decoded (readForests (← ask srv session ⟨Queries.forestHostInfo, []⟩))
    else
      decoded (readLegacyForests (← ask srv session ⟨Queries.legacyForestHost, []⟩))
  let query := if caps.replicaHosts then Queries.replicaHosts else Queries.legacyReplica
  let groups ← decoded (readReplicaGroups (← ask srv session ⟨query, []⟩))
  decoded (attachReplicas forests groups)

/-- Documents go straight to their forests only if every host may be talked to and the server makes
no directories; then it is up to the configuration, which has to forbid it. -/
def allowsFastLoad (config : Config.Output) (directories : DirectoryCreation) : Bool :=
  !config.restrictHosts && directories ≠ .automatic && config.fastLoad.getD true

def resolveFastLoad (config : Config.Output) (directories : DirectoryCreation) : Talk σ Bool := do
  if config.fastLoad = some true then
    if config.restrictHosts then note .fastLoadRestricted
    else if directories = .automatic then note .fastLoadDirectories
  return allowsFastLoad config directories

def survey (srv : Server σ) (session : Session) (config : Config.Output) : Talk σ Layout := do
  let caps ← probe srv session
  let policy ← findPolicy srv session config caps
  let forests ← findForests srv session caps
  let directories ← decoded
    (readDirectoryCreation (← ask srv session ⟨Queries.directoryCreation, []⟩))
  let fastLoad ← resolveFastLoad config directories
  let topology : Topology := ⟨forests⟩
  return {
    policy := policy
    forests := if config.restrictHosts then topology.restrict config.hosts else topology
    fastLoad := fastLoad
    directoryCreation := directories }

def discover (srv : Server σ) (config : Config.Output) (w : Wire σ) :
    Except TransferError Layout × Wire σ :=
  match Failover.openFirst srv config.hosts config.port .auto w with
  | (.error e, w) => (.error e, w)
  | (.ok session, w) =>
    match survey srv session config w with
    | (result, w) => (result, w.close srv session)

def partitionForests (srv : Server σ) (session : Session) (partition : String) :
    Talk σ (List ForestId) := do
  let items ← ask srv session ⟨Queries.partitionForests, [("partition", partition)]⟩
  decoded (readForestIds items)

end ForestCourier.Discovery
