import ForestCourier.Config.Options

/-!
Settings of the side that writes. An accepted configuration names a host and has positive sizes;
where no transaction size is given, a transaction spans as many batches as make a thousand documents.
-/

namespace ForestCourier.Config

def permissionsOf : List String → Except TransferError (List Permission)
  | [] => .ok []
  | [_] => .error (.config (.unpaired Key.outputPermission))
  | role :: name :: rest => do
    let capability ← (Value.capability name).mapError fun cause => .config (.badEntry cause)
    let permissions ← permissionsOf rest
    .ok (⟨role, capability⟩ :: permissions)

/-- An odd number of entries is reported before anything that is wrong with one of them. -/
def permissions (values : List String) : Except TransferError (List Permission) :=
  if values.length % 2 = 0 then permissionsOf values
  else .error (.config (.unpaired Key.outputPermission))

structure Output where
  hosts : List String
  port : UInt16
  fastLoad : Option Bool
  policy : Option Placement.Kind
  batchSize : UInt64
  transactionSize : UInt64
  content : CreateOptions
  uriPrefix : String
  uriSuffix : String
  partition : Option String
  restrictHosts : Bool
  mode : Mode
deriving DecidableEq

namespace Output

def requireHosts (o : Options) (key : String) : Except TransferError (List String) :=
  let hosts := o.list key
  if hosts.isEmpty then .error (.config (.missing key)) else .ok hosts

def positive (o : Options) (key : String) (standard : UInt64) : Except TransferError UInt64 := do
  let size := (← o.parsed? Value.word key).getD standard
  if size = 0 then .error (.config (.notPositive key)) else .ok size

def defaultTransactionSize (batchSize : UInt64) : UInt64 :=
  max 1 (defaultTransactionDocuments / batchSize)

def createOptions (o : Options) : Except TransferError CreateOptions := do
  let granted ← permissions (o.list Key.outputPermission)
  let quality ← o.parsed? Value.int32 Key.outputQuality
  let format ← o.parsed? Value.format Key.outputContentType
  .ok {
    permissions := granted
    collections := o.list Key.outputCollection
    quality := quality.getD 0
    encoding := (o.get? Key.outputEncoding).getD CreateOptions.defaultEncoding
    format := format.getD .mixed
    temporalCollection := o.get? Key.outputTemporalCollection }

def policyOf (o : Options) : Except TransferError (Option Placement.Kind) :=
  match o.get? Key.assignmentPolicy with
  | none => .ok none
  | some name => ((Placement.Kind.parse name).map some).mapError .placement

def ofOptions (o : Options) : Except TransferError Output := do
  let hosts ← requireHosts o Key.outputHost
  let batchSize ← positive o Key.batchSize defaultBatchSize
  let transactionSize ← positive o Key.transactionSize (defaultTransactionSize batchSize)
  let policy ← policyOf o
  let content ← createOptions o
  let port ← o.parsed? Value.word16 Key.outputPort
  let fastLoad ← o.parsed? Value.bool Key.outputFastLoad
  let restrictHosts ← o.parsed? Value.bool Key.outputRestrictHosts
  let mode ← o.parsed? Value.mode Key.mode
  .ok {
    hosts := hosts
    port := port.getD defaultPort
    fastLoad := fastLoad
    policy := policy
    batchSize := batchSize
    transactionSize := transactionSize
    content := content
    uriPrefix := (o.get? Key.outputUriPrefix).getD ""
    uriSuffix := (o.get? Key.outputUriSuffix).getD ""
    partition := o.get? Key.outputPartition
    restrictHosts := restrictHosts.getD false
    mode := mode.getD .inProcess }

/-- Only a job of one document a transaction commits on its own. -/
def usesTransactions (c : Output) : Bool := 1 < c.batchSize || 1 < c.transactionSize

end Output

end ForestCourier.Config
