import ForestCourier.Config.Output

/-!
Settings of the side that reads.
-/

namespace ForestCourier.Config

structure Input where
  hosts : List String
  port : UInt16
  maxSplitSize : UInt64
  restrictHosts : Bool
  query : String
  redactionRules : List String
  mode : Mode
deriving DecidableEq

namespace Input

def ofOptions (o : Options) : Except TransferError Input := do
  let hosts ← Output.requireHosts o Key.inputHost
  let maxSplitSize ← Output.positive o Key.inputMaxSplitSize defaultMaxSplitSize
  let port ← o.parsed? Value.word16 Key.inputPort
  let restrictHosts ← o.parsed? Value.bool Key.inputRestrictHosts
  let mode ← o.parsed? Value.mode Key.mode
  .ok {
    hosts := hosts
    port := port.getD defaultPort
    maxSplitSize := maxSplitSize
    restrictHosts := restrictHosts.getD false
    query := (o.get? Key.inputQuery).getD defaultInputQuery
    redactionRules := o.list Key.inputRedactionRules
    mode := mode.getD .inProcess }

end Input

end ForestCourier.Config
