import ForestCourier.Config.Input
import ForestCourier.Exchange.Document

/-!
The JSON form of accepted configurations, which are read back as they were written.
-/

namespace ForestCourier.Config

namespace Output

def toJson (c : Output) : Json :=
  .ofMembers [("hosts", .ofList .ofText c.hosts), ("port", .ofNat c.port.toNat),
    ("fast_load", .ofOption .bool c.fastLoad),
    ("policy", .ofOption (fun k => .ofText k.name) c.policy),
    ("batch_size", .ofNat c.batchSize.toNat), ("txn_size", .ofNat c.transactionSize.toNat),
    ("content", c.content.toJson), ("uri_prefix", .ofText c.uriPrefix),
    ("uri_suffix", .ofText c.uriSuffix), ("partition", .ofOption .ofText c.partition),
    ("restrict_hosts", .bool c.restrictHosts), ("mode", .ofText c.mode.name)]

def ofJson? (j : Json) : Option Output := do
  match ← j.fields [⟨"hosts", .required⟩, ⟨"port", .required⟩, ⟨"fast_load", .optional⟩,
      ⟨"policy", .optional⟩, ⟨"batch_size", .required⟩, ⟨"txn_size", .required⟩,
      ⟨"content", .required⟩, ⟨"uri_prefix", .required⟩, ⟨"uri_suffix", .required⟩,
      ⟨"partition", .optional⟩, ⟨"restrict_hosts", .required⟩, ⟨"mode", .required⟩] with
  | [some hosts, some port, some fastLoad, some policy, some batchSize, some transactionSize,
      some content, some uriPrefix, some uriSuffix, some partition, some restrictHosts,
      some mode] =>
    some {
      hosts := ← hosts.list? Json.text?
      port := ← port.word16?
      fastLoad := ← fastLoad.nullable? Json.bool?
      policy := ← policy.nullable? (Json.name? Placement.Kind.names)
      batchSize := ← batchSize.word?
      transactionSize := ← transactionSize.word?
      content := ← CreateOptions.ofJson? content
      uriPrefix := ← uriPrefix.text?
      uriSuffix := ← uriSuffix.text?
      partition := ← partition.nullable? Json.text?
      restrictHosts := ← restrictHosts.bool?
      mode := ← mode.name? Mode.names }
  | _ => none

theorem ofJson?_toJson (c : Config.Output) :
    ofJson? c.toJson = some c := by
  have hfast : (Json.ofOption .bool c.fastLoad).nullable? Json.bool? = some c.fastLoad := by
    cases c.fastLoad <;> rfl
  simp [ofJson?, toJson, Json.fields, Json.ofMembers, Json.memberOf,
    Json.text?_ofText, Json.word16?_ofNat, Json.bool?, Json.word?_ofNat,
    CreateOptions.ofJson?_toJson, hfast, Json.name?_ofText c.mode.lookup_name,
    Json.list?_ofList Json.text?_ofText,
    Json.nullable?_ofOption Json.text?_ofText (fun _ h => Json.noConfusion h),
    Json.nullable?_ofOption (fun k => Json.name?_ofText (Placement.Kind.lookup_name k))
      (fun _ h => Json.noConfusion h)]

end Output

namespace Input

def toJson (c : Input) : Json :=
  .ofMembers [("hosts", .ofList .ofText c.hosts), ("port", .ofNat c.port.toNat),
    ("max_split_size", .ofNat c.maxSplitSize.toNat), ("restrict_hosts", .bool c.restrictHosts),
    ("query", .ofText c.query), ("redaction_rules", .ofList .ofText c.redactionRules),
    ("mode", .ofText c.mode.name)]

def ofJson? (j : Json) : Option Input := do
  match ← j.fields [⟨"hosts", .required⟩, ⟨"port", .required⟩, ⟨"max_split_size", .required⟩,
      ⟨"restrict_hosts", .required⟩, ⟨"query", .required⟩, ⟨"redaction_rules", .required⟩,
      ⟨"mode", .required⟩] with
  | [some hosts, some port, some maxSplitSize, some restrictHosts, some query, some rules,
      some mode] =>
    some {
      hosts := ← hosts.list? Json.text?
      port := ← port.word16?
      maxSplitSize := ← maxSplitSize.word?
      restrictHosts := ← restrictHosts.bool?
      query := ← query.text?
      redactionRules := ← rules.list? Json.text?
      mode := ← mode.name? Mode.names }
  | _ => none

theorem ofJson?_toJson (c : Config.Input) :
    ofJson? c.toJson = some c := by
  simp [ofJson?, toJson, Json.fields, Json.ofMembers, Json.memberOf,
    Json.text?_ofText, Json.word16?_ofNat, Json.bool?, Json.word?_ofNat,
    Json.name?_ofText c.mode.lookup_name, Json.list?_ofList Json.text?_ofText]

end Input

end ForestCourier.Config
