import ForestCourier.Exchange.Config
import ForestCourier.Exchange.Forest
import ForestCourier.Exchange.Text
import ForestCourier.Proofs.Json.ReadBack

/-!
Values go through their texts unchanged. A record is read back from its JSON form, and its JSON form
from the text, because every part of the form is plain: a string with a text of its own, or a whole
number of at most 64 bits. So each type that job setup and tasks exchange needs two facts, that its
form is plain and that its reader takes back what its writer gives. The texts are read elsewhere, too:
a record has its members in one order, under names of their own, and so have the values of each
enumeration.
-/

namespace ForestCourier

theorem Json.membersText_eq (members : List (Option String × Json)) :
    membersText members = [','].intercalate (members.map fun m => optionalText m.1 ++ ':' :: text m.2) := by
  induction members with
  | nil => rfl
  | cons m members ih =>
    cases members with
    | nil => simp [membersText]
    | cons next members =>
      rw [membersText, ih]
      simp

namespace Exchange

variable {α : Type} {toJson : α → Json} {ofJson? : Json → Option α}

/-- Every value is read back from the text that it is written as. -/
def Faithful (toJson : α → Json) (ofJson? : Json → Option α) : Prop :=
  ∀ a, read? ofJson? (write toJson a) = some a

theorem faithful (plain : ∀ a, (toJson a).Plain) (back : ∀ a, ofJson? (toJson a) = some a) :
    Faithful toJson ofJson? := by
  intro a
  rw [read?, write, (plain a).parse_print, Option.bind_some, back]

/-- Every value is written as a record with members of these names, in this order. -/
def Written (toJson : α → Json) (names : List String) : Prop :=
  ∀ a, ∃ members : List (String × Json), members.map (·.1) = names ∧
    write toJson a = String.ofList
      ('\x7b' :: [','].intercalate (members.map fun m => Json.stringText m.1 ++ ':' :: m.2.text) ++ ['\x7d'])

theorem written {names : List String} {members : α → List (String × Json)} (h : ∀ a, toJson a = .ofMembers (members a))
    (hnames : ∀ a, (members a).map (·.1) = names) : Written toJson names := by
  intro a
  refine ⟨members a, hnames a, ?_⟩
  rw [write, h, Json.print, Json.ofMembers, Json.text, Json.membersText_eq, List.map_map]
  rfl

end Exchange

/-! Forests and what they stand in. -/

theorem Replica.plain_toJson (r : Replica) : r.toJson.Plain :=
  .ofMembers (by simp [ForestId.toJson, Json.Plain.ofText])

theorem Forest.plain_toJson (f : Forest) : f.toJson.Plain := by
  have hcount := Json.Plain.ofNat f.documents.toNat_lt_size
  have hreplicas := Json.Plain.ofList Replica.plain_toJson f.replicas
  exact .ofMembers (by simp [ForestId.toJson, Json.Plain.ofText, Json.Plain.bool, hcount, hreplicas])

theorem Topology.plain_toJson (t : Topology) : t.toJson.Plain :=
  .ofMembers (by simp [Json.Plain.ofList Forest.plain_toJson t.forests])

theorem Discovery.Layout.plain_toJson (l : Layout) : l.toJson.Plain :=
  .ofMembers (by simp [Json.Plain.ofText, Json.Plain.bool, l.forests.plain_toJson])

theorem Discovery.Layout.read?_write (l : Layout) :
    Exchange.read? ofJson? (Exchange.write toJson l) = some l :=
  Exchange.faithful plain_toJson ofJson?_toJson l

theorem Split.plain_toJson (s : Split) : s.toJson.Plain := by
  have hstart := Json.Plain.ofNat s.start.toNat_lt_size
  have hstop := Json.Plain.ofOption (fun n : UInt64 => Json.Plain.ofNat n.toNat_lt_size) s.stop
  have hreplicas := Json.Plain.ofList Replica.plain_toJson s.replicas
  have hrules := Json.Plain.ofList Json.Plain.ofText s.redactionRules
  exact .ofMembers (by simp [ForestId.toJson, Json.Plain.ofText, Json.Plain.bool, hstart, hstop,
    hreplicas, hrules])

/-! Documents and how they are created. -/

theorem Uri.plain_toJson (u : Uri) : u.toJson.Plain :=
  .ofMembers (by simp [Json.Plain.ofText])

theorem Source.plain_toJson (s : Source) : s.toJson.Plain := by
  have hline := Json.Plain.ofNat s.line.toNat_lt_size
  have hcolumn := Json.Plain.ofNat s.column.toNat_lt_size
  exact .ofMembers (by simp [Json.Plain.ofText, hline, hcolumn])

theorem SourcedUri.plain_toJson (s : SourcedUri) : s.toJson.Plain :=
  .ofMembers (by simp [s.uri.plain_toJson, s.source.plain_toJson])

theorem Permission.plain_toJson (p : Permission) : p.toJson.Plain :=
  .ofMembers (by simp [Json.Plain.ofText])

theorem CreateOptions.plain_toJson (c : CreateOptions) : c.toJson.Plain := by
  have hpermissions := Json.Plain.ofList Permission.plain_toJson c.permissions
  have hcollections := Json.Plain.ofList Json.Plain.ofText c.collections
  have hquality : (Json.int c.quality.toInt).Plain :=
    .int (Int.le_trans (by decide) c.quality.le_toInt) (Int.lt_trans c.quality.toInt_lt (by decide))
  have htemporal := Json.Plain.ofOption Json.Plain.ofText c.temporalCollection
  exact .ofMembers (by simp [Json.Plain.ofText, hpermissions, hcollections, hquality, htemporal])

/-! Configurations. -/

theorem Config.Output.plain_toJson (c : Config.Output) : c.toJson.Plain := by
  have hhosts := Json.Plain.ofList Json.Plain.ofText c.hosts
  have hport : (Json.ofNat c.port.toNat).Plain := .ofNat (Nat.lt_trans c.port.toNat_lt (by decide))
  have hfast := Json.Plain.ofOption Json.Plain.bool c.fastLoad
  have hpolicy := Json.Plain.ofOption (fun k : Placement.Kind => Json.Plain.ofText k.name) c.policy
  have hbatch := Json.Plain.ofNat c.batchSize.toNat_lt_size
  have htransaction := Json.Plain.ofNat c.transactionSize.toNat_lt_size
  have hpartition := Json.Plain.ofOption Json.Plain.ofText c.partition
  exact .ofMembers (by simp [Json.Plain.ofText, Json.Plain.bool, hhosts, hport, hfast, hpolicy, hbatch,
    htransaction, c.content.plain_toJson, hpartition])

theorem Config.Input.plain_toJson (c : Config.Input) : c.toJson.Plain := by
  have hhosts := Json.Plain.ofList Json.Plain.ofText c.hosts
  have hport : (Json.ofNat c.port.toNat).Plain := .ofNat (Nat.lt_trans c.port.toNat_lt (by decide))
  have hsize := Json.Plain.ofNat c.maxSplitSize.toNat_lt_size
  have hrules := Json.Plain.ofList Json.Plain.ofText c.redactionRules
  exact .ofMembers (by simp [Json.Plain.ofText, Json.Plain.bool, hhosts, hport, hsize, hrules])

/-- Whatever job setup and tasks hand to each other arrives as it was: forests and the layout of a
database, splits, configurations, the options of documents, their URIs and where they come from. -/
theorem exchanged_values_faithful :
    Exchange.Faithful Topology.toJson Topology.ofJson? ∧
    Exchange.Faithful Discovery.Layout.toJson Discovery.Layout.ofJson? ∧
    Exchange.Faithful Split.toJson Split.ofJson? ∧
    Exchange.Faithful Config.Output.toJson Config.Output.ofJson? ∧
    Exchange.Faithful Config.Input.toJson Config.Input.ofJson? ∧
    Exchange.Faithful CreateOptions.toJson CreateOptions.ofJson? ∧
    Exchange.Faithful Uri.toJson Uri.ofJson? ∧
    Exchange.Faithful SourcedUri.toJson SourcedUri.ofJson? :=
  ⟨Exchange.faithful Topology.plain_toJson Topology.ofJson?_toJson,
    Discovery.Layout.read?_write,
    Exchange.faithful Split.plain_toJson Split.ofJson?_toJson,
    Exchange.faithful Config.Output.plain_toJson Config.Output.ofJson?_toJson,
    Exchange.faithful Config.Input.plain_toJson Config.Input.ofJson?_toJson,
    Exchange.faithful CreateOptions.plain_toJson CreateOptions.ofJson?_toJson,
    Exchange.faithful Uri.plain_toJson Uri.ofJson?_toJson,
    Exchange.faithful SourcedUri.plain_toJson SourcedUri.ofJson?_toJson⟩

/-- The members of the records, as they stand in the texts. -/
theorem exchanged_members :
    Exchange.Written Topology.toJson ["forests"] ∧
    Exchange.Written Forest.toJson ["id", "host", "updatable", "replicas", "docCount"] ∧
    Exchange.Written Replica.toJson ["forestId", "host"] ∧
    Exchange.Written Discovery.Layout.toJson ["policy", "forests", "fast_load", "directory_creation"] ∧
    Exchange.Written Split.toJson
      ["forest_id", "host", "start", "end", "is_last_split", "replicas", "redaction_rules"] ∧
    Exchange.Written Config.Output.toJson
      ["hosts", "port", "fast_load", "policy", "batch_size", "txn_size", "content", "uri_prefix", "uri_suffix",
        "partition", "restrict_hosts", "mode"] ∧
    Exchange.Written Config.Input.toJson
      ["hosts", "port", "max_split_size", "restrict_hosts", "query", "redaction_rules", "mode"] ∧
    Exchange.Written CreateOptions.toJson
      ["permissions", "collections", "quality", "encoding", "format", "temporal_collection"] ∧
    Exchange.Written Permission.toJson ["role", "capability"] ∧
    Exchange.Written Uri.toJson ["uri"] ∧
    Exchange.Written SourcedUri.toJson ["uri", "source"] ∧
    Exchange.Written Source.toJson ["src_id", "line", "column"] := by
  refine ⟨?_, ?_, ?_, ?_, ?_, ?_, ?_, ?_, ?_, ?_, ?_, ?_⟩ <;>
    exact Exchange.written (fun _ => rfl) fun _ => rfl

/-- The texts of the enumerations, which are strings in the records. -/
theorem exchanged_names :
    (∀ kind : Placement.Kind, (kind, kind.name) ∈ [(.legacy, "legacy"), (.bucket, "bucket"), (.range, "range"),
      (.query, "query"), (.statistical, "statistical"), (.segment, "segment")]) ∧
    (∀ creation : Discovery.DirectoryCreation, (creation, creation.name) ∈
      [(.manual, "manual"), (.manualEnforced, "manual-enforced"), (.automatic, "automatic")]) ∧
    (∀ format : Format, (format, format.name) ∈
      [(.xml, "xml"), (.json, "json"), (.text, "text"), (.binary, "binary"), (.mixed, "mixed")]) ∧
    (∀ capability : Capability, (capability, capability.name) ∈ [(.read, "read"), (.insert, "insert"),
      (.update, "update"), (.nodeUpdate, "node-update"), (.execute, "execute")]) ∧
    ∀ mode : Config.Mode, (mode, mode.name) ∈ [(.inProcess, "local"), (.distributed, "distributed")] := by
  refine ⟨fun kind => ?_, fun creation => ?_, fun format => ?_, fun capability => ?_, fun mode => ?_⟩
  · cases kind <;> decide
  · cases creation <;> decide
  · cases format <;> decide
  · cases capability <;> decide
  · cases mode <;> decide

example : Exchange.write Permission.toJson ⟨"a\"b\n", .nodeUpdate⟩ =
    "\x7b\"role\":\"a\\\"b\\n\",\"capability\":\"node-update\"\x7d" := by
  decide +kernel

end ForestCourier
