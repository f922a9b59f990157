import ForestCourier.Cluster.Basic
import ForestCourier.Job.Output
import ForestCourier.Proofs.Config.Settings
import ForestCourier.Proofs.Exchange.RoundTrip

/-!
A distributed task is set up like the job that it belongs to. The layout that job setup found is
handed over as a text among the options: the text is read back as the same layout, with the positions
of its forests entered anew by their ids, and no other setting changes. So the manager that a task
builds answers whatever it is asked as a new manager of the job itself would.
-/

namespace ForestCourier

namespace Config

theorem Options.get?_set (o : Options) (key value k : String) :
    (o.set key value).get? k =
      if k = key then (if Text.trim value = "" then none else some (Text.trim value))
      else o.get? k := by
  unfold get?
  rw [raw?_set]
  by_cases h : k = key <;> simp [h]

/-- The layout has a key of its own, from which no setting is read. -/
theorem Output.ofOptions_set_topology (o : Options) (value : String) :
    ofOptions (o.set Key.outputTopology value) = ofOptions o := by
  have hget : ∀ k, k ≠ Key.outputTopology → (o.set Key.outputTopology value).get? k = o.get? k := by
    intro k hk
    rw [Options.get?_set, if_neg hk]
  have hlists : ∀ k ∈ Options.lists, k ≠ Key.outputTopology := by decide
  refine ofOptions_congr ⟨fun k _ hk => hget k hk, fun k hk => ?_⟩
  rw [Options.list, Options.list, hget k (hlists k hk)]

end Config

namespace Json

theorem print_eq_object (members : List (Option String × Json)) :
    (Json.object members).print.toList = '\x7b' :: (membersText members ++ ['\x7d']) := by
  simp [print, text]

/-- The braces of an object shield it from trimming. -/
theorem trim_print_object (members : List (Option String × Json)) :
    Text.trim (Json.object members).print = (Json.object members).print := by
  have hopen : Text.isBlank '\x7b' = false := by decide
  have hclose : Text.isBlank '\x7d' = false := by decide
  have h : Text.trimmed (Json.object members).print.toList = (Json.object members).print.toList := by
    simp [print_eq_object, Text.trimmed, hopen, hclose]
  rw [Text.trim, h, String.ofList_toList]

theorem print_object_ne_empty (members : List (Option String × Json)) :
    (Json.object members).print ≠ "" := by
  intro h
  have := congrArg String.toList h
  simp [print_eq_object] at this

end Json

namespace Topology

/-- The positions of forests by id, entered in turn; an id entered again belongs to the later. -/
def index (t : Topology) : ForestId → Option Nat :=
  t.forests.zipIdx.foldl (fun entered f id => if id = f.1.id then some f.2 else entered id)
    fun _ => none

theorem indexOf?_eq_index (t : Topology) : t.indexOf? = t.index := by
  have h : ∀ (fs : List Forest) (start : Nat) (entered : ForestId → Option Nat),
      (fs.zipIdx start).foldl (fun entered f id => if id = f.1.id then some f.2 else entered id)
          entered =
        fun id => ((lastIndex? (fun f => f.id == id) fs).map (start + ·)).or (entered id) := by
    intro fs
    induction fs with
    | nil => exact fun _ _ => rfl
    | cons f fs ih =>
      intro start entered
      rw [List.zipIdx_cons, List.foldl_cons, ih]
      funext id
      simp only [lastIndex?]
      cases hfs : lastIndex? (fun f => f.id == id) fs with
      | some i => simp [Nat.add_comm, Nat.add_left_comm]
      | none =>
        by_cases hid : id = f.id
        · simp [hid]
        · simp [hid, Ne.symm hid]
  funext id
  rw [index, h]
  simp [indexOf?]

end Topology

namespace Placement.Manager

inductive Request
  | place (uri : Uri) (partition : Option String)
  | rollback (i : Nat) (count : UInt64)
  | cachePartition (name : String) (ids : List ForestId)
  | forest (i : Nat)
  | index (id : ForestId)

inductive Answer
  | placed (i : Result Nat)
  | rolledBack
  | cached (kept : Except PlacementError (Option (List Nat)))
  | forest (found : Option Forest)
  | index (found : Option Nat)

def ask (m : Manager) : Request → Answer × Manager
  | .place uri partition => (.placed (m.place uri partition).1, (m.place uri partition).2)
  | .rollback i count => (.rolledBack, m.rollback i count)
  | .cachePartition name ids => (.cached (m.cachePartition name ids).1, (m.cachePartition name ids).2)
  | .forest i => (.forest (m.forest? i), m)
  | .index id => (.index (m.indexOf? id), m)

def answers (m : Manager) : List Request → List Answer
  | [] => []
  | r :: rs => (m.ask r).1 :: (m.ask r).2.answers rs

end Placement.Manager

namespace OutputJob

variable {σ τ : Type}

theorem handOver_eq {job : OutputJob σ} {layout : Discovery.Layout} (h : job.layout? = some layout)
    (options : Config.Options) :
    job.handOver options = .ok (options.set Config.Key.outputTopology
      (Exchange.write Discovery.Layout.toJson layout)) := by
  simp [handOver, h]

theorem handedOver?_set (options : Config.Options) (layout : Discovery.Layout) :
    handedOver? (options.set Config.Key.outputTopology
      (Exchange.write Discovery.Layout.toJson layout)) = .ok (some layout) := by
  have htrim : Text.trim (Exchange.write Discovery.Layout.toJson layout) =
      Exchange.write Discovery.Layout.toJson layout := Json.trim_print_object _
  have hne : Exchange.write Discovery.Layout.toJson layout ≠ "" := Json.print_object_ne_empty _
  simp [handedOver?, Config.Options.get?_set, htrim, hne, layout.read?_write]

theorem assignment_distributed (srv : Server τ) {handed : Config.Options} {config : Config.Output}
    {layout : Discovery.Layout} (hmode : config.mode = .distributed)
    (hlayout : handedOver? handed = .ok (some layout)) (remote : OutputJob τ) :
    remote.assignment srv handed config =
      match managerFor config layout with
      | .error e => (.error e, remote)
      | .ok own => (.ok (remote.managers.length, layout.fastLoad),
          { remote with managers := remote.managers ++ [own] }) := by
  simp only [assignment, hmode, hlayout]
  rfl

theorem handed_over_faithfully {job : OutputJob σ} {layout : Discovery.Layout}
    (h : job.layout? = some layout) (options : Config.Options) :
    ∃ handed received, job.handOver options = .ok handed ∧
      Config.Output.ofOptions handed = Config.Output.ofOptions options ∧
      handedOver? handed = .ok (some received) ∧ received = layout ∧
      received.forests.indexOf? = layout.forests.index ∧
      ∀ (srv : Server τ) (config : Config.Output) (remote : OutputJob τ),
        config.mode = .distributed →
        match managerFor config layout with
        | .error e => remote.assignment srv handed config = (.error e, remote)
        | .ok original => ∃ own,
            remote.assignment srv handed config =
              (.ok (remote.managers.length, layout.fastLoad),
                { remote with managers := remote.managers ++ [own] }) ∧
            ∀ requests, own.answers requests = original.answers requests := by
  refine ⟨_, layout, handOver_eq h options, Config.Output.ofOptions_set_topology options _,
    handedOver?_set options layout, rfl, layout.forests.indexOf?_eq_index, ?_⟩
  intro srv config remote hmode
  have hown := assignment_distributed srv hmode (handedOver?_set options layout) remote
  split at hown
  · exact hown
  · exact ⟨_, hown, fun _ => rfl⟩

namespace Sample

/-- Quotes, backslashes, controls and characters beyond sixteen bits, one id twice, and the largest
count there is. -/
def unusual : Discovery.Layout where
  policy := .bucket
  forests := ⟨[⟨⟨"é\"\n"⟩, "\\host", true, [⟨⟨"𝛼"⟩, "\t"⟩], 0xffffffffffffffff⟩,
    ⟨⟨"é\"\n"⟩, "", false, [], 0⟩, ⟨⟨"𝛼"⟩, "\x00", true, [], 7⟩]⟩
  fastLoad := true
  directoryCreation := .manualEnforced

def distributed : Config.Output where
  hosts := ["lb"]
  port := 8000
  fastLoad := none
  policy := none
  batchSize := 1
  transactionSize := 1
  content := .standard
  uriPrefix := ""
  uriSuffix := ""
  partition := none
  restrictHosts := false
  mode := .distributed

end Sample

/-- The id that stands twice belongs to a forest that takes no documents. -/
theorem handed_over_faithfully_unusual :
    ∃ handed own,
      (⟨some ⟨Sample.unusual, 0⟩, [], .zero, .new ()⟩ : OutputJob Unit).handOver .empty = .ok handed ∧
      handedOver? handed = .ok (some Sample.unusual) ∧
      (OutputJob.new Cluster.empty).assignment Cluster.server handed Sample.distributed =
        (.ok (0, true), ⟨none, [own], .zero, .new Cluster.empty⟩) ∧
      own.answers [.place ⟨"x"⟩ none, .place ⟨"x"⟩ none, .rollback 1 1, .index ⟨"é\"\n"⟩,
          .index ⟨"𝛼"⟩, .cachePartition "p" []] =
        [.placed (.ok 0), .placed (.ok 1), .rolledBack, .index none, .index (some 1),
          .cached (.ok none)] := by
  have hlayout : (⟨some ⟨Sample.unusual, 0⟩, [], .zero, .new ()⟩ : OutputJob Unit).layout? =
      some Sample.unusual := rfl
  obtain ⟨handed, received, hhand, -, hread, rfl, -, hown⟩ :=
    handed_over_faithfully hlayout .empty
  obtain ⟨own, hassign, hanswers⟩ := hown Cluster.server Sample.distributed (.new .empty) rfl
  exact ⟨handed, own, hhand, hread, hassign, (hanswers _).trans rfl⟩

end OutputJob

end ForestCourier
