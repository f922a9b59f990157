import ForestCourier.Job.Input
import ForestCourier.Proofs.Config.Settings
import ForestCourier.Proofs.Job.Handover
import ForestCourier.Proofs.Reader.Confinement
import ForestCourier.Proofs.Split.Coverage
import ForestCourier.Proofs.Writer.Confinement

/-!
A job that is restricted to its hosts opens no session with any other, whatever hosts the server names
and whatever fails. On the side that writes, no layout that is discovered or handed over lets a writer
place documents itself, so that its one slot goes round the output hosts; on the side that reads, the
forests are taken to be on the input hosts before the splits are planned.
-/

namespace ForestCourier

open Job

variable {σ : Type}

namespace Writer

/-- A writer that leaves the placing to the server and goes round the output hosts. -/
structure Restricted (config : Config.Output) (w : Writer) : Prop where
  aimed : w.Aimed w.terms fun _ => config.hosts.map fun host => ⟨host, config.port, none⟩
  known : w.hosts = config.hosts

theorem restricted_new {config : Config.Output} {m : Placement.Manager} {task : Nat} {w : Writer}
    (hw : Writer.new config false m task = .ok w) : w.Restricted config := by
  refine ⟨aimed_new hw, ?_⟩
  unfold Writer.new at hw
  cases hs : slotsFor config false m task with
  | error e =>
    rw [hs] at hw
    cases hw
  | ok slots =>
    rw [hs] at hw
    cases hw
    rfl

theorem Restricted.run {config : Config.Output} {w : Writer} (site : Site σ)
    (h : w.Restricted config) (hwire : site.wire.Within config.hosts) (srv : Server σ) (call : Call) :
    (call.run srv w site).2.1.Restricted config ∧
      (call.run srv w site).2.2.wire.Within config.hosts := by
  have htargets : ∀ i : Nat, ∀ target ∈ (fun _ => config.hosts.map fun host =>
      (⟨host, config.port, none⟩ : Target)) i, target.host ∈ config.hosts := by
    simp
  have hrun := (Confined.kept srv htargets).run call ⟨h.aimed, h.known, hwire⟩
  refine ⟨⟨?_, hrun.known⟩, hrun.wire⟩
  rw [hrun.aimed.kept]
  exact hrun.aimed

end Writer

namespace OutputJob

structure Run (σ : Type) where
  options : Config.Options
  job : OutputJob σ
  tasks : List Task

inductive Move where
  | check
  /-- The options are handed over with the layout in them. -/
  | handOver
  /-- Another process goes on with the options as they are. -/
  | restart
  | startTask (number : Nat)
  | call (task : Nat) (call : Writer.Call)

namespace Run

def new (options : Config.Options) (state : σ) : Run σ := ⟨options, .new state, []⟩

def step (srv : Server σ) (r : Run σ) : Move → Run σ
  | .check => { r with job := (r.job.check srv r.options).2 }
  | .handOver =>
    match r.job.handOver r.options with
    | .ok options => { r with options := options }
    | .error _ => r
  | .restart => { r with job := r.job.fresh }
  | .startTask number =>
    match r.job.startTask srv r.options number with
    | (.ok task, job) => { r with job := job, tasks := r.tasks ++ [task] }
    | (.error _, job) => { r with job := job }
  | .call k call =>
    match (r.tasks[k]?).bind fun task => withTask (call.run srv) task r.job with
    | some (_, task, job) => { r with job := job, tasks := r.tasks.set k task }
    | none => r

def follow (srv : Server σ) (moves : List Move) (r : Run σ) : Run σ := moves.foldl (step srv) r

end Run

/-- A job whose layout, if it has one, is for the server to place documents by. -/
structure Confined (hosts : List String) (job : OutputJob σ) : Prop where
  layout : ∀ layout, job.layout? = some layout → layout.fastLoad = false
  wire : job.wire.Within hosts

variable {config : Config.Output} {options : Config.Options} {job : OutputJob σ}

theorem Confined.prepare (h : job.Confined config.hosts) (srv : Server σ)
    (hconfig : Config.Output.ofOptions options = .ok config) (hrestrict : config.restrictHosts = true) :
    (job.prepare srv options).2.Confined config.hosts ∧
      ∀ setup, (job.prepare srv options).1 = .ok setup → setup.layout.fastLoad = false := by
  have hwire := Discovery.discover_within srv config h.wire
  have hserver : ∀ layout, (Discovery.discover srv config job.wire).1 = .ok layout →
      layout.fastLoad = false := fun _ => Discovery.discover_restricted hrestrict
  unfold OutputJob.prepare
  split
  · next setup hs =>
    refine ⟨h, fun s heq => ?_⟩
    cases heq
    exact h.layout _ (by simp [layout?, hs])
  · next hs =>
    have hnone : ∀ (wire : Wire σ) layout, OutputJob.layout? { job with wire := wire } = some layout →
        layout.fastLoad = false := by
      intro wire layout hl
      simp [layout?, hs] at hl
    rw [hconfig]
    dsimp only
    split
    · next hd =>
      rw [hd] at hwire
      exact ⟨⟨hnone _, hwire⟩, nofun⟩
    · next layout wire hd =>
      rw [hd] at hwire hserver
      split
      · exact ⟨⟨hnone _, hwire⟩, nofun⟩
      · refine ⟨⟨fun l hl => ?_, hwire⟩, fun setup heq => ?_⟩
        · cases hl
          exact hserver _ rfl
        · cases heq
          exact hserver _ rfl

/-- Options that hand over, to a distributed task, only what leaves the placing to the server. -/
def Guarded (config : Config.Output) (options : Config.Options) : Prop :=
  config.mode = .distributed → ∀ layout, handedOver? options = .ok (some layout) →
    layout.fastLoad = false

theorem Confined.own {hosts : List String} (h : job.Confined hosts) (layout : Discovery.Layout)
    (hlayout : layout.fastLoad = false) :
    ∀ result job', (match managerFor config layout with
      | .error e => (Except.error e, job)
      | .ok manager => (.ok ((job.addManager manager).1, layout.fastLoad), (job.addManager manager).2)) =
        (result, job') → job'.Confined hosts ∧
          ∀ i fastLoad, result = .ok (i, fastLoad) → fastLoad = false := by
  intro result job' heq
  split at heq
  · cases heq
    exact ⟨h, nofun⟩
  · cases heq
    refine ⟨⟨h.layout, h.wire⟩, fun i fastLoad hr => ?_⟩
    cases hr
    exact hlayout

theorem Confined.assignment (h : job.Confined config.hosts) (srv : Server σ)
    (hconfig : Config.Output.ofOptions options = .ok config) (hrestrict : config.restrictHosts = true)
    (hguarded : Guarded config options) :
    (job.assignment srv options config).2.Confined config.hosts ∧
      ∀ i fastLoad, (job.assignment srv options config).1 = .ok (i, fastLoad) → fastLoad = false := by
  obtain ⟨hprepared, hsetup⟩ := h.prepare srv hconfig hrestrict
  unfold OutputJob.assignment
  split
  · split
    · next hp =>
      rw [hp] at hprepared hsetup
      refine ⟨hprepared, fun i fastLoad hr => ?_⟩
      cases hr
      exact hsetup _ rfl
    · next hp =>
      rw [hp] at hprepared
      exact ⟨hprepared, nofun⟩
  · next hmode =>
    dsimp only
    split
    · exact ⟨h, nofun⟩
    · next layout hl =>
      exact h.own layout (hguarded hmode layout hl) _ _ rfl
    · split
      · next setup job₁ hp =>
        rw [hp] at hprepared hsetup
        exact hprepared.own setup.layout (hsetup setup rfl) _ _ rfl
      · next hp =>
        rw [hp] at hprepared
        exact ⟨hprepared, nofun⟩

theorem Confined.startTask (h : job.Confined config.hosts) (srv : Server σ)
    (hconfig : Config.Output.ofOptions options = .ok config) (hrestrict : config.restrictHosts = true)
    (hguarded : Guarded config options) (number : Nat) :
    (job.startTask srv options number).2.Confined config.hosts ∧
      ∀ task, (job.startTask srv options number).1 = .ok task → task.writer.Restricted config := by
  obtain ⟨hassigned, hfast⟩ := h.assignment srv hconfig hrestrict hguarded
  unfold OutputJob.startTask
  rw [hconfig]
  dsimp only
  split
  · next ha =>
    rw [ha] at hassigned
    exact ⟨hassigned, fun _ h => by cases h⟩
  · next i fastLoad job₁ ha =>
    rw [ha] at hassigned hfast
    obtain rfl := hfast i fastLoad rfl
    split
    · exact ⟨hassigned, fun _ h => by cases h⟩
    · split
      · exact ⟨hassigned, fun _ h => by cases h⟩
      · next writer hw =>
        refine ⟨hassigned, fun task ht => ?_⟩
        cases ht
        exact Writer.restricted_new hw

/-- Between its moves a job has kept to the hosts. -/
structure Run.Confined (config : Config.Output) (r : Run σ) : Prop where
  settings : Config.Output.ofOptions r.options = .ok config
  guarded : Guarded config r.options
  job : r.job.Confined config.hosts
  tasks : ∀ task ∈ r.tasks, task.writer.Restricted config

theorem Run.Confined.step {r : Run σ} (h : r.Confined config) (srv : Server σ)
    (hrestrict : config.restrictHosts = true) (move : Move) : (r.step srv move).Confined config := by
  cases move with
  | check =>
    have hprepared := (h.job.prepare srv h.settings hrestrict).1
    refine ⟨h.settings, h.guarded, ?_, h.tasks⟩
    dsimp only [Run.step]
    unfold OutputJob.check
    split
    · next hp => rwa [hp] at hprepared
    · next hp => rwa [hp] at hprepared
  | handOver =>
    unfold Run.step OutputJob.handOver
    cases hl : r.job.layout? with
    | none => exact h
    | some layout =>
      refine ⟨?_, fun _ received hr => ?_, h.job, h.tasks⟩
      · exact (Config.Output.ofOptions_set_topology _ _).trans h.settings
      · rw [handedOver?_set] at hr
        cases hr
        exact h.job.layout layout hl
  | restart => exact ⟨h.settings, h.guarded, ⟨nofun, h.job.wire⟩, h.tasks⟩
  | startTask number =>
    obtain ⟨hjob, htask⟩ := h.job.startTask srv h.settings hrestrict h.guarded number
    simp only [Run.step]
    split
    · next task job hs =>
      rw [hs] at hjob htask
      refine ⟨h.settings, h.guarded, hjob, fun t ht => ?_⟩
      rcases List.mem_append.mp ht with ht | ht
      · exact h.tasks t ht
      · exact List.mem_singleton.mp ht ▸ htask task rfl
    · next hs =>
      rw [hs] at hjob
      exact ⟨h.settings, h.guarded, hjob, h.tasks⟩
  | call k call =>
    simp only [Run.step]
    split
    · next result task' job' hw =>
      obtain ⟨task, htask, hw⟩ := Option.bind_eq_some_iff.mp hw
      obtain ⟨manager, -, hw⟩ := Option.map_eq_some_iff.mp hw
      have hrestricted := h.tasks task (List.mem_of_getElem? htask)
      have hrun := hrestricted.run ⟨manager, r.job.counters, r.job.wire⟩ h.job.wire srv call
      cases hw
      refine ⟨h.settings, h.guarded, ⟨h.job.layout, hrun.2⟩, fun t ht => ?_⟩
      rcases List.mem_or_eq_of_mem_set ht with ht | rfl
      · exact h.tasks t ht
      · exact hrun.1
    · exact h

theorem Run.Confined.follow {r : Run σ} (h : r.Confined config) (srv : Server σ)
    (hrestrict : config.restrictHosts = true) (moves : List Move) :
    (r.follow srv moves).Confined config := by
  induction moves generalizing r with
  | nil => exact h
  | cons move moves ih => exact ih (h.step srv hrestrict move)

end OutputJob

namespace RecordCount

theorem hostAt_mem {hosts : List String} (h : hosts ≠ []) (i : Nat) (standard : String) :
    hostAt hosts i standard ∈ hosts := by
  have hlt : i % hosts.length < hosts.length := Nat.mod_lt _ (List.length_pos_iff.mpr h)
  rw [hostAt, List.getElem?_eq_getElem hlt, Option.getD_some]
  exact List.getElem_mem hlt

theorem restrict_hosts {hosts : List String} (h : hosts ≠ []) {forests : List RecordCount}
    {c : RecordCount} (hc : c ∈ restrict hosts forests) :
    c.host ∈ hosts ∧ ∀ r ∈ c.replicas, r.host ∈ hosts := by
  rw [restrict, if_neg (by simpa using h)] at hc
  obtain ⟨i, -, rfl⟩ := List.mem_mapIdx.mp hc
  refine ⟨hostAt_mem h _ _, fun r hr => ?_⟩
  obtain ⟨j, -, rfl⟩ := List.mem_mapIdx.mp hr
  exact hostAt_mem h _ _

end RecordCount

namespace InputJob

structure Run (σ : Type) where
  job : InputJob σ
  splits : List Split
  readers : List Reader

inductive Move where
  | splits
  | reader
  | start (reader split : Nat)
  | next (reader : Nat)
  | close (reader : Nat)

namespace Run

def new (state : σ) : Run σ := ⟨.new state, [], []⟩

def put (k : Nat) (r : Run σ) (reader : Reader) (wire : Wire σ) : Run σ :=
  { r with job := { r.job with wire := wire }, readers := r.readers.set k reader }

def step (srv : Server σ) (options : Config.Options) (r : Run σ) : Move → Run σ
  | .splits =>
    match r.job.splits srv options with
    | (.ok splits, job) => { r with job := job, splits := r.splits ++ splits }
    | (.error _, job) => { r with job := job }
  | .reader =>
    match InputJob.reader options with
    | .ok reader => { r with readers := r.readers ++ [reader] }
    | .error _ => r
  | .start k n =>
    match r.readers[k]?, r.splits[n]? with
    | some reader, some split =>
      match reader.start srv split r.job.wire with
      | (_, reader, wire) => r.put k reader wire
    | _, _ => r
  | .next k =>
    match r.readers[k]? with
    | some reader =>
      match reader.next srv r.job.wire with
      | (_, reader, wire) => r.put k reader wire
    | none => r
  | .close k =>
    match r.readers[k]? with
    | some reader =>
      match reader.close srv r.job.wire with
      | (reader, wire) => r.put k reader wire
    | none => r

def follow (srv : Server σ) (options : Config.Options) (moves : List Move) (r : Run σ) : Run σ :=
  moves.foldl (step srv options) r

/-- Between its moves a job has kept to the hosts, and its splits and readers know no others. -/
structure Confined (hosts : List String) (r : Run σ) : Prop where
  splits : ∀ s ∈ r.splits, s.Within hosts
  readers : ∀ reader ∈ r.readers, reader.Confined hosts r.job.wire
  wire : r.job.wire.Within hosts

theorem Confined.put {hosts : List String} {r : Run σ} (h : r.Confined hosts) (k : Nat)
    {reader : Reader} {wire : Wire σ} (hreader : reader.Confined hosts wire) :
    (r.put k reader wire).Confined hosts := by
  refine ⟨h.splits, fun x hx => ?_, hreader.wire⟩
  rcases List.mem_or_eq_of_mem_set hx with hx | rfl
  · exact ⟨(h.readers x hx).split, (h.readers x hx).cursor, hreader.wire⟩
  · exact hreader

end Run

variable {options : Config.Options} {config : Config.Input} {job : InputJob σ}

theorem splits_within (srv : Server σ) (hconfig : Config.Input.ofOptions options = .ok config)
    (hrestrict : config.restrictHosts = true) (h : job.wire.Within config.hosts) :
    (job.splits srv options).2.wire.Within config.hosts ∧
      ∀ splits, (job.splits srv options).1 = .ok splits → ∀ s ∈ splits, s.Within config.hosts := by
  have hasked : (job.askSplits srv config).2.wire.Within config.hosts := by
    have hquery := Failover.queryFirst_within srv config.port ⟨Discovery.Queries.splits,
      [("redaction-rules", String.intercalate "," config.redactionRules)]⟩ h
    unfold askSplits
    dsimp only
    split
    · next hq => rwa [hq] at hquery
    · next hq => rwa [hq] at hquery
  unfold InputJob.splits
  rw [hconfig]
  dsimp only
  split
  · next ha =>
    rw [ha] at hasked
    exact ⟨hasked, nofun⟩
  · next stream job₁ ha =>
    rw [ha] at hasked
    split
    · exact ⟨hasked, nofun⟩
    · refine ⟨hasked, fun splits hplan s hs => ?_⟩
      obtain ⟨c, hc, hfrom, -⟩ := Split.plan_mem hplan hs
      rw [countedForests, if_pos hrestrict] at hc
      obtain ⟨hhost, hreplicas⟩ :=
        RecordCount.restrict_hosts (Config.Input.hosts_ne_nil hconfig) hc
      exact ⟨hfrom.host ▸ hhost, hfrom.replicas ▸ hreplicas⟩

theorem Run.Confined.step {r : Run σ} (h : r.Confined config.hosts) (srv : Server σ)
    (hconfig : Config.Input.ofOptions options = .ok config) (hrestrict : config.restrictHosts = true)
    (move : Move) : (r.step srv options move).Confined config.hosts := by
  cases move with
  | splits =>
    obtain ⟨hwire, hsplits⟩ := splits_within srv hconfig hrestrict h.wire
    simp only [Run.step]
    split
    · next splits job hs =>
      rw [hs] at hwire hsplits
      refine ⟨fun s hs => ?_, fun x hx => ⟨(h.readers x hx).split, (h.readers x hx).cursor, hwire⟩,
        hwire⟩
      rcases List.mem_append.mp hs with hs | hs
      · exact h.splits s hs
      · exact hsplits splits rfl s hs
    · next hs =>
      rw [hs] at hwire
      exact ⟨h.splits, fun x hx => ⟨(h.readers x hx).split, (h.readers x hx).cursor, hwire⟩, hwire⟩
  | reader =>
    have hreader : InputJob.reader options = .ok (.new config) := by
      rw [InputJob.reader, hconfig]
      rfl
    simp only [Run.step, hreader]
    refine ⟨h.splits, fun x hx => ?_, h.wire⟩
    rcases List.mem_append.mp hx with hx | hx
    · exact h.readers x hx
    · rw [List.mem_singleton.mp hx]
      exact ⟨nofun, nofun, h.wire⟩
  | start k n =>
    simp only [Run.step]
    split
    · next reader split hreader hsplit =>
      have hreader := h.readers reader (List.mem_of_getElem? hreader)
      exact h.put k (hreader.start srv (h.splits split (List.mem_of_getElem? hsplit)))
    · exact h
  | next k =>
    simp only [Run.step]
    split
    · next reader hreader =>
      exact h.put k ((h.readers reader (List.mem_of_getElem? hreader)).next srv)
    · exact h
  | close k =>
    simp only [Run.step]
    split
    · next reader hreader =>
      exact h.put k ((h.readers reader (List.mem_of_getElem? hreader)).close srv)
    · exact h

theorem Run.Confined.follow {r : Run σ} (h : r.Confined config.hosts) (srv : Server σ)
    (hconfig : Config.Input.ofOptions options = .ok config) (hrestrict : config.restrictHosts = true)
    (moves : List Move) : (r.follow srv options moves).Confined config.hosts := by
  induction moves generalizing r with
  | nil => exact h
  | cons move moves ih => exact ih (h.step srv hconfig hrestrict move)

end InputJob

/-- The layout among the options, if there is one, was discovered under the configuration, by whatever
process and from whatever server. -/
def Config.Output.Discovered (config : Config.Output) (options : Config.Options) : Prop :=
  ∀ layout, OutputJob.handedOver? options = .ok (some layout) →
    ∃ (τ : Type) (srv : Server τ) (w : Wire τ), (Discovery.discover srv config w).1 = .ok layout

/-- The sessions of a job are opened with its own hosts only if it is restricted to them: with the
output hosts on the side that writes, and with the input hosts on the side that reads. -/
theorem hosts_confined (srv : Server σ) (options : Config.Options) (state : σ) :
    (∀ config, Config.Output.ofOptions options = .ok config → config.restrictHosts = true →
      (config.mode = .distributed → config.Discovered options) →
      ∀ moves, ((OutputJob.Run.new options state).follow srv moves).job.wire.Within config.hosts) ∧
    ∀ config, Config.Input.ofOptions options = .ok config → config.restrictHosts = true →
      ∀ moves, ((InputJob.Run.new state).follow srv options moves).job.wire.Within config.hosts := by
  constructor
  · intro config hconfig hrestrict hdiscovered moves
    have hguarded : OutputJob.Guarded config options := by
      intro hmode layout hl
      obtain ⟨τ, srv', w, hd⟩ := hdiscovered hmode layout hl
      exact Discovery.discover_restricted hrestrict hd
    have hstart : (OutputJob.Run.new options state).Confined config :=
      ⟨hconfig, hguarded, ⟨nofun, Wire.within_new state⟩, List.forall_mem_nil _⟩
    exact (hstart.follow srv hrestrict moves).job.wire
  · intro config hconfig hrestrict moves
    have hstart : (InputJob.Run.new state).Confined config.hosts :=
      ⟨List.forall_mem_nil _, List.forall_mem_nil _, Wire.within_new state⟩
    exact (hstart.follow srv hconfig hrestrict moves).wire

namespace Sample

/-- A database that tells its inner hosts, behind hosts that refuse every third session and lose every
other insert and every other record. -/
def inner : Server Nat where
  accept _ s := (if s % 3 = 1 then .error (.connection "refused") else .ok (), s + 1)
  insert _ _ s := (if s % 2 = 0 then .error (.connection "reset") else .ok [], s + 1)
  commit _ s := (.ok (), s)
  rollback _ s := (.ok (), s)
  submit _ query s :=
    (.ok (if query.text = Discovery.Queries.functionProbe then [.bool true, .bool true, .bool true]
      else if query.text = Discovery.Queries.assignmentPolicy then [.text "legacy"]
      else if query.text = Discovery.Queries.forestHostInfo then
        [.text "1", .text "inner-1", .bool true, .int 0]
      else if query.text = Discovery.Queries.replicaHosts then
        [.text "1", .int 2, .text "1", .text "inner-1", .text "2", .text "inner-2"]
      else if query.text = Discovery.Queries.directoryCreation then [.text "manual"]
      else [.text "1", .int 3, .text "inner-1", .text Discovery.replicaMarker,
        .text "1", .int 2, .text "1", .text "inner-1", .text "2", .text "inner-2"]), s)
  range _ _ s := (.ok (), s)
  next _ s :=
    (if s % 2 = 0 then .error (.connection "reset")
      else .ok (some (.record ⟨⟨"x"⟩, .text, []⟩)), s + 1)
  close _ s := (.ok (), s)
  wait _ s := s

def options : Config.Options :=
  .ofList [(Config.Key.mode, "distributed"), (Config.Key.outputHost, "lb1, lb2"),
    (Config.Key.outputRestrictHosts, "true"), (Config.Key.batchSize, "1"),
    (Config.Key.inputHost, "lb1, lb2"), (Config.Key.inputRestrictHosts, "true")]

def output : Config.Output where
  hosts := ["lb1", "lb2"]
  port := 8000
  fastLoad := none
  policy := none
  batchSize := 1
  transactionSize := 1000
  content := .standard
  uriPrefix := ""
  uriSuffix := ""
  partition := none
  restrictHosts := true
  mode := .distributed

def input : Config.Input where
  hosts := ["lb1", "lb2"]
  port := 8000
  maxSplitSize := 50000
  restrictHosts := true
  query := Config.defaultInputQuery
  redactionRules := []
  mode := .distributed

def writing : List OutputJob.Move :=
  [.check, .startTask 1, .call 0 (.write .empty ⟨"x"⟩ none (.binary [1])), .call 0 .close]

def reading : List InputJob.Move := [.splits, .reader, .start 0 0, .next 0, .next 0, .close 0]

end Sample

/-- The writer meets one refusal; the reader fails over twice within the split. -/
theorem hosts_confined_inner :
    (Config.Output.ofOptions Sample.options = .ok Sample.output ∧
      Sample.output.Discovered Sample.options ∧
      let wire := ((OutputJob.Run.new Sample.options 0).follow Sample.inner Sample.writing).job.wire
      wire.Within ["lb1", "lb2"] ∧ wire.opened = 2) ∧
    (Config.Input.ofOptions Sample.options = .ok Sample.input ∧
      let wire := ((InputJob.Run.new 0).follow Sample.inner Sample.options Sample.reading).job.wire
      wire.Within ["lb1", "lb2"] ∧ wire.opened = 4) := by
  have houtput : Config.Output.ofOptions Sample.options = .ok Sample.output := by decide +kernel
  have hinput : Config.Input.ofOptions Sample.options = .ok Sample.input := by decide +kernel
  have hdiscovered : Sample.output.Discovered Sample.options := by
    have hnone : Sample.options.get? Config.Key.outputTopology = none := by decide +kernel
    intro layout hl
    simp [OutputJob.handedOver?, hnone] at hl
  obtain ⟨hwrites, hreads⟩ := hosts_confined Sample.inner Sample.options 0
  refine ⟨⟨houtput, hdiscovered, ?_, ?_⟩, hinput, ?_, ?_⟩
  · exact hwrites _ houtput rfl (fun _ => hdiscovered) Sample.writing
  · decide +kernel
  · exact hreads _ hinput rfl Sample.reading
  · decide +kernel

end ForestCourier
