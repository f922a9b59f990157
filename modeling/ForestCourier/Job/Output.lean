import ForestCourier.Exchange.Forest
import ForestCourier.Exchange.Text
import ForestCourier.Writer.Basic

/-!
The writing side of a job. Setup, which discovers the layout and builds a manager, happens once, on
the first call that needs it and succeeds. Writers of a job that runs in one process share that
manager; a distributed task builds its own from the layout handed over in its options.
-/

namespace ForestCourier

namespace Job

structure Setup where
  layout : Discovery.Layout
  /-- The position of the manager among the job's managers. -/
  manager : Nat

/-- A writer and the position of its manager. -/
structure Task where
  manager : Nat
  writer : Writer

end Job

structure OutputJob (σ : Type) where
  setup : Option Job.Setup
  managers : List Placement.Manager
  counters : Counters
  wire : Wire σ

namespace OutputJob

open Job

variable {σ : Type}

def new (state : σ) : OutputJob σ := ⟨none, [], .zero, .new state⟩

/-- Setup forgotten, as by a process that starts again. -/
def fresh (job : OutputJob σ) : OutputJob σ := { job with setup := none }

def layout? (job : OutputJob σ) : Option Discovery.Layout := job.setup.map (·.layout)

def addManager (manager : Placement.Manager) (job : OutputJob σ) : Nat × OutputJob σ :=
  (job.managers.length, { job with managers := job.managers ++ [manager] })

def managerFor (config : Config.Output) (layout : Discovery.Layout) :
    Except TransferError Placement.Manager :=
  (Placement.Manager.new layout.policy layout.forests config.batchSize config.partition).mapError
    .placement

def prepare (srv : Server σ) (options : Config.Options) (job : OutputJob σ) :
    Except TransferError Setup × OutputJob σ :=
  match job.setup with
  | some setup => (.ok setup, job)
  | none =>
    match Config.Output.ofOptions options with
    | .error e => (.error e, job)
    | .ok config =>
      match Discovery.discover srv config job.wire with
      | (.error e, wire) => (.error e, { job with wire := wire })
      | (.ok layout, wire) =>
        match managerFor config layout with
        | .error e => (.error e, { job with wire := wire })
        | .ok manager =>
          match addManager manager { job with wire := wire } with
          | (i, job) =>
            let setup : Setup := ⟨layout, i⟩
            (.ok setup, { job with setup := some setup })

def check (srv : Server σ) (options : Config.Options) (job : OutputJob σ) :
    Except TransferError Unit × OutputJob σ :=
  match job.prepare srv options with
  | (.ok _, job) => (.ok (), job)
  | (.error e, job) => (.error e, job)

def handOver (options : Config.Options) (job : OutputJob σ) : Except TransferError Config.Options :=
  match job.layout? with
  | some layout =>
    .ok (options.set Config.Key.outputTopology
      (Exchange.write Discovery.Layout.toJson layout))
  | none => .error (.config .unchecked)

def handedOver? (options : Config.Options) : Except TransferError (Option Discovery.Layout) :=
  match options.get? Config.Key.outputTopology with
  | none => .ok none
  | some text =>
    match Exchange.read? Discovery.Layout.ofJson? text with
    | some layout => .ok (some layout)
    | none => .error .handover

/-- The manager for a new writer, and whether it places documents itself. -/
def assignment (srv : Server σ) (options : Config.Options) (config : Config.Output)
    (job : OutputJob σ) : Except TransferError (Nat × Bool) × OutputJob σ :=
  match config.mode with
  | .inProcess =>
    match job.prepare srv options with
    | (.ok setup, job) => (.ok (setup.manager, setup.layout.fastLoad), job)
    | (.error e, job) => (.error e, job)
  | .distributed =>
    let own (layout : Discovery.Layout) (job : OutputJob σ) :
        Except TransferError (Nat × Bool) × OutputJob σ :=
      match managerFor config layout with
      | .error e => (.error e, job)
      | .ok manager =>
        match job.addManager manager with
        | (i, job) => (.ok (i, layout.fastLoad), job)
    match handedOver? options with
    | .error e => (.error e, job)
    | .ok (some layout) => own layout job
    | .ok none =>
      match job.prepare srv options with
      | (.ok setup, job) => own setup.layout job
      | (.error e, job) => (.error e, job)

def startTask (srv : Server σ) (options : Config.Options) (number : Nat) (job : OutputJob σ) :
    Except TransferError Task × OutputJob σ :=
  match Config.Output.ofOptions options with
  | .error e => (.error e, job)
  | .ok config =>
    match job.assignment srv options config with
    | (.error e, job) => (.error e, job)
    | (.ok (i, fastLoad), job) =>
      match job.managers[i]? with
      | none => (.error .closed, job)
      | some manager =>
        match Writer.new config fastLoad manager number with
        | .error e => (.error e, job)
        | .ok writer => (.ok ⟨i, writer⟩, job)

def withTask {α : Type} (step : Writer → Site σ → Writer.Step σ α) (task : Task)
    (job : OutputJob σ) : Option (Except (Fault TransferError) α × Task × OutputJob σ) :=
  (job.managers[task.manager]?).map fun manager =>
    match step task.writer ⟨manager, job.counters, job.wire⟩ with
    | (r, writer, site) =>
      (r, { task with writer := writer },
        { job with
          managers := job.managers.set task.manager site.manager
          counters := site.counters
          wire := site.wire })

end OutputJob

end ForestCourier
