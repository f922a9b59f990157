import ForestCourier.Config.Input
import ForestCourier.Job.Counters
import ForestCourier.Reader.Basic
import ForestCourier.Session.Failover
import ForestCourier.Split.Basic
import ForestCourier.Split.Plan
import ForestCourier.Split.Stream

/-!
The reading side of a job: one query counts the records of every forest, the counts are added to the
job's estimate, and the forests are cut into splits.
-/

namespace ForestCourier

structure InputJob (σ : Type) where
  counters : Counters
  wire : Wire σ

namespace InputJob

variable {σ : Type}

def new (state : σ) : InputJob σ := ⟨.zero, .new state⟩

def estimate {ε : Type} (forests : List RecordCount) : Except (Fault ε) UInt64 :=
  (forests.filterMap RecordCount.estimate?).foldlM Word.add 0

def countedForests (config : Config.Input) (stream : SplitStream) : List RecordCount :=
  if config.restrictHosts then RecordCount.restrict config.hosts stream.forests else stream.forests

def askSplits (srv : Server σ) (config : Config.Input) (job : InputJob σ) :
    Except TransferError SplitStream × InputJob σ :=
  let query : Query := ⟨Discovery.Queries.splits,
    [("redaction-rules", String.intercalate "," config.redactionRules)]⟩
  match Failover.queryFirst srv config.hosts config.port query job.wire with
  | (.error e, wire) => (.error e, { job with wire := wire })
  | (.ok items, wire) =>
    ((SplitStream.ofItems items (!config.redactionRules.isEmpty)).mapError .protocol,
      { job with wire := wire })

def splits (srv : Server σ) (options : Config.Options) (job : InputJob σ) :
    Except (Fault TransferError) (List Split) × InputJob σ :=
  match Config.Input.ofOptions options with
  | .error e => (.error (.failed e), job)
  | .ok config =>
    match job.askSplits srv config with
    | (.error e, job) => (.error (.failed e), job)
    | (.ok stream, job) =>
      let forests := countedForests config stream
      match estimate forests with
      | .error fault => (.error fault, job)
      | .ok estimated =>
        (Split.plan forests config.maxSplitSize stream.redactionRules,
          { job with counters := job.counters.addEstimated estimated })

def reader (options : Config.Options) : Except TransferError Reader :=
  (Config.Input.ofOptions options).map Reader.new

end InputJob

end ForestCourier
