import ForestCourier.Retry.Backoff
import ForestCourier.Session.Server
import ForestCourier.Writer.Slot

/-!
Delivery of one batch of one slot. An attempt opens a session if there is none, sends again what a
lost transaction held, inserts the batch and commits if the transaction is to end. After an attempt
that failed in passing, the session is given up and the next attempt goes to the next failover
target, until one succeeds or the attempts are used up.
-/

namespace ForestCourier.Writer

structure Terms where
  port : UInt16
  transaction : Transaction
  batchSize : UInt64
  transactionSize : UInt64
  retry : RetryPolicy
deriving DecidableEq

namespace Terms

def maxAttempts (t : Terms) : Nat :=
  if 1 < t.transactionSize then RetryPolicy.multiBatchAttempts else t.retry.maxAttempts

end Terms

structure Delivery (σ : Type) where
  slot : Slot
  batch : List Content
  stats : Stats
  wire : Wire σ

def rejectedIndices (docs : List Content) (rejections : List Rejection) : List Nat :=
  (List.range docs.length).filter fun i => rejections.any fun r => r.index == i

/-- Takes out the positions, which are in ascending order, from the last one down. -/
def without (docs : List Content) (indices : List Nat) : List Content :=
  indices.foldr (fun i ds => ds.eraseIdx i) docs

def rejectionNotices (docs : List Content) (rejections : List Rejection) : List Notice :=
  rejections.filterMap fun r =>
    (docs[r.index]?).map fun doc => .documentRejected doc.provenance r.code r.message

namespace Delivery

variable {σ : Type}

def ensureSession (srv : Server σ) (terms : Terms) (d : Delivery σ) :
    Except RequestError Session × Delivery σ :=
  match d.slot.session with
  | some session => (.ok session, d)
  | none =>
    match d.wire.openSession srv (d.slot.route.target terms.port) terms.transaction with
    | (.ok session, w) =>
      (.ok session, { d with slot := { d.slot with session := some session }, wire := w })
    | (.error e, w) => (.error e, { d with wire := w })

def insert (srv : Server σ) (session : Session) (docs : List Content) (d : Delivery σ) :
    Except RequestError (List Content) × Delivery σ :=
  if docs.isEmpty then (.ok docs, d)
  else
    match d.wire.insert srv session docs with
    | (.error e, w) => (.error e, { d with wire := w })
    | (.ok rejections, w) =>
      let rejected := rejectedIndices docs rejections
      (.ok (without docs rejected), { d with
        stats := { d.stats with failed := d.stats.failed + rejected.length }
        wire := (rejectionNotices docs rejections).foldl Wire.note w })

def replayQueue (srv : Server σ) (session : Session) (d : Delivery σ) :
    Except RequestError Unit × Delivery σ :=
  match d.insert srv session d.slot.queue with
  | (.error e, d) => (.error e, d)
  | (.ok queue, d) => (.ok (), { d with slot := { d.slot with queue := queue } })

def insertBatch (srv : Server σ) (session : Session) (d : Delivery σ) :
    Except RequestError Unit × Delivery σ :=
  match d.insert srv session d.batch with
  | (.error e, d) => (.error e, d)
  | (.ok batch, d) => (.ok (), { d with batch := batch })

/-- The batch is stored as soon as it is inserted. -/
def settleAuto (d : Delivery σ) : Delivery σ :=
  { d with
    slot := { d.slot with charged := 0, stage := .committed }
    batch := []
    stats := { d.stats with succeeded := d.stats.succeeded + d.batch.length } }

def enqueue (d : Delivery σ) : Delivery σ :=
  { d with
    slot := { d.slot with queue := d.slot.queue ++ d.batch, stage := .commitPending }
    batch := [] }

def commit (srv : Server σ) (session : Session) (d : Delivery σ) :
    Except RequestError Unit × Delivery σ :=
  match d.wire.commit srv session with
  | (.error e, w) => (.error e, { d with wire := w })
  | (.ok (), w) => (.ok (), { d with
      slot := { d.slot with queue := [], batches := 0, charged := 0, stage := .committed }
      stats := { d.stats with succeeded := d.stats.succeeded + d.slot.queue.length }
      wire := w })

def attempt (srv : Server σ) (terms : Terms) (replay ending : Bool) (d : Delivery σ) :
    Except RequestError Unit × Delivery σ :=
  match d.ensureSession srv terms with
  | (.error e, d) => (.error e, d)
  | (.ok session, d) =>
    match (if replay then d.replayQueue srv session else (.ok (), d)) with
    | (.error e, d) => (.error e, d)
    | (.ok (), d) =>
      match d.insertBatch srv session with
      | (.error e, d) => (.error e, d)
      | (.ok (), d) =>
        match terms.transaction with
        | .auto => (.ok (), d.settleAuto)
        | .update => if ending then d.enqueue.commit srv session else (.ok (), d.enqueue)

def discardSession (srv : Server σ) (terms : Terms) (d : Delivery σ) : Delivery σ :=
  match d.slot.session with
  | none => d
  | some session =>
    let wire := match terms.transaction with
      | .auto => d.wire
      | .update => d.wire.rollback srv session
    { d with slot := { d.slot with session := none }, wire := wire.close srv session }

def failOver (srv : Server σ) (terms : Terms) (e : RequestError) (attempt : Nat) (d : Delivery σ) :
    Delivery σ :=
  let failed := d.slot.route
  let d := d.discardSession srv terms
  let route := failed.rotate
  let pause := terms.retry.backoff attempt
  let notice : Notice := .batchRetried failed.name (failed.target terms.port).host
    (route.target terms.port).host attempt pause e
  { d with
    slot := { d.slot with route := route, stage := .commitRetry }
    stats := if failed.moves then { d.stats with rotations := d.stats.rotations + 1 } else d.stats
    wire := (d.wire.note notice).wait srv pause }

/-- Attempts until one succeeds; `left` more may follow attempt number `n`. A failure comes with the
number of the attempt that was the last. -/
def run (srv : Server σ) (terms : Terms) (ending : Bool) :
    Nat → Nat → Bool → Delivery σ → Except (RequestError × Nat) Unit × Delivery σ
  | left, n, replay, d =>
    match d.attempt srv terms replay ending with
    | (.ok (), d) =>
      (.ok (), if d.slot.queue.isEmpty then { d with slot := { d.slot with stage := .idle } } else d)
    | (.error e, d) =>
      if e.isRetryable then
        match left with
        | 0 => (.error (e, n), d)
        | left + 1 => run srv terms ending left (n + 1) true (d.failOver srv terms e n)
      else (.error (e, n), d)

def deliver (srv : Server σ) (terms : Terms) (ending : Bool) (d : Delivery σ) :
    Except (RequestError × Nat) Unit × Delivery σ :=
  run srv terms ending (terms.maxAttempts - 1) 1 false d

def lost (d : Delivery σ) : List Content := d.slot.queue ++ d.batch

def clear (srv : Server σ) (terms : Terms) (d : Delivery σ) : Delivery σ :=
  let d := d.discardSession srv terms
  { d with
    slot := { d.slot with queue := [], batches := 0, charged := 0, stage := .permanentFailure }
    batch := [] }

def report (e : RequestError) (attempts : Nat) (documents : List Content) (d : Delivery σ) :
    Delivery σ :=
  { d with
    slot := { d.slot with stage := .idle }
    stats := { d.stats with failed := d.stats.failed + documents.length }
    wire := d.wire.note
      (.batchLost d.slot.route.name attempts (documents.map Content.provenance) e) }

/-- A request that was wrong ends here; the others end the task. -/
def outcome (e : RequestError) (attempts : Nat) : Except TransferError Unit :=
  match e.severity with
  | .permanent => .ok ()
  | .retryable => .error (.retriesExhausted .batchWrite attempts e)
  | .fatal => .error (.request e)

end Delivery

end ForestCourier.Writer
