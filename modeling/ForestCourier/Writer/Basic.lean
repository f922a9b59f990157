import ForestCourier.Config.Output
import ForestCourier.Discovery.Survey
import ForestCourier.Job.Counters
import ForestCourier.Placement.Manager
import ForestCourier.Writer.Delivery

/-!
A writer of documents. Each document is placed on a slot, and a slot whose batch is full is flushed.
Closing drains every slot, also when one of them fails, and adds the final counts to the job's.
-/

namespace ForestCourier

/-- What a writer shares with the rest of its job. -/
structure Site (σ : Type) where
  manager : Placement.Manager
  counters : Counters
  wire : Wire σ

structure Writer where
  terms : Writer.Terms
  options : CreateOptions
  uriPrefix : String
  uriSuffix : String
  partition : Option String
  hosts : List String
  fastLoad : Bool
  slots : List Writer.Slot
  /-- The slot whose batch is filling up, when a placement by load holds for a whole batch. -/
  filling : Option Nat
  stats : Writer.Stats
  closed : Bool
deriving DecidableEq

namespace Writer

variable {σ : Type}

/-- With fast load a slot for each forest that takes documents; otherwise one that goes round the
output hosts from the task's own on. -/
def slotsFor (config : Config.Output) (fastLoad : Bool) (manager : Placement.Manager)
    (task : Nat) : Except TransferError (List Slot) :=
  if fastLoad then .ok (manager.forests.map fun f => Slot.new (Route.ofForest f))
  else
    match HostRotation.new config.hosts task with
    | some rotation => .ok [Slot.new (.hosts rotation)]
    | none => .error (.config .noOutputHosts)

def new (config : Config.Output) (fastLoad : Bool) (manager : Placement.Manager) (task : Nat) :
    Except TransferError Writer :=
  (slotsFor config fastLoad manager task).map fun slots =>
    { terms := {
        port := config.port
        transaction := if config.usesTransactions then .update else .auto
        batchSize := config.batchSize
        transactionSize := config.transactionSize
        retry := .writer }
      options := config.content
      uriPrefix := config.uriPrefix
      uriSuffix := config.uriSuffix
      partition := config.partition
      hosts := config.hosts
      fastLoad := fastLoad
      slots := slots
      filling := none
      stats := .zero
      closed := false }

abbrev Step (σ α : Type) := Except (Fault TransferError) α × Writer × Site σ

def resolvePartition (srv : Server σ) (w : Writer) (site : Site σ) :
    Except TransferError Unit × Site σ :=
  match w.partition.or site.manager.standardPartition with
  | none => (.ok (), site)
  | some name =>
    if site.manager.isCached name then (.ok (), site)
    else
      match Failover.openFirst srv w.hosts w.terms.port .auto site.wire with
      | (.error e, wire) => (.error e, { site with wire := wire })
      | (.ok session, wire) =>
        match Discovery.partitionForests srv session name wire with
        | (answer, wire) =>
          let site := { site with wire := wire.close srv session }
          match answer with
          | .error e => (.error e, site)
          | .ok ids =>
            match site.manager.cachePartition name ids with
            | (.error e, manager) => (.error (.placement e), { site with manager := manager })
            | (.ok _, manager) => (.ok (), { site with manager := manager })

def place (uri : Uri) (w : Writer) (site : Site σ) :
    Except (Fault TransferError) Nat × Site σ :=
  match site.manager.place uri w.partition with
  | (r, manager) => (r.mapError (Fault.map .placement), { site with manager := manager })

/-- The slot of a document. Placed by load, a slot keeps all documents until its batch is full, and is
charged for them once. -/
def slotFor (srv : Server σ) (uri : Uri) (w : Writer) (site : Site σ) : Step σ Nat :=
  if !w.fastLoad then (.ok 0, w, site)
  else if site.manager.kind = .statistical then
    match w.filling with
    | some i => (.ok i, w, site)
    | none =>
      match w.place uri site with
      | (.error fault, site) => (.error fault, w, site)
      | (.ok i, site) =>
        let slots := w.slots.modify i fun s => { s with charged := s.charged + 1 }
        (.ok i, { w with slots := slots, filling := some i }, site)
  else if site.manager.kind.partitioned then
    match w.resolvePartition srv site with
    | (.error e, site) => (.error (.failed e), w, site)
    | (.ok (), site) =>
      match w.place uri site with
      | (r, site) => (r, w, site)
  else
    match w.place uri site with
    | (r, site) => (r, w, site)

def put (i : Nat) (d : Delivery σ) (w : Writer) (site : Site σ) : Writer × Site σ :=
  ({ w with slots := w.slots.set i d.slot, stats := d.stats }, { site with wire := d.wire })

/-- Settles a delivery of slot `i` that failed for good: the charges go back to the manager and the
documents count as failed. -/
def abandon (srv : Server σ) (i : Nat) (e : RequestError) (attempts : Nat) (d : Delivery σ)
    (w : Writer) (site : Site σ) : Step σ Unit :=
  let cleared := d.clear srv w.terms
  match Word.mul d.slot.charged w.terms.batchSize with
  | .error fault => (.error fault, w.put i cleared site)
  | .ok count =>
    ((Delivery.outcome e attempts).mapError .failed,
      w.put i (cleared.report e attempts d.lost)
        { site with manager := site.manager.rollback i count })

/-- The delivery of the pending batch of a slot, and whether it ends the transaction. Within
transactions, the flush that fills one up ends it, and so does one that closes. -/
def load (closing : Bool) (slot : Slot) (w : Writer) (site : Site σ) : Delivery σ × Bool :=
  let batches := if slot.pending.isEmpty then slot.batches else slot.batches + 1
  let ending := w.terms.transaction = .update &&
    (closing || w.terms.transactionSize.toNat ≤ batches)
  ({ slot := { slot with pending := [], batches := batches, stage := .flushing }
     batch := slot.pending
     stats := w.stats
     wire := site.wire }, ending)

def leave (i : Nat) (w : Writer) : Writer :=
  { w with filling := if w.filling = some i then none else w.filling }

def flush (srv : Server σ) (i : Nat) (closing : Bool) (w : Writer) (site : Site σ) : Step σ Unit :=
  match w.slots[i]? with
  | none => (.ok (), w, site)
  | some slot =>
    match w.load closing slot site with
    | (d, ending) =>
      match d.deliver srv w.terms ending with
      | (.ok (), d) => (.ok (), (w.leave i).put i d site)
      | (.error (e, attempts), d) => abandon srv i e attempts d (w.leave i) site

def skip (source : Option Source) (e : ContentError) (w : Writer) (site : Site σ) : Step σ Unit :=
  (.ok (), { w with stats := { w.stats with failed := w.stats.failed + 1 } },
    { site with wire := site.wire.note (.documentSkipped source e) })

def gather (i : Nat) (content : Content) (w : Writer) : Writer :=
  { w with slots := w.slots.modify i fun slot =>
      { slot with pending := slot.pending ++ [content], stage := .batching } }

def isFull (i : Nat) (w : Writer) : Bool :=
  w.slots[i]?.any fun slot => w.terms.batchSize.toNat ≤ slot.pending.length

def push (srv : Server σ) (i : Nat) (content : Content) (w : Writer) (site : Site σ) :
    Step σ Unit :=
  let w := w.gather i content
  if w.isFull i then w.flush srv i false site else (.ok (), w, site)

/-- What a document comes to before it is delivered: it has no content, or it has a slot. -/
inductive Receipt where
  | skipped (cause : ContentError)
  | placed (slot : Nat) (content : Content)
deriving DecidableEq

def receive (srv : Server σ) (files : FileStore) (uri : Uri) (source : Option Source)
    (payload : Payload) (w : Writer) (site : Site σ) : Step σ Receipt :=
  if w.closed then (.error (.failed .closed), w, site)
  else
    let uri := uri.wrap w.uriPrefix w.uriSuffix
    match Content.create files w.options source uri payload with
    | .error e => (.ok (.skipped e), w, site)
    | .ok content =>
      match w.slotFor srv uri site with
      | (.error fault, w, site) => (.error fault, w, site)
      | (.ok i, w, site) => (.ok (.placed i content), w, site)

def write (srv : Server σ) (files : FileStore) (uri : Uri) (source : Option Source)
    (payload : Payload) (w : Writer) (site : Site σ) : Step σ Unit :=
  match w.receive srv files uri source payload site with
  | (.error fault, w, site) => (.error fault, w, site)
  | (.ok (.skipped e), w, site) => w.skip source e site
  | (.ok (.placed i content), w, site) => w.push srv i content site

def writeAll (srv : Server σ) (files : FileStore) :
    List (Uri × Payload) → Writer → Site σ → Step σ Unit
  | [], w, site => (.ok (), w, site)
  | (uri, payload) :: docs, w, site =>
    match w.write srv files uri none payload site with
    | (.ok (), w, site) => writeAll srv files docs w site
    | (.error fault, w, site) => (.error fault, w, site)

def isBusy (i : Nat) (w : Writer) : Bool :=
  w.slots[i]?.any fun slot => !(slot.pending.isEmpty && slot.queue.isEmpty)

def hangUp (srv : Server σ) (i : Nat) (w : Writer) (site : Site σ) : Writer × Site σ :=
  match (w.slots[i]?).bind (·.session) with
  | none => (w, site)
  | some session =>
    ({ w with slots := w.slots.modify i fun s => { s with session := none } },
      { site with wire := site.wire.close srv session })

/-- Drains slot `i` and closes its session. A failure is answered as the inner result. -/
def drainSlot (srv : Server σ) (i : Nat) (w : Writer) (site : Site σ) :
    Step σ (Except TransferError Unit) :=
  match (if w.isBusy i then w.flush srv i true site else (.ok (), w, site)) with
  | (.error (.overflow kind), w, site) => (.error (.overflow kind), w, site)
  | (.error (.failed e), w, site) => (.ok (.error e), w.hangUp srv i site)
  | (.ok (), w, site) => (.ok (.ok ()), w.hangUp srv i site)

def drain (srv : Server σ) : List Nat → Writer → Site σ → Step σ (Except TransferError Unit)
  | [], w, site => (.ok (.ok ()), w, site)
  | i :: is, w, site =>
    match w.drainSlot srv i site with
    | (.error fault, w, site) => (.error fault, w, site)
    | (.ok first, w, site) =>
      match drain srv is w site with
      | (.error fault, w, site) => (.error fault, w, site)
      | (.ok later, w, site) =>
        (.ok (match first with
          | .error e => .error e
          | .ok () => later), w, site)

def close (srv : Server σ) (w : Writer) (site : Site σ) : Step σ Unit :=
  if w.closed then (.ok (), w, site)
  else
    match drain srv (List.range w.slots.length) { w with closed := true } site with
    | (.error fault, w, site) => (.error fault, w, site)
    | (.ok result, w, site) =>
      let counters := (site.counters.addCommitted (UInt64.ofNat w.stats.succeeded)).addFailed
        (UInt64.ofNat w.stats.failed)
      (result.mapError .failed, w, { site with counters := counters })

end Writer

end ForestCourier
