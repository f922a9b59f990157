import ForestCourier.Config.Input
import ForestCourier.Retry.Cursor
import ForestCourier.Session.Server
import ForestCourier.Split.Basic

/-!
A reader of one split. It holds one session at most, whose stream stands right behind the last record
handed out, and when the stream fails it goes on from there on the next replica.
-/

namespace ForestCourier

structure Reader where
  config : Config.Input
  retry : RetryPolicy
  split : Option Split
  cursor : Option ReplicaCursor
  session : Option Session
  current : Option Record
  read : UInt64
  failures : Nat
  failovers : Nat
  done : Bool
deriving DecidableEq

namespace Reader

variable {σ : Type}

def new (config : Config.Input) : Reader :=
  ⟨config, .reader, none, none, none, none, 0, 0, 0, false⟩

def place (r : Reader) (split : Split) : Replica :=
  match r.cursor with
  | some cursor => cursor.current
  | none => ⟨split.forest, split.host⟩

def release (srv : Server σ) (r : Reader) (w : Wire σ) : Reader × Wire σ :=
  match r.session with
  | some session => ({ r with session := none }, w.close srv session)
  | none => (r, w)

/-- Asks for the records behind those already read, over a new session. A session whose query fails
is closed again. -/
def connect (srv : Server σ) (split : Split) (r : Reader) (w : Wire σ) :
    Except (Fault RequestError) Unit × Reader × Wire σ :=
  match Word.add split.start r.read with
  | .error fault => (.error fault, r, w)
  | .ok start =>
    let place := r.place split
    let query : RangeQuery := ⟨place.forest, start, if split.isLast then none else split.stop,
      r.config.query, split.redactionRules⟩
    match w.openSession srv ⟨place.host, r.config.port, some place.forest⟩ .auto with
    | (.error e, w) => (.error (.failed e), r, w)
    | (.ok session, w) =>
      match w.range srv session query with
      | (.ok (), w) => (.ok (), { r with session := some session }, w)
      | (.error e, w) => (.error (.failed e), r, w.close srv session)

/-- Fails over until `resume` gets through on a new stream, `left` times at most. -/
def recover {α : Type} (srv : Server σ) (split : Split)
    (resume : Reader → Wire σ → Except RequestError α × Reader × Wire σ) :
    Nat → RequestError → Reader → Wire σ → Except (Fault TransferError) α × Reader × Wire σ
  | left, e, r, w =>
    let giveUp (n : Notice) (cause : TransferError) (r : Reader) :
        Except (Fault TransferError) α × Reader × Wire σ :=
      (.error (.failed cause), r.release srv (w.note n))
    if e.isRetryable then
      match r.cursor, left with
      | none, _ => giveUp (.readStranded split.forest.text e) (.request e) r
      | some _, 0 =>
        let failures := r.failures + 1
        giveUp (.readExhausted split.forest.text failures e)
          (.retriesExhausted .splitRead failures e) { r with failures := failures }
      | some cursor, left + 1 =>
        let next := cursor.advance
        let failures := r.failures + 1
        let pause := r.retry.backoff failures
        match release srv { r with cursor := some next, failures := failures } w with
        | (r, w) =>
          let w := w.note (.readRetried split.forest.text next.current.forest.text
            next.current.host failures pause (r.read.toNat + 1) e)
          match connect srv split { r with failovers := r.failovers + 1 } (w.wait srv pause) with
          | (.error (.overflow kind), r, w) => (.error (.overflow kind), r, w)
          | (.error (.failed e), r, w) => recover srv split resume left e r w
          | (.ok (), r, w) =>
            match resume r w with
            | (.ok a, r, w) => (.ok a, r, w)
            | (.error e, r, w) => recover srv split resume left e r w
    else giveUp (.readFailed split.forest.text e) (.request e) r

/-- How often a reader may still fail over before a record comes through. -/
def budget (r : Reader) : Nat := r.retry.maxAttempts - 1 - r.failures

def start (srv : Server σ) (split : Split) (r : Reader) (w : Wire σ) :
    Except (Fault TransferError) Unit × Reader × Wire σ :=
  match r.release srv w with
  | (r, w) =>
    let r : Reader := { r with
      split := some split
      cursor := ReplicaCursor.new split.replicas split.host
      current := none
      read := 0
      failures := 0
      failovers := 0
      done := false }
    match r.connect srv split w with
    | (.ok (), r, w) => (.ok (), r, w)
    | (.error (.overflow kind), r, w) => (.error (.overflow kind), r, w)
    | (.error (.failed e), r, w) => recover srv split (fun r w => (.ok (), r, w)) r.budget e r w

def fetch (srv : Server σ) (r : Reader) (w : Wire σ) :
    Except RequestError (Option Item) × Reader × Wire σ :=
  match r.session with
  | some session =>
    match w.next srv session with
    | (answer, w) => (answer, r, w)
  | none => (.ok none, r, w)

def settle (srv : Server σ) (r : Reader) (w : Wire σ) :
    Option Item → Except (Fault TransferError) Bool × Reader × Wire σ
  | some (.record d) =>
    match Word.add r.read 1 with
    | .ok read => (.ok true, { r with read := read, failures := 0, current := some d }, w)
    | .error fault => (.error fault, r, w)
  | some item => (.error (.failed (.protocol (.notDocument item.typeName))), r, w)
  | none => (.ok false, release srv { r with done := true, current := none } w)

def next (srv : Server σ) (r : Reader) (w : Wire σ) :
    Except (Fault TransferError) Bool × Reader × Wire σ :=
  if r.done then (.ok false, r, w)
  else
    match r.split, r.session with
    | some split, some _ =>
      match r.fetch srv w with
      | (.ok item, r, w) => r.settle srv w item
      | (.error e, r, w) =>
        match recover srv split (fetch srv) r.budget e r w with
        | (.ok item, r, w) => r.settle srv w item
        | (.error fault, r, w) => (.error fault, r, w)
    | _, _ => (.error (.failed .closed), r, w)

/-- Reads on for as many records as asked for, and answers those that came with the last result. -/
def collect (srv : Server σ) :
    Nat → Reader → Wire σ → (List Record × Except (Fault TransferError) Bool) × Reader × Wire σ
  | 0, r, w => (([], .ok true), r, w)
  | n + 1, r, w =>
    match r.next srv w with
    | (.ok true, r, w) =>
      match collect srv n r w with
      | ((records, result), rest) => ((r.current.toList ++ records, result), rest)
    | (result, r, w) => (([], result), r, w)

def close (srv : Server σ) (r : Reader) (w : Wire σ) : Reader × Wire σ :=
  match r.release srv w with
  | (r, w) => ({ r with done := true }, w)

def progress {ε : Type} (r : Reader) : Except (Fault ε) Float32 :=
  if r.done then .ok 1.0
  else
    match r.split with
    | none => .ok 0.0
    | some split =>
      (split.size).map fun
        | none => 0.0
        | some size =>
          if size = 0 then 0.0
          else
            let part := r.read.toFloat32 / size.toFloat32
            if part < 1.0 then part else 1.0

end Reader

end ForestCourier
