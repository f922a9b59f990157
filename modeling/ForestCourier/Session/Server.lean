import ForestCourier.Notice
import ForestCourier.Session.Basic

/-!
The other side of a session, as far as a client can tell: a server is any set of functions that
answer requests out of a state of its own. The client sees it over a wire, which numbers the sessions
that it opens and keeps, newest first, every request with its answer and every notice given.
-/

namespace ForestCourier

/-- Answers to requests. The stream that a range query starts is read through its session. -/
structure Server (σ : Type) where
  accept : Session → σ → Except RequestError Unit × σ
  insert : Session → List Content → σ → Except RequestError (List Rejection) × σ
  commit : Session → σ → Except RequestError Unit × σ
  rollback : Session → σ → Except RequestError Unit × σ
  submit : Session → Query → σ → Except RequestError (List Item) × σ
  range : Session → RangeQuery → σ → Except RequestError Unit × σ
  next : Session → σ → Except RequestError (Option Item) × σ
  close : Session → σ → Except RequestError Unit × σ
  wait : Duration → σ → σ

inductive Event where
  | opened (session : Session)
  | refused (target : Target) (transaction : Transaction) (error : RequestError)
  | inserted (session : Session) (batch : List Content)
      (answer : Except RequestError (List Rejection))
  | committed (session : Session) (answer : Except RequestError Unit)
  | rolledBack (session : Session) (answer : Except RequestError Unit)
  | submitted (session : Session) (query : Query) (answer : Except RequestError (List Item))
  | ranged (session : Session) (query : RangeQuery) (answer : Except RequestError Unit)
  | fetched (session : Session) (answer : Except RequestError (Option Item))
  | closed (session : Session) (answer : Except RequestError Unit)
  | waited (pause : Duration)

structure Wire (σ : Type) where
  state : σ
  opened : Nat
  trace : List Event
  notices : List Notice

namespace Wire

variable {σ : Type}

def new (state : σ) : Wire σ := ⟨state, 0, [], []⟩

def note (w : Wire σ) (n : Notice) : Wire σ := { w with notices := n :: w.notices }

def after (w : Wire σ) (state : σ) (e : Event) : Wire σ :=
  { w with state := state, trace := e :: w.trace }

def openSession (srv : Server σ) (target : Target) (transaction : Transaction) (w : Wire σ) :
    Except RequestError Session × Wire σ :=
  let session : Session := ⟨w.opened + 1, target, transaction⟩
  match srv.accept session w.state with
  | (.ok (), s) => (.ok session, { w.after s (.opened session) with opened := w.opened + 1 })
  | (.error e, s) => (.error e, w.after s (.refused target transaction e))

def insert (srv : Server σ) (session : Session) (batch : List Content) (w : Wire σ) :
    Except RequestError (List Rejection) × Wire σ :=
  match srv.insert session batch w.state with
  | (answer, s) => (answer, w.after s (.inserted session batch answer))

def commit (srv : Server σ) (session : Session) (w : Wire σ) : Except RequestError Unit × Wire σ :=
  match srv.commit session w.state with
  | (answer, s) => (answer, w.after s (.committed session answer))

/-- Nothing hangs on the answer: the session is given up anyway. -/
def rollback (srv : Server σ) (session : Session) (w : Wire σ) : Wire σ :=
  match srv.rollback session w.state with
  | (answer, s) => w.after s (.rolledBack session answer)

def submit (srv : Server σ) (session : Session) (query : Query) (w : Wire σ) :
    Except RequestError (List Item) × Wire σ :=
  match srv.submit session query w.state with
  | (answer, s) => (answer, w.after s (.submitted session query answer))

def range (srv : Server σ) (session : Session) (query : RangeQuery) (w : Wire σ) :
    Except RequestError Unit × Wire σ :=
  match srv.range session query w.state with
  | (answer, s) => (answer, w.after s (.ranged session query answer))

def next (srv : Server σ) (session : Session) (w : Wire σ) :
    Except RequestError (Option Item) × Wire σ :=
  match srv.next session w.state with
  | (answer, s) => (answer, w.after s (.fetched session answer))

/-- Nothing hangs on the answer: a closed session is gone either way. -/
def close (srv : Server σ) (session : Session) (w : Wire σ) : Wire σ :=
  match srv.close session w.state with
  | (answer, s) => w.after s (.closed session answer)

def wait (srv : Server σ) (pause : Duration) (w : Wire σ) : Wire σ :=
  w.after (srv.wait pause w.state) (.waited pause)

end Wire

end ForestCourier
