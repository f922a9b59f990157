import Mathlib.Logic.Function.Basic
import ForestCourier.Proofs.Writer.Rejection

/-!
What a server with transactions has, read off the requests that it answered. An insert that succeeds
keeps the documents that it does not reject: without transactions they are stored at once, within
one the session holds them uncommitted. A commit that succeeds stores what its session holds, in the
order of insertion; a commit that fails, a rollback and a close drop it. An insert that fails leaves
nothing.
-/

namespace ForestCourier

/-- The documents that each session holds uncommitted, and all stored documents, oldest first, with
the session that each of them came by. -/
structure Ledger where
  held : Nat → List Content
  stored : List (Nat × Content)

namespace Ledger

def empty : Ledger := ⟨fun _ => [], []⟩

def hold (l : Ledger) (n : Nat) (docs : List Content) : Ledger :=
  { l with held := Function.update l.held n docs }

def store (l : Ledger) (n : Nat) (docs : List Content) : Ledger :=
  { l with stored := l.stored ++ docs.map fun doc => (n, doc) }

@[simp] theorem held_hold (l : Ledger) (n : Nat) (docs : List Content) :
    (l.hold n docs).held n = docs :=
  Function.update_self ..

theorem held_hold_of_ne (l : Ledger) {n m : Nat} (h : m ≠ n) (docs : List Content) :
    (l.hold n docs).held m = l.held m := Function.update_of_ne h ..

@[simp] theorem stored_hold (l : Ledger) (n : Nat) (docs : List Content) :
    (l.hold n docs).stored = l.stored := rfl

@[simp] theorem held_store (l : Ledger) (n : Nat) (docs : List Content) :
    (l.store n docs).held = l.held := rfl

@[simp] theorem stored_store (l : Ledger) (n : Nat) (docs : List Content) :
    (l.store n docs).stored = l.stored ++ docs.map fun doc => (n, doc) := rfl

def take (l : Ledger) (session : Session) (docs : List Content) : Ledger :=
  match session.transaction with
  | .auto => l.store session.number docs
  | .update => l.hold session.number (l.held session.number ++ docs)

theorem take_nil (l : Ledger) (session : Session) : l.take session [] = l := by
  unfold take
  split
  · simp [store]
  · simp [hold]

def record (l : Ledger) : Event → Ledger
  | .opened session => l.hold session.number []
  | .inserted session batch (.ok rejections) => l.take session (Writer.kept batch rejections)
  | .committed session (.ok ()) =>
    (l.store session.number (l.held session.number)).hold session.number []
  | .committed session (.error _) => l.hold session.number []
  | .rolledBack session _ => l.hold session.number []
  | .closed session _ => l.hold session.number []
  | .inserted _ _ (.error _) | .refused .. | .submitted .. | .ranged .. | .fetched .. | .waited _ => l

def ofTrace : List Event → Ledger
  | [] => empty
  | event :: events => (ofTrace events).record event

end Ledger

namespace Wire

variable {σ : Type}

def ledger (w : Wire σ) : Ledger := .ofTrace w.trace

@[simp] theorem ledger_new (state : σ) : (new state).ledger = .empty := rfl

@[simp] theorem ledger_after (w : Wire σ) (state : σ) (event : Event) :
    (w.after state event).ledger = w.ledger.record event := rfl

@[simp] theorem ledger_note (w : Wire σ) (n : Notice) : (w.note n).ledger = w.ledger := rfl

@[simp] theorem opened_note (w : Wire σ) (n : Notice) : (w.note n).opened = w.opened := rfl

@[simp] theorem ledger_foldl_note (notices : List Notice) (w : Wire σ) :
    (notices.foldl note w).ledger = w.ledger := by
  induction notices generalizing w with
  | nil => rfl
  | cons n ns ih => rw [List.foldl_cons, ih, ledger_note]

@[simp] theorem opened_foldl_note (notices : List Notice) (w : Wire σ) :
    (notices.foldl note w).opened = w.opened := by
  induction notices generalizing w with
  | nil => rfl
  | cons n ns ih => rw [List.foldl_cons, ih, opened_note]

@[simp] theorem ledger_close (srv : Server σ) (session : Session) (w : Wire σ) :
    (w.close srv session).ledger = w.ledger.hold session.number [] := rfl

@[simp] theorem ledger_rollback (srv : Server σ) (session : Session) (w : Wire σ) :
    (w.rollback srv session).ledger = w.ledger.hold session.number [] := rfl

theorem openSession_ok {srv : Server σ} {target : Target} {transaction : Transaction}
    {session : Session} {w w' : Wire σ}
    (h : w.openSession srv target transaction = (.ok session, w')) :
    session = ⟨w.opened + 1, target, transaction⟩ ∧ w'.opened = w.opened + 1 ∧
      w'.ledger = w.ledger.hold session.number [] := by
  unfold openSession at h
  dsimp only at h
  split at h
  · cases h
    exact ⟨rfl, rfl, rfl⟩
  · cases h

theorem openSession_error {srv : Server σ} {target : Target} {transaction : Transaction}
    {e : RequestError} {w w' : Wire σ} (h : w.openSession srv target transaction = (.error e, w')) :
    w'.opened = w.opened ∧ w'.ledger = w.ledger := by
  unfold openSession at h
  dsimp only at h
  split at h
  · cases h
  · cases h
    exact ⟨rfl, rfl⟩

theorem insert_ok {srv : Server σ} {session : Session} {batch : List Content}
    {rejections : List Rejection} {w w' : Wire σ}
    (h : w.insert srv session batch = (.ok rejections, w')) :
    (srv.insert session batch w.state).1 = .ok rejections ∧ w'.opened = w.opened ∧
      w'.ledger = w.ledger.take session (Writer.kept batch rejections) := by
  simp only [insert, Prod.mk.injEq] at h
  obtain ⟨hanswer, rfl⟩ := h
  refine ⟨hanswer, rfl, ?_⟩
  rw [ledger_after, hanswer]
  rfl

theorem insert_error {srv : Server σ} {session : Session} {batch : List Content} {e : RequestError}
    {w w' : Wire σ} (h : w.insert srv session batch = (.error e, w')) :
    w'.opened = w.opened ∧ w'.ledger = w.ledger := by
  simp only [insert, Prod.mk.injEq] at h
  obtain ⟨hanswer, rfl⟩ := h
  refine ⟨rfl, ?_⟩
  rw [ledger_after, hanswer]
  rfl

theorem commit_ok {srv : Server σ} {session : Session} {w w' : Wire σ}
    (h : w.commit srv session = (.ok (), w')) :
    w'.opened = w.opened ∧ w'.ledger =
      (w.ledger.store session.number (w.ledger.held session.number)).hold session.number [] := by
  simp only [commit, Prod.mk.injEq] at h
  obtain ⟨hanswer, rfl⟩ := h
  refine ⟨rfl, ?_⟩
  rw [ledger_after, hanswer]
  rfl

theorem commit_error {srv : Server σ} {session : Session} {e : RequestError} {w w' : Wire σ}
    (h : w.commit srv session = (.error e, w')) :
    w'.opened = w.opened ∧ w'.ledger = w.ledger.hold session.number [] := by
  simp only [commit, Prod.mk.injEq] at h
  obtain ⟨hanswer, rfl⟩ := h
  refine ⟨rfl, ?_⟩
  rw [ledger_after, hanswer]
  rfl

end Wire

/-- The server rejects documents by a property of the document alone. -/
def Server.RejectsBy {σ : Type} (srv : Server σ) (p : Content → Bool) : Prop :=
  ∀ session docs state rejections, (srv.insert session docs state).1 = .ok rejections →
    ∀ i doc, docs[i]? = some doc → rejections.any (fun r => r.index == i) = p doc

end ForestCourier
