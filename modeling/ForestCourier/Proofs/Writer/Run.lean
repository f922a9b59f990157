import Mathlib.Data.List.Induction
import ForestCourier.Proofs.Placement.Bounds
import ForestCourier.Writer.Basic

/-!
Runs of a writer: any calls, one after the other, against any server. A `Course` is a run so far. Next
to the writer and its site it keeps what each document came to, what was done on each slot and how
each call ended, so that statements can speak of them; the writer itself sees none of this.
-/

namespace ForestCourier.Writer

variable {σ : Type}

inductive Call where
  | write (files : FileStore) (uri : Uri) (source : Option Source) (payload : Payload)
  | close

/-- Work of one call on one slot: how the delivery of its batch ended, if there was one, and how many
sessions had been opened before and after. -/
structure Stint where
  slot : Nat
  outcome : Except (RequestError × Nat) Unit
  before : Nat
  after : Nat

def opens (stints : List Stint) (i n : Nat) : Bool :=
  stints.any fun t => t.slot == i && decide (t.before < n ∧ n ≤ t.after)

/-- The answers to the queries of a trace, newest first. -/
def answered (trace : List Event) : List (Except RequestError (List Item)) :=
  trace.filterMap fun
    | .submitted _ _ answer => some answer
    | _ => none

structure Course (σ : Type) where
  writer : Writer
  site : Site σ
  /-- What each call brought, nothing if it brought no document that is accounted for. -/
  receipts : List (Option Receipt)
  stints : List Stint
  /-- What each call asked of the server, newest first. -/
  events : List (List Event)
  results : List (Except (Fault TransferError) Unit)

def outcome (srv : Server σ) (i : Nat) (closing : Bool) (w : Writer) (site : Site σ) :
    Except (RequestError × Nat) Unit :=
  match w.slots[i]? with
  | none => .ok ()
  | some slot =>
    match w.load closing slot site with
    | (d, ending) => (d.deliver srv w.terms ending).1

def pushStint (srv : Server σ) (i : Nat) (content : Content) (w : Writer) (site : Site σ) : Stint where
  slot := i
  outcome :=
    if (w.gather i content).isFull i then (w.gather i content).outcome srv i false site else .ok ()
  before := site.wire.opened
  after := (w.push srv i content site).2.2.wire.opened

def drainStint (srv : Server σ) (i : Nat) (w : Writer) (site : Site σ) : Stint where
  slot := i
  outcome := if w.isBusy i then w.outcome srv i true site else .ok ()
  before := site.wire.opened
  after := (w.drainSlot srv i site).2.2.wire.opened

def drainStints (srv : Server σ) : List Nat → Writer → Site σ → List Stint
  | [], _, _ => []
  | i :: is, w, site =>
    w.drainStint srv i site ::
      match w.drainSlot srv i site with
      | (.error _, _, _) => []
      | (.ok _, w, site) => drainStints srv is w site

namespace Call

def run (srv : Server σ) : Call → Writer → Site σ → Step σ Unit
  | write files uri source payload, w, site => w.write srv files uri source payload site
  | close, w, site => w.close srv site

def receipt (srv : Server σ) : Call → Writer → Site σ → Option Receipt
  | write files uri source payload, w, site =>
    (w.receive srv files uri source payload site).1.toOption
  | close, _, _ => none

def stints (srv : Server σ) : Call → Writer → Site σ → List Stint
  | write files uri source payload, w, site =>
    match w.receive srv files uri source payload site with
    | (.ok (.placed i content), w, site) => [w.pushStint srv i content site]
    | _ => []
  | close, w, site =>
    if w.closed then []
    else drainStints srv (List.range w.slots.length) { w with closed := true } site

def events (srv : Server σ) (call : Call) (w : Writer) (site : Site σ) : List Event :=
  let trace := (call.run srv w site).2.2.wire.trace
  trace.take (trace.length - site.wire.trace.length)

end Call

namespace Course

def start (w : Writer) (site : Site σ) : Course σ := ⟨w, site, [], [], [], []⟩

def step (srv : Server σ) (c : Course σ) (call : Call) : Course σ :=
  match call.run srv c.writer c.site with
  | (result, w, site) =>
    { writer := w
      site := site
      receipts := c.receipts ++ [call.receipt srv c.writer c.site]
      stints := c.stints ++ call.stints srv c.writer c.site
      events := c.events ++ [call.events srv c.writer c.site]
      results := c.results ++ [result] }

def follow (srv : Server σ) (calls : List Call) (c : Course σ) : Course σ :=
  calls.foldl (step srv) c

def answers (c : Course σ) : List (List (Except RequestError (List Item))) := c.events.map answered

theorem follow_append (srv : Server σ) (calls : List Call) (call : Call) (c : Course σ) :
    follow srv (calls ++ [call]) c = (follow srv calls c).step srv call := by
  simp [follow, List.foldl_append]

/-- No call was abandoned for an overflow. -/
def Unbroken (c : Course σ) : Prop :=
  ∀ result ∈ c.results, ∀ kind, result ≠ .error (.overflow kind)

instance (c : Course σ) : Decidable c.Unbroken :=
  decidable_of_iff (c.results.all fun
    | .error (.overflow _) => false
    | _ => true) <| by
    rw [List.all_eq_true]
    refine forall₂_congr fun result _ => ?_
    rcases result with (cause | kind) | u
    · simp
    · simp
    · simp

theorem Unbroken.of_step {srv : Server σ} {c : Course σ} {call : Call}
    (h : (c.step srv call).Unbroken) :
    c.Unbroken ∧ ∀ kind, (call.run srv c.writer c.site).1 ≠ .error (.overflow kind) :=
  ⟨fun result hr => h result (List.mem_append_left _ hr), h _ (by simp [step])⟩

theorem Unbroken.of_follow {srv : Server σ} {calls : List Call} {c : Course σ}
    (h : (follow srv calls c).Unbroken) : c.Unbroken := by
  induction calls using List.reverseRecOn with
  | nil => exact h
  | append_singleton calls call ih =>
    rw [follow_append] at h
    exact ih h.of_step.1

theorem follow_induction {P : Course σ → Prop} {srv : Server σ} {c : Course σ} (h : P c)
    (hstep : ∀ c call, P c → P (c.step srv call)) (calls : List Call) : P (follow srv calls c) := by
  induction calls using List.reverseRecOn with
  | nil => exact h
  | append_singleton calls call ih =>
    rw [follow_append]
    exact hstep _ _ ih

def placedOn (i : Nat) : Option Receipt → Option Content
  | some (.placed j content) => if i = j then some content else none
  | _ => none

def pushed (c : Course σ) (i : Nat) : List Content := c.receipts.filterMap (placedOn i)

theorem pushed_step (srv : Server σ) (c : Course σ) (call : Call) (i : Nat) :
    (c.step srv call).pushed i =
      c.pushed i ++ (placedOn i (call.receipt srv c.writer c.site)).toList := by
  have hreceipts : (c.step srv call).receipts = c.receipts ++ [call.receipt srv c.writer c.site] :=
    rfl
  rw [pushed, pushed, hreceipts, List.filterMap_append, List.filterMap_cons, List.filterMap_nil]
  cases placedOn i (call.receipt srv c.writer c.site) <;> rfl

def skipped (c : Course σ) : Nat :=
  c.receipts.countP fun
    | some (.skipped _) => true
    | _ => false

def placed (c : Course σ) : Nat :=
  c.receipts.countP fun
    | some (.placed _ _) => true
    | _ => false

theorem skipped_add_placed_step (srv : Server σ) (c : Course σ) (call : Call) :
    (c.step srv call).skipped + (c.step srv call).placed =
      c.skipped + c.placed + (call.receipt srv c.writer c.site).toList.length := by
  have hreceipts : (c.step srv call).receipts = c.receipts ++ [call.receipt srv c.writer c.site] :=
    rfl
  simp only [skipped, placed, hreceipts, List.countP_append, List.countP_singleton]
  rcases call.receipt srv c.writer c.site with - | - | -
  · rfl
  · simp only [if_true, Bool.false_eq_true, if_false, Option.toList_some, List.length_singleton]
    omega
  · simp only [if_true, Bool.false_eq_true, if_false, Option.toList_some, List.length_singleton]
    omega

end Course

/-! A small job for examples: two forests that take turns, batches of two documents. -/

namespace Sample

def config (transactionSize : UInt64) : Config.Output where
  hosts := ["a", "b"]
  port := 8006
  fastLoad := some true
  policy := some .bucket
  batchSize := 2
  transactionSize := transactionSize
  content := .standard
  uriPrefix := "/in/"
  uriSuffix := ""
  partition := none
  restrictHosts := false
  mode := .inProcess

def topology : Topology where
  forests := [⟨⟨"1"⟩, "a", true, [⟨⟨"1"⟩, "a"⟩, ⟨⟨"2"⟩, "b"⟩], 0⟩, ⟨⟨"3"⟩, "b", true, [], 0⟩]

def manager : Placement.Manager := ⟨topology, [0, 1], .bucket ⟨2, 2, 0⟩, 2⟩

theorem reachable_manager : manager.Reachable :=
  .new (show Placement.Manager.new .bucket topology 2 none = _ from rfl)

def call (byte : UInt8) : Call := .write .empty ⟨"x"⟩ none (.binary [byte])

end Sample

end ForestCourier.Writer
