import ForestCourier.Proofs.Writer.Charges
import ForestCourier.Proofs.Writer.Schedule

/-!
The turns of a flush. It makes the attempts of its delivery, the last of which gives its session up, too,
if it fails. Each attempt that fails leaves one failed request, at the target of its turn, and
a flush that gives up for want of attempts has gone that many turns round the failover targets of its
slot. So it has come to all of them if there are no more targets than attempts.
-/

namespace ForestCourier

def Event.failedAt? : Event → Option Target
  | .refused target _ _ => some target
  | .inserted session _ (.error _) => some session.target
  | .committed session (.error _) => some session.target
  | _ => none

theorem Event.failedAt?_eq (event : Event) :
    event.failedAt? = event.tried?.bind fun tried => if tried.2.isOk then none else some tried.1 := by
  cases event with
  | inserted session batch answer | committed session answer => cases answer <;> rfl
  | _ => rfl

namespace Writer

variable {σ : Type} {srv : Server σ} {terms : Terms}

theorem Route.round_succ (port : UInt16) (n : Nat) (route : Route) :
    route.round port (n + 1) = route.target port :: route.rotate.round port n := by
  rw [round, List.range_succ_eq_map, List.map_cons, List.map_map]
  rfl

theorem Attempt.At.failedAt {target : Target} {a : Attempt} (h : a.At target) {e : RequestError}
    (he : a.answer = .error e) : (a.requests ++ a.release).filterMap Event.failedAt? = [target] := by
  have hrelease : a.release.filterMap Event.failedAt? = [] := by
    refine List.filterMap_eq_nil_iff.mpr fun event hevent => ?_
    have hleft := h.release event hevent
    cases event with
    | rolledBack | closed => rfl
    | _ => cases hleft
  obtain ⟨n, hn⟩ := h.requests
  rw [he] at hn
  have hrequests := congrArg (List.filterMap (Option.bind · fun tried => if tried.2.isOk then none else some tried.1)) hn
  rw [List.filterMap_map] at hrequests
  rw [List.filterMap_append, hrelease, List.append_nil, funext Event.failedAt?_eq]
  refine hrequests.trans ?_
  rw [List.filterMap_append, List.filterMap_replicate_of_none rfl]
  rfl

theorem timeline_failedAt {port : UInt16} (retry : RetryPolicy) (n : Nat) {failed : List Attempt} {last : Attempt}
    {route : Route} (hbefore : ∀ (j : Nat) (a : Attempt), failed[j]? = some a →
      a.At ((Route.rotate^[j] route).target port))
    (hlast : last.At ((Route.rotate^[failed.length] route).target port))
    (herrors : ∀ a ∈ failed, ∃ e, a.answer = .error e) {e : RequestError} (he : last.answer = .error e) :
    (timeline retry n failed last).filterMap Event.failedAt? = route.round port (failed.length + 1) := by
  induction failed generalizing n route with
  | nil => exact hlast.failedAt he
  | cons a failed ih =>
    obtain ⟨e', he'⟩ := herrors a List.mem_cons_self
    have hrest : (timeline retry (n + 1) failed last).filterMap Event.failedAt? =
        route.rotate.round port (failed.length + 1) :=
      ih (n + 1) (fun j a hj => hbefore (j + 1) a hj) hlast fun a ha => herrors a (List.mem_cons_of_mem _ ha)
    rw [timeline, List.filterMap_append, (hbefore 0 a rfl).failedAt he', List.filterMap_cons_none rfl, hrest,
      List.length_cons, Route.round_succ port (failed.length + 1)]
    rfl

/-- A flush that a call makes, of a slot of the writer as it is then. -/
structure Flush (σ : Type) where
  slot : Nat
  closing : Bool
  writer : Writer
  site : Site σ

namespace Flush

def run (srv : Server σ) (f : Flush σ) : Step σ Unit := f.writer.flush srv f.slot f.closing f.site

def events (srv : Server σ) (f : Flush σ) : List Event :=
  let trace := (f.run srv).2.2.wire.trace
  trace.take (trace.length - f.site.wire.trace.length)

def missed (srv : Server σ) (f : Flush σ) : List Target :=
  ((f.events srv).filterMap Event.failedAt?).reverse

theorem events_eq {f : Flush σ} {events : List Event}
    (h : (f.run srv).2.2.wire.trace = events ++ f.site.wire.trace) : f.events srv = events := by
  have hlength : (events ++ f.site.wire.trace).length - f.site.wire.trace.length = events.length := by
    rw [List.length_append, Nat.add_sub_cancel]
  unfold Flush.events
  dsimp only
  rw [h, hlength, List.take_left]

end Flush

def pushFlushes (i : Nat) (content : Content) (w : Writer) (site : Site σ) : List (Flush σ) :=
  if (w.gather i content).isFull i then [⟨i, false, w.gather i content, site⟩] else []

def drainFlushes (srv : Server σ) : List Nat → Writer → Site σ → List (Flush σ)
  | [], _, _ => []
  | i :: is, w, site =>
    (if w.isBusy i then [⟨i, true, w, site⟩] else []) ++
      match w.drainSlot srv i site with
      | (.error _, _, _) => []
      | (.ok _, w, site) => drainFlushes srv is w site

def Call.flushes (srv : Server σ) : Call → Writer → Site σ → List (Flush σ)
  | write files uri source payload, w, site =>
    match w.receive srv files uri source payload site with
    | (.ok (.placed i content), w, site) => w.pushFlushes i content site
    | _ => []
  | close, w, site =>
    if w.closed then []
    else drainFlushes srv (List.range w.slots.length) { w with closed := true } site

theorem Aimed.drainFlushes {terms : Terms} {targets : Nat → List Target} {w : Writer}
    (h : w.Aimed terms targets) (srv : Server σ) (is : List Nat) (site : Site σ) :
    ∀ f ∈ Writer.drainFlushes srv is w site, f.writer.Aimed terms targets := by
  induction is generalizing w site with
  | nil =>
    intro f hf
    cases (show f ∈ ([] : List (Flush σ)) from hf)
  | cons i is ih =>
    have hslot := h.drainSlot srv i site
    intro f hf
    rw [Writer.drainFlushes] at hf
    rcases List.mem_append.mp hf with hf | hf
    · split at hf
      · rw [List.mem_singleton.mp hf]
        exact h
      · cases hf
    · split at hf
      · cases hf
      · next he =>
        rw [he] at hslot
        exact ih hslot _ f hf

theorem Aimed.flushes {terms : Terms} {targets : Nat → List Target} {w : Writer}
    (h : w.Aimed terms targets) (srv : Server σ) (call : Call) (site : Site σ) :
    ∀ f ∈ call.flushes srv w site, f.writer.Aimed terms targets := by
  intro f hf
  cases call with
  | write files uri source payload =>
    have hfound := h.found (found_receive srv files uri source payload w site)
    dsimp only [Call.flushes] at hf
    split at hf
    · next i content w₁ site₁ hr =>
      rw [hr] at hfound
      unfold pushFlushes at hf
      split at hf
      · rw [List.mem_singleton.mp hf]
        exact hfound.gather i content
      · cases hf
    · cases hf
  | close =>
    dsimp only [Call.flushes] at hf
    split at hf
    · cases hf
    · exact Aimed.drainFlushes (w := { w with closed := true }) ⟨h.kept, h.slots⟩ srv _ site f hf

theorem delivery_conducted (srv : Server σ) (closing : Bool) (w : Writer) {slot : Slot} (site : Site σ)
    (h : ∀ session, slot.session = some session → session.target = slot.route.target w.terms.port) :
    ∃ failed last, Delivery.Conducted w.terms (w.terms.maxAttempts - 1) 1 failed last
      (w.load closing slot site).1 (w.delivery srv closing slot site) :=
  Delivery.run_conducted srv w.terms _ _ 1 false h

/-- A flush of a slot as attempts: those that failed in passing, and the last. -/
structure Flush.Conducted (srv : Server σ) (slot : Slot) (failed : List Attempt) (last : Attempt)
    (f : Flush σ) : Prop where
  length : failed.length ≤ f.writer.terms.maxAttempts - 1
  events : (f.events srv).reverse = timeline f.writer.terms.retry 1 failed last
  before : ∀ (j : Nat) (a : Attempt), failed[j]? = some a →
    a.At ((Route.rotate^[j] slot.route).target f.writer.terms.port)
  ending : last.At ((Route.rotate^[failed.length] slot.route).target f.writer.terms.port)
  retried : ∀ a ∈ failed, ∃ e, a.answer = .error e ∧ e.isRetryable = true
  exhausted : ∀ e, last.answer = .error e → e.isRetryable = true → failed.length = f.writer.terms.maxAttempts - 1
  rotations : (f.run srv).2.1.stats.rotations = f.writer.stats.rotations +
    (List.range failed.length).countP fun j => (Route.rotate^[j] slot.route).moves
  route : ∃ slot', (f.run srv).2.1.slots[f.slot]? = some slot' ∧
    slot'.route = Route.rotate^[failed.length] slot.route
  succeeds : last.answer = .ok () → (f.run srv).1 = .ok ()
  /-- If the last attempt fails, too, its error decides, unless too much is charged to be given back. -/
  fails : ∀ e, last.answer = .error e →
    (f.run srv).1 = (Delivery.outcome e (failed.length + 1)).mapError .failed ∨
      ∃ kind, (f.run srv).1 = .error (.overflow kind) ∧
        UInt64.size ≤ slot.charged.toNat * f.writer.terms.batchSize.toNat

theorem flush_given_up {closing : Bool} {w : Writer} {site : Site σ} {i : Nat} {slot : Slot}
    (hi : w.slots[i]? = some slot) {e : RequestError} {n : Nat} {d : Delivery σ}
    (hd : w.delivery srv closing slot site = (.error (e, n), d)) :
    (w.flush srv i closing site).2.1.stats.rotations = d.stats.rotations ∧
      ((w.flush srv i closing site).1 = (Delivery.outcome e n).mapError .failed ∨
        ∃ kind, (w.flush srv i closing site).1 = .error (.overflow kind) ∧
          UInt64.size ≤ slot.charged.toNat * w.terms.batchSize.toNat) := by
  have hcharged : d.slot.charged = slot.charged := congrArg (fun bill => bill.2.1) (Delivery.bill_run hd)
  have hrotations : (d.clear srv w.terms).stats.rotations = d.stats.rotations :=
    congrArg Stats.rotations (Delivery.stats_discardSession srv w.terms d)
  cases hmul : Word.mul (ε := TransferError) d.slot.charged w.terms.batchSize with
  | ok count =>
    rw [flush_gives_back hi hd hmul]
    exact ⟨hrotations, .inl rfl⟩
  | error fault =>
    have hflush : w.flush srv i closing site = abandon srv i e n d (w.leave i) site := by
      unfold delivery at hd
      simp [flush, hi, hd]
    have hterms : (w.leave i).terms = w.terms := rfl
    rw [hflush, abandon, hterms, hmul]
    unfold Word.mul at hmul
    rw [hcharged] at hmul
    split at hmul
    · cases hmul
    · next hsize =>
      cases hmul
      exact ⟨hrotations, .inr ⟨.multiplication, rfl, Nat.le_of_not_lt hsize⟩⟩

theorem Attempt.At.give_up {target : Target} {a : Attempt} (h : a.At target) {e : RequestError}
    (he : a.answer = .error e) {release : List Event} (hrelease : ∀ event ∈ release, event.left? = some target) :
    Attempt.At target { a with release := release } :=
  ⟨h.requests, hrelease, fun hok => by cases he.symm.trans hok⟩

theorem flush_conducted (srv : Server σ) {f : Flush σ} {slot : Slot} (hi : f.writer.slots[f.slot]? = some slot)
    (h : ∀ session, slot.session = some session → session.target = slot.route.target f.writer.terms.port) :
    ∃ failed last, f.Conducted srv slot failed last := by
  obtain ⟨failed, last, hdelivery⟩ := delivery_conducted srv f.closing f.writer f.site h
  obtain ⟨slot', hslot', hroute, -, htrace, -⟩ := flush_settled srv f.closing f.site hi
  unfold settled at hroute htrace
  cases hd : f.writer.delivery srv f.closing slot f.site with
  | mk result d =>
    rw [hd] at hdelivery hroute htrace
    have hdroute : d.slot.route = Route.rotate^[failed.length] slot.route := hdelivery.route
    have hevents : d.wire.trace = (timeline f.writer.terms.retry 1 failed last).reverse ++ f.site.wire.trace :=
      hdelivery.trace
    cases result with
    | ok u =>
      have hf : f.run srv = (.ok (), (f.writer.leave f.slot).put f.slot d f.site) := by
        unfold delivery at hd
        simp [Flush.run, flush, hi, hd]
      refine ⟨failed, last, hdelivery.length, ?_, hdelivery.before, hdroute ▸ hdelivery.ending, hdelivery.retried,
        hdelivery.exhausted, ?_, ⟨slot', hslot', hroute.trans hdroute⟩, fun _ => congrArg Prod.fst hf,
        fun e he => ?_⟩
      · rw [Flush.events_eq (htrace.trans hevents), List.reverse_reverse]
      · rw [hf]
        exact hdelivery.rotations
      · cases hdelivery.of_ok.symm.trans he
    | error failure =>
      obtain ⟨e, n⟩ := failure
      obtain ⟨hlast, rfl⟩ := hdelivery.of_error
      obtain ⟨hrotations, hresult⟩ := flush_given_up hi hd
      obtain ⟨release, hreleased, hrelease⟩ := Delivery.discardSession_leaves srv f.writer.terms hdelivery.heads
      have hdiscarded : (d.discardSession srv f.writer.terms).slot.route = d.slot.route := by
        rw [Delivery.slot_discardSession]
      refine ⟨failed, { last with release := release }, hdelivery.length, ?_, hdelivery.before,
        hdroute ▸ hdelivery.ending.give_up hlast hrelease, hdelivery.retried, hdelivery.exhausted,
        hrotations.trans hdelivery.rotations, ⟨slot', hslot', hroute.trans (hdiscarded.trans hdroute)⟩,
        fun ha => ?_, fun e' he' => ?_⟩
      · have hall : (f.run srv).2.2.wire.trace =
            (timeline f.writer.terms.retry 1 failed last ++ release).reverse ++ f.site.wire.trace := by
          rw [List.reverse_append, List.append_assoc, ← hevents, ← hreleased]
          exact htrace
        rw [Flush.events_eq hall, List.reverse_reverse]
        exact (timeline_release _ 1 failed last hdelivery.kept release).symm
      · cases hlast.symm.trans ha
      · cases hlast.symm.trans he'
        exact hresult

/-- A flush that has used up its attempts made all of them, and all failed, at one target after the
other from the current one on. -/
theorem flush_exhausted {f : Flush σ} {targets : Nat → List Target} (h : f.writer.Aimed terms targets)
    {n : Nat} {e : RequestError}
    (hexhausted : (f.run srv).1 = .error (.failed (.retriesExhausted .batchWrite n e))) :
    ∃ slot, f.writer.slots[f.slot]? = some slot ∧ n = 1 + (terms.maxAttempts - 1) ∧
      f.missed srv = slot.route.round terms.port n := by
  cases hi : f.writer.slots[f.slot]? with
  | none =>
    rw [Flush.run, flush, hi] at hexhausted
    cases hexhausted
  | some slot =>
    have haims := h.slots f.slot slot hi
    rw [← h.kept] at haims ⊢
    obtain ⟨failed, last, hflush⟩ := flush_conducted srv hi haims.session
    refine ⟨slot, rfl, ?_⟩
    cases hanswer : last.answer with
    | ok u =>
      rw [hflush.succeeds hanswer] at hexhausted
      cases hexhausted
    | error e' =>
      obtain houtcome | ⟨kind, hoverflow, -⟩ := hflush.fails e' hanswer
      · rw [houtcome] at hexhausted
        unfold Delivery.outcome at hexhausted
        split at hexhausted
        · cases hexhausted
        · next hretryable =>
          cases hexhausted
          have hall := hflush.exhausted e hanswer (by rw [RequestError.isRetryable, hretryable]; rfl)
          refine ⟨by rw [hall, Nat.add_comm], ?_⟩
          rw [Flush.missed, ← List.filterMap_reverse, hflush.events]
          exact timeline_failedAt _ 1 hflush.before hflush.ending
            (fun a ha => (hflush.retried a ha).imp fun _ => And.left) hanswer
        · cases hexhausted
      · rw [hoverflow] at hexhausted
        cases hexhausted

/-- A flush that ends for want of attempts has made all of them: three where a transaction spans several
batches and else fifteen. They went round the failover targets that are known for the slot, one after
the other from the one on that was current, and so to each of them if there are no more of them than
attempts. -/
theorem targets_tried {config : Config.Output} {fastLoad : Bool} {m : Placement.Manager} {task : Nat}
    {w : Writer} (hw : Writer.new config fastLoad m task = .ok w) (srv : Server σ) (site : Site σ)
    (calls : List Call) (call : Call) (f : Flush σ)
    (hf : f ∈ call.flushes srv (Course.follow srv calls (.start w site)).writer
      (Course.follow srv calls (.start w site)).site)
    {n : Nat} {e : RequestError}
    (hexhausted : (f.run srv).1 = .error (.failed (.retriesExhausted .batchWrite n e))) :
    let targets := targetsFor config fastLoad m f.slot
    n = (if 1 < config.transactionSize then 3 else 15) ∧ (f.missed srv).length = n ∧
      (∃ slot, f.writer.slots[f.slot]? = some slot ∧
        targets[slot.route.position]? = some (slot.route.target config.port) ∧
        ∀ j < n, (f.missed srv)[j]? = targets[(slot.route.position + j) % targets.length]?) ∧
      (targets.length ≤ n → ∀ target ∈ targets, target ∈ f.missed srv) := by
  intro targets
  have hcourse : (Course.follow srv calls (.start w site)).writer.Aimed w.terms
      (targetsFor config fastLoad m) :=
    Course.follow_induction (P := fun c => c.writer.Aimed w.terms (targetsFor config fastLoad m))
      (aimed_new hw) (fun c call h => h.run srv call c.site) calls
  have haimed := hcourse.flushes srv call _ f hf
  obtain ⟨slot, hslot, hn, hmissed⟩ := flush_exhausted haimed hexhausted
  have haims := haimed.slots f.slot slot hslot
  have hknown : targets = slot.route.known w.terms.port := haims.known.symm
  have hport : w.terms.port = config.port := by rw [(new_terms hw).2]
  refine ⟨?_, ?_, ⟨slot, hslot, ?_, fun j hj => ?_⟩, fun hall target htarget => ?_⟩
  · rw [hn, (new_terms hw).2]
    dsimp only [Terms.maxAttempts]
    split
    · rfl
    · rfl
  · rw [hmissed, Route.round, List.length_map, List.length_range]
  · rw [hknown, Route.getElem?_position, hport]
  · rw [hmissed, haims.tidy.getElem?_round hj, hknown]
  · rw [hmissed]
    rw [hknown] at hall htarget
    exact haims.tidy.mem_round hall htarget

theorem mem_flushes_close (srv : Server σ) {w : Writer} (site : Site σ) (hopen : w.closed = false)
    (hbusy : w.isBusy 0 = true) :
    ⟨0, true, { w with closed := true }, site⟩ ∈ Call.close.flushes srv w site := by
  have hslots : ∃ n, w.slots.length = n + 1 := by
    cases hw : w.slots with
    | nil => simp [isBusy, hw] at hbusy
    | cons slot slots => exact ⟨slots.length, rfl⟩
  obtain ⟨n, hn⟩ := hslots
  have hfirst : ({ w with closed := true } : Writer).isBusy 0 = true := hbusy
  simp only [Call.flushes, hopen, Bool.false_eq_true, if_false, hn, List.range_succ_eq_map]
  rw [drainFlushes, if_pos hfirst]
  exact List.mem_cons_self

namespace Sample

/-- Accepts no session on the hosts that are down, and otherwise does whatever is asked. -/
def partlyDown (down : List String) : Server Unit where
  accept session s :=
    (if session.target.host ∈ down then .error (.connection "refused") else .ok (), s)
  insert _ _ s := (.ok [], s)
  commit _ s := (.ok (), s)
  rollback _ s := (.ok (), s)
  submit _ _ s := (.ok [], s)
  range _ _ s := (.ok (), s)
  next _ s := (.ok none, s)
  close _ s := (.ok (), s)
  wait _ s := s

def lastFlush (down : List String) (m : Placement.Manager) (w : Writer) : Flush Unit :=
  let c := Course.follow (partlyDown down) [call 1] (.start w ⟨m, .zero, .new ()⟩)
  ⟨0, true, { c.writer with closed := true }, c.site⟩

end Sample

/-- Both replicas are down, and three attempts come to both of them. -/
theorem targets_tried_down :
    ∃ w, Writer.new (Sample.config 2) true Sample.manager 0 = .ok w ∧
      (Sample.lastFlush ["a", "b"] Sample.manager w).missed (Sample.partlyDown ["a", "b"]) =
        [⟨"a", 8006, some ⟨"1"⟩⟩, ⟨"b", 8006, some ⟨"2"⟩⟩, ⟨"a", 8006, some ⟨"1"⟩⟩] ∧
      ∀ target ∈ targetsFor (Sample.config 2) true Sample.manager 0, target ∈
        (Sample.lastFlush ["a", "b"] Sample.manager w).missed (Sample.partlyDown ["a", "b"]) := by
  have hw : ∃ w, Writer.new (Sample.config 2) true Sample.manager 0 = .ok w := ⟨_, rfl⟩
  obtain ⟨w, hw⟩ := hw
  have hflush : Sample.lastFlush ["a", "b"] Sample.manager w ∈
      Call.close.flushes (Sample.partlyDown ["a", "b"])
        (Course.follow (Sample.partlyDown ["a", "b"]) [Sample.call 1]
          (.start w ⟨Sample.manager, .zero, .new ()⟩)).writer
        (Course.follow (Sample.partlyDown ["a", "b"]) [Sample.call 1]
          (.start w ⟨Sample.manager, .zero, .new ()⟩)).site := by
    cases hw
    exact mem_flushes_close _ _ (by decide +kernel) (by decide +kernel)
  have hexhausted : ((Sample.lastFlush ["a", "b"] Sample.manager w).run
      (Sample.partlyDown ["a", "b"])).1 =
        .error (.failed (.retriesExhausted .batchWrite 3 (.connection "refused"))) := by
    cases hw
    decide +kernel
  refine ⟨w, hw, ?_, ?_⟩
  · cases hw
    decide +kernel
  · exact (targets_tried hw (Sample.partlyDown ["a", "b"]) ⟨Sample.manager, .zero, .new ()⟩
      [Sample.call 1] .close _ hflush hexhausted).2.2.2 (Nat.le_succ 2)

namespace Sample

/-- A forest with more replicas than a transaction of several batches gets attempts. -/
def wide : Placement.Manager where
  topology := ⟨[⟨⟨"1"⟩, "a", true,
    [⟨⟨"1"⟩, "a"⟩, ⟨⟨"2"⟩, "b"⟩, ⟨⟨"3"⟩, "c"⟩, ⟨⟨"4"⟩, "d"⟩], 0⟩]⟩
  updatable := [0]
  policy := .legacy 1
  batchSize := 100

/-- What a configuration amounts to that names an output host and nothing else. -/
def standard : Config.Output where
  hosts := ["a"]
  port := 8000
  fastLoad := none
  policy := none
  batchSize := 100
  transactionSize := 10
  content := .standard
  uriPrefix := ""
  uriSuffix := ""
  partition := none
  restrictHosts := false
  mode := .inProcess

end Sample

/-- With more failover targets than attempts, a flush gives up without having come to a target that is
up. -/
theorem target_untried :
    Config.Output.ofOptions (.ofList [(Config.Key.outputHost, "a")]) = .ok Sample.standard ∧
      Placement.Manager.new .legacy Sample.wide.topology 100 none = .ok Sample.wide ∧
      ∃ w, Writer.new Sample.standard true Sample.wide 0 = .ok w ∧
        let down := ["a", "b", "c"]
        let c := Course.follow (Sample.partlyDown down) [Sample.call 1]
          (.start w ⟨Sample.wide, .zero, .new ()⟩)
        Sample.lastFlush down Sample.wide w ∈
            Call.close.flushes (Sample.partlyDown down) c.writer c.site ∧
          ((Sample.lastFlush down Sample.wide w).run (Sample.partlyDown down)).1 =
            .error (.failed (.retriesExhausted .batchWrite 3 (.connection "refused"))) ∧
          ⟨"d", 8000, some ⟨"4"⟩⟩ ∈ targetsFor Sample.standard true Sample.wide 0 ∧
          ⟨"d", 8000, some ⟨"4"⟩⟩ ∉
            (Sample.lastFlush down Sample.wide w).missed (Sample.partlyDown down) := by
  refine ⟨by decide +kernel, by decide +kernel, ?_⟩
  have hw : ∃ w, Writer.new Sample.standard true Sample.wide 0 = .ok w := ⟨_, rfl⟩
  obtain ⟨w, hw⟩ := hw
  refine ⟨w, hw, ?_, ?_, ?_, ?_⟩
  · cases hw
    exact mem_flushes_close _ _ (by decide +kernel) (by decide +kernel)
  · cases hw
    decide +kernel
  · decide +kernel
  · cases hw
    decide +kernel

end Writer

end ForestCourier
