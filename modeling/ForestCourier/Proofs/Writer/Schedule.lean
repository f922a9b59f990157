import ForestCourier.Proofs.Writer.Aim
import ForestCourier.Proofs.Writer.Attempts

/-!
The schedule of a delivery. Each attempt makes its requests at one failover target and ends with the first
that fails. After all attempts but the last one the session is given up, the route turns to the next
target, and there is a pause, which grows with the number of failures.
-/

namespace ForestCourier

def Event.tried? : Event → Option (Target × Except RequestError Unit)
  | .opened session => some (session.target, .ok ())
  | .refused target _ e => some (target, .error e)
  | .inserted session _ answer => some (session.target, answer.map fun _ => ())
  | .committed session answer => some (session.target, answer)
  | _ => none

def Event.left? : Event → Option Target
  | .rolledBack session _ | .closed session _ => some session.target
  | _ => none

namespace Writer

/-- Requests at one target that were all answered, but for the last one if there is an error. -/
def Tried (target : Target) (answer : Except RequestError Unit) (requests : List Event) : Prop :=
  ∃ n, requests.map Event.tried? = List.replicate n (some (target, .ok ())) ++
    match answer with
    | .ok () => []
    | .error e => [some (target, .error e)]

namespace Tried

variable {target : Target} {answer : Except RequestError Unit} {requests requests' : List Event}

theorem nil (target : Target) : Tried target (.ok ()) [] := ⟨0, rfl⟩

theorem single {event : Event} (h : event.tried? = some (target, answer)) : Tried target answer [event] := by
  cases answer with
  | ok u => exact ⟨1, congrArg (fun tried => [tried]) h⟩
  | error e => exact ⟨0, congrArg (fun tried => [tried]) h⟩

theorem append (h : Tried target (.ok ()) requests) (h' : Tried target answer requests') :
    Tried target answer (requests ++ requests') := by
  obtain ⟨n, hn⟩ := h
  obtain ⟨n', hn'⟩ := h'
  refine ⟨n + n', ?_⟩
  rw [List.map_append, hn, hn', List.append_nil, ← List.append_assoc, ← List.replicate_add]

end Tried

/-- The requests of one attempt, those by which its session is given up afterwards, and its answer. -/
structure Attempt where
  requests : List Event
  release : List Event
  answer : Except RequestError Unit

structure Attempt.At (target : Target) (a : Attempt) : Prop where
  requests : Tried target a.answer a.requests
  release : ∀ event ∈ a.release, event.left? = some target
  kept : a.answer = .ok () → a.release = []

/-- Attempts that failed, the first of them number `n`, with a pause after each, and then the last attempt. -/
def timeline (retry : RetryPolicy) : Nat → List Attempt → Attempt → List Event
  | _, [], last => last.requests ++ last.release
  | n, a :: failed, last =>
    a.requests ++ a.release ++ .waited (retry.backoff n) :: timeline retry (n + 1) failed last

theorem timeline_release (retry : RetryPolicy) (n : Nat) (failed : List Attempt) (last : Attempt)
    (h : last.release = []) (release : List Event) :
    timeline retry n failed { last with release := release } = timeline retry n failed last ++ release := by
  induction failed generalizing n with
  | nil => rw [timeline, timeline, h, List.append_nil]
  | cons a failed ih => simp only [timeline, ih, List.append_assoc, List.cons_append]

namespace Delivery

variable {σ : Type} {srv : Server σ} {terms : Terms} {port : UInt16} {d d' d'' : Delivery σ}

def Heads (port : UInt16) (d : Delivery σ) : Prop :=
  ∀ session, d.slot.session = some session → session.target = d.slot.route.target port

def Visits (port : UInt16) (answer : Except RequestError Unit) (d d' : Delivery σ) : Prop :=
  d.Heads port → d'.slot.route = d.slot.route ∧ d'.Heads port ∧
    ∃ requests, d'.wire.trace = requests.reverse ++ d.wire.trace ∧
      Tried (d.slot.route.target port) answer requests

namespace Visits

variable {answer : Except RequestError Unit}

theorem trans (h : Visits port (.ok ()) d d') (h' : Visits port answer d' d'') : Visits port answer d d'' := by
  intro hheads
  obtain ⟨hroute, hheads', requests, htrace, htried⟩ := h hheads
  obtain ⟨hroute', hheads'', requests', htrace', htried'⟩ := h' hheads'
  rw [hroute] at htried'
  refine ⟨hroute'.trans hroute, hheads'', requests ++ requests', ?_, htried.append htried'⟩
  rw [htrace', htrace, List.reverse_append, List.append_assoc]

theorem of_cons {event : Event} {w : Wire σ} {session : Session} (hsession : d.slot.session = some session)
    (htrace : w.trace = event :: d.wire.trace) (htried : event.tried? = some (session.target, answer)) :
    Visits port answer d { d with wire := w } := fun hheads =>
  ⟨rfl, hheads, [event], htrace, .single (hheads session hsession ▸ htried)⟩

end Visits

theorem tries_visits (srv : Server σ) (terms : Terms) :
    Tries srv terms (Visits terms.port (.ok ())) (fun e => Visits terms.port (.error e)) where
  same {d d'} hroute hsession htrace _ hheads := by
    refine ⟨hroute, fun s hs => ?_, [], htrace, .nil _⟩
    rw [hroute]
    exact hheads s (hsession ▸ hs)
  trans := .trans
  fail := .trans
  accepted d session w hnone hopen _ := by
    have htarget : session.target = d.slot.route.target terms.port := by rw [(Wire.openSession_ok hopen).1]
    refine ⟨rfl, fun s hs => ?_, [.opened session], Wire.trace_openSession_ok hopen, .single ?_⟩
    · cases hs
      exact htarget
    · rw [← htarget]
      rfl
  refused d e w hnone hopen hheads := by
    refine ⟨rfl, hheads, [_], Wire.trace_openSession_error hopen, .single rfl⟩
  inserted session docs d rejections w hsession hinsert := .of_cons hsession (Wire.trace_insert hinsert).1 rfl
  notInserted session docs d e w hsession hinsert := .of_cons hsession (Wire.trace_insert hinsert).1 rfl
  committed _ session d w hsession hcommit := .of_cons hsession (Wire.trace_commit hcommit).1 rfl
  notCommitted _ session d e w hsession hcommit := .of_cons hsession (Wire.trace_commit hcommit).1 rfl

theorem rotations_insert (srv : Server σ) (session : Session) (docs : List Content) (d : Delivery σ) :
    (d.insert srv session docs).2.stats.rotations = d.stats.rotations := by
  unfold insert
  split
  · rfl
  · split
    · rfl
    · rfl

theorem steps_rotations (srv : Server σ) (terms : Terms) :
    AttemptSteps srv terms fun d d' => d'.stats.rotations = d.stats.rotations where
  refl _ := rfl
  trans h h' := h'.trans h
  ensureSession d := by
    unfold ensureSession
    split
    · rfl
    · split
      · rfl
      · rfl
  replayQueue session d := by
    have hinsert := rotations_insert srv session d.slot.queue d
    unfold replayQueue
    split
    · next h => rwa [h] at hinsert
    · next h => rwa [h] at hinsert
  insertBatch session d := by
    have hinsert := rotations_insert srv session d.batch d
    unfold insertBatch
    split
    · next h => rwa [h] at hinsert
    · next h => rwa [h] at hinsert
  settleAuto _ _ := rfl
  enqueue _ _ := rfl
  commit _ session d := by
    unfold commit
    split
    · rfl
    · rfl

theorem discardSession_leaves (srv : Server σ) (terms : Terms) (h : d.Heads port) :
    ∃ release : List Event, (d.discardSession srv terms).wire.trace = release.reverse ++ d.wire.trace ∧
      ∀ event ∈ release, event.left? = some (d.slot.route.target port) := by
  unfold discardSession
  split
  · exact ⟨[], rfl, nofun⟩
  · next session hsession =>
    have htarget := h session hsession
    dsimp only
    split
    · refine ⟨[.closed session _], rfl, fun event hevent => ?_⟩
      rw [List.mem_singleton.mp hevent, ← htarget]
      rfl
    · refine ⟨[.rolledBack session _, .closed session _], rfl, fun event hevent => ?_⟩
      rw [← htarget]
      rcases List.mem_cons.mp hevent with rfl | hevent
      · rfl
      · rw [List.mem_singleton.mp hevent]
        rfl

theorem failOver_turns (srv : Server σ) (terms : Terms) (e : RequestError) (n : Nat) (h : d.Heads terms.port) :
    (d.failOver srv terms e n).slot.route = d.slot.route.rotate ∧ (d.failOver srv terms e n).Heads terms.port ∧
      (d.failOver srv terms e n).stats.rotations = d.stats.rotations + (if d.slot.route.moves then 1 else 0) ∧
      ∃ release : List Event, (d.failOver srv terms e n).wire.trace =
          .waited (terms.retry.backoff n) :: (release.reverse ++ d.wire.trace) ∧
        ∀ event ∈ release, event.left? = some (d.slot.route.target terms.port) := by
  have hnone := session_discardSession srv terms d
  obtain ⟨release, htrace, hrelease⟩ := discardSession_leaves srv terms h
  refine ⟨rfl, fun s hs => ?_, ?_, release, congrArg _ htrace, hrelease⟩
  · simp only [failOver, hnone] at hs
    cases hs
  · simp only [failOver, stats_discardSession]
    split
    · rfl
    · rfl

/-- A delivery as attempts, number `n` first and at most `left` after it: those that failed in passing, and
the last, whose session is not given up yet. -/
structure Conducted (terms : Terms) (left n : Nat) (failed : List Attempt) (last : Attempt) (d : Delivery σ)
    (result : Except (RequestError × Nat) Unit × Delivery σ) : Prop where
  length : failed.length ≤ left
  route : result.2.slot.route = Route.rotate^[failed.length] d.slot.route
  heads : result.2.Heads terms.port
  trace : result.2.wire.trace = (timeline terms.retry n failed last).reverse ++ d.wire.trace
  kept : last.release = []
  before : ∀ (j : Nat) (a : Attempt), failed[j]? = some a →
    a.At ((Route.rotate^[j] d.slot.route).target terms.port)
  ending : last.At (result.2.slot.route.target terms.port)
  retried : ∀ a ∈ failed, ∃ e, a.answer = .error e ∧ e.isRetryable = true
  rotations : result.2.stats.rotations = d.stats.rotations +
    (List.range failed.length).countP fun j => (Route.rotate^[j] d.slot.route).moves
  answer : result.1 = last.answer.mapError (·, n + failed.length)
  exhausted : ∀ e, last.answer = .error e → e.isRetryable = true → failed.length = left

namespace Conducted

theorem of_ok {left n : Nat} {failed : List Attempt} {last : Attempt}
    (h : Conducted terms left n failed last d (.ok (), d')) : last.answer = .ok () := by
  have hanswer := h.answer
  cases ha : last.answer with
  | ok u => rfl
  | error e =>
    rw [ha] at hanswer
    cases hanswer

theorem of_error {left n m : Nat} {e : RequestError} {failed : List Attempt} {last : Attempt}
    (h : Conducted terms left n failed last d (.error (e, m), d')) :
    last.answer = .error e ∧ m = failed.length + n := by
  have hanswer := h.answer
  cases ha : last.answer with
  | ok u =>
    rw [ha] at hanswer
    cases hanswer
  | error e' =>
    rw [ha] at hanswer
    cases hanswer
    exact ⟨rfl, Nat.add_comm ..⟩

theorem single (left n : Nat) (stage : Stage) {answer : Except RequestError Unit} (h : d.Heads terms.port)
    (hattempt : Visits terms.port answer d d') (hrotations : d'.stats.rotations = d.stats.rotations)
    (hexhausted : ∀ e, answer = .error e → e.isRetryable = true → 0 = left) :
    ∃ last, Conducted terms left n [] last d
      (answer.mapError (·, n), { d' with slot := { d'.slot with stage := stage } }) := by
  obtain ⟨hroute, hheads, requests, htrace, htried⟩ := hattempt h
  rw [← hroute] at htried
  refine ⟨⟨requests, [], answer⟩, Nat.zero_le _, hroute, hheads, ?_, rfl, nofun, ⟨htried, nofun, fun _ => rfl⟩, nofun,
    hrotations, rfl, hexhausted⟩
  rw [timeline, List.append_nil]
  exact htrace

theorem cons {left n : Nat} {e : RequestError} {failed : List Attempt} {last : Attempt}
    {result : Except (RequestError × Nat) Unit × Delivery σ} (h : d.Heads terms.port)
    (hattempt : Visits terms.port (.error e) d d') (hrotations : d'.stats.rotations = d.stats.rotations)
    (hretryable : e.isRetryable = true)
    (hrest : Conducted terms left (n + 1) failed last (d'.failOver srv terms e n) result) :
    ∃ first, Conducted terms (left + 1) n (first :: failed) last d result := by
  obtain ⟨hroute, hheads, requests, htrace, htried⟩ := hattempt h
  obtain ⟨hnext, -, hmoved, release, hpause, hrelease⟩ := failOver_turns srv terms e n hheads
  rw [hroute] at hnext hmoved hrelease
  refine ⟨⟨requests, release, .error e⟩, Nat.succ_le_succ hrest.length, ?_, hrest.heads, ?_, hrest.kept,
    fun j a hj => ?_, hrest.ending, fun a ha => ?_, ?_, ?_, fun e' he' hr => congrArg _ (hrest.exhausted e' he' hr)⟩
  · rw [hrest.route, hnext, List.length_cons, Function.iterate_succ_apply]
  · rw [hrest.trace, hpause, htrace, timeline]
    simp only [List.reverse_append, List.reverse_cons, List.append_assoc, List.cons_append, List.nil_append]
  · cases j with
    | zero =>
      cases hj
      exact ⟨htried, hrelease, nofun⟩
    | succ j =>
      rw [Function.iterate_succ_apply, ← hnext]
      exact hrest.before j a hj
  · rcases List.mem_cons.mp ha with rfl | ha
    · exact ⟨e, rfl, hretryable⟩
    · exact hrest.retried a ha
  · rw [hrest.rotations, hmoved, hrotations, hnext, List.length_cons, List.range_succ_eq_map, List.countP_cons,
      List.countP_map, Nat.add_assoc, Nat.add_comm (List.countP ..)]
    rfl
  · rw [hrest.answer, List.length_cons, Nat.add_right_comm, Nat.add_assoc]

end Conducted

theorem run_conducted (srv : Server σ) (terms : Terms) (ending : Bool) (left n : Nat) (replay : Bool)
    (h : d.Heads terms.port) :
    ∃ failed last, Conducted terms left n failed last d (run srv terms ending left n replay d) := by
  have hattempt (replay : Bool) {d d' : Delivery σ} {answer : Except RequestError Unit}
      (he : d.attempt srv terms replay ending = (answer, d')) :
      Visits terms.port answer d d' ∧ d'.stats.rotations = d.stats.rotations := by
    have hvisits := (tries_visits srv terms).attempt replay ending d
    have hrotations := (steps_rotations srv terms).attempt replay ending d
    rw [he] at hvisits hrotations
    cases answer with
    | ok u => exact ⟨hvisits, hrotations⟩
    | error e => exact ⟨hvisits, hrotations⟩
  fun_induction run srv terms ending left n replay d with
  | case1 left n replay d d₁ he =>
    obtain ⟨hvisits, hrotations⟩ := hattempt replay he
    have hsingle (stage : Stage) := Conducted.single left n stage h hvisits hrotations fun e he => by cases he
    split
    · exact ⟨[], hsingle .idle⟩
    · exact ⟨[], hsingle d₁.slot.stage⟩
  | case2 n replay d e d₁ he hretryable =>
    obtain ⟨hvisits, hrotations⟩ := hattempt replay he
    exact ⟨[], Conducted.single 0 n d₁.slot.stage h hvisits hrotations fun _ _ _ => rfl⟩
  | case3 n replay d e d₁ he hretryable left ih =>
    obtain ⟨hvisits, hrotations⟩ := hattempt replay he
    obtain ⟨-, hheads, -⟩ := failOver_turns srv terms e n (hvisits h).2.1
    obtain ⟨failed, last, hrest⟩ := ih hheads
    obtain ⟨first, hconducted⟩ := Conducted.cons h hvisits hrotations hretryable hrest
    exact ⟨first :: failed, last, hconducted⟩
  | case4 left n replay d e d₁ he hretryable =>
    obtain ⟨hvisits, hrotations⟩ := hattempt replay he
    refine ⟨[], Conducted.single left n d₁.slot.stage h hvisits hrotations fun e' he' hr => ?_⟩
    cases he'
    exact absurd hr hretryable

end Delivery

end Writer

end ForestCourier
