import Mathlib.Data.List.Basic
import Mathlib.Tactic.Common
import ForestCourier.Proofs.Reader.Resume

/-!
The pace of a reader on a split: where it asks for sessions, how long it pauses before, and when it gives up.
All of that hangs on the failures since a record was last handed out. A history of requests and records that
goes step by step at that pace asks for fifteen sessions at most until the first record comes, and for
fourteen more until the next one.
-/

namespace ForestCourier

namespace Event

def call? : Event → Option Target
  | .opened session => some session.target
  | .refused target _ _ => some target
  | _ => none

def failure? : Event → Option RequestError
  | .refused _ _ e => some e
  | .ranged _ _ (.error e) => some e
  | .fetched _ (.error e) => some e
  | _ => none

end Event

namespace Split

/-- The first place on the host of a split, or the first of all. -/
def entry (s : Split) : Nat := (s.places.findIdx? fun place => place.host == s.host).getD 0

def turn (config : Config.Input) (s : Split) (n : Nat) : Option Target :=
  s.places[(s.entry + n) % s.places.length]?.map fun place => ⟨place.host, config.port, some place.forest⟩

end Split

namespace Reader

/-- What there is to tell of a reader: that a request was answered, or that a record was handed out. -/
inductive Mark where
  | asked (event : Event)
  | handed

namespace Mark

def call? : Mark → Option Target
  | asked event => event.call?
  | handed => none

def tally (failures : List RequestError) : Mark → List RequestError
  | asked event => failures ++ event.failure?.toList
  | handed => []

def failures (history : List Mark) : List RequestError := history.foldl tally []

end Mark

/-- Where a history stands with its failures. -/
inductive Phase where
  /-- A session may be asked for. -/
  | ready
  | running
  /-- A pause is due. -/
  | failed
  | ended (cause : TransferError)

def verdict (split : Split) (failures : List RequestError) (e : RequestError) : Phase :=
  if e.isRetryable = true ∧ split.replicas ≠ [] then
    if failures.length = 14 then .ended (.retriesExhausted .splitRead 15 e) else .failed
  else .ended (.request e)

section

variable {split : Split} {failures : List RequestError} {e : RequestError}

theorem verdict_final (h : e.isRetryable = false ∨ split.replicas = []) :
    verdict split failures e = .ended (.request e) := by
  refine if_neg fun hagain => ?_
  rcases h with hfinal | halone
  · cases hfinal.symm.trans hagain.1
  · exact hagain.2 halone

theorem verdict_last (hretryable : e.isRetryable = true) (hreplicas : split.replicas ≠ [])
    (hlength : failures.length = 14) :
    verdict split failures e = .ended (.retriesExhausted .splitRead 15 e) :=
  (if_pos ⟨hretryable, hreplicas⟩).trans (if_pos hlength)

theorem verdict_again (hretryable : e.isRetryable = true) (hreplicas : split.replicas ≠ [])
    (hlength : failures.length < 14) : verdict split failures e = .failed :=
  (if_pos ⟨hretryable, hreplicas⟩).trans (if_neg (Nat.ne_of_lt hlength))

theorem verdict_eq_ended {cause : TransferError} (h : verdict split failures e = .ended cause) :
    cause = .retriesExhausted .splitRead 15 e ∧ failures.length = 14 ∧ e.isRetryable = true ∨
      cause = .request e ∧ (e.isRetryable = false ∨ split.replicas = []) := by
  unfold verdict at h
  grind

theorem verdict_going (h : ∀ cause, verdict split failures e ≠ .ended cause) :
    e.isRetryable = true ∧ split.replicas ≠ [] ∧ failures.length ≠ 14 := by
  unfold verdict at h
  grind

theorem verdict_ne_ready (split : Split) (failures : List RequestError) (e : RequestError) :
    verdict split failures e ≠ .ready := by
  unfold verdict
  grind

theorem verdict_ne_running (split : Split) (failures : List RequestError) (e : RequestError) :
    verdict split failures e ≠ .running := by
  unfold verdict
  grind

end

/-- The number of sessions asked for, the failures since a record was last handed out, and what is next. -/
structure Pace where
  turn : Nat
  failures : List RequestError
  phase : Phase

namespace Pace

def start : Pace := ⟨0, [], .ready⟩

/-- What may happen next. The session from before the start may be closed before the first is asked for. -/
inductive Steps (config : Config.Input) (split : Split) : Pace → Mark → Pace → Prop
  | opened {n : Nat} {failures : List RequestError} {session : Session} :
      split.turn config n = some session.target →
      Steps config split ⟨n, failures, .ready⟩ (.asked (.opened session)) ⟨n + 1, failures, .running⟩
  | refused {n : Nat} {failures : List RequestError} {target : Target} {transaction : Transaction}
      {e : RequestError} : split.turn config n = some target →
      Steps config split ⟨n, failures, .ready⟩ (.asked (.refused target transaction e))
        ⟨n + 1, failures ++ [e], verdict split failures e⟩
  | failed {n : Nat} {failures : List RequestError} {event : Event} {e : RequestError} :
      event.call? = none → event.failure? = some e →
      Steps config split ⟨n, failures, .running⟩ (.asked event) ⟨n, failures ++ [e], verdict split failures e⟩
  | answered {n : Nat} {failures : List RequestError} {event : Event} : event.call? = none →
      event.failure? = none →
      Steps config split ⟨n, failures, .running⟩ (.asked event) ⟨n, failures, .running⟩
  | paused {n : Nat} {failures : List RequestError} :
      Steps config split ⟨n, failures, .failed⟩
        (.asked (.waited (RetryPolicy.reader.backoff failures.length))) ⟨n, failures, .ready⟩
  | closed {n : Nat} {failures : List RequestError} {phase : Phase} {session : Session}
      {answer : Except RequestError Unit} : (n ≠ 0 → phase ≠ .ready) →
      Steps config split ⟨n, failures, phase⟩ (.asked (.closed session answer)) ⟨n, failures, phase⟩
  | handed {n : Nat} {failures : List RequestError} :
      Steps config split ⟨n, failures, .running⟩ .handed ⟨n, [], .running⟩

inductive Runs (config : Config.Input) (split : Split) : Pace → List Mark → Pace → Prop
  | nil {p : Pace} : Runs config split p [] p
  | cons {p q r : Pace} {mark : Mark} {marks : List Mark} : Steps config split p mark q →
      Runs config split q marks r → Runs config split p (mark :: marks) r

def load (p : Pace) : Nat :=
  match p.phase with
  | .running => p.failures.length + 1
  | _ => p.failures.length

/-- Where a history can stand: unless it has ended, it has failed fourteen times at most, and each time it
could be tried again. -/
structure Sound (split : Split) (p : Pace) : Prop where
  most : p.failures.length ≤ 15
  going : (∀ cause, p.phase ≠ .ended cause) → p.failures.length ≤ 14 ∧
    (∀ e ∈ p.failures, e.isRetryable = true) ∧ (split.replicas = [] → p.failures = [])
  begun : p.turn ≠ 0 → p.phase ≠ .running → p.failures ≠ []

variable {config : Config.Input} {split : Split} {p q r : Pace} {mark : Mark} {marks marks' : List Mark}

theorem sound_nil {n : Nat} {phase : Phase} (h : n ≠ 0 → phase = .running) : Sound split ⟨n, [], phase⟩ where
  most := Nat.zero_le _
  going _ := ⟨Nat.zero_le _, nofun, fun _ => rfl⟩
  begun hturn hphase := absurd (h hturn) hphase

theorem sound_start : start.Sound split := sound_nil nofun

theorem Sound.verdict {n : Nat} {failures : List RequestError} {phase : Phase}
    (h : Sound split ⟨n, failures, phase⟩) (hphase : ∀ cause, phase ≠ .ended cause) (n' : Nat)
    (e : RequestError) : Sound split ⟨n', failures ++ [e], verdict split failures e⟩ := by
  obtain ⟨hfew, hretryable, -⟩ := h.going hphase
  have hlength : (failures ++ [e]).length = failures.length + 1 := List.length_append
  have hnonempty : failures ++ [e] ≠ [] := List.append_ne_nil_of_right_ne_nil _ (List.cons_ne_nil _ _)
  refine ⟨hlength ▸ Nat.succ_le_succ hfew, fun hgoing => ?_, fun _ _ => hnonempty⟩
  obtain ⟨hagain, hreplicas, hmore⟩ := verdict_going hgoing
  refine ⟨?_, List.forall_mem_append.mpr ⟨hretryable, List.forall_mem_singleton.mpr hagain⟩, fun hnone => ?_⟩
  · exact hlength ▸ Nat.lt_of_le_of_ne hfew hmore
  · exact absurd hnone hreplicas

theorem load_verdict (n : Nat) (failures : List RequestError) (e : RequestError) :
    load ⟨n, failures ++ [e], verdict split failures e⟩ = failures.length + 1 := by
  unfold load
  split
  · next hrunning => exact absurd hrunning (verdict_ne_running _ _ _)
  · exact List.length_append

theorem Sound.load_le (h : p.Sound split) : p.load ≤ 15 := by
  obtain ⟨n, failures, phase⟩ := p
  cases phase with
  | running => exact Nat.succ_le_succ (h.going nofun).1
  | _ => exact h.most

theorem Sound.load_pos (h : p.Sound split) (hturn : p.turn ≠ 0) : 1 ≤ p.load := by
  obtain ⟨n, failures, phase⟩ := p
  cases phase with
  | running => exact Nat.succ_le_succ (Nat.zero_le _)
  | _ => exact List.length_pos_of_ne_nil (h.begun hturn nofun)

namespace Steps

theorem sound (h : Steps config split p mark q) (hp : p.Sound split) : q.Sound split := by
  cases h with
  | opened => exact ⟨hp.most, fun _ => hp.going nofun, fun _ hrunning => absurd rfl hrunning⟩
  | refused => exact hp.verdict nofun _ _
  | failed => exact hp.verdict nofun _ _
  | answered => exact hp
  | paused => exact ⟨hp.most, fun _ => hp.going nofun, fun hturn _ => hp.begun hturn nofun⟩
  | closed => exact hp
  | handed => exact sound_nil fun _ => rfl

theorem failures (h : Steps config split p mark q) : q.failures = mark.tally p.failures := by
  cases h with
  | opened => exact (List.append_nil _).symm
  | refused => rfl
  | failed _ hfailure => rw [Mark.tally, hfailure]; rfl
  | answered _ hfailure => rw [Mark.tally, hfailure]; exact (List.append_nil _).symm
  | paused => exact (List.append_nil _).symm
  | closed => exact (List.append_nil _).symm
  | handed => rfl

theorem turn (h : Steps config split p mark q) : q.turn = p.turn + mark.call?.toList.length := by
  cases h with
  | opened => rfl
  | refused => rfl
  | failed hcall => rw [Mark.call?, hcall]; rfl
  | answered hcall => rw [Mark.call?, hcall]; rfl
  | paused => rfl
  | closed => rfl
  | handed => rfl

theorem load (h : Steps config split p mark q) (hmark : mark ≠ .handed) :
    q.load = p.load + mark.call?.toList.length := by
  cases h with
  | opened => rfl
  | refused => exact load_verdict _ _ _
  | failed hcall => rw [load_verdict, Mark.call?, hcall]; rfl
  | answered hcall => rw [Mark.call?, hcall]; rfl
  | paused => rfl
  | closed => rfl
  | handed => exact absurd rfl hmark

theorem target (h : Steps config split p mark q) {target : Target} (hcall : mark.call? = some target) :
    split.turn config p.turn = some target ∧ p.phase = .ready := by
  cases h with
  | opened hturn => cases hcall; exact ⟨hturn, rfl⟩
  | refused hturn => cases hcall; exact ⟨hturn, rfl⟩
  | failed hnone => cases hnone.symm.trans hcall
  | answered hnone => cases hnone.symm.trans hcall
  | paused => cases hcall
  | closed => cases hcall
  | handed => cases hcall

theorem phase {event : Event} {e : RequestError} (h : Steps config split p (.asked event) q)
    (hfailure : event.failure? = some e) :
    q.phase = verdict split p.failures e ∧ ∀ cause, p.phase ≠ .ended cause := by
  cases h with
  | opened => cases hfailure
  | refused => cases hfailure; exact ⟨rfl, nofun⟩
  | failed _ hsome => cases hsome.symm.trans hfailure; exact ⟨rfl, nofun⟩
  | answered _ hnone => cases hnone.symm.trans hfailure
  | paused => cases hfailure
  | closed => cases hfailure

theorem ended {event : Event} {cause : TransferError} (h : Steps config split p (.asked event) q)
    (hgoing : ∀ cause, p.phase ≠ .ended cause) (hended : q.phase = .ended cause) :
    ∃ e, event.failure? = some e ∧ verdict split p.failures e = .ended cause := by
  cases h with
  | opened => cases hended
  | refused => exact ⟨_, rfl, hended⟩
  | failed _ hfailure => exact ⟨_, hfailure, hended⟩
  | answered => cases hended
  | paused => cases hended
  | closed => exact absurd hended (hgoing cause)

theorem of_ended {cause : TransferError} (h : Steps config split p mark q) (hended : p.phase = .ended cause) :
    q = p ∧ ∃ session answer, mark = .asked (.closed session answer) := by
  cases h with
  | closed => exact ⟨rfl, _, _, rfl⟩
  | _ => cases hended

theorem ready (h : Steps config split p mark q) (hready : q.phase = .ready) (hturn : q.turn ≠ 0) :
    mark = .asked (.waited (RetryPolicy.reader.backoff p.failures.length)) := by
  cases h with
  | opened => cases hready
  | refused => exact absurd hready (verdict_ne_ready _ _ _)
  | failed => exact absurd hready (verdict_ne_ready _ _ _)
  | answered => cases hready
  | paused => rfl
  | closed hfirst => exact absurd hready (hfirst hturn)
  | handed => cases hready

theorem waiting {event : Event} (h : Steps config split p (.asked event) q)
    (hphase : p.phase = .failed ∨ p.phase = .ready) :
    event.call?.isSome ∨ q.phase = .failed ∨ q.phase = .ready := by
  cases h with
  | opened => exact .inl rfl
  | refused => exact .inl rfl
  | paused => exact .inr (.inr rfl)
  | closed => exact .inr hphase
  | failed => simp at hphase
  | answered => simp at hphase

end Steps

namespace Runs

theorem single (h : Steps config split p mark q) : Runs config split p [mark] q := .cons h .nil

theorem append (h : Runs config split p marks q) (h' : Runs config split q marks' r) :
    Runs config split p (marks ++ marks') r := by
  induction h with
  | nil => exact h'
  | cons hstep _ ih => exact .cons hstep (ih h')

theorem of_append (h : Runs config split p (marks ++ marks') r) :
    ∃ q, Runs config split p marks q ∧ Runs config split q marks' r := by
  induction marks generalizing p with
  | nil => exact ⟨p, .nil, h⟩
  | cons mark marks ih =>
    cases h with
    | cons hstep hrest =>
      obtain ⟨q, hq, hr⟩ := ih hrest
      exact ⟨q, .cons hstep hq, hr⟩

theorem sound (h : Runs config split p marks q) (hp : p.Sound split) : q.Sound split := by
  induction h with
  | nil => exact hp
  | cons hstep _ ih => exact ih (hstep.sound hp)

theorem failures (h : Runs config split p marks q) : q.failures = marks.foldl Mark.tally p.failures := by
  induction h with
  | nil => rfl
  | cons hstep _ ih => rw [ih, hstep.failures, List.foldl_cons]

theorem failures_start (h : Runs config split start marks p) : p.failures = Mark.failures marks := h.failures

theorem length_filterMap_cons (mark : Mark) (marks : List Mark) :
    ((mark :: marks).filterMap Mark.call?).length =
      mark.call?.toList.length + (marks.filterMap Mark.call?).length := by
  rw [List.filterMap_cons]
  cases mark.call? with
  | none => exact (Nat.zero_add _).symm
  | some target => exact Nat.add_comm _ _

theorem turn (h : Runs config split p marks q) : q.turn = p.turn + (marks.filterMap Mark.call?).length := by
  induction h with
  | nil => rfl
  | cons hstep _ ih => rw [ih, hstep.turn, length_filterMap_cons, Nat.add_assoc]

theorem load (h : Runs config split p marks q) (hmarks : .handed ∉ marks) :
    q.load = p.load + (marks.filterMap Mark.call?).length := by
  induction h with
  | nil => rfl
  | cons hstep _ ih =>
    obtain ⟨hmark, hrest⟩ := not_or.mp (mt List.mem_cons.mpr hmarks)
    rw [ih hrest, hstep.load (Ne.symm hmark), length_filterMap_cons, Nat.add_assoc]

theorem target (h : Runs config split p marks q) {n : Nat} {target : Target}
    (hn : (marks.filterMap Mark.call?)[n]? = some target) : split.turn config (p.turn + n) = some target := by
  induction h generalizing n with
  | nil => cases hn
  | @cons p q r mark marks hstep _ ih =>
    have hturn := hstep.turn
    cases hcall : mark.call? with
    | none =>
      rw [List.filterMap_cons_none hcall] at hn
      rw [hcall] at hturn
      have hlater := ih hn
      rwa [hturn] at hlater
    | some first =>
      rw [List.filterMap_cons_some hcall] at hn
      rw [hcall] at hturn
      cases n with
      | zero =>
        cases hn
        exact (hstep.target hcall).1
      | succ n =>
        have hlater := ih hn
        rwa [hturn, Option.toList_some, List.length_singleton, Nat.add_assoc, Nat.add_comm 1] at hlater

/-- Without a record in between, every session that is asked for adds one to the load, and there is never
more than fifteen of that. -/
theorem calls_le (h : Runs config split p marks q) (hp : p.Sound split) (hmarks : .handed ∉ marks) :
    (marks.filterMap Mark.call?).length ≤ if p.turn = 0 then 15 else 14 := by
  have hmost := (h.sound hp).load_le
  have hload := h.load hmarks
  split
  · omega
  · next hlater =>
    have hpos := hp.load_pos hlater
    omega

theorem of_ended {cause : TransferError} (h : Runs config split p marks q) (hended : p.phase = .ended cause) :
    q = p ∧ ∀ mark ∈ marks, ∃ session answer, mark = .asked (.closed session answer) := by
  induction h with
  | nil => exact ⟨rfl, nofun⟩
  | cons hstep _ ih =>
    obtain ⟨rfl, hclosed⟩ := hstep.of_ended hended
    obtain ⟨rfl, hrest⟩ := ih hended
    exact ⟨rfl, List.forall_mem_cons.mpr ⟨hclosed, hrest⟩⟩

theorem ended {events : List Event} {cause : TransferError} (h : Runs config split p (events.map .asked) q)
    (hgoing : ∀ cause, p.phase ≠ .ended cause) (hended : q.phase = .ended cause) :
    ∃ before event after e p', events = before ++ event :: after ∧
      Runs config split p (before.map .asked) p' ∧ event.failure? = some e ∧
      (∀ cause, p'.phase ≠ .ended cause) ∧ verdict split p'.failures e = .ended cause := by
  induction events generalizing p with
  | nil =>
    cases h
    exact absurd hended (hgoing cause)
  | cons event events ih =>
    cases h with
    | @cons p p₁ q _ _ hstep hrest =>
      by_cases hfirst : ∃ cause', p₁.phase = .ended cause'
      · obtain ⟨cause', hfirst⟩ := hfirst
        obtain ⟨e, hfailure, hverdict⟩ := hstep.ended hgoing hfirst
        cases (hrest.of_ended hfirst).1
        cases hfirst.symm.trans hended
        exact ⟨[], event, events, e, p, rfl, .nil, hfailure, hgoing, hverdict⟩
      · obtain ⟨before, event', after, e, p', rfl, hbefore, hrest⟩ := ih hrest (not_exists.mp hfirst)
        exact ⟨event :: before, event', after, e, p', rfl, .cons hstep hbefore, hrest⟩

theorem ready (h : Runs config split start marks q) (hready : q.phase = .ready) (hturn : q.turn ≠ 0) :
    ∃ earlier, marks =
      earlier ++ [.asked (.waited (RetryPolicy.reader.backoff (Mark.failures earlier).length))] := by
  rcases List.eq_nil_or_concat' marks with rfl | ⟨earlier, mark, rfl⟩
  · cases h
    exact absurd rfl hturn
  · obtain ⟨p, hearlier, hlast⟩ := h.of_append
    cases hlast with
    | cons hstep hnil =>
      cases hnil
      rw [hstep.ready hready hturn, hearlier.failures_start]
      exact ⟨earlier, rfl⟩

end Runs

end Pace

/-- How the reconnects of a reader follow each other, from its start on a split on. -/
structure Paced (config : Config.Input) (split : Split) (history : List Mark) : Prop where
  /-- Sessions are asked for at one place after the other, from the split's own host on. -/
  turns : ∀ (n : Nat) (target : Target), (history.filterMap Mark.call?)[n]? = some target →
    split.turn config n = some target
  /-- Right before each of them but the first there is a pause, as long as the failures tell. -/
  pauses : ∀ (before : List Mark) (mark : Mark) (after : List Mark), history = before ++ mark :: after →
    mark.call?.isSome → before.filterMap Mark.call? ≠ [] →
    ∃ earlier, before =
      earlier ++ [.asked (.waited (RetryPolicy.reader.backoff (Mark.failures earlier).length))]
  /-- For as long as no record is handed out there are fourteen at most, besides the first of all. -/
  reconnects : ∀ before between after : List Mark, history = before ++ between ++ after →
    .handed ∉ between →
    (between.filterMap Mark.call?).length ≤ if before.filterMap Mark.call? = [] then 15 else 14

/-- How a call ends with the failures that it meets, after an earlier history of requests and records. -/
structure Judged (split : Split) (earlier : List Mark) (events : List Event)
    (fault : Option (Fault TransferError)) : Prop where
  /-- The call gives up retrying if and only if it meets the fifteenth failure, all of them retryable,
  since a record was last handed out. -/
  exhausted : ∀ operation attempts e, fault = some (.failed (.retriesExhausted operation attempts e)) ↔
    operation = .splitRead ∧ attempts = 15 ∧ ∃ before event after, events = before ++ event :: after ∧
      event.failure? = some e ∧ (Mark.failures (earlier ++ before.map .asked)).length = 14 ∧
      ∀ e' ∈ Mark.failures (earlier ++ before.map .asked) ++ [e], e'.isRetryable = true
  /-- It reports a failed request if and only if that is not retryable or the split has no replicas. -/
  requested : ∀ e, fault = some (.failed (.request e)) ↔
    ∃ before event after, events = before ++ event :: after ∧ event.failure? = some e ∧
      (e.isRetryable = false ∨ split.replicas = [])
  /-- Such a failure ends the call; all that follows is that the session is closed. -/
  ended : ∀ before event after e, events = before ++ event :: after → event.failure? = some e →
    e.isRetryable = false ∨ split.replicas = [] →
    ∀ later ∈ after, ∃ session answer, later = .closed session answer
  /-- After any other failure but the fifteenth a session is asked for, unless the position to go on from is
  too large for a word. -/
  retried : ∀ before event after e, events = before ++ event :: after → event.failure? = some e →
    e.isRetryable = true → split.replicas ≠ [] →
    (Mark.failures (earlier ++ before.map .asked)).length < 14 →
    (∃ later ∈ after, later.call?.isSome) ∨ ∃ kind, fault = some (.overflow kind)

theorem judged_nil {split : Split} {earlier : List Mark} {fault : Option (Fault TransferError)}
    (hfault : ∀ cause, fault = some (.failed cause) → cause.source? = none) :
    Judged split earlier [] fault := by
  have hnone (before : List Event) (event : Event) (after : List Event) : [] ≠ before ++ event :: after :=
    (List.append_ne_nil_of_right_ne_nil before (List.cons_ne_nil event after)).symm
  refine ⟨fun operation attempts e => ⟨fun h => ?_, ?_⟩, fun e => ⟨fun h => ?_, ?_⟩, ?_, ?_⟩
  · cases hfault _ h
  · rintro ⟨-, -, before, event, after, hevents, -⟩
    exact absurd hevents (hnone before event after)
  · cases hfault _ h
  · rintro ⟨before, event, after, hevents, -⟩
    exact absurd hevents (hnone before event after)
  · exact fun before event after e hevents => absurd hevents (hnone before event after)
  · exact fun before event after e hevents => absurd hevents (hnone before event after)

def Phase.Tells (fault : Option (Fault TransferError)) : Phase → Prop
  | ended cause => fault = some (.failed cause)
  | running => ∀ cause, fault = some (.failed cause) → cause.source? = none
  | ready | failed => ∃ kind, fault = some (.overflow kind)

namespace Pace.Runs

variable {config : Config.Input} {split : Split} {p q : Pace}

theorem paced {history : List Mark} (h : Runs config split Pace.start history p) :
    Paced config split history where
  turns n target hn := by
    have hturn := h.target hn
    rwa [Pace.start, Nat.zero_add] at hturn
  pauses before mark after hhistory hcall hlater := by
    subst hhistory
    obtain ⟨target, hcall⟩ := Option.isSome_iff_exists.mp hcall
    obtain ⟨q, hbefore, hrest⟩ := h.of_append
    cases hrest with
    | cons hstep _ =>
      refine hbefore.ready (hstep.target hcall).2 ?_
      rw [hbefore.turn, Pace.start, Nat.zero_add]
      exact mt List.length_eq_zero_iff.mp hlater
  reconnects before between after hhistory hbetween := by
    subst hhistory
    obtain ⟨r, hfirst, -⟩ := h.of_append
    obtain ⟨q, hbefore, hrun⟩ := hfirst.of_append
    have hcalls := hrun.calls_le (hbefore.sound Pace.sound_start) hbetween
    simpa only [hbefore.turn, Pace.start, Nat.zero_add, List.length_eq_zero_iff] using hcalls

variable {earlier : List Mark} {fault : Option (Fault TransferError)}

theorem ended_of_tells (htells : q.phase.Tells fault) {cause : TransferError}
    (hfault : fault = some (.failed cause)) (hsource : cause.source?.isSome) : q.phase = .ended cause := by
  unfold Phase.Tells at htells
  split at htells
  · next hended =>
    cases htells.symm.trans hfault
    exact hended
  · rw [htells cause hfault] at hsource
    cases hsource
  · obtain ⟨kind, hkind⟩ := htells
    cases hkind.symm.trans hfault
  · obtain ⟨kind, hkind⟩ := htells
    cases hkind.symm.trans hfault

theorem fails (hearlier : Runs config split Pace.start earlier p) {before after : List Event} {event : Event}
    (h : Runs config split p ((before ++ event :: after).map .asked) q) {e : RequestError}
    (hfailure : event.failure? = some e) :
    (split.replicas = [] → Mark.failures (earlier ++ before.map .asked) = []) ∧
      ∃ p', p'.phase = verdict split (Mark.failures (earlier ++ before.map .asked)) e ∧
        Runs config split p' (after.map .asked) q := by
  rw [List.map_append, List.map_cons] at h
  obtain ⟨p', hbefore, hrest⟩ := h.of_append
  have hrun := hearlier.append hbefore
  rw [← hrun.failures_start]
  cases hrest with
  | @cons _ p'' _ _ _ hstep hafter =>
    obtain ⟨hphase, hgoing⟩ := hstep.phase hfailure
    exact ⟨((hrun.sound Pace.sound_start).going hgoing).2.2, p'', hphase, hafter⟩

theorem reported {events : List Event} {cause : TransferError} (h : Runs config split p (events.map .asked) q)
    (hended : p.phase = .ended cause) (htells : q.phase.Tells fault) :
    fault = some (.failed cause) ∧ ∀ later ∈ events, ∃ session answer, later = .closed session answer := by
  obtain ⟨rfl, hclosed⟩ := h.of_ended hended
  rw [hended] at htells
  refine ⟨htells, fun later hlater => ?_⟩
  obtain ⟨session, answer, hmark⟩ := hclosed _ (List.mem_map_of_mem hlater)
  exact ⟨session, answer, Mark.asked.inj hmark⟩

/-- Once a pause is due, a session is asked for before the call is through. -/
theorem recalls {events : List Event} (h : Runs config split p (events.map .asked) q)
    (hphase : p.phase = .failed ∨ p.phase = .ready) (htells : q.phase.Tells fault) :
    (∃ later ∈ events, later.call?.isSome) ∨ ∃ kind, fault = some (.overflow kind) := by
  induction events generalizing p with
  | nil =>
    cases h
    rcases hphase with hfailed | hready
    · rw [hfailed] at htells
      exact .inr htells
    · rw [hready] at htells
      exact .inr htells
  | cons event events ih =>
    cases h with
    | cons hstep hrest =>
      rcases hstep.waiting hphase with hcall | hwaiting
      · exact .inl ⟨event, List.mem_cons_self, hcall⟩
      · exact (ih hrest hwaiting).imp_left fun ⟨later, hlater, hcall⟩ =>
          ⟨later, List.mem_cons_of_mem _ hlater, hcall⟩

theorem judged (hearlier : Runs config split Pace.start earlier p) (hgoing : ∀ cause, p.phase ≠ .ended cause)
    {events : List Event} (h : Runs config split p (events.map .asked) q) (htells : q.phase.Tells fault) :
    Judged split earlier events fault where
  exhausted operation attempts e := by
    constructor
    · intro hfault
      obtain ⟨before, event, after, e', p', rfl, hbefore, hevent, hp', hended⟩ :=
        h.ended hgoing (ended_of_tells htells hfault rfl)
      have hrun := hearlier.append hbefore
      rw [hrun.failures_start] at hended
      rcases verdict_eq_ended hended with ⟨hcause, hlength, hretryable⟩ | ⟨hcause, -⟩
      · cases hcause
        refine ⟨rfl, rfl, before, event, after, rfl, hevent, hlength, fun e' he' => ?_⟩
        rcases List.mem_append.mp he' with he' | he'
        · exact ((hrun.sound Pace.sound_start).going hp').2.1 e' (hrun.failures_start ▸ he')
        · rwa [List.mem_singleton.mp he']
      · cases hcause
    · rintro ⟨rfl, rfl, before, event, after, rfl, hevent, hlength, hretryable⟩
      obtain ⟨halone, p', hphase, hafter⟩ := fails hearlier h hevent
      have hreplicas : split.replicas ≠ [] := fun hnone => by
        rw [halone hnone] at hlength
        cases hlength
      have hlast : e.isRetryable = true := hretryable e (List.mem_append_right _ (List.mem_singleton_self e))
      exact (hafter.reported (hphase.trans (verdict_last hlast hreplicas hlength)) htells).1
  requested e := by
    constructor
    · intro hfault
      obtain ⟨before, event, after, e', p', rfl, hbefore, hevent, hp', hended⟩ :=
        h.ended hgoing (ended_of_tells htells hfault rfl)
      rcases verdict_eq_ended hended with ⟨hcause, -⟩ | ⟨hcause, hfinal⟩
      · cases hcause
      · cases hcause
        exact ⟨before, event, after, rfl, hevent, hfinal⟩
    · rintro ⟨before, event, after, rfl, hevent, hfinal⟩
      obtain ⟨-, p', hphase, hafter⟩ := fails hearlier h hevent
      exact (hafter.reported (hphase.trans (verdict_final hfinal)) htells).1
  ended before event after e hevents hevent hfinal := by
    subst hevents
    obtain ⟨-, p', hphase, hafter⟩ := fails hearlier h hevent
    exact (hafter.reported (hphase.trans (verdict_final hfinal)) htells).2
  retried before event after e hevents hevent hretryable hreplicas hlength := by
    subst hevents
    obtain ⟨-, p', hphase, hafter⟩ := fails hearlier h hevent
    exact hafter.recalls (.inl (hphase.trans (verdict_again hretryable hreplicas hlength))) htells

end Pace.Runs

end Reader

end ForestCourier
