import Mathlib.Data.List.Nodup
import ForestCourier.Session.Server

/-!
Protocols of requests. The requests on the way from one wire to another are accepted by a protocol if they
take it from one state to another. A protocol that holds one session at a time gains it when it is opened and
loses it when it is closed, so the openings and closings of a session balance; and no two sessions have one
number.
-/

namespace ForestCourier

def Event.opens? : Event → Option Nat
  | .opened session => some session.number
  | _ => none

/-- The requests on the way from one wire to another, in order. The sessions that they open are numbered
in that order. -/
structure Wire.Adds {σ : Type} (w : Wire σ) (events : List Event) (w' : Wire σ) : Prop where
  trace : w'.trace = events.reverse ++ w.trace
  opened : w'.opened = w.opened + (events.filterMap Event.opens?).length
  numbers : events.filterMap Event.opens? =
    List.range' (w.opened + 1) (events.filterMap Event.opens?).length

namespace Wire.Adds

variable {σ : Type} {a b c : Wire σ} {events events' : List Event}

theorem of_same (htrace : b.trace = a.trace) (hopened : b.opened = a.opened) : a.Adds [] b :=
  ⟨htrace, hopened, rfl⟩

theorem of_cons {event : Event} (htrace : b.trace = event :: a.trace) (hopened : b.opened = a.opened)
    (h : event.opens? = none) : a.Adds [event] b := by
  refine ⟨htrace, ?_, ?_⟩
  · rw [List.filterMap_cons_none h]
    exact hopened
  · rw [List.filterMap_cons_none h]
    rfl

theorem of_opened {session : Session} (htrace : b.trace = .opened session :: a.trace)
    (hopened : b.opened = a.opened + 1) (hnumber : session.number = a.opened + 1) :
    a.Adds [.opened session] b :=
  ⟨htrace, hopened, congrArg (fun n => [n]) hnumber⟩

theorem trans (h : a.Adds events b) (h' : b.Adds events' c) : a.Adds (events ++ events') c where
  trace := by rw [h'.trace, h.trace, List.reverse_append, List.append_assoc]
  opened := by
    rw [h'.opened, h.opened, List.filterMap_append, List.length_append, Nat.add_assoc]
  numbers := by
    have hlater := h'.numbers
    rw [h.opened, Nat.add_right_comm] at hlater
    rw [List.filterMap_append, List.length_append, ← List.range'_append_1, ← h.numbers, ← hlater]

theorem note (h : a.Adds events b) (n : Notice) : a.Adds events (b.note n) := ⟨h.trace, h.opened, h.numbers⟩

end Wire.Adds

/-- The requests from one wire to another take a protocol from one state to another. -/
def Wire.Drives {σ S : Type} (step : S → Event → Option S) (s : S) (w : Wire σ) (s' : S)
    (w' : Wire σ) : Prop :=
  ∃ events, w.Adds events w' ∧ events.foldlM step s = some s'

namespace Wire.Drives

variable {σ S : Type} {step : S → Event → Option S} {s s' s'' : S} {a b c : Wire σ}

theorem of_same (hstate : s' = s) (htrace : b.trace = a.trace) (hopened : b.opened = a.opened) :
    Drives step s a s' b := ⟨[], .of_same htrace hopened, by rw [hstate]; rfl⟩

theorem of_cons {event : Event} (htrace : b.trace = event :: a.trace) (hopened : b.opened = a.opened)
    (hnone : event.opens? = none) (hstep : step s event = some s') : Drives step s a s' b :=
  ⟨[event], .of_cons htrace hopened hnone, by rw [List.foldlM_cons, hstep]; rfl⟩

theorem of_opened {session : Session} (htrace : b.trace = .opened session :: a.trace)
    (hopened : b.opened = a.opened + 1) (hnumber : session.number = a.opened + 1)
    (hstep : step s (.opened session) = some s') : Drives step s a s' b :=
  ⟨[.opened session], .of_opened htrace hopened hnumber, by rw [List.foldlM_cons, hstep]; rfl⟩

theorem trans (h : Drives step s a s' b) (h' : Drives step s' b s'' c) : Drives step s a s'' c := by
  obtain ⟨events, hadds, hrun⟩ := h
  obtain ⟨events', hadds', hrun'⟩ := h'
  exact ⟨events ++ events', hadds.trans hadds', by rw [List.foldlM_append, hrun]; exact hrun'⟩

end Wire.Drives

variable {σ : Type}

theorem Wire.openSession_adds (srv : Server σ) (target : Target) (transaction : Transaction) (w : Wire σ) :
    match w.openSession srv target transaction with
    | (.ok session, w') => session.target = target ∧ session.transaction = transaction ∧ w.Adds [.opened session] w'
    | (.error e, w') => w.Adds [.refused target transaction e] w' := by
  unfold Wire.openSession
  dsimp only
  cases srv.accept ⟨w.opened + 1, target, transaction⟩ w.state with
  | mk answer s =>
    cases answer with
    | ok _ => exact ⟨rfl, rfl, .of_opened rfl rfl rfl⟩
    | error e => exact .of_cons rfl rfl rfl

theorem Wire.submit_close_adds (srv : Server σ) (session : Session) (query : Query) (w : Wire σ) :
    w.Adds [.submitted session query (w.submit srv session query).1,
        .closed session (srv.close session (w.submit srv session query).2.state).1]
      ((w.submit srv session query).2.close srv session) := by
  have hsubmit : w.Adds [.submitted session query (w.submit srv session query).1] (w.submit srv session query).2 :=
    .of_cons rfl rfl rfl
  have hclose : (w.submit srv session query).2.Adds
      [.closed session (srv.close session (w.submit srv session query).2.state).1]
      ((w.submit srv session query).2.close srv session) := .of_cons rfl rfl rfl
  exact hsubmit.trans hclose

def Wire.since (w w' : Wire σ) : List Event :=
  (w'.trace.take (w'.trace.length - w.trace.length)).reverse

theorem Wire.since_of_trace {w w' : Wire σ} {events : List Event}
    (h : w'.trace = events.reverse ++ w.trace) : w.since w' = events := by
  have hlength : (events.reverse ++ w.trace).length - w.trace.length = events.reverse.length := by
    rw [List.length_append, Nat.add_sub_cancel]
  rw [Wire.since, h, hlength, List.take_left, List.reverse_reverse]

theorem Wire.Adds.since_eq {w w' : Wire σ} {events : List Event} (h : w.Adds events w') :
    w.since w' = events := Wire.since_of_trace h.trace

def Event.opens (session : Session) : Event → Bool
  | .opened s => s = session
  | _ => false

def Event.closes (session : Session) : Event → Bool
  | .closed s _ => s = session
  | _ => false

def Session.count (session : Session) (held : Option Session) : Nat := if held = some session then 1 else 0

theorem foldlM_balances {S : Type} {step : S → Event → Option S} {held : S → Option Session}
    (session : Session)
    (hstep : ∀ s event s', step s event = some s' →
      session.count (held s) + (event.opens session).toNat =
        (event.closes session).toNat + session.count (held s'))
    {events : List Event} {s s' : S} (h : events.foldlM step s = some s') :
    session.count (held s) + events.countP (Event.opens session) =
      events.countP (Event.closes session) + session.count (held s') := by
  induction events generalizing s with
  | nil =>
    cases h
    rw [List.countP_nil, List.countP_nil, Nat.add_comm]
  | cons event events ih =>
    rw [List.foldlM_cons] at h
    obtain ⟨s₁, hs₁, hrest⟩ := Option.bind_eq_some_iff.mp h
    have hfirst := hstep s event s₁ hs₁
    have hlater := ih hrest
    have hcount (p : Event → Bool) : (event :: events).countP p = (p event).toNat + events.countP p := by
      rw [List.countP_cons, Nat.add_comm]
      cases p event
      · rfl
      · rfl
    rw [hcount, hcount]
    omega

theorem Wire.Adds.countP_opens {w w' : Wire σ} {events : List Event} (h : w.Adds events w')
    (session : Session) : events.countP (Event.opens session) ≤ 1 := by
  have hnodup : (events.filterMap Event.opens?).Nodup := by
    rw [h.numbers]
    exact List.nodup_range'
  calc events.countP (Event.opens session)
    _ ≤ events.countP (fun event => event.opens? == some session.number) := by
      refine List.countP_mono_left fun event _ hopens => ?_
      cases event with
      | opened s => simpa [Event.opens, Event.opens?] using congrArg Session.number (of_decide_eq_true hopens)
      | _ => cases hopens
    _ = (events.filterMap Event.opens?).count session.number := (List.count_filterMap ..).symm
    _ ≤ 1 := List.nodup_iff_count_le_one.mp hnodup _

end ForestCourier
