import ForestCourier.Proofs.Reader.Gapless
import ForestCourier.Proofs.Reader.Requests

/-!
The sessions of a reader. It has one at most, on which it asks for one stream; a session whose query or whose
stream has failed, or whose stream has ended, is closed before anything else is asked for. So every session
that a reader opens is closed once, or is the one that it still has.
-/

namespace ForestCourier

variable {σ : Type}

def Event.broken? : Event → Option Session
  | .ranged session _ (.error _) => some session
  | .fetched session (.error _) => some session
  | _ => none

namespace Reader

/-- What is left to do on the session of a reader. -/
inductive Line where
  | down
  /-- The session is open, and no stream has been asked for. -/
  | fresh (session : Session)
  | up (session : Session)
  /-- The session is good for nothing but to be closed. -/
  | spent (session : Session)
deriving DecidableEq

namespace Line

def session? : Line → Option Session
  | down => none
  | fresh session | up session | spent session => some session

/-- What a request makes of the line, if it may be made. -/
def step : Line → Event → Option Line
  | down, .opened session => if session.transaction = .auto then some (fresh session) else none
  | down, .refused _ transaction _ => if transaction = .auto then some down else none
  | down, .waited _ => some down
  | fresh session, .ranged s _ answer =>
    if s = session then
      match answer with
      | .ok _ => some (up session)
      | .error _ => some (spent session)
    else none
  | up session, .fetched s answer =>
    if s = session then
      match answer with
      | .ok (some _) => some (up session)
      | .ok none | .error _ => some (spent session)
    else none
  | up session, .closed s _ | spent session, .closed s _ => if s = session then some down else none
  | _, _ => none

theorem step_balances {session : Session} (line : Line) (event : Event) (line' : Line)
    (h : line.step event = some line') :
    session.count line.session? + (event.opens session).toNat =
      (event.closes session).toNat + session.count line'.session? := by
  unfold step at h
  grind [Session.count, Event.opens, Event.closes, Line.session?]

theorem step_broken {line line' : Line} {event : Event} {session : Session} (h : line.step event = some line')
    (hbroken : event.broken? = some session) : line' = spent session := by
  unfold Event.broken? at hbroken
  split at hbroken
  · unfold step at h
    grind
  · unfold step at h
    grind
  · cases hbroken

theorem step_spent {line' : Line} {event : Event} {session : Session}
    (h : (spent session).step event = some line') : ∃ answer, event = .closed session answer := by
  unfold step at h
  grind

end Line

def line (r : Reader) : Line := r.session.elim .down .up

def lost (r : Reader) : Line := r.session.elim .down .spent

variable {srv : Server σ} {split : Split} {r : Reader} {w w' : Wire σ}

theorem session?_line (r : Reader) : r.line.session? = r.session := by
  unfold line
  cases r.session
  · rfl
  · rfl

theorem lost_eq_line (h : r.session = none) : r.lost = r.line := by
  rw [lost, line, h]
  rfl

theorem closes_drives {session? : Option Session} {up : Session → Line}
    (hup : ∀ session answer, (up session).step (.closed session answer) = some .down)
    (h : w.Closes session? w') : Wire.Drives Line.step (session?.elim .down up) w .down w' := by
  cases session? with
  | none => exact ⟨[], h, rfl⟩
  | some session =>
    obtain ⟨answer, hadds⟩ := h
    exact ⟨_, hadds, by rw [Option.elim_some, List.foldlM_cons, hup]; rfl⟩

theorem closes_line (h : w.Closes r.session w') : Wire.Drives Line.step r.line w .down w' :=
  closes_drives (fun _ _ => if_pos rfl) h

theorem closes_lost (h : w.Closes r.session w') : Wire.Drives Line.step r.lost w .down w' :=
  closes_drives (fun _ _ => if_pos rfl) h

theorem Pauses.drives (h : r.Pauses w w') : Wire.Drives Line.step r.lost w .down w' := by
  obtain ⟨w₁, hcloses, hadds⟩ := h
  exact (closes_lost hcloses).trans ⟨_, hadds, rfl⟩

theorem Dials.drives {answer : Except (Fault RequestError) Unit} {r' : Reader}
    (h : Dials split r w (answer, r', w')) (hnone : r.session = none) :
    Wire.Drives Line.step .down w r'.line w' ∧ ((∃ fault, answer = .error fault) → r'.session = none) := by
  cases h with
  | overflow kind => exact ⟨.of_same (by rw [line, hnone]; rfl) rfl rfl, fun _ => hnone⟩
  | refused hadds => exact ⟨⟨_, hadds, by rw [line, hnone]; rfl⟩, fun _ => hnone⟩
  | unanswered _ hauto hadds =>
    exact ⟨⟨_, hadds, by simp [line, hnone, Line.step, hauto]⟩, fun _ => hnone⟩
  | connected _ hauto hadds =>
    exact ⟨⟨_, hadds, by simp [line, Line.step, hauto]⟩, fun ⟨fault, hfault⟩ => by cases hfault⟩

def fetched (r : Reader) : Except RequestError (Option Item) → Line
  | .ok (some _) => r.line
  | .ok none | .error _ => r.lost

theorem fetched_drives {session : Session} (hsession : r.session = some session)
    {answer : Except RequestError (Option Item)} (h : w.Adds [.fetched session answer] w') :
    Wire.Drives Line.step r.line w (r.fetched answer) w' := by
  refine ⟨_, h, ?_⟩
  match answer with
  | .ok (some item) => simp [line, hsession, fetched, Line.step]
  | .ok none => simp [line, lost, hsession, fetched, Line.step]
  | .error e => simp [line, lost, hsession, fetched, Line.step]

theorem fetch_drives {r' : Reader} {answer : Except RequestError (Option Item)}
    (h : r.fetch srv w = (answer, r', w')) : Wire.Drives Line.step r.line w (r'.fetched answer) w' := by
  cases hsession : r.session with
  | none =>
    unfold fetch at h
    rw [hsession] at h
    cases h
    exact .of_same (lost_eq_line hsession) rfl rfl
  | some session =>
    obtain ⟨answer', w₁, hfetch, hadds⟩ := fetch_adds srv hsession w
    cases hfetch.symm.trans h
    exact fetched_drives hsession hadds

theorem fetched_error (r : Reader) (e : RequestError) : r.fetched (.error e) = r.lost := rfl

section

variable {α : Type} {resume : Reader → Wire σ → Except RequestError α × Reader × Wire σ}

/-- Failing over starts with a session that is good for nothing. It leaves none, unless `resume` got
through and left the line as `ends` tells. -/
theorem Recovers.drives {ends : Reader → Except RequestError α → Line}
    (hends : ∀ r e, ends r (.error e) = r.lost)
    (hresume : ∀ {r r' w w' answer}, resume r w = (answer, r', w') →
      Wire.Drives Line.step r.line w (ends r' answer) w')
    {left : Nat} {e : RequestError} {result : Except (Fault TransferError) α × Reader × Wire σ}
    (h : Recovers split resume left e r w result) :
    match result with
    | (.ok a, r', w') => Wire.Drives Line.step r.lost w (ends r' (.ok a)) w'
    | (.error _, r', w') => Wire.Drives Line.step r.lost w r'.line w' ∧ r'.session = none := by
  induction h with
  | failed _ hcloses => exact ⟨closes_lost hcloses, rfl⟩
  | stranded _ _ hcloses => exact ⟨closes_lost hcloses, rfl⟩
  | exhausted _ _ hcloses => exact ⟨closes_lost hcloses, rfl⟩
  | overflow _ _ hpauses hdials =>
    obtain ⟨hdrives, hnone⟩ := hdials.drives rfl
    exact ⟨hpauses.drives.trans hdrives, hnone ⟨_, rfl⟩⟩
  | missed _ _ hpauses hdials _ ih =>
    obtain ⟨hdrives, hnone⟩ := hdials.drives rfl
    rw [← lost_eq_line (hnone ⟨_, rfl⟩)] at hdrives
    have hmissed := hpauses.drives.trans hdrives
    split
    · exact hmissed.trans ih
    · exact ⟨hmissed.trans ih.1, ih.2⟩
  | resumed _ _ hpauses hdials hresumed =>
    exact (hpauses.drives.trans (hdials.drives rfl).1).trans (hresume hresumed)
  | lost _ _ hpauses hdials hresumed _ ih =>
    have hlost := (hpauses.drives.trans (hdials.drives rfl).1).trans (hresume hresumed)
    rw [hends] at hlost
    split
    · exact hlost.trans ih
    · exact ⟨hlost.trans ih.1, ih.2⟩

end

/-- The answers after which no session is left. -/
def Answer.Ends : Answer → Prop
  | started (.ok _) => False
  | started (.error _) => True
  | moved (.ok more) => more = false
  | moved (.error (.failed (.protocol _))) => False
  | moved (.error (.failed _)) => True
  | moved (.error (.overflow _)) => False
  | closed => True

def Idle (r : Reader) : Prop := r.done = true ∨ r.split = none → r.session = none

theorem idle_of_none (h : r.session = none) : r.Idle := fun _ => h

theorem idle_of_running (hrunning : r.done = false) (hsplit : r.split = some split) : r.Idle := by
  rintro (hdone | hnone)
  · cases hrunning.symm.trans hdone
  · cases hsplit.symm.trans hnone

theorem Stays.idle {r' : Reader} (h : r.Stays r') (hrunning : r.done = false) (hsplit : r.split = some split) :
    r'.Idle := idle_of_running (h.done.trans hrunning) (h.split.trans hsplit)

structure Orderly (x : Reader × Wire σ) (answer : Answer) (y : Reader × Wire σ) : Prop where
  drives : Wire.Drives Line.step x.1.line x.2 y.1.line y.2
  idle : y.1.Idle
  ended : answer.Ends → y.1.session = none

def started (r : Reader) : Except RequestError Unit → Line
  | .ok _ => r.line
  | .error _ => r.lost

theorem started_error (r : Reader) (e : RequestError) : r.started (.error e) = r.lost := rfl

theorem start_orderly (srv : Server σ) (split : Split) (r : Reader) (w : Wire σ) :
    Orderly (r, w) (.started (r.start srv split w).1) (r.start srv split w).2 := by
  have hentered := start_enters srv split r w
  generalize r.start srv split w = result at hentered
  cases hentered with
  | connected hcloses hdials =>
    exact ⟨(closes_line hcloses).trans (hdials.drives rfl).1, hdials.stays.idle rfl rfl, nofun⟩
  | overflow hcloses hdials =>
    obtain ⟨hdrives, hnone⟩ := hdials.drives rfl
    exact ⟨(closes_line hcloses).trans hdrives, idle_of_none (hnone ⟨_, rfl⟩), fun _ => hnone ⟨_, rfl⟩⟩
  | recovered hcloses hdials hrecovers =>
    obtain ⟨hdrives, hnone⟩ := hdials.drives rfl
    rw [← lost_eq_line (hnone ⟨_, rfl⟩)] at hdrives
    have hbegun := (closes_line hcloses).trans hdrives
    have hidle := (hdials.stays.trans (hrecovers.stays fun _ _ => rfl)).idle rfl rfl
    have hrecovered := hrecovers.drives started_error fun hresumed => by
      cases hresumed
      exact .of_same rfl rfl rfl
    obtain ⟨answer, r', w'⟩ := result
    cases answer with
    | ok u => exact ⟨hbegun.trans hrecovered, hidle, nofun⟩
    | error fault => exact ⟨hbegun.trans hrecovered.1, hidle, fun _ => hrecovered.2⟩

theorem Settles.orderly {item : Option Item} {result : Except (Fault TransferError) Bool × Reader × Wire σ}
    (h : Settles r w item result) (hidle : r.Idle) :
    Wire.Drives Line.step (r.fetched (.ok item)) w result.2.1.line result.2.2 ∧ result.2.1.Idle ∧
      ((Answer.moved result.1).Ends → result.2.1.session = none) := by
  cases h with
  | record => exact ⟨.of_same rfl rfl rfl, hidle, nofun⟩
  | overflow => exact ⟨.of_same rfl rfl rfl, hidle, nofun⟩
  | foreign => exact ⟨.of_same rfl rfl rfl, hidle, nofun⟩
  | finished hcloses => exact ⟨closes_lost hcloses, fun _ => rfl, fun _ => rfl⟩

theorem next_orderly (srv : Server σ) (r : Reader) (w : Wire σ) (hidle : r.Idle) :
    Orderly (r, w) (.moved (r.next srv w).1) (r.next srv w).2 := by
  have hadvances := next_advances srv r w
  generalize r.next srv w = result at hadvances
  cases hadvances with
  | done hdone => exact ⟨.of_same rfl rfl rfl, hidle, fun _ => hidle (.inl hdone)⟩
  | closed hrunning hnone =>
    exact ⟨.of_same rfl rfl rfl, hidle, fun _ => hnone.elim (fun hsplit => hidle (.inr hsplit)) id⟩
  | settled hrunning hsplit hsession hadds =>
    obtain ⟨hdrives, hsettled, hended⟩ := (settle_settles srv r _ _).orderly hidle
    exact ⟨(fetched_drives hsession hadds).trans hdrives, hsettled, hended⟩
  | @recovered split session e item r₁ w₁ w₂ hrunning hsplit hsession hadds hrecovers =>
    obtain ⟨hdrives, hsettled, hended⟩ := (settle_settles srv r₁ w₂ item).orderly
      ((hrecovers.stays (fetch_reader srv)).idle hrunning hsplit)
    have hrecovered := (fetched_drives hsession hadds).trans (hrecovers.drives fetched_error fetch_drives)
    exact ⟨hrecovered.trans hdrives, hsettled, hended⟩
  | lost hrunning hsplit hsession hadds hrecovers =>
    obtain ⟨hdrives, hnone⟩ := hrecovers.drives fetched_error fetch_drives
    exact ⟨(fetched_drives hsession hadds).trans hdrives, idle_of_none hnone, fun _ => hnone⟩

theorem close_orderly (srv : Server σ) (r : Reader) (w : Wire σ) :
    Orderly (r, w) .closed (r.close srv w) := by
  obtain ⟨w', hw', hcloses⟩ := release_closes srv r w
  unfold close
  rw [hw']
  exact ⟨closes_line hcloses, idle_of_none rfl, fun _ => rfl⟩

theorem Call.run_orderly (srv : Server σ) (call : Call) (x : Reader × Wire σ)
    (hidle : x.1.Idle) :
    Orderly x (call.run srv x).1 (call.run srv x).2 := by
  cases call with
  | start split => exact start_orderly srv split x.1 x.2
  | next => exact next_orderly srv x.1 x.2 hidle
  | close => exact close_orderly srv x.1 x.2

theorem follow_orderly (srv : Server σ) (calls : List Call) (x : Reader × Wire σ)
    (hidle : x.1.Idle) :
    Wire.Drives Line.step x.1.line x.2 (follow srv calls x).1.line (follow srv calls x).2 ∧
      (follow srv calls x).1.Idle := by
  induction calls generalizing x with
  | nil => exact ⟨.of_same rfl rfl rfl, hidle⟩
  | cons call calls ih =>
    have hcall := call.run_orderly srv x hidle
    obtain ⟨hdrives, hlater⟩ := ih (call.run srv x).2 hcall.idle
    exact ⟨hcall.drives.trans hdrives, hlater⟩

/-- The discipline of a reader with its sessions, in all that it has asked for. -/
structure Disciplined (events : List Event) (r : Reader) : Prop where
  line : events.foldlM Line.step .down = some r.line
  /-- At any time there is one session at most that has been opened and not been closed. -/
  single : ∀ before after : List Event, events = before ++ after → ∃ held : Option Session, ∀ session,
    before.countP (Event.opens session) = before.countP (Event.closes session) + session.count held
  /-- A session on which something has failed is closed before anything else is asked for. -/
  broken : ∀ (before : List Event) (event : Event) (after : List Event) (session : Session),
    events = before ++ event :: after → event.broken? = some session →
    ∃ answer rest, after = .closed session answer :: rest
  /-- A session that was opened has been closed once, unless it is still in use. -/
  closed : ∀ session, .opened session ∈ events →
    events.countP (Event.closes session) + session.count r.session = 1

theorem balanced {events : List Event} {line : Line} (h : events.foldlM Line.step .down = some line)
    (session : Session) : events.countP (Event.opens session) =
      events.countP (Event.closes session) + session.count line.session? := by
  have hbalance := foldlM_balances session Line.step_balances h
  have hzero : session.count Line.down.session? = 0 := rfl
  rwa [hzero, Nat.zero_add] at hbalance

theorem disciplined {events : List Event} (hadds : w.Adds events w')
    (h : events.foldlM Line.step .down = some r.line) : Disciplined events r where
  line := h
  single before after hevents := by
    subst hevents
    rw [List.foldlM_append] at h
    obtain ⟨line, hline, -⟩ := Option.bind_eq_some_iff.mp h
    exact ⟨line.session?, balanced hline⟩
  broken before event after session hevents hbroken := by
    subst hevents
    rw [List.foldlM_append] at h
    obtain ⟨line, -, h⟩ := Option.bind_eq_some_iff.mp h
    rw [List.foldlM_cons] at h
    obtain ⟨line', hstep, hrest⟩ := Option.bind_eq_some_iff.mp h
    cases Line.step_broken hstep hbroken
    cases after with
    | nil =>
      -- A reader that has answered does not hold on to such a session.
      cases hsession : r.session with
      | none =>
        rw [Reader.line, hsession] at hrest
        cases hrest
      | some held =>
        rw [Reader.line, hsession] at hrest
        cases hrest
    | cons next rest =>
      rw [List.foldlM_cons] at hrest
      obtain ⟨_, hnext, -⟩ := Option.bind_eq_some_iff.mp hrest
      obtain ⟨answer, rfl⟩ := Line.step_spent hnext
      exact ⟨answer, rest, rfl⟩
  closed session hopened := by
    have hbalance := balanced h session
    rw [session?_line] at hbalance
    have hmost := hadds.countP_opens session
    have hleast : 0 < events.countP (Event.opens session) :=
      List.countP_pos_iff.mpr ⟨_, hopened, decide_eq_true rfl⟩
    omega

end Reader

/-- Whatever a reader is told to do and whatever fails, it has one session at a time, which it closes as
soon as something on it has failed, and a session that it has opened has been closed once or is the one
that it has. None is left once it has found the end of its split, has given up, or has been closed. -/
theorem reader_sessions_disciplined (srv : Server σ) (config : Config.Input) (w : Wire σ)
    (calls : List Reader.Call) (call : Reader.Call) :
    let answered := call.run srv (Reader.follow srv calls (.new config, w))
    let reader := answered.2.1
    let events := w.since answered.2.2
    w.Adds events answered.2.2 ∧ Reader.Disciplined events reader ∧
      (answered.1.Ends → reader.session = none ∧
        ∀ session, .opened session ∈ events → events.countP (Event.closes session) = 1) := by
  obtain ⟨hbefore, hidle⟩ := Reader.follow_orderly srv calls (.new config, w)
    (Reader.idle_of_none rfl)
  obtain ⟨hcall, -, hended⟩ := call.run_orderly srv _ hidle
  obtain ⟨events, hadds, hrun⟩ := hbefore.trans hcall
  have hdisciplined := Reader.disciplined hadds hrun
  dsimp only
  rw [hadds.since_eq]
  refine ⟨hadds, hdisciplined, fun hends => ⟨hended hends, fun session hopened => ?_⟩⟩
  have hclosed := hdisciplined.closed session hopened
  rwa [hended hends] at hclosed

/-- The stream of the first session fails, a host refuses the next one, and the one after that is left
open until the reader is closed. -/
theorem reader_sessions_disciplined_failing :
    let answered := Reader.Call.close.run (Reader.Sample.failing [2, 3])
      (Reader.follow (Reader.Sample.failing [2, 3]) [.start Reader.Sample.part, .next, .next]
        (.new Reader.Sample.input, .new (fun _ => [], 0)))
    let events := (Wire.new (fun _ => [], 0)).since answered.2.2
    answered.1.Ends ∧ events.filterMap Event.opens? = [1, 2] ∧
      ∀ session, .opened session ∈ events → events.countP (Event.closes session) = 1 := by
  have h := reader_sessions_disciplined (Reader.Sample.failing [2, 3]) Reader.Sample.input
    (.new (fun _ => [], 0)) [.start Reader.Sample.part, .next, .next] .close
  have hends : Reader.Answer.closed.Ends := trivial
  exact ⟨hends, by decide +kernel, (h.2.2 hends).2⟩

end ForestCourier
