import ForestCourier.Proofs.Reader.Gapless
import ForestCourier.Proofs.Reader.Pace
import ForestCourier.Proofs.Reader.Sessions

/-!
A reader keeps its pace. Failing over counts the failures since the last record across all calls, so that
however often streams are opened and fail again before their first record, fifteen failures are the end of
it; and the place that it turns to follows from how often it has turned since its start.
-/

namespace ForestCourier

variable {σ : Type}

namespace Reader

variable {srv : Server σ} {config : Config.Input} {split : Split} {n : Nat} {fs : List RequestError}
  {r r' : Reader} {w w' w'' : Wire σ}

def Pace.Leads (config : Config.Input) (split : Split) (p : Pace) (w : Wire σ) (q : Pace) (w' : Wire σ) :
    Prop := ∃ events, w.Adds events w' ∧ Runs config split p (events.map .asked) q

namespace Pace.Leads

variable {p q q' : Pace}

theorem refl (p : Pace) (w : Wire σ) : Leads config split p w p w := ⟨[], .of_same rfl rfl, .nil⟩

theorem trans (h : Leads config split p w q w') (h' : Leads config split q w' q' w'') :
    Leads config split p w q' w'' := by
  obtain ⟨events, hadds, hruns⟩ := h
  obtain ⟨events', hadds', hruns'⟩ := h'
  exact ⟨events ++ events', hadds.trans hadds', by rw [List.map_append]; exact hruns.append hruns'⟩

theorem single {event : Event} (hadds : w.Adds [event] w') (hstep : Steps config split p (.asked event) q) :
    Leads config split p w q w' := ⟨[event], hadds, .single hstep⟩

end Pace.Leads

theorem closes_leads {session? : Option Session} {phase : Phase} (hphase : n ≠ 0 → phase ≠ .ready)
    (h : w.Closes session? w') : Pace.Leads config split ⟨n, fs, phase⟩ w ⟨n, fs, phase⟩ w' := by
  cases session? with
  | none => exact ⟨[], h, .nil⟩
  | some session =>
    obtain ⟨answer, hadds⟩ := h
    exact .single hadds (.closed hphase)

/-- A reader of the split that has turned `n` times, with those failures since its last record. -/
structure Follows (config : Config.Input) (split : Split) (n : Nat) (fs : List RequestError) (r : Reader) :
    Prop extends Placed config split r where
  retry : r.retry = .reader
  position : ∀ c, r.cursor = some c → c.position = (split.entry + n) % split.places.length
  count : r.failures = fs.length
  few : fs.length ≤ 14

namespace Follows

theorem replicas_ne_nil (h : Follows config split n fs r) {cursor : ReplicaCursor}
    (hcursor : r.cursor = some cursor) : split.replicas ≠ [] := by
  rw [← h.cursor cursor hcursor]
  exact List.ne_nil_of_length_pos (Nat.zero_lt_of_lt cursor.position_lt)

theorem places_eq (h : Follows config split n fs r) {cursor : ReplicaCursor}
    (hcursor : r.cursor = some cursor) : split.places = cursor.replicas :=
  (if_neg (h.replicas_ne_nil hcursor)).trans (h.cursor cursor hcursor).symm

theorem turn (h : Follows config split n fs r) : split.turn config n = some (r.target split) := by
  unfold Split.turn target place
  cases hcursor : r.cursor with
  | none =>
    have hplaces : split.places = [⟨split.forest, split.host⟩] := if_pos (h.fixed hcursor)
    rw [hplaces, List.length_singleton, Nat.mod_one, h.settings]
    rfl
  | some cursor =>
    have hplaces := h.places_eq hcursor
    rw [← h.position cursor hcursor, hplaces, List.getElem?_eq_getElem cursor.position_lt, h.settings]
    rfl

theorem budget (h : Follows config split n fs r) : r.budget + fs.length = 14 := by
  have hfew := h.few
  have hmax : RetryPolicy.reader.maxAttempts = 15 := rfl
  rw [Reader.budget, h.retry, h.count, hmax]
  omega

theorem of_session (h : Follows config split n fs r) (session : Option Session) :
    Follows config split n fs { r with session := session } :=
  ⟨h.toPlaced.release session, h.retry, h.position, h.count, h.few⟩

theorem turned (h : Follows config split n fs r) {cursor : ReplicaCursor} (hcursor : r.cursor = some cursor)
    (hmore : fs.length < 14) (e : RequestError) :
    Follows config split (n + 1) (fs ++ [e]) (r.turned cursor) where
  settings := h.settings
  task := h.task
  cursor c hc := by
    cases hc
    exact h.cursor cursor hcursor
  fixed := nofun
  retry := h.retry
  position c hc := by
    cases hc
    have hplaces := h.places_eq hcursor
    rw [ReplicaCursor.position_advance, h.position cursor hcursor, ReplicaCursor.size, hplaces,
      Nat.mod_add_mod, Nat.add_assoc]
  count := by
    rw [List.length_append, List.length_singleton, ← h.count]
    rfl
  few := by
    rw [List.length_append, List.length_singleton]
    exact hmore

end Follows

theorem follows_entered (hconfig : r.config = config) (hretry : r.retry = .reader) (split : Split) :
    Follows config split 0 [] (r.entered split) := by
  obtain ⟨hcursor, hfixed⟩ := new_cursor split.replicas split.host
  refine ⟨⟨hconfig, rfl, hcursor, hfixed⟩, hretry, fun c hc => ?_, rfl, Nat.zero_le _⟩
  have hc : ReplicaCursor.new split.replicas split.host = some c := hc
  unfold ReplicaCursor.new at hc
  split at hc
  · next hpos =>
    cases hc
    have hplaces : split.places = split.replicas := if_neg (List.ne_nil_of_length_pos hpos)
    rw [Split.entry, hplaces]
    rfl
  · cases hc

def met {α : Type} (split : Split) (n : Nat) (fs : List RequestError) : Except RequestError α → Pace
  | .ok _ => ⟨n, fs, .running⟩
  | .error e => ⟨n, fs ++ [e], verdict split fs e⟩

theorem Dials.leads {answer : Except (Fault RequestError) Unit} (h : Dials split r w (answer, r', w'))
    (hf : Follows config split n fs r) :
    Follows config split n fs r' ∧
      match answer with
      | .ok _ => Pace.Leads config split ⟨n, fs, .ready⟩ w ⟨n + 1, fs, .running⟩ w'
      | .error (.failed e) =>
        Pace.Leads config split ⟨n, fs, .ready⟩ w ⟨n + 1, fs ++ [e], verdict split fs e⟩ w'
      | .error (.overflow _) => Pace.Leads config split ⟨n, fs, .ready⟩ w ⟨n, fs, .ready⟩ w' := by
  cases h with
  | overflow kind => exact ⟨hf, .refl _ w⟩
  | refused hadds => exact ⟨hf, .single hadds (.refused hf.turn)⟩
  | @unanswered session query e answer w' htarget _ hadds =>
    have hopened : Pace.Steps config split ⟨n, fs, .ready⟩ (.asked (.opened session)) ⟨n + 1, fs, .running⟩ :=
      .opened (htarget ▸ hf.turn)
    exact ⟨hf, _, hadds, .cons hopened (.cons (.failed rfl rfl)
      (.single (.closed fun _ => verdict_ne_ready split fs e)))⟩
  | @connected session query w' htarget _ hadds =>
    have hopened : Pace.Steps config split ⟨n, fs, .ready⟩ (.asked (.opened session)) ⟨n + 1, fs, .running⟩ :=
      .opened (htarget ▸ hf.turn)
    exact ⟨hf.of_session _, _, hadds, .cons hopened (.single (.answered rfl rfl))⟩

theorem Pauses.leads (h : r.Pauses w w') (hf : Follows config split n fs r) {e : RequestError}
    (hretryable : e.isRetryable = true) {cursor : ReplicaCursor} (hcursor : r.cursor = some cursor)
    (hmore : fs.length < 14) :
    Follows config split (n + 1) (fs ++ [e]) (r.turned cursor) ∧
      Pace.Leads config split ⟨n + 1, fs ++ [e], verdict split fs e⟩ w ⟨n + 1, fs ++ [e], .ready⟩ w' := by
  obtain ⟨w₁, hcloses, hadds⟩ := h
  have hlength : r.failures + 1 = (fs ++ [e]).length := by
    rw [List.length_append, List.length_singleton, hf.count]
  rw [hf.retry, hlength] at hadds
  rw [verdict_again hretryable (hf.replicas_ne_nil hcursor) hmore]
  have hclosed : Pace.Leads config split ⟨n + 1, fs ++ [e], .failed⟩ w ⟨n + 1, fs ++ [e], .failed⟩ w₁ :=
    closes_leads (fun _ => nofun) hcloses
  exact ⟨hf.turned hcursor hmore e, hclosed.trans (.single hadds .paused)⟩

section

variable {α : Type} {resume : Reader → Wire σ → Except RequestError α × Reader × Wire σ}

/-- From one failure on, failing over gets through with no more than fourteen of them, or ends with the
error that the last one leads to. -/
theorem Recovers.leads
    (hresume : ∀ {n fs r r' w w'} {answer : Except RequestError α}, Follows config split n fs r →
      resume r w = (answer, r', w') →
      Follows config split n fs r' ∧
        Pace.Leads config split ⟨n + 1, fs, .running⟩ w (met split (n + 1) fs answer) w')
    {left : Nat} {e : RequestError} {result : Except (Fault TransferError) α × Reader × Wire σ}
    (h : Recovers split resume left e r w result) (hf : Follows config split n fs r)
    (hleft : left + fs.length = 14) :
    ∃ q, Pace.Leads config split ⟨n + 1, fs ++ [e], verdict split fs e⟩ w q result.2.2 ∧
      match result.1 with
      | .ok _ => ∃ n' fs', q = ⟨n' + 1, fs', .running⟩ ∧ Follows config split n' fs' result.2.1
      | .error (.failed cause) => q.phase = .ended cause
      | .error (.overflow _) => q.phase = .ready := by
  -- Every round takes one of the attempts left and adds one to the failures, so that their sum stays.
  induction h generalizing n fs with
  | failed hfinal hcloses =>
    exact ⟨_, closes_leads (fun _ => verdict_ne_ready _ _ _) hcloses, verdict_final (.inl hfinal)⟩
  | stranded _ hcursor hcloses =>
    exact ⟨_, closes_leads (fun _ => verdict_ne_ready _ _ _) hcloses, verdict_final (.inr (hf.fixed hcursor))⟩
  | exhausted hretryable hcursor hcloses =>
    have hlength : fs.length = 14 := by omega
    refine ⟨_, closes_leads (fun _ => verdict_ne_ready _ _ _) hcloses, ?_⟩
    dsimp only
    rw [hf.count, hlength]
    exact verdict_last hretryable (hf.replicas_ne_nil hcursor) hlength
  | overflow hretryable hcursor hpauses hdials =>
    obtain ⟨hturned, hpaused⟩ := hpauses.leads hf hretryable hcursor (by omega)
    exact ⟨_, hpaused.trans (hdials.leads hturned).2, rfl⟩
  | @missed left e e' cursor r r₁ w w₁ w₂ result hretryable hcursor hpauses hdials _ ih =>
    obtain ⟨hturned, hpaused⟩ := hpauses.leads hf hretryable hcursor (by omega)
    obtain ⟨hf₁, hdialed⟩ := hdials.leads hturned
    have hlength : (fs ++ [e]).length = fs.length + 1 := List.length_append
    obtain ⟨q, hrest, hq⟩ := ih hf₁ (by omega)
    exact ⟨q, (hpaused.trans hdialed).trans hrest, hq⟩
  | resumed hretryable hcursor hpauses hdials hresumed =>
    obtain ⟨hturned, hpaused⟩ := hpauses.leads hf hretryable hcursor (by omega)
    obtain ⟨hf₁, hdialed⟩ := hdials.leads hturned
    obtain ⟨hf₂, hmet⟩ := hresume hf₁ hresumed
    exact ⟨_, (hpaused.trans hdialed).trans hmet, _, _, rfl, hf₂⟩
  | @lost left e e' cursor r r₁ r₂ w w₁ w₂ w₃ result hretryable hcursor hpauses hdials hresumed _ ih =>
    obtain ⟨hturned, hpaused⟩ := hpauses.leads hf hretryable hcursor (by omega)
    obtain ⟨hf₁, hdialed⟩ := hdials.leads hturned
    obtain ⟨hf₂, hmet⟩ := hresume hf₁ hresumed
    have hlength : (fs ++ [e]).length = fs.length + 1 := List.length_append
    obtain ⟨q, hrest, hq⟩ := ih hf₂ (by omega)
    exact ⟨q, ((hpaused.trans hdialed).trans hmet).trans hrest, hq⟩

end

theorem fetched_leads {session : Session} {answer : Except RequestError (Option Item)}
    (h : w.Adds [.fetched session answer] w') :
    Pace.Leads config split ⟨n, fs, .running⟩ w (met split n fs answer) w' := by
  cases answer with
  | ok item => exact .single h (.answered rfl rfl)
  | error e => exact .single h (.failed rfl rfl)

theorem fetch_leads {answer : Except RequestError (Option Item)} (hf : Follows config split n fs r)
    (h : r.fetch srv w = (answer, r', w')) :
    Follows config split n fs r' ∧
      Pace.Leads config split ⟨n + 1, fs, .running⟩ w (met split (n + 1) fs answer) w' := by
  cases hsession : r.session with
  | none =>
    unfold fetch at h
    rw [hsession] at h
    cases h
    exact ⟨hf, .refl _ w⟩
  | some session =>
    obtain ⟨answer', w₁, hfetch, hadds⟩ := fetch_adds srv hsession w
    cases hfetch.symm.trans h
    exact ⟨hf, fetched_leads hadds⟩

def fault? {α : Type} : Except (Fault TransferError) α → Option (Fault TransferError)
  | .ok _ => none
  | .error fault => some fault

def handed : Except (Fault TransferError) Bool → List Mark
  | .ok true => [.handed]
  | _ => []

/-- A reader at a pace: it reads from its stream, or it has none, or it has found the end. -/
def Stands (config : Config.Input) (split : Split) (p : Pace) (r : Reader) : Prop :=
  (∃ n fs, p = ⟨n + 1, fs, .running⟩ ∧ Follows config split n fs r) ∨ r.done = true ∨ r.session = none

def Keeps (config : Config.Input) (split : Split) (p : Pace) (w : Wire σ) (fault : Option (Fault TransferError))
    (marks : List Mark) (y : Reader × Wire σ) : Prop :=
  ∃ q q', Pace.Leads config split p w q y.2 ∧ q.phase.Tells fault ∧ Pace.Runs config split q marks q' ∧
    Stands config split q' y.1

variable {fault : Option (Fault TransferError)} {marks : List Mark}

theorem Keeps.of_leads {p q : Pace} {y : Reader × Wire σ} (h : Pace.Leads config split p w q w')
    (h' : Keeps config split q w' fault marks y) : Keeps config split p w fault marks y := by
  obtain ⟨q₁, q₂, hleads, hrest⟩ := h'
  exact ⟨q₁, q₂, h.trans hleads, hrest⟩

theorem Follows.keeps (h : Follows config split n fs r) (w : Wire σ)
    (hfault : ∀ cause, fault = some (.failed cause) → cause.source? = none) :
    Keeps config split ⟨n + 1, fs, .running⟩ w fault [] (r, w) :=
  ⟨_, _, .refl _ w, hfault, .nil, .inl ⟨n, fs, rfl, h⟩⟩

theorem Settles.keeps {item : Option Item} {result : Except (Fault TransferError) Bool × Reader × Wire σ}
    (h : Settles r w item result) (hf : Follows config split n fs r) :
    Keeps config split ⟨n + 1, fs, .running⟩ w (fault? result.1) (handed result.1) result.2 := by
  cases h with
  | @record d read =>
    have hnext : Follows config split n [] { r with read := read, failures := 0, current := some d } :=
      ⟨⟨hf.settings, hf.task, hf.cursor, hf.fixed⟩, hf.retry, hf.position, rfl, Nat.zero_le _⟩
    exact ⟨_, _, .refl _ w, nofun, .single .handed, .inl ⟨n, [], rfl, hnext⟩⟩
  | overflow => exact hf.keeps w nofun
  | foreign =>
    refine hf.keeps w fun cause hcause => ?_
    cases hcause
    rfl
  | finished hcloses => exact ⟨_, _, closes_leads (fun _ => nofun) hcloses, nofun, .nil, .inr (.inl rfl)⟩

theorem next_keeps (srv : Server σ) (h : Follows config split n fs r) (w : Wire σ) :
    Keeps config split ⟨n + 1, fs, .running⟩ w (fault? (r.next srv w).1) (handed (r.next srv w).1)
      (r.next srv w).2 := by
  have hadvances := next_advances srv r w
  generalize r.next srv w = result at hadvances
  cases hadvances with
  | done => exact h.keeps w nofun
  | closed =>
    refine h.keeps w fun cause hcause => ?_
    cases hcause
    rfl
  | settled _ _ _ hadds => exact ((settle_settles srv r _ _).keeps h).of_leads (fetched_leads hadds)
  | recovered _ htask _ hadds hrecovers =>
    cases htask.symm.trans h.task
    obtain ⟨q, hleads, n', fs', rfl, hf⟩ := hrecovers.leads fetch_leads h h.budget
    exact ((settle_settles srv _ _ _).keeps hf).of_leads ((fetched_leads hadds).trans hleads)
  | @lost _ _ e fault r' w₁ w' _ htask _ hadds hrecovers =>
    cases htask.symm.trans h.task
    obtain ⟨q, hleads, hphase⟩ := hrecovers.leads fetch_leads h h.budget
    have hnone := (hrecovers.drives fetched_error fetch_drives).2
    refine ⟨q, q, (fetched_leads hadds).trans hleads, ?_, .nil, .inr (.inr hnone)⟩
    cases fault with
    | failed cause => rw [hphase]; rfl
    | overflow kind => rw [hphase]; exact ⟨kind, rfl⟩

theorem next_still (srv : Server σ) (h : r.done = true ∨ r.session = none) (w : Wire σ) :
    (r.next srv w).2 = (r, w) ∧ handed (r.next srv w).1 = [] ∧
      ∀ cause, fault? (r.next srv w).1 = some (.failed cause) → cause.source? = none := by
  have hadvances := next_advances srv r w
  have hstill {session : Session} (hrunning : r.done = false) (hsession : r.session = some session) : False := by
    rcases h with hdone | hnone
    · cases hrunning.symm.trans hdone
    · cases hnone.symm.trans hsession
  generalize r.next srv w = result at hadvances
  cases hadvances with
  | done => exact ⟨rfl, rfl, nofun⟩
  | closed =>
    refine ⟨rfl, rfl, fun cause hcause => ?_⟩
    cases hcause
    rfl
  | settled hrunning _ hsession => exact (hstill hrunning hsession).elim
  | recovered hrunning _ hsession => exact (hstill hrunning hsession).elim
  | lost hrunning _ hsession => exact (hstill hrunning hsession).elim

theorem start_keeps (srv : Server σ) (hconfig : r.config = config) (hretry : r.retry = .reader) (split : Split)
    (w : Wire σ) :
    Keeps config split Pace.start w (fault? (r.start srv split w).1) [] (r.start srv split w).2 := by
  have hf := follows_entered hconfig hretry split
  have hentered := start_enters srv split r w
  have hfirst {session? : Option Session} {w' : Wire σ} (hcloses : w.Closes session? w') :
      Pace.Leads config split Pace.start w Pace.start w' := closes_leads (fun h => absurd rfl h) hcloses
  generalize r.start srv split w = result at hentered
  cases hentered with
  | connected hcloses hdials =>
    obtain ⟨hf₁, hleads⟩ := hdials.leads hf
    exact ⟨_, _, (hfirst hcloses).trans hleads, nofun, .nil, .inl ⟨0, [], rfl, hf₁⟩⟩
  | overflow hcloses hdials =>
    have hnone := (hdials.drives rfl).2 ⟨_, rfl⟩
    exact ⟨_, _, (hfirst hcloses).trans (hdials.leads hf).2, ⟨_, rfl⟩, .nil, .inr (.inr hnone)⟩
  | recovered hcloses hdials hrecovers =>
    obtain ⟨hf₁, hleads⟩ := hdials.leads hf
    obtain ⟨q, hrecovered, hq⟩ := hrecovers.leads
      (fun hf hresumed => by cases hresumed; exact ⟨hf, .refl _ _⟩) hf₁ hf₁.budget
    have hall := ((hfirst hcloses).trans hleads).trans hrecovered
    have hdrives := hrecovers.drives started_error fun hresumed => by
      cases hresumed
      exact .of_same rfl rfl rfl
    obtain ⟨answer, r', w'⟩ := result
    match answer with
    | .ok u =>
      obtain ⟨n', fs', rfl, hf'⟩ := hq
      exact ⟨_, _, hall, nofun, .nil, .inl ⟨n', fs', rfl, hf'⟩⟩
    | .error (.failed cause) => exact ⟨q, q, hall, by rw [hq]; rfl, .nil, .inr (.inr hdrives.2)⟩
    | .error (.overflow kind) => exact ⟨q, q, hall, by rw [hq]; exact ⟨kind, rfl⟩, .nil, .inr (.inr hdrives.2)⟩

namespace Reading

variable {p : Reading σ}

theorem reader_next (srv : Server σ) (p : Reading σ) :
    ((p.next srv).reader, (p.next srv).wire) = (p.reader.next srv p.wire).2 := by
  unfold Reading.next
  split
  · next hnext => rw [hnext]
  · next hnext => rw [hnext]

def history (srv : Server σ) (split : Split) (r : Reader) (w : Wire σ) : Nat → List Mark
  | 0 => (w.since (after srv split r w 0).wire).map .asked
  | n + 1 =>
    let reading := after srv split r w n
    history srv split r w n ++ (reading.wire.since (reading.next srv).wire).map .asked ++
      handed (reading.answer srv)

theorem calls_map (events : List Event) :
    (events.map Mark.asked).filterMap Mark.call? = events.filterMap Event.call? := List.filterMap_map

theorem handed_notMem (events : List Event) : Mark.handed ∉ events.map Mark.asked := by
  simp

theorem next_paced (srv : Server σ) {pace : Pace} {past : List Mark}
    (hruns : Pace.Runs config split Pace.start past pace) (hstands : Stands config split pace p.reader) :
    p.wire.Adds (p.wire.since (p.next srv).wire) (p.next srv).wire ∧
      ((p.wire.since (p.next srv).wire).filterMap Event.call?).length ≤ 14 ∧
      Judged split past (p.wire.since (p.next srv).wire) (fault? (p.answer srv)) ∧
      ∃ pace', Pace.Runs config split Pace.start
          (past ++ (p.wire.since (p.next srv).wire).map .asked ++ handed (p.answer srv)) pace' ∧
        Stands config split pace' (p.next srv).reader := by
  have hnext := reader_next srv p
  rcases hstands with ⟨n, fs, rfl, hf⟩ | hstill
  · obtain ⟨q, q', ⟨events, hadds, hasked⟩, htells, hhanded, hstands⟩ := next_keeps srv hf p.wire
    rw [← hnext] at hadds hstands
    rw [hadds.since_eq]
    have hcalls := hasked.calls_le (hruns.sound Pace.sound_start) (handed_notMem events)
    rw [calls_map] at hcalls
    exact ⟨hadds, hcalls, hruns.judged nofun hasked htells, q', (hruns.append hasked).append hhanded, hstands⟩
  · obtain ⟨hsame, hhanded, hfault⟩ := next_still srv hstill p.wire
    rw [← hnext] at hsame
    have hreader : (p.next srv).reader = p.reader := congrArg Prod.fst hsame
    have hwire : (p.next srv).wire = p.wire := congrArg Prod.snd hsame
    have hadds : p.wire.Adds [] p.wire := .of_same rfl rfl
    have hhanded : handed (p.answer srv) = [] := hhanded
    rw [hreader, hwire, hadds.since_eq, hhanded, List.map_nil, List.append_nil, List.append_nil]
    exact ⟨hadds, Nat.zero_le _, judged_nil hfault, pace, hruns, .inr hstill⟩

theorem start_paced (srv : Server σ) (hconfig : r.config = config) (hretry : r.retry = .reader) (split : Split)
    (w : Wire σ) :
    let begun := w.since (after srv split r w 0).wire
    w.Adds begun (after srv split r w 0).wire ∧ (begun.filterMap Event.call?).length ≤ 15 ∧
      Judged split [] begun (fault? (r.start srv split w).1) ∧
      ∃ pace, Pace.Runs config split Pace.start (begun.map .asked) pace ∧
        Stands config split pace (after srv split r w 0).reader := by
  obtain ⟨q, q', ⟨events, hadds, hasked⟩, htells, hnone, hstands⟩ := start_keeps srv hconfig hretry split w
  have hadds : w.Adds events (after srv split r w 0).wire := hadds
  cases hnone
  have hcalls := hasked.calls_le Pace.sound_start (handed_notMem events)
  rw [calls_map] at hcalls
  dsimp only
  rw [hadds.since_eq]
  exact ⟨hadds, hcalls, Pace.Runs.nil.judged nofun hasked htells, q, hasked, hstands⟩

theorem history_runs (srv : Server σ) (hconfig : r.config = config) (hretry : r.retry = .reader) (split : Split)
    (w : Wire σ) (n : Nat) :
    ∃ pace, Pace.Runs config split Pace.start (history srv split r w n) pace ∧
      Stands config split pace (after srv split r w n).reader := by
  induction n with
  | zero => exact (start_paced srv hconfig hretry split w).2.2.2
  | succ n ih =>
    obtain ⟨pace, hruns, hstands⟩ := ih
    exact (next_paced srv hruns hstands).2.2.2

end Reading

end Reader

/-- The reconnects of a reader, from its start on a split on and over any number of calls, go round the
places of the split, with a pause before each that follows from the failures since the last record, and
there are fourteen of them at most from one record to the next. A call gives up with the fifteenth failure
since the last record, and ends at once with a failure that is not worth a retry or that there is no
replica for; after any other failure it reconnects. -/
theorem reader_retries_paced (srv : Server σ) (config : Config.Input) (split : Split)
    (prior : List Reader.Call) (w : Wire σ) :
    let x := Reader.follow srv prior (.new config, w)
    let reading := Reader.Reading.after srv split x.1 x.2
    let history := Reader.Reading.history srv split x.1 x.2
    let begun := x.2.since (reading 0).wire
    (x.2.Adds begun (reading 0).wire ∧ (begun.filterMap Event.call?).length ≤ 15 ∧
      Reader.Judged split [] begun (Reader.fault? (x.1.start srv split x.2).1)) ∧
    ∀ n, let asked := (reading n).wire.since (reading (n + 1)).wire
      (reading n).wire.Adds asked (reading (n + 1)).wire ∧ (asked.filterMap Event.call?).length ≤ 14 ∧
        Reader.Judged split (history n) asked (Reader.fault? ((reading n).answer srv)) ∧
        Reader.Paced config split (history n) := by
  have hsame := Reader.follow_same srv prior (.new config, w)
  obtain ⟨hadds, hcalls, hjudged, -⟩ :=
    Reader.Reading.start_paced srv hsame.config hsame.retry split (Reader.follow srv prior (.new config, w)).2
  refine ⟨⟨hadds, hcalls, hjudged⟩, fun n => ?_⟩
  obtain ⟨pace, hruns, hstands⟩ := Reader.Reading.history_runs srv hsame.config hsame.retry split
    (Reader.follow srv prior (.new config, w)).2 n
  obtain ⟨hadds, hcalls, hjudged, -⟩ := Reader.Reading.next_paced srv hruns hstands
  exact ⟨hadds, hcalls, hjudged, hruns.paced⟩

/-- If both hosts refuse all sessions, they are asked in turn until the reader gives up. -/
theorem reader_retries_paced_down :
    let down := Reader.Sample.failing (List.range 15)
    let reading := Reader.Reading.after down Reader.Sample.part (.new Reader.Sample.input) (.new (fun _ => [], 0))
    let begun := (Wire.new (fun _ => [], 0)).since (reading 0).wire
    (begun.filterMap Event.call?).map Target.host =
        ["a", "b", "a", "b", "a", "b", "a", "b", "a", "b", "a", "b", "a", "b", "a"] ∧
      Reader.Judged Reader.Sample.part [] begun
        (some (.failed (.retriesExhausted .splitRead 15 (.connection "refused")))) := by
  have h := reader_retries_paced (Reader.Sample.failing (List.range 15)) Reader.Sample.input Reader.Sample.part []
    (.new (fun _ => [], 0))
  have hfault : Reader.fault? ((Reader.new Reader.Sample.input).start (Reader.Sample.failing (List.range 15))
      Reader.Sample.part (.new (fun _ => [], 0))).1 =
        some (.failed (.retriesExhausted .splitRead 15 (.connection "refused"))) := by decide +kernel
  exact ⟨by decide +kernel, hfault ▸ h.1.2.2⟩

end ForestCourier
