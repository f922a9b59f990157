import ForestCourier.Reader.Basic

/-!
A reader resumes where it was. Its stream, if it has one, yields the records of its split behind those
that were read, and that stays so over every failure: a new stream is asked for from there on, at
another place that has the same records. A reader that gives up has no session left.
-/

namespace ForestCourier

def RangeQuery.whole (q : RangeQuery) : RangeQuery := { q with start := 1, stop := none }

/-- The records that are named by the bounds of the query, out of all. -/
def RangeQuery.select (q : RangeQuery) (records : List Record) : List Record :=
  (match q.stop with
    | none => records
    | some stop => records.take stop.toNat).drop (q.start.toNat - 1)

/-- A server of records. A host answers a range query by the records in the range, in the order in
which `library` has those of the query without bounds; `stream` tells what a session has still to
yield. -/
structure Server.Serves {σ : Type} (srv : Server σ) (library : String → RangeQuery → List Record)
    (stream : σ → Nat → List Record) : Prop where
  range : ∀ session q s, (srv.range session q s).1 = .ok () →
    stream (srv.range session q s).2 session.number = q.select (library session.target.host q.whole)
  item : ∀ session s item, (srv.next session s).1 = .ok (some item) →
    ∃ d, item = .record d ∧ stream s session.number = d :: stream (srv.next session s).2 session.number
  finished : ∀ session s, (srv.next session s).1 = .ok none → stream s session.number = []

namespace Split

def places (s : Split) : List Replica :=
  if s.replicas = [] then [⟨s.forest, s.host⟩] else s.replicas

def wholeQuery (s : Split) (config : Config.Input) (place : Replica) : RangeQuery :=
  ⟨place.forest, 1, none, config.query, s.redactionRules⟩

def query (s : Split) (config : Config.Input) (place : Replica) (start : UInt64) : RangeQuery :=
  ⟨place.forest, start, if s.isLast then none else s.stop, config.query, s.redactionRules⟩

def share (s : Split) (records : List Record) : List Record :=
  (match if s.isLast then none else s.stop with
    | none => records
    | some stop => records.take stop.toNat).drop (s.start.toNat - 1)

/-- A server that has the records of a split. A query that starts `k` positions behind the split's start
brings those from there on, in order, and its stream ends only where they do; `stream` tells what a
session has still to yield. -/
structure Feeds {σ : Type} (srv : Server σ) (stream : σ → Nat → List Record) (config : Config.Input)
    (s : Split) (records : List Record) : Prop where
  range : ∀ place ∈ s.places, ∀ (start : UInt64) (k : Nat), start.toNat = s.start.toNat + k →
    ∀ session state, session.target = ⟨place.host, config.port, some place.forest⟩ →
      (srv.range session (s.query config place start) state).1 = .ok () →
      stream (srv.range session (s.query config place start) state).2 session.number = records.drop k
  item : ∀ session state item, (srv.next session state).1 = .ok (some item) →
    ∃ d, item = .record d ∧
      stream state session.number = d :: stream (srv.next session state).2 session.number
  finished : ∀ session state, (srv.next session state).1 = .ok none →
    stream state session.number = []

/-- A server of records has those of a split, if the same ones are at all of its places. -/
theorem feeds_of_serves {σ : Type} {srv : Server σ} {library : String → RangeQuery → List Record}
    {stream : σ → Nat → List Record} {config : Config.Input} {s : Split} {records : List Record}
    (hserves : srv.Serves library stream) (hstart : 0 < s.start.toNat)
    (hrecords : ∀ p ∈ s.places, library p.host (s.wholeQuery config p) = records) :
    Feeds srv stream config s (s.share records) where
  range place hplace start k hfrom session state htarget hanswer := by
    have hwhole : library session.target.host (s.query config place start).whole = records := by
      rw [htarget]
      exact hrecords place hplace
    have hbehind : start.toNat - 1 = s.start.toNat - 1 + k := by omega
    rw [hserves.range session _ state hanswer, hwhole, RangeQuery.select, share, List.drop_drop,
      ← hbehind]
    rfl
  item := hserves.item
  finished := hserves.finished

end Split

namespace Reader

variable {σ : Type}

structure Placed (config : Config.Input) (split : Split) (r : Reader) : Prop where
  settings : r.config = config
  task : r.split = some split
  cursor : ∀ c, r.cursor = some c → c.replicas = split.replicas
  fixed : r.cursor = none → split.replicas = []

theorem Placed.place_mem {config : Config.Input} {split : Split} {r : Reader}
    (h : Placed config split r) :
    r.place split ∈ split.places := by
  unfold place Split.places
  cases hc : r.cursor with
  | none => rw [if_pos (h.fixed hc)]; exact List.mem_singleton_self _
  | some c =>
    have hmem : c.current ∈ split.replicas := by
      rw [← h.cursor c hc]
      exact List.get_mem _ _
    rw [if_neg (List.ne_nil_of_mem hmem)]
    exact hmem

theorem Placed.release {config : Config.Input} {split : Split} {r : Reader}
    (h : Placed config split r) (session : Option Session) :
    Placed config split { r with session := session } :=
  ⟨h.settings, h.task, h.cursor, h.fixed⟩

theorem release_eq (srv : Server σ) (r : Reader) (w : Wire σ) :
    ∃ w', r.release srv w = ({ r with session := none }, w') := by
  obtain ⟨config, retry, split, cursor, session, rest⟩ := r
  cases session with
  | none => exact ⟨w, rfl⟩
  | some session => exact ⟨w.close srv session, rfl⟩

/-- A reader whose stream, if it has one, is where it should be. -/
structure Ready (stream : σ → Nat → List Record) (config : Config.Input) (split : Split)
    (records : List Record) (r : Reader) (w : Wire σ) : Prop extends Placed config split r where
  stream : ∀ session, r.session = some session →
    stream w.state session.number = records.drop r.read.toNat
  running : r.done = false

variable {srv : Server σ} {stream : σ → Nat → List Record} {config : Config.Input} {split : Split}
  {records : List Record} {r : Reader} {w : Wire σ}

theorem target_openSession {target : Target} {transaction : Transaction} {session : Session}
    {w w' : Wire σ} (h : w.openSession srv target transaction = (.ok session, w')) :
    session.target = target := by
  unfold Wire.openSession at h
  dsimp only at h
  split at h
  · cases h
    rfl
  · cases h

/-- A connection is a session whose stream goes on where the reader stands; without one the reader
stays as it was. There is none if the position to go on from is too large for a word. -/
def Connects (stream : σ → Nat → List Record) (split : Split) (records : List Record)
    (r : Reader) : Except (Fault RequestError) Unit × Reader × Wire σ → Prop
  | (.ok _, r', w') => ∃ session, r' = { r with session := some session } ∧
      stream w'.state session.number = records.drop r.read.toNat
  | (.error (.failed _), r', _) => r' = r
  | (.error (.overflow _), r', _) =>
    r' = r ∧ UInt64.size ≤ split.start.toNat + r.read.toNat

theorem connect_connects (hfeeds : split.Feeds srv stream config records) (h : Placed config split r)
    (w : Wire σ) :
    Connects stream split records r (r.connect srv split w) := by
  fun_cases connect srv split r w with
  | case1 fault hadd =>
    unfold Word.add at hadd
    split at hadd
    · cases hadd
    · next hlarge =>
      cases hadd
      exact ⟨rfl, Nat.le_of_not_lt hlarge⟩
  | case2 => rfl
  | case3 start hadd place query session w₁ hopen w₂ hrange =>
    refine ⟨session, rfl, ?_⟩
    have hfrom := Word.toNat_of_add hadd
    have hquery : query = split.query config (r.place split) start := by
      rw [← h.settings]
      rfl
    have htarget : session.target =
        ⟨(r.place split).host, config.port, some (r.place split).forest⟩ := by
      rw [target_openSession hopen, h.settings]
    simp only [Wire.range, Prod.mk.injEq, hquery] at hrange
    obtain ⟨hanswer, rfl⟩ := hrange
    exact hfeeds.range _ h.place_mem start _ hfrom session _ htarget hanswer
  | case4 => rfl

theorem connect_reader (srv : Server σ) (split : Split) (r : Reader) (w : Wire σ) :
    ∃ session, (r.connect srv split w).2.1 = { r with session := session } := by
  fun_cases connect srv split r w with
  | case1 | case2 | case4 => exact ⟨r.session, rfl⟩
  | case3 start hadd place query session => exact ⟨some session, rfl⟩

/-- Failing over ends with `resume` getting through on a stream that goes on where the reader
stands, or without a session, or at a position too large for a word. -/
def Regains {α : Type} (stream : σ → Nat → List Record) (config : Config.Input) (split : Split)
    (records : List Record)
    (resume : Reader → Wire σ → Except RequestError α × Reader × Wire σ) (r : Reader) :
    Except (Fault TransferError) α × Reader × Wire σ → Prop
  | (.ok a, r', w') => ∃ r₁ w₁, resume r₁ w₁ = (.ok a, r', w') ∧
      Ready stream config split records r₁ w₁ ∧ r₁.session.isSome ∧ r₁.read = r.read
  | (.error (.failed _), r', w') =>
    Ready stream config split records r' w' ∧ r'.session = none ∧ r'.read = r.read
  | (.error (.overflow _), _, _) => UInt64.size ≤ split.start.toNat + r.read.toNat

section

variable {α : Type} {resume : Reader → Wire σ → Except RequestError α × Reader × Wire σ}

theorem Regains.of_read {r₁ : Reader} {result : Except (Fault TransferError) α × Reader × Wire σ}
    (h : Regains stream config split records resume r₁ result) (hread : r₁.read = r.read) :
    Regains stream config split records resume r result := by
  obtain ⟨answer, r', w'⟩ := result
  cases answer with
  | ok a =>
    obtain ⟨r₂, w₂, hresumed, hready, hsome, hsame⟩ := h
    exact ⟨r₂, w₂, hresumed, hready, hsome, hsame.trans hread⟩
  | error fault =>
    cases fault with
    | failed cause => exact ⟨h.1, h.2.1, h.2.2.trans hread⟩
    | overflow kind =>
      have hlarge : UInt64.size ≤ split.start.toNat + r₁.read.toNat := h
      rwa [hread] at hlarge

theorem gave_up (h : Placed config split r) (hrunning : r.done = false) (w : Wire σ)
    (cause : TransferError) :
    Regains stream config split records resume r (.error (.failed cause), r.release srv w) := by
  obtain ⟨w', hw'⟩ := release_eq srv r w
  rw [hw']
  exact ⟨⟨h.release none, nofun, hrunning⟩, rfl, rfl⟩

theorem advance_ready (hfeeds : split.Feeds srv stream config records) (h : Placed config split r)
    (hrunning : r.done = false) {cursor : ReplicaCursor} (hcursor : r.cursor = some cursor)
    {r₁ r₂ : Reader} {w₁ w₂ w₃ : Wire σ} {answer : Except (Fault RequestError) Unit}
    (hrelease :
      release srv { r with cursor := some cursor.advance, failures := r.failures + 1 } w = (r₁, w₁))
    (hconnect : connect srv split { r₁ with failovers := r₁.failovers + 1 } w₂ = (answer, r₂, w₃)) :
    Ready stream config split records r₂ w₃ ∧ r₂.read = r.read ∧
      (answer = .ok () → r₂.session.isSome) ∧
      ∀ kind, answer = .error (.overflow kind) →
        UInt64.size ≤ split.start.toNat + r.read.toNat := by
  obtain ⟨w', hr₁⟩ :=
    release_eq srv { r with cursor := some cursor.advance, failures := r.failures + 1 } w
  rw [hr₁] at hrelease
  cases hrelease
  have hplaced : Placed config split { r with
      cursor := some cursor.advance
      session := none
      failures := r.failures + 1
      failovers := r.failovers + 1 } := by
    refine ⟨h.settings, h.task, fun c hc => ?_, fun hnone => by cases hnone⟩
    cases hc
    exact h.cursor cursor hcursor
  have hconnects := connect_connects hfeeds hplaced w₂
  rw [hconnect] at hconnects
  cases answer with
  | ok u =>
    obtain ⟨session, rfl, hstream⟩ := hconnects
    refine ⟨⟨hplaced.release (some session), fun s hs => ?_, hrunning⟩, rfl, fun _ => rfl, nofun⟩
    cases hs
    exact hstream
  | error fault =>
    cases fault with
    | failed e =>
      cases hconnects
      exact ⟨⟨hplaced, nofun, hrunning⟩, rfl, nofun, nofun⟩
    | overflow kind =>
      obtain ⟨rfl, hlarge⟩ := hconnects
      exact ⟨⟨hplaced, nofun, hrunning⟩, rfl, nofun, fun _ _ => hlarge⟩

theorem recover_regains (hfeeds : split.Feeds srv stream config records)
    (hresume : ∀ r w e r' w', resume r w = (.error e, r', w') → r' = r) (left : Nat)
    (e : RequestError) (h : Placed config split r) (hrunning : r.done = false) (w : Wire σ) :
    Regains stream config split records resume r (recover srv split resume left e r w) := by
  fun_induction recover srv split resume left e r w with
  | case1 left e r w => exact gave_up h hrunning _ _
  | case2 e r w =>
    have hfailed : Placed config split { r with failures := r.failures + 1 } :=
      ⟨h.settings, h.task, h.cursor, h.fixed⟩
    exact (gave_up hfailed hrunning _ _).of_read rfl
  | case3 e r w _ cursor left hcursor next failures pause r₁ w₁ hrelease w₂ kind r₂ w₃ hconnect =>
    exact (advance_ready hfeeds h hrunning hcursor hrelease hconnect).2.2.2 kind rfl
  | case4 e r w _ cursor left hcursor next failures pause r₁ w₁ hrelease w₂ e₁ r₂ w₃ hconnect ih =>
    obtain ⟨hready, hread, -⟩ := advance_ready hfeeds h hrunning hcursor hrelease hconnect
    exact (ih hready.toPlaced hready.running).of_read hread
  | case5 e r w _ cursor left hcursor next failures pause r₁ w₁ hrelease w₂ r₂ w₃ hconnect a r₃ w₄
      hresumed =>
    obtain ⟨hready, hread, hsome, -⟩ := advance_ready hfeeds h hrunning hcursor hrelease hconnect
    exact ⟨r₂, w₃, hresumed, hready, hsome rfl, hread⟩
  | case6 e r w _ cursor left hcursor next failures pause r₁ w₁ hrelease w₂ r₂ w₃ hconnect e₁ r₃ w₄
      hresumed ih =>
    obtain ⟨hready, hread, -⟩ := advance_ready hfeeds h hrunning hcursor hrelease hconnect
    cases hresume _ _ _ _ _ hresumed
    exact (ih hready.toPlaced hready.running).of_read hread
  | case7 left e r w => exact gave_up h hrunning _ _

end

theorem fetch_error (srv : Server σ) (r : Reader) (w : Wire σ) (e : RequestError) (r' : Reader)
    (w' : Wire σ) (h : r.fetch srv w = (.error e, r', w')) : r' = r := by
  unfold fetch at h
  split at h
  · exact (congrArg (fun answer => answer.2.1) h).symm
  · cases h

theorem fetch_ok {session : Session} (hsession : r.session = some session) {item : Option Item}
    {r' : Reader} {w' : Wire σ} (h : r.fetch srv w = (.ok item, r', w')) :
    r' = r ∧ w.next srv session = (.ok item, w') := by
  rw [fetch, hsession] at h
  dsimp only at h
  cases hnext : w.next srv session with
  | mk answer w₁ =>
    rw [hnext] at h
    cases h
    exact ⟨rfl, rfl⟩

/-- A reader hands out the first of the records that it has still to read, or finds that there are
none, or fails for good and has no session left. Only a position or a count too large for a word cuts
it short. -/
def Delivers (stream : σ → Nat → List Record) (config : Config.Input) (split : Split)
    (records : List Record) (r : Reader) :
    Except (Fault TransferError) Bool × Reader × Wire σ → Prop
  | (.ok true, r', w') => ∃ d, r'.current = some d ∧ records[r.read.toNat]? = some d ∧
      r'.read.toNat = r.read.toNat + 1 ∧ Ready stream config split records r' w'
  | (.ok false, r', _) => records.length ≤ r.read.toNat ∧ r'.done = true ∧ r'.read = r.read
  | (.error (.failed _), r', w') =>
    Ready stream config split records r' w' ∧ r'.session = none ∧ r'.read = r.read
  | (.error (.overflow _), _, _) => UInt64.size ≤ split.start.toNat + r.read.toNat ∨
      r.read.toNat < records.length ∧ UInt64.size ≤ r.read.toNat + 1

theorem settle_delivers (hfeeds : split.Feeds srv stream config records)
    (h : Ready stream config split records r w) {session : Session}
    (hsession : r.session = some session) {item : Option Item} {w₁ : Wire σ}
    (hnext : w.next srv session = (.ok item, w₁)) :
    Delivers stream config split records r (r.settle srv w₁ item) := by
  have hstream := h.stream session hsession
  simp only [Wire.next, Prod.mk.injEq] at hnext
  obtain ⟨hanswer, rfl⟩ := hnext
  cases item with
  | none =>
    obtain ⟨w', hw'⟩ := release_eq srv { r with done := true, current := none }
      (w.after (srv.next session w.state).2 (.fetched session (srv.next session w.state).1))
    rw [hfeeds.finished session w.state hanswer] at hstream
    unfold settle
    dsimp only
    rw [hw']
    exact ⟨List.drop_eq_nil_iff.mp hstream.symm, rfl, rfl⟩
  | some item =>
    obtain ⟨d, rfl, hcons⟩ := hfeeds.item session w.state item hanswer
    rw [hcons] at hstream
    have hfirst : records[r.read.toNat]? = some d := by
      rw [← List.head?_drop, ← hstream, List.head?_cons]
    unfold settle
    dsimp only
    cases hadd : Word.add r.read 1 with
    | error fault =>
      unfold Word.add at hadd
      split at hadd
      · cases hadd
      · next hlarge =>
        cases hadd
        refine .inr ⟨(List.getElem?_eq_some_iff.mp hfirst).1, ?_⟩
        simpa using hlarge
    | ok read =>
      have hread : read.toNat = r.read.toNat + 1 := Word.toNat_of_add hadd
      refine ⟨d, rfl, hfirst, hread, ⟨h.settings, h.task, h.cursor, h.fixed⟩, fun s hs => ?_,
        h.running⟩
      rw [hsession] at hs
      cases hs
      dsimp only [Wire.after]
      rw [hread, ← List.drop_drop, ← hstream]
      rfl

theorem Delivers.of_read {r₁ : Reader} {result : Except (Fault TransferError) Bool × Reader × Wire σ}
    (h : Delivers stream config split records r₁ result) (hread : r₁.read = r.read) :
    Delivers stream config split records r result := by
  unfold Delivers at h ⊢
  split at h
  · rwa [hread] at h
  · rwa [hread] at h
  · rwa [hread] at h
  · rwa [hread] at h

theorem next_delivers (hfeeds : split.Feeds srv stream config records)
    (h : Ready stream config split records r w) :
    Delivers stream config split records r (r.next srv w) := by
  fun_cases next srv r w with
  | case1 hdone => exact absurd hdone (by simp [h.running])
  | case2 _ task session hsession htask item r₁ w₁ hfetch =>
    obtain ⟨hsame, hnext⟩ := fetch_ok hsession hfetch
    rw [hsame]
    exact settle_delivers hfeeds h hsession hnext
  | case3 _ task session hsession htask e r₁ w₁ hfetch item r₂ w₂ hrecover =>
    cases fetch_error srv r w e r₁ w₁ hfetch
    cases htask.symm.trans h.task
    have hregains := recover_regains hfeeds (fetch_error srv) r.budget e h.toPlaced h.running w₁
    rw [hrecover] at hregains
    obtain ⟨r₃, w₃, hfetched, hready, hsome, hread⟩ := hregains
    obtain ⟨session₃, hsession₃⟩ := Option.isSome_iff_exists.mp hsome
    obtain ⟨hsame, hnext⟩ := fetch_ok hsession₃ hfetched
    rw [hsame]
    exact (settle_delivers hfeeds hready hsession₃ hnext).of_read hread
  | case4 _ task session hsession htask e r₁ w₁ hfetch fault r₂ w₂ hrecover =>
    cases fetch_error srv r w e r₁ w₁ hfetch
    cases htask.symm.trans h.task
    have hregains := recover_regains hfeeds (fetch_error srv) r.budget e h.toPlaced h.running w₁
    rw [hrecover] at hregains
    cases fault with
    | failed cause => exact hregains
    | overflow kind => exact .inl hregains
  | case5 _ hnone =>
    -- The split is there, so it is the session that is missing.
    refine ⟨h, ?_, rfl⟩
    cases hsession : r.session with
    | none => rfl
    | some session => exact absurd hsession (hnone split session h.task)

theorem new_cursor (replicas : List Replica) (host : String) :
    (∀ c, ReplicaCursor.new replicas host = some c → c.replicas = replicas) ∧
      (ReplicaCursor.new replicas host = none → replicas = []) := by
  unfold ReplicaCursor.new
  split
  · refine ⟨fun c hc => ?_, nofun⟩
    cases hc
    rfl
  · next hempty => exact ⟨nofun, fun _ => List.eq_nil_of_length_eq_zero (by omega)⟩

def Starts (stream : σ → Nat → List Record) (config : Config.Input) (split : Split)
    (records : List Record) : Except (Fault TransferError) Unit × Reader × Wire σ → Prop
  | (.ok _, r', w') => Ready stream config split records r' w' ∧ r'.read = 0
  | (.error (.failed _), r', w') =>
    Ready stream config split records r' w' ∧ r'.read = 0 ∧ r'.session = none
  | (.error (.overflow _), _, _) => False

theorem start_starts (hfeeds : split.Feeds srv stream config records) (hconfig : r.config = config)
    (w : Wire σ) :
    Starts stream config split records (r.start srv split w) := by
  have hsmall := split.start.toNat_lt
  obtain ⟨hcursor, hfixed⟩ := new_cursor split.replicas split.host
  obtain ⟨w₁, hrelease⟩ := release_eq srv r w
  unfold start
  rw [hrelease]
  dsimp only
  generalize hr₁ : ({ r with
    session := none, split := some split, cursor := ReplicaCursor.new split.replicas split.host,
    current := none, read := 0, failures := 0, failovers := 0, done := false } : Reader) = r₁
  have hplaced : Placed config split r₁ := by
    subst hr₁
    exact ⟨hconfig, rfl, hcursor, hfixed⟩
  have hread : r₁.read = 0 := by
    subst hr₁
    rfl
  have hrunning : r₁.done = false := by
    subst hr₁
    rfl
  -- The first position of a split is a word, so that asking for it is no problem.
  have hfits : ¬ UInt64.size ≤ split.start.toNat + r₁.read.toNat := by
    rw [hread]
    exact Nat.not_le.mpr hsmall
  have hconnects := connect_connects hfeeds hplaced w₁
  cases hconnect : r₁.connect srv split w₁ with
  | mk answer after =>
    obtain ⟨r₂, w₂⟩ := after
    rw [hconnect] at hconnects
    cases answer with
    | ok u =>
      obtain ⟨session, rfl, hstream⟩ := hconnects
      refine ⟨⟨hplaced.release (some session), fun s hs => ?_, hrunning⟩, hread⟩
      cases hs
      exact hstream
    | error fault =>
      cases fault with
      | overflow kind => exact absurd hconnects.2 hfits
      | failed e =>
        cases hconnects
        dsimp only
        have hresume (r : Reader) (w : Wire σ) (e : RequestError) (r' : Reader) (w' : Wire σ)
            (he : ((.ok (), r, w) : Except RequestError Unit × Reader × Wire σ) = (.error e, r', w')) :
            r' = r := by
          cases he
        have hregains := recover_regains hfeeds hresume r₁.budget e hplaced hrunning w₂
        cases hrecover : recover srv split (fun r w => (.ok (), r, w)) r₁.budget e r₁ w₂ with
        | mk answer after =>
          rw [hrecover] at hregains
          cases answer with
          | ok u =>
            obtain ⟨r₃, w₃, hresumed, hready, -, hsame⟩ := hregains
            cases hresumed
            exact ⟨hready, hsame.trans hread⟩
          | error fault =>
            cases fault with
            | failed cause => exact ⟨hregains.1, hregains.2.2.trans hread, hregains.2.1⟩
            | overflow kind => exact absurd hregains hfits

end Reader

end ForestCourier
