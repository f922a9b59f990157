import ForestCourier.Proofs.Reader.Resume
import ForestCourier.Proofs.Session.Protocol

/-!
The requests of a reader, step by step: what it asks for when it gives its session up, when it asks for a
stream, and when it fails over. Failing over comes to an end in one of seven ways; whatever is to be shown of
it is shown for each of them, and by induction for all attempts that it takes.
-/

namespace ForestCourier

variable {σ : Type}

def Wire.Closes (session? : Option Session) (w w' : Wire σ) : Prop :=
  match session? with
  | none => w.Adds [] w'
  | some session => ∃ answer, w.Adds [.closed session answer] w'

theorem Wire.Closes.of_note {session? : Option Session} {w w' : Wire σ} {n : Notice}
    (h : (w.note n).Closes session? w') : w.Closes session? w' := by
  cases session? with
  | none => exact ⟨h.trace, h.opened, h.numbers⟩
  | some session =>
    obtain ⟨answer, hadds⟩ := h
    exact ⟨answer, hadds.trace, hadds.opened, hadds.numbers⟩

theorem Wire.range_adds {srv : Server σ} {session : Session} {query : RangeQuery} {w w' : Wire σ}
    {answer : Except RequestError Unit} (h : w.range srv session query = (answer, w')) :
    w.Adds [.ranged session query answer] w' := by
  cases h
  exact .of_cons rfl rfl rfl

namespace Reader

variable {srv : Server σ} {split : Split} {r : Reader} {w : Wire σ}

theorem release_closes (srv : Server σ) (r : Reader) (w : Wire σ) :
    ∃ w', r.release srv w = ({ r with session := none }, w') ∧ w.Closes r.session w' := by
  obtain ⟨config, retry, split, cursor, session, rest⟩ := r
  cases session with
  | none => exact ⟨w, rfl, .of_same rfl rfl⟩
  | some session => exact ⟨w.close srv session, rfl, _, .of_cons rfl rfl rfl⟩

def target (split : Split) (r : Reader) : Target :=
  ⟨(r.place split).host, r.config.port, some (r.place split).forest⟩

/-- What asking for a stream can come to. Nothing is asked for if the position is too large for a word. -/
inductive Dials (split : Split) (r : Reader) (w : Wire σ) :
    Except (Fault RequestError) Unit × Reader × Wire σ → Prop
  | overflow (kind : Overflow) : Dials split r w (.error (.overflow kind), r, w)
  | refused {e : RequestError} {w' : Wire σ} : w.Adds [.refused (r.target split) .auto e] w' →
      Dials split r w (.error (.failed e), r, w')
  | unanswered {session : Session} {query : RangeQuery} {e : RequestError}
      {answer : Except RequestError Unit} {w' : Wire σ} : session.target = r.target split →
      session.transaction = .auto →
      w.Adds [.opened session, .ranged session query (.error e), .closed session answer] w' →
      Dials split r w (.error (.failed e), r, w')
  | connected {session : Session} {query : RangeQuery} {w' : Wire σ} : session.target = r.target split →
      session.transaction = .auto → w.Adds [.opened session, .ranged session query (.ok ())] w' →
      Dials split r w (.ok (), { r with session := some session }, w')

theorem connect_dials (srv : Server σ) (split : Split) (r : Reader) (w : Wire σ) :
    Dials split r w (r.connect srv split w) := by
  have hopened := Wire.openSession_adds srv (r.target split) .auto w
  fun_cases connect srv split r w with
  | case1 fault hadd =>
    unfold Word.add at hadd
    split at hadd
    · cases hadd
    · cases hadd
      exact .overflow .addition
  | case2 start hadd place e w₁ hopen =>
    rw [target, hopen] at hopened
    exact .refused hopened
  | case3 start hadd place query session w₁ hopen w₂ hrange =>
    rw [target, hopen] at hopened
    obtain ⟨htarget, htransaction, hadds⟩ := hopened
    exact .connected htarget htransaction (hadds.trans (Wire.range_adds hrange))
  | case4 start hadd place query session w₁ hopen e w₂ hrange =>
    rw [target, hopen] at hopened
    obtain ⟨htarget, htransaction, hadds⟩ := hopened
    have hranged := hadds.trans (Wire.range_adds hrange)
    exact .unanswered htarget htransaction (hranged.trans (.of_cons rfl rfl rfl))

theorem fetch_adds (srv : Server σ) {session : Session} (hsession : r.session = some session) (w : Wire σ) :
    ∃ answer w', r.fetch srv w = (answer, r, w') ∧ w.Adds [.fetched session answer] w' := by
  unfold fetch
  rw [hsession]
  exact ⟨_, _, rfl, .of_cons rfl rfl rfl⟩

theorem fetch_reader (srv : Server σ) (r : Reader) (w : Wire σ) : (r.fetch srv w).2.1 = r := by
  unfold fetch
  split
  · rfl
  · rfl

def turned (r : Reader) (cursor : ReplicaCursor) : Reader :=
  { r with cursor := some cursor.advance, session := none, failures := r.failures + 1,
           failovers := r.failovers + 1 }

def Pauses (r : Reader) (w w' : Wire σ) : Prop :=
  ∃ w₁, w.Closes r.session w₁ ∧ w₁.Adds [.waited (r.retry.backoff (r.failures + 1))] w'

/-- Everything that failing over can come to after a failure, with so many attempts left. -/
inductive Recovers {α : Type} (split : Split)
    (resume : Reader → Wire σ → Except RequestError α × Reader × Wire σ) :
    Nat → RequestError → Reader → Wire σ → Except (Fault TransferError) α × Reader × Wire σ → Prop
  | failed {left : Nat} {e : RequestError} {r : Reader} {w w' : Wire σ} : e.isRetryable = false →
      w.Closes r.session w' →
      Recovers split resume left e r w (.error (.failed (.request e)), { r with session := none }, w')
  | stranded {left : Nat} {e : RequestError} {r : Reader} {w w' : Wire σ} : e.isRetryable = true →
      r.cursor = none → w.Closes r.session w' →
      Recovers split resume left e r w (.error (.failed (.request e)), { r with session := none }, w')
  | exhausted {e : RequestError} {cursor : ReplicaCursor} {r : Reader} {w w' : Wire σ} :
      e.isRetryable = true → r.cursor = some cursor → w.Closes r.session w' →
      Recovers split resume 0 e r w
        (.error (.failed (.retriesExhausted .splitRead (r.failures + 1) e)),
          { r with session := none, failures := r.failures + 1 }, w')
  | overflow {left : Nat} {e : RequestError} {cursor : ReplicaCursor} {kind : Overflow} {r r' : Reader}
      {w w₁ w' : Wire σ} : e.isRetryable = true → r.cursor = some cursor → r.Pauses w w₁ →
      Dials split (r.turned cursor) w₁ (.error (.overflow kind), r', w') →
      Recovers split resume (left + 1) e r w (.error (.overflow kind), r', w')
  | missed {left : Nat} {e e' : RequestError} {cursor : ReplicaCursor} {r r₁ : Reader} {w w₁ w₂ : Wire σ}
      {result : Except (Fault TransferError) α × Reader × Wire σ} : e.isRetryable = true →
      r.cursor = some cursor → r.Pauses w w₁ →
      Dials split (r.turned cursor) w₁ (.error (.failed e'), r₁, w₂) →
      Recovers split resume left e' r₁ w₂ result → Recovers split resume (left + 1) e r w result
  | resumed {left : Nat} {e : RequestError} {cursor : ReplicaCursor} {a : α} {r r₁ r' : Reader}
      {w w₁ w₂ w' : Wire σ} : e.isRetryable = true → r.cursor = some cursor → r.Pauses w w₁ →
      Dials split (r.turned cursor) w₁ (.ok (), r₁, w₂) → resume r₁ w₂ = (.ok a, r', w') →
      Recovers split resume (left + 1) e r w (.ok a, r', w')
  | lost {left : Nat} {e e' : RequestError} {cursor : ReplicaCursor} {r r₁ r₂ : Reader}
      {w w₁ w₂ w₃ : Wire σ} {result : Except (Fault TransferError) α × Reader × Wire σ} :
      e.isRetryable = true → r.cursor = some cursor → r.Pauses w w₁ →
      Dials split (r.turned cursor) w₁ (.ok (), r₁, w₂) → resume r₁ w₂ = (.error e', r₂, w₃) →
      Recovers split resume left e' r₂ w₃ result → Recovers split resume (left + 1) e r w result

theorem redials {cursor : ReplicaCursor} {r₁ r₂ : Reader} {w₁ w₂ : Wire σ} {n : Notice}
    {answer : Except (Fault RequestError) Unit}
    (hrelease : Reader.release srv { r with cursor := some cursor.advance, failures := r.failures + 1 } w =
      (r₁, w₁))
    (hconnect : Reader.connect srv split { r₁ with failovers := r₁.failovers + 1 }
      ((w₁.note n).wait srv (r.retry.backoff (r.failures + 1))) = (answer, r₂, w₂)) :
    ∃ w', r.Pauses w w' ∧ Dials split (r.turned cursor) w' (answer, r₂, w₂) := by
  obtain ⟨w', hr₁, hcloses⟩ :=
    release_closes srv { r with cursor := some cursor.advance, failures := r.failures + 1 } w
  cases hr₁.symm.trans hrelease
  have hdials := connect_dials srv split (r.turned cursor)
    ((w₁.note n).wait srv (r.retry.backoff (r.failures + 1)))
  rw [turned, hconnect] at hdials
  exact ⟨(w₁.note n).wait srv _, ⟨w₁, hcloses, .of_cons rfl rfl rfl⟩, hdials⟩

theorem recover_recovers {α : Type} (srv : Server σ) (split : Split)
    (resume : Reader → Wire σ → Except RequestError α × Reader × Wire σ) (left : Nat) (e : RequestError)
    (r : Reader) (w : Wire σ) :
    Recovers split resume left e r w (recover srv split resume left e r w) := by
  fun_induction recover srv split resume left e r w with
  | case1 left e r w giveUp hretryable hcursor =>
    obtain ⟨w', hw', hcloses⟩ := release_closes srv r (w.note (.readStranded split.forest.text e))
    dsimp only [giveUp]
    rw [hw']
    exact .stranded hretryable hcursor hcloses.of_note
  | case2 e r w giveUp hretryable cursor hcursor failures =>
    obtain ⟨w', hw', hcloses⟩ := release_closes srv { r with failures := failures }
      (w.note (.readExhausted split.forest.text failures e))
    dsimp only [giveUp]
    rw [hw']
    exact .exhausted hretryable hcursor hcloses.of_note
  | case3 e r w hretryable cursor left hcursor next failures pause r₁ w₁ hrelease w₂ kind r₂ w₃
      hconnect =>
    obtain ⟨w', hpauses, hdials⟩ := redials hrelease hconnect
    exact .overflow hretryable hcursor hpauses hdials
  | case4 e r w hretryable cursor left hcursor next failures pause r₁ w₁ hrelease w₂ e₁ r₂ w₃
      hconnect ih =>
    obtain ⟨w', hpauses, hdials⟩ := redials hrelease hconnect
    exact .missed hretryable hcursor hpauses hdials ih
  | case5 e r w hretryable cursor left hcursor next failures pause r₁ w₁ hrelease w₂ r₂ w₃ hconnect
      a r₃ w₄ hresumed =>
    obtain ⟨w', hpauses, hdials⟩ := redials hrelease hconnect
    exact .resumed hretryable hcursor hpauses hdials hresumed
  | case6 e r w hretryable cursor left hcursor next failures pause r₁ w₁ hrelease w₂ r₂ w₃ hconnect
      e₁ r₃ w₄ hresumed ih =>
    obtain ⟨w', hpauses, hdials⟩ := redials hrelease hconnect
    exact .lost hretryable hcursor hpauses hdials hresumed ih
  | case7 left e r w giveUp hpermanent =>
    obtain ⟨w', hw', hcloses⟩ := release_closes srv r (w.note (.readFailed split.forest.text e))
    dsimp only [giveUp]
    rw [hw']
    exact .failed (Bool.not_eq_true _ ▸ hpermanent) hcloses.of_note

structure Same (r r' : Reader) : Prop where
  config : r'.config = r.config
  retry : r'.retry = r.retry

theorem Same.refl (r : Reader) : r.Same r := ⟨rfl, rfl⟩

theorem Same.trans {a b c : Reader} (h : a.Same b) (h' : b.Same c) : a.Same c :=
  ⟨h'.config.trans h.config, h'.retry.trans h.retry⟩

structure Stays (r r' : Reader) : Prop extends Same r r' where
  split : r'.split = r.split
  done : r'.done = r.done

theorem Stays.refl (r : Reader) : r.Stays r := ⟨.refl r, rfl, rfl⟩

theorem Stays.trans {a b c : Reader} (h : a.Stays b) (h' : b.Stays c) : a.Stays c :=
  ⟨h.toSame.trans h'.toSame, h'.split.trans h.split, h'.done.trans h.done⟩

theorem stays_turned (r : Reader) (cursor : ReplicaCursor) : r.Stays (r.turned cursor) :=
  ⟨⟨rfl, rfl⟩, rfl, rfl⟩

theorem Dials.stays {answer : Except (Fault RequestError) Unit} {r' : Reader} {w' : Wire σ}
    (h : Dials split r w (answer, r', w')) : r.Stays r' := by
  cases h with
  | overflow kind => exact .refl r
  | refused => exact .refl r
  | unanswered => exact .refl r
  | connected => exact ⟨⟨rfl, rfl⟩, rfl, rfl⟩

theorem Recovers.stays {α : Type} {resume : Reader → Wire σ → Except RequestError α × Reader × Wire σ}
    (hresume : ∀ r w, (resume r w).2.1 = r) {left : Nat} {e : RequestError}
    {result : Except (Fault TransferError) α × Reader × Wire σ}
    (h : Recovers split resume left e r w result) : r.Stays result.2.1 := by
  have hsame {r r' : Reader} {w w' : Wire σ} {answer : Except RequestError α}
      (hresumed : resume r w = (answer, r', w')) : r' = r := by
    rw [← hresume r w, hresumed]
  induction h with
  | failed => exact ⟨⟨rfl, rfl⟩, rfl, rfl⟩
  | stranded => exact ⟨⟨rfl, rfl⟩, rfl, rfl⟩
  | exhausted => exact ⟨⟨rfl, rfl⟩, rfl, rfl⟩
  | overflow _ _ _ hdials => exact (stays_turned _ _).trans hdials.stays
  | missed _ _ _ hdials _ ih => exact ((stays_turned _ _).trans hdials.stays).trans ih
  | resumed _ _ _ hdials hresumed =>
    cases hsame hresumed
    exact (stays_turned _ _).trans hdials.stays
  | lost _ _ _ hdials hresumed _ ih =>
    cases hsame hresumed
    exact ((stays_turned _ _).trans hdials.stays).trans ih

def entered (r : Reader) (split : Split) : Reader :=
  { r with session := none, split := some split, cursor := ReplicaCursor.new split.replicas split.host,
           current := none, read := 0, failures := 0, failovers := 0, done := false }

inductive Enters (split : Split) (r : Reader) (w : Wire σ) :
    Except (Fault TransferError) Unit × Reader × Wire σ → Prop
  | connected {r' : Reader} {w₁ w' : Wire σ} : w.Closes r.session w₁ →
      Dials split (r.entered split) w₁ (.ok (), r', w') → Enters split r w (.ok (), r', w')
  | overflow {kind : Overflow} {r' : Reader} {w₁ w' : Wire σ} : w.Closes r.session w₁ →
      Dials split (r.entered split) w₁ (.error (.overflow kind), r', w') →
      Enters split r w (.error (.overflow kind), r', w')
  | recovered {e : RequestError} {r₁ : Reader} {w₁ w₂ : Wire σ}
      {result : Except (Fault TransferError) Unit × Reader × Wire σ} : w.Closes r.session w₁ →
      Dials split (r.entered split) w₁ (.error (.failed e), r₁, w₂) →
      Recovers split (fun r w => (.ok (), r, w)) r₁.budget e r₁ w₂ result → Enters split r w result

theorem start_enters (srv : Server σ) (split : Split) (r : Reader) (w : Wire σ) :
    Enters split r w (r.start srv split w) := by
  obtain ⟨w₁, hw₁, hcloses⟩ := release_closes srv r w
  have hdials := connect_dials srv split (r.entered split) w₁
  unfold start
  rw [hw₁]
  dsimp only
  rw [entered] at hdials
  split
  · next hconnect =>
    rw [hconnect] at hdials
    exact .connected hcloses hdials
  · next hconnect =>
    rw [hconnect] at hdials
    exact .overflow hcloses hdials
  · next hconnect =>
    rw [hconnect] at hdials
    exact .recovered hcloses hdials (recover_recovers srv split _ _ _ _ _)

inductive Settles (r : Reader) (w : Wire σ) :
    Option Item → Except (Fault TransferError) Bool × Reader × Wire σ → Prop
  | record {d : Record} {read : UInt64} : Settles r w (some (.record d))
      (.ok true, { r with read := read, failures := 0, current := some d }, w)
  | overflow {item : Item} {kind : Overflow} : Settles r w (some item) (.error (.overflow kind), r, w)
  | foreign {item : Item} :
      Settles r w (some item) (.error (.failed (.protocol (.notDocument item.typeName))), r, w)
  | finished {w' : Wire σ} : w.Closes r.session w' →
      Settles r w none (.ok false, { r with done := true, current := none, session := none }, w')

theorem settle_settles (srv : Server σ) (r : Reader) (w : Wire σ) (item : Option Item) :
    Settles r w item (r.settle srv w item) := by
  unfold settle
  split
  · split
    · exact .record
    · next hadd =>
      unfold Word.add at hadd
      split at hadd
      · cases hadd
      · cases hadd
        exact .overflow
  · exact .foreign
  · obtain ⟨w', hw', hcloses⟩ := release_closes srv { r with done := true, current := none } w
    rw [hw']
    exact .finished hcloses

inductive Advances (srv : Server σ) (r : Reader) (w : Wire σ) :
    Except (Fault TransferError) Bool × Reader × Wire σ → Prop
  | done : r.done = true → Advances srv r w (.ok false, r, w)
  | closed : r.done = false → r.split = none ∨ r.session = none →
      Advances srv r w (.error (.failed .closed), r, w)
  | settled {split : Split} {session : Session} {item : Option Item} {w₁ : Wire σ} : r.done = false →
      r.split = some split → r.session = some session → w.Adds [.fetched session (.ok item)] w₁ →
      Advances srv r w (r.settle srv w₁ item)
  | recovered {split : Split} {session : Session} {e : RequestError} {item : Option Item} {r₁ : Reader}
      {w₁ w₂ : Wire σ} : r.done = false → r.split = some split → r.session = some session →
      w.Adds [.fetched session (.error e)] w₁ →
      Recovers split (fetch srv) r.budget e r w₁ (.ok item, r₁, w₂) →
      Advances srv r w (r₁.settle srv w₂ item)
  | lost {split : Split} {session : Session} {e : RequestError} {fault : Fault TransferError}
      {r' : Reader} {w₁ w' : Wire σ} : r.done = false → r.split = some split →
      r.session = some session → w.Adds [.fetched session (.error e)] w₁ →
      Recovers split (fetch srv) r.budget e r w₁ (.error fault, r', w') →
      Advances srv r w (.error fault, r', w')

theorem next_advances (srv : Server σ) (r : Reader) (w : Wire σ) : Advances srv r w (r.next srv w) := by
  fun_cases next srv r w with
  | case1 hdone => exact .done hdone
  | case2 hrunning split session hsession hsplit item r₁ w₁ hfetch =>
    obtain ⟨answer, w', hfetched, hadds⟩ := fetch_adds srv hsession w
    cases hfetched.symm.trans hfetch
    exact .settled (Bool.not_eq_true _ ▸ hrunning) hsplit hsession hadds
  | case3 hrunning split session hsession hsplit e r₁ w₁ hfetch item r₂ w₂ hrecover =>
    obtain ⟨answer, w', hfetched, hadds⟩ := fetch_adds srv hsession w
    cases hfetched.symm.trans hfetch
    have hrecovers := recover_recovers srv split (fetch srv) r.budget e r w₁
    rw [hrecover] at hrecovers
    exact .recovered (Bool.not_eq_true _ ▸ hrunning) hsplit hsession hadds hrecovers
  | case4 hrunning split session hsession hsplit e r₁ w₁ hfetch fault r₂ w₂ hrecover =>
    obtain ⟨answer, w', hfetched, hadds⟩ := fetch_adds srv hsession w
    cases hfetched.symm.trans hfetch
    have hrecovers := recover_recovers srv split (fetch srv) r.budget e r w₁
    rw [hrecover] at hrecovers
    exact .lost (Bool.not_eq_true _ ▸ hrunning) hsplit hsession hadds hrecovers
  | case5 hrunning hnone =>
    refine .closed (Bool.not_eq_true _ ▸ hrunning) ?_
    cases hsplit : r.split with
    | none => exact .inl rfl
    | some split =>
      cases hsession : r.session with
      | none => exact .inr rfl
      | some session => exact absurd hsession (hnone split session hsplit)

inductive Call where
  | start (split : Split)
  | next
  | close

inductive Answer where
  | started (result : Except (Fault TransferError) Unit)
  | moved (result : Except (Fault TransferError) Bool)
  | closed

def Call.run (srv : Server σ) (x : Reader × Wire σ) : Call → Answer × Reader × Wire σ
  | start split => match x.1.start srv split x.2 with | (result, y) => (.started result, y)
  | next => match x.1.next srv x.2 with | (result, y) => (.moved result, y)
  | close => (.closed, x.1.close srv x.2)

def follow (srv : Server σ) (calls : List Call) (x : Reader × Wire σ) : Reader × Wire σ :=
  calls.foldl (fun x call => (call.run srv x).2) x

theorem Settles.same {item : Option Item} {result : Except (Fault TransferError) Bool × Reader × Wire σ}
    (h : Settles r w item result) : r.Same result.2.1 := by
  cases h with
  | record => exact ⟨rfl, rfl⟩
  | overflow => exact .refl r
  | foreign => exact .refl r
  | finished => exact ⟨rfl, rfl⟩

theorem start_same (srv : Server σ) (split : Split) (r : Reader) (w : Wire σ) :
    r.Same (r.start srv split w).2.1 := by
  have hentered := start_enters srv split r w
  have hfirst : r.Same (r.entered split) := ⟨rfl, rfl⟩
  generalize r.start srv split w = result at hentered
  cases hentered with
  | connected _ hdials => exact hfirst.trans hdials.stays.toSame
  | overflow _ hdials => exact hfirst.trans hdials.stays.toSame
  | recovered _ hdials hrecovers =>
    exact hfirst.trans (hdials.stays.trans (hrecovers.stays fun _ _ => rfl)).toSame

theorem next_same (srv : Server σ) (r : Reader) (w : Wire σ) : r.Same (r.next srv w).2.1 := by
  have hadvances := next_advances srv r w
  generalize r.next srv w = result at hadvances
  cases hadvances with
  | done => exact ⟨rfl, rfl⟩
  | closed => exact ⟨rfl, rfl⟩
  | settled => exact (settle_settles srv r _ _).same
  | recovered _ _ _ _ hrecovers =>
    exact (hrecovers.stays (fetch_reader srv)).toSame.trans (settle_settles srv _ _ _).same
  | lost _ _ _ _ hrecovers => exact (hrecovers.stays (fetch_reader srv)).toSame

theorem close_same (srv : Server σ) (r : Reader) (w : Wire σ) : r.Same (r.close srv w).1 := by
  obtain ⟨w', hw', -⟩ := release_closes srv r w
  unfold close
  rw [hw']
  exact ⟨rfl, rfl⟩

theorem follow_same (srv : Server σ) (calls : List Call) (x : Reader × Wire σ) :
    x.1.Same (follow srv calls x).1 := by
  induction calls generalizing x with
  | nil => exact ⟨rfl, rfl⟩
  | cons call calls ih =>
    refine Same.trans ?_ (ih (call.run srv x).2)
    cases call with
    | start split => exact start_same srv split x.1 x.2
    | next => exact next_same srv x.1 x.2
    | close => exact close_same srv x.1 x.2

end Reader

end ForestCourier
