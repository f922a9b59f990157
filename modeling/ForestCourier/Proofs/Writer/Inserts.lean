import ForestCourier.Proofs.Writer.Attempts
import ForestCourier.Proofs.Writer.Steps

/-!
What a delivery sends. Each attempt inserts the batch, as far as it has not been taken, and an attempt
that replaces a lost session inserts the queue before it; so no insert is empty, and one that is larger
than a batch follows the opening of its session and holds nothing but documents that were taken before.
A delivery commits once if it succeeds in ending a transaction, and else not at all.
-/

namespace ForestCourier

def Event.inserts : Event → Bool
  | .inserted .. => true
  | _ => false

def Event.commits : Event → Bool
  | .committed _ (.ok _) => true
  | _ => false

def Taken (trace : List Event) (doc : Content) : Prop :=
  ∃ session docs rejections, Event.inserted session docs (.ok rejections) ∈ trace ∧ doc ∈ docs

theorem Taken.cons {trace : List Event} {doc : Content} (h : Taken trace doc) (event : Event) :
    Taken (event :: trace) doc := by
  obtain ⟨session, docs, rejections, hmem, hdoc⟩ := h
  exact ⟨session, docs, rejections, List.mem_cons_of_mem _ hmem, hdoc⟩

theorem Taken.append {trace : List Event} {doc : Content} (h : Taken trace doc) (events : List Event) :
    Taken (events ++ trace) doc := by
  obtain ⟨session, docs, rejections, hmem, hdoc⟩ := h
  exact ⟨session, docs, rejections, List.mem_append_right _ hmem, hdoc⟩

/-- Every insert since an older trace has property `P`, which may speak of the requests before it. -/
def Inserts (P : Session → List Content → List Event → Prop) (base trace : List Event) : Prop :=
  ∃ events, trace = events ++ base ∧ ∀ newer session docs answer older,
    events = newer ++ .inserted session docs answer :: older → P session docs (older ++ base)

namespace Inserts

variable {P Q : Session → List Content → List Event → Prop} {base trace trace' : List Event}

theorem refl (P : Session → List Content → List Event → Prop) (base : List Event) :
    Inserts P base base :=
  ⟨[], rfl, fun newer _ _ _ _ h => by cases newer <;> cases h⟩

theorem cons (h : Inserts P base trace) {event : Event}
    (hP : ∀ session docs answer, event = .inserted session docs answer → P session docs trace) :
    Inserts P base (event :: trace) := by
  obtain ⟨events, rfl, hevents⟩ := h
  refine ⟨event :: events, rfl, fun newer session docs answer older hsplit => ?_⟩
  cases newer with
  | nil =>
    cases hsplit
    exact hP session docs answer rfl
  | cons first newer =>
    cases hsplit
    exact hevents newer session docs answer older rfl

theorem cons_other (h : Inserts P base trace) {event : Event} (hevent : event.inserts = false) :
    Inserts P base (event :: trace) :=
  h.cons fun session docs answer heq => by
    rw [heq] at hevent
    cases hevent

theorem append (h : Inserts P base trace) {events : List Event}
    (hevents : ∀ event ∈ events, event.inserts = false) : Inserts P base (events ++ trace) := by
  induction events with
  | nil => exact h
  | cons event events ih =>
    obtain ⟨hevent, hevents⟩ := List.forall_mem_cons.mp hevents
    exact (ih hevents).cons_other hevent

theorem mono (h : Inserts P base trace)
    (hPQ : ∀ session docs older, P session docs older → Q session docs older) :
    Inserts Q base trace := by
  obtain ⟨events, htrace, hevents⟩ := h
  exact ⟨events, htrace, fun newer session docs answer older hsplit =>
    hPQ _ _ _ (hevents newer session docs answer older hsplit)⟩

theorem trans (h : Inserts P base trace) (h' : Inserts P trace trace') : Inserts P base trace' := by
  obtain ⟨events, rfl, hevents⟩ := h
  obtain ⟨events', rfl, hevents'⟩ := h'
  refine ⟨events' ++ events, by rw [List.append_assoc], fun newer session docs answer older hsplit => ?_⟩
  -- The insert is one of the later requests, or one of the earlier ones.
  obtain ⟨between, rfl, hlater⟩ | ⟨between, rfl, hlater⟩ := List.append_eq_append_iff.mp hsplit
  · exact hevents between session docs answer older hlater
  · cases between with
    | nil => exact hevents [] session docs answer older hlater.symm
    | cons event between =>
      obtain ⟨rfl, rfl⟩ := List.cons.inj hlater
      have hinsert := hevents' newer session docs answer between rfl
      rwa [← List.append_assoc] at hinsert

end Inserts

/-- An insert that sends again what a lost session held: its session has just been opened, after a pause,
and its documents were taken before. -/
structure Resent (session : Session) (docs : List Content) (older : List Event) : Prop where
  opened : ∃ pause rest, older = .opened session :: .waited pause :: rest
  taken : ∀ doc ∈ docs, Taken older doc

/-- An insert of some documents, no more than `size`, or than `limit` if they are sent again. -/
def Measured (size limit : Nat) (session : Session) (docs : List Content) (older : List Event) : Prop :=
  docs ≠ [] ∧ (docs.length ≤ size ∨ docs.length ≤ limit ∧ Resent session docs older)

namespace Writer.Delivery

variable {σ : Type} {srv : Server σ} {terms : Terms} {session : Session} {size limit : Nat}
  {base : List Event} {d d' : Delivery σ}

structure Sends (size limit : Nat) (base : List Event) (d : Delivery σ) : Prop where
  batch : d.batch.length ≤ size
  held : d.slot.queue.length + d.batch.length ≤ limit
  taken : ∀ doc ∈ d.slot.queue, Taken d.wire.trace doc
  inserts : Inserts (Measured size limit) base d.wire.trace

def Renewed (d : Delivery σ) : Prop :=
  d.slot.session = none ∧ ∃ pause rest, d.wire.trace = .waited pause :: rest

namespace Sends

theorem of_cons (h : d.Sends size limit base) {event : Event} (hbatch : d'.batch = d.batch)
    (hqueue : d'.slot.queue = d.slot.queue) (htrace : d'.wire.trace = event :: d.wire.trace)
    (hevent : event.inserts = false) : d'.Sends size limit base where
  batch := hbatch ▸ h.batch
  held := by rw [hqueue, hbatch]; exact h.held
  taken doc hdoc := by
    rw [htrace]
    exact (h.taken doc (hqueue ▸ hdoc)).cons event
  inserts := by
    rw [htrace]
    exact h.inserts.cons_other hevent

theorem ensureSession (h : d.Sends size limit base) (srv : Server σ) (terms : Terms) :
    (d.ensureSession srv terms).2.Sends size limit base ∧
      (d.Renewed → ∀ session, (d.ensureSession srv terms).1 = .ok session → ∃ pause rest,
        (d.ensureSession srv terms).2.wire.trace = .opened session :: .waited pause :: rest) := by
  unfold Delivery.ensureSession
  split
  · next session hsession =>
    refine ⟨h, fun hrenewed => ?_⟩
    rw [hrenewed.1] at hsession
    cases hsession
  · split
    · next session w hopen =>
      have htrace := Wire.trace_openSession_ok hopen
      refine ⟨h.of_cons rfl rfl htrace rfl, fun hrenewed s hs => ?_⟩
      obtain ⟨pause, rest, hwaited⟩ := hrenewed.2
      cases hs
      exact ⟨pause, rest, by rw [← hwaited]; exact htrace⟩
    · next e w hopen => exact ⟨h.of_cons rfl rfl (Wire.trace_openSession_error hopen) rfl, nofun⟩

theorem insert (h : d.Sends size limit base) (srv : Server σ) (session : Session) (docs : List Content)
    (hdocs : docs ≠ [] → Measured size limit session docs d.wire.trace) :
    (d.insert srv session docs).2.Sends size limit base ∧
      ∀ left, (d.insert srv session docs).1 = .ok left → left.Sublist docs ∧
        ∀ doc ∈ left, Taken (d.insert srv session docs).2.wire.trace doc := by
  unfold Delivery.insert
  split
  · next hempty =>
    refine ⟨h, fun left hleft => ?_⟩
    cases hleft
    rw [List.isEmpty_iff.mp hempty]
    exact ⟨List.Sublist.refl _, List.forall_mem_nil _⟩
  · next hnonempty =>
    have hmeasured := hdocs fun hnil => hnonempty (by rw [hnil]; rfl)
    have hafter {d' : Delivery σ} {answer : Except RequestError (List Rejection)}
        (hbatch : d'.batch = d.batch) (hqueue : d'.slot.queue = d.slot.queue)
        (htrace : d'.wire.trace = .inserted session docs answer :: d.wire.trace) :
        d'.Sends size limit base := by
      refine ⟨hbatch ▸ h.batch, by rw [hqueue, hbatch]; exact h.held, fun doc hdoc => ?_, ?_⟩
      · rw [htrace]
        exact (h.taken doc (hqueue ▸ hdoc)).cons _
      · rw [htrace]
        refine h.inserts.cons fun s ds answer' heq => ?_
        cases heq
        exact hmeasured
    split
    · next hinsert => exact ⟨hafter rfl rfl (Wire.trace_insert hinsert).1, nofun⟩
    · next rejections w hinsert =>
      have htrace : ((rejectionNotices docs rejections).foldl Wire.note w).trace =
          .inserted session docs (.ok rejections) :: d.wire.trace := by
        rw [Wire.trace_foldl_note, (Wire.trace_insert hinsert).1]
      refine ⟨hafter rfl rfl htrace, fun left hleft => ?_⟩
      cases hleft
      rw [without_rejectedIndices]
      have hsublist := kept_sublist docs rejections
      refine ⟨hsublist, fun doc hdoc => ?_⟩
      dsimp only
      rw [htrace]
      exact ⟨session, docs, rejections, List.mem_cons_self, hsublist.subset hdoc⟩

theorem replayQueue (h : d.Sends size limit base) (srv : Server σ)
    (hopened : ∃ pause rest, d.wire.trace = .opened session :: .waited pause :: rest) :
    (d.replayQueue srv session).2.Sends size limit base := by
  have hinsert := h.insert srv session d.slot.queue fun hne =>
    ⟨hne, .inr ⟨Nat.le_trans (Nat.le_add_right ..) h.held, hopened, h.taken⟩⟩
  unfold Delivery.replayQueue
  split
  · next he => rw [he] at hinsert; exact hinsert.1
  · next left d₁ he =>
    rw [he] at hinsert
    obtain ⟨hsends, hleft⟩ := hinsert
    obtain ⟨hsublist, htaken⟩ := hleft left rfl
    have hbatch : d₁.batch = d.batch := (insert_ok he).2.1
    have hheld := h.held
    have hlength := hsublist.length_le
    refine ⟨hsends.batch, ?_, htaken, hsends.inserts⟩
    dsimp only
    rw [hbatch]
    omega

theorem insertBatch (h : d.Sends size limit base) (srv : Server σ) (session : Session) :
    (d.insertBatch srv session).2.Sends size limit base ∧
      ((d.insertBatch srv session).1 = .ok () → ∀ doc ∈ (d.insertBatch srv session).2.batch,
        Taken (d.insertBatch srv session).2.wire.trace doc) := by
  have hinsert := h.insert srv session d.batch fun hne => ⟨hne, .inl h.batch⟩
  unfold Delivery.insertBatch
  split
  · next he => rw [he] at hinsert; exact ⟨hinsert.1, nofun⟩
  · next left d₁ he =>
    rw [he] at hinsert
    obtain ⟨hsends, hleft⟩ := hinsert
    obtain ⟨hsublist, htaken⟩ := hleft left rfl
    have hslot : d₁.slot = d.slot := (insert_ok he).1
    have hbatch := h.batch
    have hheld := h.held
    have hlength := hsublist.length_le
    refine ⟨⟨?_, ?_, hsends.taken, hsends.inserts⟩, fun _ => htaken⟩
    · dsimp only
      omega
    · dsimp only
      rw [hslot]
      omega

theorem settleAuto (h : d.Sends size limit base) : d.settleAuto.Sends size limit base :=
  ⟨Nat.zero_le _, Nat.le_trans (Nat.le_add_right ..) h.held, h.taken, h.inserts⟩

theorem enqueue (h : d.Sends size limit base) (hbatch : ∀ doc ∈ d.batch, Taken d.wire.trace doc) :
    d.enqueue.Sends size limit base := by
  refine ⟨Nat.zero_le _, ?_, fun doc hdoc => ?_, h.inserts⟩
  · have hheld := h.held
    simp only [Delivery.enqueue, List.length_append, List.length_nil]
    omega
  · rcases List.mem_append.mp hdoc with hdoc | hdoc
    · exact h.taken doc hdoc
    · exact hbatch doc hdoc

theorem commit (h : d.Sends size limit base) (srv : Server σ) (session : Session) :
    (d.commit srv session).2.Sends size limit base := by
  unfold Delivery.commit
  split
  · next e w hcommit => exact h.of_cons rfl rfl (Wire.trace_commit hcommit).1 rfl
  · next w hcommit =>
    have hcommitted : Sends size limit base { d with wire := w } :=
      h.of_cons rfl rfl (Wire.trace_commit hcommit).1 rfl
    have hheld := h.held
    exact ⟨h.batch, by simp only [List.length_nil]; omega, List.forall_mem_nil _, hcommitted.inserts⟩

theorem attempt (h : d.Sends size limit base) (srv : Server σ) (terms : Terms) {replay : Bool}
    (ending : Bool) (hreplay : replay = true → d.Renewed) :
    (d.attempt srv terms replay ending).2.Sends size limit base := by
  obtain ⟨hopen, hopened⟩ := h.ensureSession srv terms
  unfold Delivery.attempt
  split
  · next he => rwa [he] at hopen
  · next session d₁ he =>
    rw [he] at hopen hopened
    have hreplayed : (if replay then d₁.replayQueue srv session else (.ok (), d₁)).2.Sends size limit
        base := by
      split
      · next hr => exact hopen.replayQueue srv (hopened (hreplay hr) session rfl)
      · exact hopen
    split
    · next he => rwa [he] at hreplayed
    · next d₂ he =>
      rw [he] at hreplayed
      obtain ⟨hbatch, htaken⟩ := hreplayed.insertBatch srv session
      split
      · next he => rwa [he] at hbatch
      · next d₃ he =>
        rw [he] at hbatch htaken
        split
        · exact hbatch.settleAuto
        · have henqueued := hbatch.enqueue (htaken rfl)
          split
          · exact henqueued.commit srv session
          · exact henqueued

theorem discardSession (h : d.Sends size limit base) (srv : Server σ) (terms : Terms) :
    (d.discardSession srv terms).Sends size limit base := by
  unfold Delivery.discardSession
  split
  · exact h
  · next session hsession =>
    cases terms.transaction with
    | auto => exact h.of_cons rfl rfl rfl rfl
    | update =>
      have hrolledBack : Sends size limit base { d with wire := d.wire.rollback srv session } :=
        h.of_cons rfl rfl rfl rfl
      exact hrolledBack.of_cons rfl rfl rfl rfl

theorem failOver (h : d.Sends size limit base) (srv : Server σ) (terms : Terms) (e : RequestError)
    (n : Nat) : (d.failOver srv terms e n).Sends size limit base ∧ (d.failOver srv terms e n).Renewed :=
  ⟨(h.discardSession srv terms).of_cons rfl rfl rfl rfl, session_discardSession srv terms d, _, _, rfl⟩

theorem run (h : d.Sends size limit base) (srv : Server σ) (terms : Terms) (ending : Bool)
    (left n : Nat) {replay : Bool} (hreplay : replay = true → d.Renewed) :
    (Delivery.run srv terms ending left n replay d).2.Sends size limit base := by
  have hattempt {replay : Bool} {d d' : Delivery σ} {r : Except RequestError Unit}
      (h : d.Sends size limit base) (hreplay : replay = true → d.Renewed)
      (he : d.attempt srv terms replay ending = (r, d')) : d'.Sends size limit base := by
    have h := h.attempt srv terms ending hreplay
    rwa [he] at h
  fun_induction Delivery.run srv terms ending left n replay d with
  | case1 left n replay d d₁ he =>
    have hdone := hattempt h hreplay he
    dsimp only
    split
    · exact ⟨hdone.batch, hdone.held, hdone.taken, hdone.inserts⟩
    · exact hdone
  | case2 n replay d e d₁ he hretryable => exact hattempt h hreplay he
  | case3 n replay d e d₁ he hretryable left ih =>
    obtain ⟨hsends, hrenewed⟩ := (hattempt h hreplay he).failOver srv terms e n
    exact ih hsends fun _ => hrenewed
  | case4 left n replay d e d₁ he hretryable => exact hattempt h hreplay he

end Sends

def commits (d : Delivery σ) : Nat := d.wire.trace.countP Event.commits

theorem commits_of_cons {event : Event} (htrace : d'.wire.trace = event :: d.wire.trace)
    (hevent : event.commits = false) : d'.commits = d.commits := by
  rw [commits, htrace, List.countP_cons_of_neg (by rw [hevent]; exact Bool.false_ne_true), commits]

theorem commits_ensureSession (srv : Server σ) (terms : Terms) (d : Delivery σ) :
    (d.ensureSession srv terms).2.commits = d.commits := by
  unfold ensureSession
  split
  · rfl
  · split
    · next hopen => exact commits_of_cons (Wire.trace_openSession_ok hopen) rfl
    · next hopen => exact commits_of_cons (Wire.trace_openSession_error hopen) rfl

theorem commits_insert (srv : Server σ) (session : Session) (docs : List Content) (d : Delivery σ) :
    (d.insert srv session docs).2.commits = d.commits := by
  unfold insert
  split
  · rfl
  · split
    · next hinsert => exact commits_of_cons (Wire.trace_insert hinsert).1 rfl
    · next rejections w hinsert =>
      have htrace : ((rejectionNotices docs rejections).foldl Wire.note w).trace =
          .inserted session docs (.ok rejections) :: d.wire.trace := by
        rw [Wire.trace_foldl_note, (Wire.trace_insert hinsert).1]
      exact commits_of_cons htrace rfl

theorem commits_replay (srv : Server σ) (replay : Bool) (session : Session) (d : Delivery σ) :
    (if replay then d.replayQueue srv session else (.ok (), d)).2.commits = d.commits := by
  have hinsert := commits_insert srv session d.slot.queue d
  split
  · unfold replayQueue
    split
    · next he => rwa [he] at hinsert
    · next he => rwa [he] at hinsert
  · rfl

theorem commits_insertBatch (srv : Server σ) (session : Session) (d : Delivery σ) :
    (d.insertBatch srv session).2.commits = d.commits := by
  have hinsert := commits_insert srv session d.batch d
  unfold insertBatch
  split
  · next he => rwa [he] at hinsert
  · next he => rwa [he] at hinsert

theorem commits_discardSession (srv : Server σ) (terms : Terms) (d : Delivery σ) :
    (d.discardSession srv terms).commits = d.commits := by
  unfold discardSession
  split
  · rfl
  · next session hsession =>
    cases terms.transaction with
    | auto => exact commits_of_cons rfl rfl
    | update =>
      have hrolledBack : commits { d with wire := d.wire.rollback srv session } = d.commits :=
        commits_of_cons rfl rfl
      rw [← hrolledBack]
      exact commits_of_cons rfl rfl

theorem commits_commit (srv : Server σ) (session : Session) (d : Delivery σ) :
    match d.commit srv session with
    | (.ok _, d') => d'.commits = d.commits + 1
    | (.error _, d') => d'.commits = d.commits := by
  unfold commit
  cases hcommit : d.wire.commit srv session with
  | mk answer w =>
    have htrace := (Wire.trace_commit hcommit).1
    cases answer with
    | error e => exact commits_of_cons htrace rfl
    | ok u =>
      show w.trace.countP Event.commits = _
      rw [htrace, List.countP_cons_of_pos rfl, commits]

theorem attempt_commits (srv : Server σ) (terms : Terms) (replay ending : Bool) (d : Delivery σ) :
    match d.attempt srv terms replay ending with
    | (.ok _, d') =>
      d'.commits = d.commits + if terms.transaction = .update ∧ ending = true then 1 else 0
    | (.error _, d') => d'.commits = d.commits := by
  have hopen := commits_ensureSession srv terms d
  unfold attempt
  cases he : d.ensureSession srv terms with
  | mk opened d₁ =>
    rw [he] at hopen
    cases opened with
    | error e => exact hopen
    | ok session =>
      have hreplay := commits_replay srv replay session d₁
      dsimp only
      cases he : (if replay then d₁.replayQueue srv session else (.ok (), d₁)) with
      | mk replayed d₂ =>
        rw [he] at hreplay
        cases replayed with
        | error e => exact hreplay.trans hopen
        | ok u =>
          have hbatch := commits_insertBatch srv session d₂
          dsimp only
          cases he : d₂.insertBatch srv session with
          | mk inserted d₃ =>
            rw [he] at hbatch
            have hbefore : d₃.commits = d.commits := hbatch.trans (hreplay.trans hopen)
            cases inserted with
            | error e => exact hbefore
            | ok u =>
              cases hmode : terms.transaction with
              | auto =>
                rw [if_neg (by simp)]
                exact hbefore
              | update =>
                have henqueued : d₃.enqueue.commits = d.commits := hbefore
                dsimp only
                cases ending with
                | false => exact henqueued
                | true =>
                  have hcommit := commits_commit srv session d₃.enqueue
                  rw [henqueued] at hcommit
                  exact hcommit

theorem commits_failOver (srv : Server σ) (terms : Terms) (e : RequestError) (n : Nat)
    (d : Delivery σ) : (d.failOver srv terms e n).commits = d.commits := by
  have hdiscarded : (d.discardSession srv terms).commits = d.commits := commits_discardSession srv terms d
  rw [← hdiscarded]
  exact commits_of_cons rfl rfl

theorem run_commits (srv : Server σ) (terms : Terms) (ending : Bool) (left n : Nat) (replay : Bool)
    (d : Delivery σ) :
    match run srv terms ending left n replay d with
    | (.ok _, d') =>
      d'.commits = d.commits + if terms.transaction = .update ∧ ending = true then 1 else 0
    | (.error _, d') => d'.commits = d.commits := by
  fun_induction run srv terms ending left n replay d with
  | case1 left n replay d d₁ he =>
    have hattempt := attempt_commits srv terms replay ending d
    rw [he] at hattempt
    dsimp only
    split
    · exact hattempt
    · exact hattempt
  | case2 n replay d e d₁ he hretryable =>
    have hattempt := attempt_commits srv terms replay ending d
    rwa [he] at hattempt
  | case3 n replay d e d₁ he hretryable left ih =>
    have hattempt := attempt_commits srv terms replay ending d
    rw [he] at hattempt
    have hmoved : (d₁.failOver srv terms e n).commits = d.commits :=
      (commits_failOver srv terms e n d₁).trans hattempt
    rwa [hmoved] at ih
  | case4 left n replay d e d₁ he hretryable =>
    have hattempt := attempt_commits srv terms replay ending d
    rwa [he] at hattempt

end Writer.Delivery

end ForestCourier
