import ForestCourier.Proofs.Writer.Ledger
import ForestCourier.Proofs.Writer.Steps

/-!
A delivery against the ledger. Whatever fails on the way, a delivery touches the sessions of its own
slot only, what it stores is new and in order, and after a success the open session holds exactly the
queue. Each step of an attempt has its lemma; the attempt, and the run of attempts, follow from them.
-/

namespace ForestCourier.Writer.Delivery

variable {σ : Type}

def current (d : Delivery σ) : Option Nat := d.slot.session.map (·.number)

/-- Session `n` was the slot's before the delivery or was opened by it. -/
def Owns (d d' : Delivery σ) (n : Nat) : Prop :=
  d.current = some n ∨ d.wire.opened < n ∧ n ≤ d'.wire.opened

/-- Sessions of the writer's mode, and no queue without transactions. -/
structure Valid (terms : Terms) (d : Delivery σ) : Prop where
  session : ∀ s, d.slot.session = some s → s.transaction = terms.transaction
  queue : terms.transaction = .auto → d.slot.queue = []

/-- Other sessions are left alone, and of its own none but the open one goes on holding documents. -/
structure Keeps (d d' : Delivery σ) : Prop where
  opened : d.wire.opened ≤ d'.wire.opened
  session : ∀ n, d'.current = some n → d.Owns d' n
  elsewhere : ∀ n, ¬ d.Owns d' n → d'.wire.ledger.held n = d.wire.ledger.held n
  dropped : ∀ n, d.Owns d' n → d'.current ≠ some n → d'.wire.ledger.held n = []

/-- The entries are what the delivery stores: documents of the queue and the batch, in order, which
are counted and no longer held. -/
structure Stores (d d' : Delivery σ) (new : List (Nat × Content)) : Prop where
  stored : d'.wire.ledger.stored = d.wire.ledger.stored ++ new
  own : ∀ entry ∈ new, d.Owns d' entry.1
  succeeded : d'.stats.succeeded = d.stats.succeeded + new.length
  inOrder : (new.map Prod.snd ++ (d'.slot.queue ++ d'.batch)).Sublist (d.slot.queue ++ d.batch)

/-- If the queue is free of documents with property `p`, just these are missing of the batch. -/
def Thins (p : Content → Bool) (d d' : Delivery σ) (new : List (Nat × Content)) : Prop :=
  (∀ doc ∈ d.slot.queue, p doc = false) →
    new.map Prod.snd ++ (d'.slot.queue ++ d'.batch.filter (!p ·)) = d.slot.queue ++ d.batch.filter (!p ·)

structure Moves (srv : Server σ) (terms : Terms) (d d' : Delivery σ) : Prop where
  valid : d'.Valid terms
  keeps : d.Keeps d'
  stores : ∃ new, d.Stores d' new ∧ ∀ p, srv.RejectsBy p → d.Thins p d' new

theorem Owns.mono {d d' d'' : Delivery σ} (h : d'.wire.opened ≤ d''.wire.opened) {n : Nat}
    (hn : d.Owns d' n) : d.Owns d'' n :=
  hn.imp_right fun hn => ⟨hn.1, Nat.le_trans hn.2 h⟩

theorem Keeps.owns {d d' d'' : Delivery σ} (h : d.Keeps d')
    (hopened : d'.wire.opened ≤ d''.wire.opened) {n : Nat} (hn : d'.Owns d'' n) : d.Owns d'' n := by
  rcases hn with hn | hn
  · exact (h.session n hn).mono hopened
  · exact .inr ⟨Nat.lt_of_le_of_lt h.opened hn.1, hn.2⟩

theorem Keeps.refl (d : Delivery σ) : d.Keeps d where
  opened := Nat.le_refl _
  session _ hn := .inl hn
  elsewhere _ _ := rfl
  dropped n hn hne := by
    rcases hn with hn | hn
    · exact absurd hn hne
    · omega

theorem Keeps.trans {a b c : Delivery σ} (h : a.Keeps b) (h' : b.Keeps c) : a.Keeps c where
  opened := Nat.le_trans h.opened h'.opened
  session n hn := h.owns h'.opened (h'.session n hn)
  elsewhere n hn := by
    have hbc : ¬ b.Owns c n := fun hb => hn (h.owns h'.opened hb)
    have hab : ¬ a.Owns b n := fun ha => hn (ha.mono h'.opened)
    rw [h'.elsewhere n hbc, h.elsewhere n hab]
  dropped n hn hne := by
    by_cases hbc : b.Owns c n
    · exact h'.dropped n hbc hne
    · rw [h'.elsewhere n hbc]
      refine h.dropped n ?_ fun hb => hbc (.inl hb)
      rcases hn with hn | hn
      · exact .inl hn
      · by_cases hle : n ≤ b.wire.opened
        · exact .inr ⟨hn.1, hle⟩
        · exact absurd (.inr ⟨by omega, hn.2⟩) hbc

theorem Stores.trans {a b c : Delivery σ} {new new' : List (Nat × Content)} (hk : a.Keeps b)
    (hk' : b.Keeps c) (h : a.Stores b new) (h' : b.Stores c new') : a.Stores c (new ++ new') where
  stored := by rw [h'.stored, h.stored, List.append_assoc]
  own entry he := by
    rcases List.mem_append.mp he with he | he
    · exact (h.own entry he).mono hk'.opened
    · exact hk.owns hk'.opened (h'.own entry he)
  succeeded := by rw [h'.succeeded, h.succeeded, List.length_append, Nat.add_assoc]
  inOrder := by
    rw [List.map_append, List.append_assoc]
    exact ((List.Sublist.refl _).append h'.inOrder).trans h.inOrder

theorem Thins.queue {p : Content → Bool} {d d' : Delivery σ} {new : List (Nat × Content)}
    (h : d.Thins p d' new) (hq : ∀ doc ∈ d.slot.queue, p doc = false) :
    ∀ doc ∈ d'.slot.queue, p doc = false := by
  intro doc hdoc
  have hmem : doc ∈ d.slot.queue ++ d.batch.filter (!p ·) := by
    rw [← h hq]
    simp [hdoc]
  rcases List.mem_append.mp hmem with hm | hm
  · exact hq doc hm
  · simpa using (List.mem_filter.mp hm).2

theorem Thins.trans {p : Content → Bool} {a b c : Delivery σ} {new new' : List (Nat × Content)}
    (h : a.Thins p b new) (h' : b.Thins p c new') : a.Thins p c (new ++ new') := by
  intro hq
  rw [List.map_append, List.append_assoc, h' (h.queue hq), h hq]

namespace Moves

variable {srv : Server σ} {terms : Terms} {a b c d d' : Delivery σ}

theorem refl (h : d.Valid terms) : d.Moves srv terms d where
  valid := h
  keeps := .refl d
  stores := ⟨[], ⟨by simp, nofun, rfl, by simp⟩, fun _ _ _ => by simp⟩

theorem trans (h : a.Moves srv terms b) (h' : b.Moves srv terms c) : a.Moves srv terms c := by
  obtain ⟨new, hs, ht⟩ := h.stores
  obtain ⟨new', hs', ht'⟩ := h'.stores
  exact ⟨h'.valid, h.keeps.trans h'.keeps, new ++ new', hs.trans h.keeps h'.keeps hs',
    fun p hp => (ht p hp).trans (ht' p hp)⟩

theorem still (hv : d'.Valid terms) (hk : d.Keeps d')
    (hstored : d'.wire.ledger.stored = d.wire.ledger.stored)
    (hsucceeded : d'.stats.succeeded = d.stats.succeeded)
    (horder : (d'.slot.queue ++ d'.batch).Sublist (d.slot.queue ++ d.batch))
    (hthin : ∀ p, srv.RejectsBy p → d.Thins p d' []) : d.Moves srv terms d' :=
  ⟨hv, hk, [], ⟨by rw [hstored, List.append_nil], nofun, hsucceeded, by simpa using horder⟩, hthin⟩

end Moves

theorem Keeps.of_stay {d d' : Delivery σ} {session : Session} (hs : d.slot.session = some session)
    (hs' : d'.slot.session = some session) (hopened : d'.wire.opened = d.wire.opened)
    (hheld : ∀ n, n ≠ session.number → d'.wire.ledger.held n = d.wire.ledger.held n) :
    d.Keeps d' where
  opened := Nat.le_of_eq hopened.symm
  session n hn := .inl (by rwa [current, hs', ← hs] at hn)
  elsewhere n hn := hheld n fun h => hn (.inl (by simp [current, hs, h]))
  dropped n hn hne := by
    rcases hn with hn | hn
    · rw [current, hs', ← hs] at hne
      exact absurd hn hne
    · omega

theorem Keeps.of_release {d d' : Delivery σ} {session : Session} (hs : d.slot.session = some session)
    (hs' : d'.slot.session = none) (hopened : d'.wire.opened = d.wire.opened)
    (hheld : d'.wire.ledger.held = (d.wire.ledger.hold session.number []).held) : d.Keeps d' where
  opened := Nat.le_of_eq hopened.symm
  session n hn := by
    rw [current, hs'] at hn
    cases hn
  elsewhere n hn := by
    rw [hheld, Ledger.held_hold_of_ne]
    rintro rfl
    exact hn (.inl (by simp [current, hs]))
  dropped n hn _ := by
    rcases hn with hn | hn
    · have hnumber : session.number = n := by simpa [current, hs] using hn
      rw [hheld, ← hnumber, Ledger.held_hold]
    · omega

variable {srv : Server σ} {terms : Terms} {d d' : Delivery σ} {session : Session}

theorem ensureSession_ok (hv : d.Valid terms) (h : d.ensureSession srv terms = (.ok session, d')) :
    d.Moves srv terms d' ∧ d'.slot = { d.slot with session := some session } ∧ d'.batch = d.batch ∧
      d'.stats = d.stats ∧ d'.wire.ledger.held session.number =
        if d.slot.session = none then [] else d.wire.ledger.held session.number := by
  unfold ensureSession at h
  split at h
  · next hs =>
    cases h
    refine ⟨.refl hv, by rw [← hs], rfl, rfl, by simp [hs]⟩
  · next hs =>
    split at h
    · next s w hopen =>
      cases h
      obtain ⟨hsession, hopened, hledger⟩ := Wire.openSession_ok hopen
      have hnumber : session.number = d.wire.opened + 1 := by rw [hsession]
      have hkeeps : d.Keeps { d with slot := { d.slot with session := some session }, wire := w } := by
        refine ⟨by dsimp only; omega, fun n hn => ?_, fun n hn => ?_, fun n hn hne => ?_⟩
        · have hn : session.number = n := by simpa [current] using hn
          exact .inr (by dsimp only; omega)
        · dsimp only
          rw [hledger, Ledger.held_hold_of_ne]
          rintro rfl
          exact hn (.inr (by dsimp only; omega))
        · rcases hn with hn | hn
          · simp [current, hs] at hn
          · dsimp only at hn
            exact absurd (by simp [current]; omega) hne
      refine ⟨.still ⟨fun s hs' => ?_, hv.queue⟩ hkeeps (by simp [hledger]) rfl (List.Sublist.refl _)
        fun p _ _ => rfl, rfl, rfl, rfl, by simp [hs, hledger]⟩
      cases hs'
      rw [hsession]
    · cases h

theorem ensureSession_error {e : RequestError} (hv : d.Valid terms)
    (h : d.ensureSession srv terms = (.error e, d')) : d.Moves srv terms d' := by
  unfold ensureSession at h
  split at h
  · cases h
  · next hs =>
    split at h
    · cases h
    · next w hopen =>
      cases h
      obtain ⟨hopened, hledger⟩ := Wire.openSession_error hopen
      have hkeeps : d.Keeps { d with wire := w } := by
        refine ⟨Nat.le_of_eq hopened.symm, fun n hn => ?_, fun n _ => by simp [hledger], fun n hn hne => ?_⟩
        · simp [current, hs] at hn
        · rcases hn with hn | hn
          · simp [current, hs] at hn
          · dsimp only at hn
            omega
      exact .still ⟨hv.session, hv.queue⟩ hkeeps (by simp [hledger]) rfl (List.Sublist.refl _)
        fun p _ _ => rfl

theorem insert_take {docs left : List Content} (h : d.insert srv session docs = (.ok left, d')) :
    left.Sublist docs ∧ (∀ p, srv.RejectsBy p → left = docs.filter (!p ·)) ∧
      d'.wire.opened = d.wire.opened ∧ d'.wire.ledger = d.wire.ledger.take session left := by
  unfold insert at h
  split at h
  · next hempty =>
    cases h
    rw [List.isEmpty_iff.mp hempty]
    exact ⟨List.Sublist.refl _, fun _ _ => rfl, rfl, (Ledger.take_nil ..).symm⟩
  · split at h
    · cases h
    · next rejections w hinsert =>
      cases h
      obtain ⟨hanswer, hopened, hledger⟩ := Wire.insert_ok hinsert
      rw [without_rejectedIndices]
      refine ⟨kept_sublist docs rejections, fun p hp => ?_, by simp [hopened], by simp [hledger]⟩
      exact kept_eq_filter (hp session docs d.wire.state rejections hanswer)

theorem insert_still {docs : List Content} {e : RequestError}
    (h : d.insert srv session docs = (.error e, d')) :
    d'.wire.opened = d.wire.opened ∧ d'.wire.ledger = d.wire.ledger := by
  unfold insert at h
  split at h
  · cases h
  · split at h
    · next w hinsert =>
      cases h
      exact Wire.insert_error hinsert
    · cases h

theorem moves_insert_error {docs : List Content} {e : RequestError} (hv : d.Valid terms)
    (hs : d.slot.session = some session) (h : d.insert srv session docs = (.error e, d')) :
    d.Moves srv terms d' := by
  obtain ⟨hslot, hbatch, hstats⟩ := insert_error h
  obtain ⟨hopened, hledger⟩ := insert_still h
  refine .still ⟨by rw [hslot]; exact hv.session, by rw [hslot]; exact hv.queue⟩
    (.of_stay hs (by rw [hslot]; exact hs) hopened fun n _ => by rw [hledger]) (by rw [hledger])
    (by rw [hstats]) (by rw [hslot, hbatch]) fun p _ _ => by rw [hslot, hbatch]; rfl

theorem replayQueue_error {e : RequestError} (hv : d.Valid terms) (hs : d.slot.session = some session)
    (h : d.replayQueue srv session = (.error e, d')) : d.Moves srv terms d' := by
  unfold replayQueue at h
  split at h
  · next hinsert =>
    cases h
    exact moves_insert_error hv hs hinsert
  · cases h

theorem insertBatch_error {e : RequestError} (hv : d.Valid terms) (hs : d.slot.session = some session)
    (h : d.insertBatch srv session = (.error e, d')) : d.Moves srv terms d' := by
  unfold insertBatch at h
  split at h
  · next hinsert =>
    cases h
    exact moves_insert_error hv hs hinsert
  · cases h

/-- The open session holds just the queue. -/
structure Current (d : Delivery σ) : Prop where
  held : ∀ s, d.slot.session = some s → d.wire.ledger.held s.number = d.slot.queue
  idle : d.slot.session = none → d.slot.queue = []

theorem Current.of_session (hs : d.slot.session = some session)
    (h : d.wire.ledger.held session.number = d.slot.queue) : d.Current where
  held s hs' := by
    rw [hs] at hs'
    cases hs'
    exact h
  idle hs' := by
    rw [hs] at hs'
    cases hs'

theorem replayQueue_ok (hv : d.Valid terms) (hs : d.slot.session = some session)
    (hheld : d.wire.ledger.held session.number = [])
    (h : d.replayQueue srv session = (.ok (), d')) :
    d.Moves srv terms d' ∧ d'.slot.session = some session ∧
      d'.wire.ledger.held session.number = d'.slot.queue := by
  unfold replayQueue at h
  split at h
  · cases h
  · next left d₁ hinsert =>
    cases h
    obtain ⟨hslot, hbatch, hsucc, -⟩ := insert_ok hinsert
    obtain ⟨hsub, hthin, hopened, hledger⟩ := insert_take hinsert
    have hs₁ : d₁.slot.session = some session := by rw [hslot, hs]
    have hauto : terms.transaction = .auto → left = [] := fun hauto => by
      have hqueue := hv.queue hauto
      rw [hqueue] at hsub
      exact List.sublist_nil.mp hsub
    have htaken : d₁.wire.ledger.stored = d.wire.ledger.stored ∧
        d₁.wire.ledger.held session.number = left ∧
        ∀ n, n ≠ session.number → d₁.wire.ledger.held n = d.wire.ledger.held n := by
      rw [hledger]
      cases hmode : terms.transaction with
      | auto =>
        rw [hauto hmode, Ledger.take_nil]
        exact ⟨rfl, hheld, fun _ _ => rfl⟩
      | update =>
        have htransaction := (hv.session session hs).trans hmode
        simp only [Ledger.take, htransaction, hheld, List.nil_append, Ledger.stored_hold,
          Ledger.held_hold, true_and]
        exact fun n hn => Ledger.held_hold_of_ne _ hn _
    refine ⟨.still ⟨fun s hs' => ?_, hauto⟩ (.of_stay hs hs₁ hopened htaken.2.2) htaken.1 hsucc ?_
      fun p hp hq => ?_, hs₁, htaken.2.1⟩
    · rw [hs₁] at hs'
      cases hs'
      exact hv.session session hs
    · dsimp only
      rw [hbatch]
      exact hsub.append_right _
    · have hclean : d.slot.queue.filter (!p ·) = d.slot.queue :=
        List.filter_eq_self.mpr fun doc hdoc => by simp [hq doc hdoc]
      dsimp only
      rw [hthin p hp, hclean, hbatch]
      rfl

theorem insertBatch_settle (hv : d.Valid terms) (hs : d.slot.session = some session)
    (hauto : terms.transaction = .auto) (hheld : d.wire.ledger.held session.number = d.slot.queue)
    (h : d.insertBatch srv session = (.ok (), d')) :
    d.Moves srv terms d'.settleAuto ∧ d'.settleAuto.Current := by
  unfold insertBatch at h
  split at h
  · cases h
  · next left d₁ hinsert =>
    cases h
    obtain ⟨hslot, hbatch, hsucc, -⟩ := insert_ok hinsert
    obtain ⟨hsub, hthin, hopened, hledger⟩ := insert_take hinsert
    have hs₁ : d₁.slot.session = some session := by rw [hslot, hs]
    have hqueue : d₁.slot.queue = [] := by rw [hslot, hv.queue hauto]
    have htransaction := (hv.session session hs).trans hauto
    simp only [Ledger.take, htransaction] at hledger
    refine ⟨⟨⟨fun s hs' => ?_, fun _ => hqueue⟩, .of_stay hs hs₁ hopened fun n _ => by
      simp [settleAuto, hledger], left.map fun doc => (session.number, doc), ⟨?_, ?_, ?_, ?_⟩,
      fun p hp hq => ?_⟩, .of_session hs₁ ?_⟩
    · have hs' : d₁.slot.session = some s := hs'
      rw [hs₁] at hs'
      cases hs'
      exact hv.session session hs
    · simp [settleAuto, hledger]
    · intro entry hentry
      obtain ⟨doc, -, rfl⟩ := List.mem_map.mp hentry
      exact .inl (by simp [current, hs])
    · simp [settleAuto, hsucc]
    · simpa [settleAuto, hqueue, hv.queue hauto, Function.comp_def] using hsub
    · simp [settleAuto, hqueue, hv.queue hauto, Function.comp_def, hthin p hp]
    · simp [settleAuto, hledger, hheld, hqueue, hv.queue hauto]

theorem insertBatch_enqueue (hv : d.Valid terms) (hs : d.slot.session = some session)
    (hupdate : terms.transaction = .update) (hheld : d.wire.ledger.held session.number = d.slot.queue)
    (h : d.insertBatch srv session = (.ok (), d')) :
    d.Moves srv terms d'.enqueue ∧ d'.enqueue.slot.session = some session ∧
      d'.enqueue.wire.ledger.held session.number = d'.enqueue.slot.queue := by
  unfold insertBatch at h
  split at h
  · cases h
  · next left d₁ hinsert =>
    cases h
    obtain ⟨hslot, hbatch, hsucc, -⟩ := insert_ok hinsert
    obtain ⟨hsub, hthin, hopened, hledger⟩ := insert_take hinsert
    have hs₁ : d₁.slot.session = some session := by rw [hslot, hs]
    have htransaction := (hv.session session hs).trans hupdate
    simp only [Ledger.take, htransaction] at hledger
    refine ⟨.still ⟨fun s hs' => ?_, fun hauto => ?_⟩ (.of_stay hs hs₁ hopened fun n hn => ?_) ?_ hsucc ?_
      fun p hp hq => ?_, hs₁, ?_⟩
    · have hs' : d₁.slot.session = some s := hs'
      rw [hs₁] at hs'
      cases hs'
      exact hv.session session hs
    · rw [hupdate] at hauto
      cases hauto
    · simp only [enqueue, hledger]
      exact Ledger.held_hold_of_ne _ hn _
    · simp [enqueue, hledger]
    · simp [enqueue, hslot, hsub]
    · simp [enqueue, hslot, hthin p hp]
    · simp [enqueue, hslot, hledger, hheld]

theorem commit_ok (hv : d.Valid terms) (hs : d.slot.session = some session)
    (hheld : d.wire.ledger.held session.number = d.slot.queue)
    (h : d.commit srv session = (.ok (), d')) : d.Moves srv terms d' ∧ d'.Current := by
  unfold commit at h
  split at h
  · cases h
  · next w hcommit =>
    cases h
    obtain ⟨hopened, hledger⟩ := Wire.commit_ok hcommit
    refine ⟨⟨⟨hv.session, fun _ => rfl⟩, .of_stay hs hs hopened fun n hn => ?_,
      d.slot.queue.map fun doc => (session.number, doc), ⟨?_, ?_, ?_, ?_⟩, fun p _ _ => ?_⟩,
      .of_session hs ?_⟩
    · rw [hledger, Ledger.held_hold_of_ne _ hn, Ledger.held_store]
    · simp [hledger, hheld]
    · intro entry hentry
      obtain ⟨doc, -, rfl⟩ := List.mem_map.mp hentry
      exact .inl (by simp [current, hs])
    · simp
    · simp [Function.comp_def]
    · simp [Function.comp_def]
    · simp [hledger]

theorem commit_error {e : RequestError} (hv : d.Valid terms) (hs : d.slot.session = some session)
    (h : d.commit srv session = (.error e, d')) : d.Moves srv terms d' := by
  unfold commit at h
  split at h
  · next w hcommit =>
    cases h
    obtain ⟨hopened, hledger⟩ := Wire.commit_error hcommit
    refine .still ⟨hv.session, hv.queue⟩ (.of_stay hs hs hopened fun n hn => ?_) ?_ rfl
      (List.Sublist.refl _) fun p _ _ => rfl
    · rw [hledger, Ledger.held_hold_of_ne _ hn]
    · simp [hledger]
  · cases h

theorem replay_moves {replay : Bool} {session : Session} {d d₁ d₂ : Delivery σ} (hv : d.Valid terms)
    (hready : if replay then d.slot.session = none else d.Current)
    (h : d.ensureSession srv terms = (.ok session, d₁)) {r : Except RequestError Unit}
    (hr : (if replay then d₁.replayQueue srv session else (.ok (), d₁)) = (r, d₂)) :
    d.Moves srv terms d₂ ∧ (r = .ok () → d₂.slot.session = some session ∧
      d₂.wire.ledger.held session.number = d₂.slot.queue) := by
  obtain ⟨hopen, hslot₁, -, -, hheld₁⟩ := ensureSession_ok hv h
  have hs₁ : d₁.slot.session = some session := by rw [hslot₁]
  cases replay with
  | true =>
    simp only [if_true] at hr hready
    rw [if_pos hready] at hheld₁
    cases r with
    | error e =>
      exact ⟨hopen.trans (replayQueue_error hopen.valid hs₁ hr), fun hok => by cases hok⟩
    | ok u =>
      obtain ⟨hm, hsession, hheld⟩ := replayQueue_ok hopen.valid hs₁ hheld₁ hr
      exact ⟨hopen.trans hm, fun _ => ⟨hsession, hheld⟩⟩
  | false =>
    simp only [Bool.false_eq_true, if_false, Prod.mk.injEq] at hr hready
    obtain ⟨-, rfl⟩ := hr
    refine ⟨hopen, fun _ => ⟨hs₁, ?_⟩⟩
    rw [hheld₁, hslot₁]
    split
    · next hnone => rw [hready.idle hnone]
    · next hsome =>
      obtain ⟨s, hs⟩ := Option.ne_none_iff_exists'.mp hsome
      have hsame : s = session := by
        simp only [ensureSession, hs, Prod.mk.injEq, Except.ok.injEq] at h
        exact h.1
      rw [hsame] at hs
      exact hready.held session hs

/-- An attempt comes upon a session that holds the queue, or upon none if it has to send the queue
again; a success leaves a session that holds the queue. -/
theorem attempt_moves (srv : Server σ) {terms : Terms} {replay : Bool} (ending : Bool)
    {d : Delivery σ} (hv : d.Valid terms)
    (hready : if replay then d.slot.session = none else d.Current) :
    d.Moves srv terms (d.attempt srv terms replay ending).2 ∧
      ((d.attempt srv terms replay ending).1 = .ok () →
        (d.attempt srv terms replay ending).2.Current) := by
  unfold attempt
  split
  · next h => exact ⟨ensureSession_error hv h, nofun⟩
  · next session d₁ h =>
    split
    · next h₂ => exact ⟨(replay_moves hv hready h h₂).1, nofun⟩
    · next d₂ h₂ =>
      obtain ⟨hm₂, hafter⟩ := replay_moves hv hready h h₂
      obtain ⟨hs₂, hheld₂⟩ := hafter rfl
      split
      · next h₃ => exact ⟨hm₂.trans (insertBatch_error hm₂.valid hs₂ h₃), nofun⟩
      · next d₃ h₃ =>
        split
        · next hauto =>
          obtain ⟨hm₃, hcurrent⟩ := insertBatch_settle hm₂.valid hs₂ hauto hheld₂ h₃
          exact ⟨hm₂.trans hm₃, fun _ => hcurrent⟩
        · next hupdate =>
          obtain ⟨hm₃, hs₃, hheld₃⟩ := insertBatch_enqueue hm₂.valid hs₂ hupdate hheld₂ h₃
          have hqueued := hm₂.trans hm₃
          split
          · cases hc : d₃.enqueue.commit srv session with
            | mk r d₄ =>
              cases r with
              | error e => exact ⟨hqueued.trans (commit_error hm₃.valid hs₃ hc), nofun⟩
              | ok u =>
                obtain ⟨hm₄, hcurrent⟩ := commit_ok hm₃.valid hs₃ hheld₃ hc
                exact ⟨hqueued.trans hm₄, fun _ => hcurrent⟩
          · exact ⟨hqueued, fun _ => .of_session hs₃ hheld₃⟩

theorem discardSession_moves (srv : Server σ) {terms : Terms} {d : Delivery σ} (hv : d.Valid terms) :
    d.Moves srv terms (d.discardSession srv terms) ∧
      (d.discardSession srv terms).slot = { d.slot with session := none } ∧
      (d.discardSession srv terms).batch = d.batch := by
  unfold discardSession
  split
  · next hs => exact ⟨.refl hv, by rw [← hs], rfl⟩
  · next session hs =>
    dsimp only
    refine ⟨.still ⟨nofun, hv.queue⟩ (.of_release hs rfl ?_ ?_) ?_ rfl (List.Sublist.refl _)
      fun p _ _ => rfl, rfl, rfl⟩
    · split <;> rfl
    · split
      · rfl
      · simp only [Wire.ledger_close, Wire.ledger_rollback]
        simp [Ledger.hold]
    · split <;> rfl

theorem Moves.of_same {d d' d'' : Delivery σ} (h : d.Moves srv terms d')
    (hsession : d''.slot.session = d'.slot.session) (hqueue : d''.slot.queue = d'.slot.queue)
    (hbatch : d''.batch = d'.batch) (hsucceeded : d''.stats.succeeded = d'.stats.succeeded)
    (hopened : d''.wire.opened = d'.wire.opened) (hledger : d''.wire.ledger = d'.wire.ledger) :
    d.Moves srv terms d'' := by
  have hv : d''.Valid terms :=
    ⟨by rw [hsession]; exact h.valid.session, by rw [hqueue]; exact h.valid.queue⟩
  have hcurrent : d''.current = d'.current := by rw [current, current, hsession]
  refine h.trans (.still hv ⟨Nat.le_of_eq hopened.symm, ?_, ?_, ?_⟩ (by rw [hledger]) hsucceeded
    (by rw [hqueue, hbatch]) fun p _ _ => by rw [hqueue, hbatch]; rfl)
  · exact fun n hn => .inl (hcurrent ▸ hn)
  · exact fun n _ => by rw [hledger]
  · intro n hn hne
    rcases hn with hn | hn
    · exact absurd (hcurrent ▸ hn) hne
    · omega

theorem failOver_moves (srv : Server σ) {terms : Terms} (e : RequestError) (n : Nat)
    {d : Delivery σ} (hv : d.Valid terms) :
    d.Moves srv terms (d.failOver srv terms e n) ∧
      (d.failOver srv terms e n).slot.session = none := by
  obtain ⟨hm, hslot, -⟩ := discardSession_moves srv hv
  refine ⟨hm.of_same rfl rfl rfl ?_ rfl rfl, ?_⟩
  · simp only [failOver]
    split <;> rfl
  · simp only [failOver, hslot]

theorem run_moves (srv : Server σ) {terms : Terms} (ending : Bool) (left n : Nat) (replay : Bool)
    {d : Delivery σ} (hv : d.Valid terms)
    (hready : if replay then d.slot.session = none else d.Current) :
    d.Moves srv terms (run srv terms ending left n replay d).2 ∧
      ((run srv terms ending left n replay d).1 = .ok () →
        (run srv terms ending left n replay d).2.Current) := by
  fun_induction run srv terms ending left n replay d with
  | case1 left n replay d d' h =>
    obtain ⟨hm, hcurrent⟩ := attempt_moves srv ending hv hready
    rw [h] at hm hcurrent
    have hcurrent := hcurrent rfl
    dsimp only
    split
    · exact ⟨hm.of_same rfl rfl rfl rfl rfl rfl, fun _ => ⟨hcurrent.held, hcurrent.idle⟩⟩
    · exact ⟨hm, fun _ => hcurrent⟩
  | case2 n replay d e d' h =>
    obtain ⟨hm, -⟩ := attempt_moves srv ending hv hready
    rw [h] at hm
    exact ⟨hm, fun he => by cases he⟩
  | case3 n replay d e d' h hretryable left ih =>
    obtain ⟨hm, -⟩ := attempt_moves srv ending hv hready
    rw [h] at hm
    obtain ⟨hover, hnone⟩ := failOver_moves srv e n hm.valid
    obtain ⟨hrest, hok⟩ := ih hover.valid hnone
    exact ⟨(hm.trans hover).trans hrest, hok⟩
  | case4 left n replay d e d' h =>
    obtain ⟨hm, -⟩ := attempt_moves srv ending hv hready
    rw [h] at hm
    exact ⟨hm, fun he => by cases he⟩

/-- A delivery stores in order, touches its own sessions only, and after a success the open session
holds just the queue. -/
theorem deliver_moves (srv : Server σ) {terms : Terms} (ending : Bool) {d : Delivery σ}
    (hv : d.Valid terms) (hcurrent : d.Current) :
    d.Moves srv terms (d.deliver srv terms ending).2 ∧
      ((d.deliver srv terms ending).1 = .ok () → (d.deliver srv terms ending).2.Current) :=
  run_moves srv ending _ _ false hv hcurrent

end ForestCourier.Writer.Delivery
