import Mathlib.Data.List.Nodup
import ForestCourier.Proofs.Writer.Accounting
import ForestCourier.Proofs.Writer.Discipline
import ForestCourier.Proofs.Writer.Durability

/-!
Every session that a writer opens is closed once, or is still the session of the slot it was opened for:
the openings and closings of a session balance for each slot and for the lookups. A writer that has been
closed has no session left.
-/

namespace ForestCourier

variable {σ : Type}

namespace Writer

variable {srv : Server σ} {w w' : Writer} {site site' : Site σ}

namespace Journal

theorem mem_eventsOf {journal : Journal} {owner : Option Nat} {event : Event} :
    event ∈ journal.eventsOf owner ↔ (owner, event) ∈ journal := by
  rw [eventsOf, List.mem_map]
  constructor
  · rintro ⟨⟨owner', event'⟩, hmem, rfl⟩
    obtain ⟨hin, howner⟩ := List.mem_filter.mp hmem
    rwa [← of_decide_eq_true howner]
  · intro hin
    exact ⟨(owner, event), List.mem_filter.mpr ⟨hin, decide_eq_true rfl⟩, rfl⟩

theorem mem_events {journal : Journal} {event : Event} :
    event ∈ journal.events ↔ ∃ owner, event ∈ journal.eventsOf owner := by
  simp only [events, mem_eventsOf, List.mem_map, Prod.exists, exists_eq_right]

def others (owner : Option Nat) (journal : Journal) : List Event :=
  (journal.filter fun entry => !decide (entry.1 = owner)).map Prod.snd

theorem mem_others {journal : Journal} {owner : Option Nat} {event : Event} :
    event ∈ journal.others owner ↔ ∃ owner' ≠ owner, event ∈ journal.eventsOf owner' := by
  simp only [others, mem_eventsOf, List.mem_map, List.mem_filter, Bool.not_eq_true',
    decide_eq_false_iff_not]
  constructor
  · rintro ⟨⟨owner', event'⟩, ⟨hin, hne⟩, rfl⟩
    exact ⟨owner', hne, hin⟩
  · rintro ⟨owner', hne, hin⟩
    exact ⟨(owner', event), ⟨hin, hne⟩, rfl⟩

theorem countP_events (p : Event → Bool) (owner : Option Nat) (journal : Journal) :
    journal.events.countP p = (journal.eventsOf owner).countP p + (journal.others owner).countP p := by
  rw [events, eventsOf, others, List.countP_map, List.countP_map, List.countP_map]
  exact List.countP_eq_countP_filter_add ..

/-- A session that balances for every owner, and that is opened once, has been closed once or is held
by the owner that it was opened for. -/
theorem closed_once {journal : Journal} {session : Session} {held : Option Nat → Option Session}
    (hbalance : ∀ owner, (journal.eventsOf owner).countP (Event.opens session) =
      (journal.eventsOf owner).countP (Event.closes session) + session.count (held owner))
    (honce : journal.events.countP (Event.opens session) ≤ 1) {owner : Option Nat}
    (hopened : .opened session ∈ journal.eventsOf owner) :
    journal.events.countP (Event.closes session) + session.count (held owner) = 1 := by
  have hown : 0 < (journal.eventsOf owner).countP (Event.opens session) :=
    List.countP_pos_iff.mpr ⟨_, hopened, decide_eq_true rfl⟩
  have hopens := countP_events (Event.opens session) owner journal
  have hcloses := countP_events (Event.closes session) owner journal
  -- An owner that closes the session has opened it.
  have hothers : (journal.others owner).countP (Event.closes session) = 0 := by
    by_contra hne
    obtain ⟨event, hmem, hclosed⟩ := List.countP_pos_iff.mp (Nat.pos_of_ne_zero hne)
    obtain ⟨owner', howner', hevent⟩ := mem_others.mp hmem
    have hclosed' : 0 < (journal.eventsOf owner').countP (Event.closes session) :=
      List.countP_pos_iff.mpr ⟨event, hevent, hclosed⟩
    have hopened' : 0 < (journal.eventsOf owner').countP (Event.opens session) := by
      rw [hbalance owner']
      omega
    obtain ⟨event', hevent', hopens'⟩ := List.countP_pos_iff.mp hopened'
    have hagain : 0 < (journal.others owner).countP (Event.opens session) :=
      List.countP_pos_iff.mpr ⟨event', mem_others.mpr ⟨owner', howner', hevent'⟩, hopens'⟩
    omega
  have hbalanced := hbalance owner
  omega

end Journal

theorem Post.step_balances {terms : Terms} {session : Session} (p : Post) (event : Event) (p' : Post)
    (h : p.step terms event = some p') :
    session.count p.line.session? + (event.opens session).toNat =
      (event.closes session).toNat + session.count p'.line.session? := by
  unfold Post.step at h
  grind [Session.count, Event.opens, Event.closes, Line.session?]

theorem lookStep_balances {session : Session} (held : Option Session) (event : Event)
    (held' : Option Session) (h : lookStep held event = some held') :
    session.count held + (event.opens session).toNat =
      (event.closes session).toNat + session.count held' := by
  unfold lookStep at h
  grind [Session.count, Event.opens, Event.closes]

theorem Slot.session_post (slot : Slot) : slot.post.line.session? = slot.session := by
  unfold Slot.post
  cases slot.session
  · rfl
  · rfl

/-- The session that a writer keeps for an owner; it keeps none for lookups. -/
def sessionOf (w : Writer) : Option Nat → Option Session
  | none => none
  | some i => (w.slots[i]?).bind (·.session)

/-- The discipline of a writer with its sessions, from its start as `w` to `w'`. -/
structure Disciplined (w : Writer) (journal : Journal) (w' : Writer) : Prop where
  owners : ∀ entry ∈ journal, ∀ i, entry.1 = some i → i < w'.slots.length
  /-- The requests of a slot keep to its line, from its first route on. -/
  lines : ∀ (i : Nat) (slot : Slot), w'.slots[i]? = some slot → ∃ first : Slot,
    w.slots[i]? = some first ∧
      (journal.eventsOf (some i)).foldlM (Post.step w.terms) ⟨first.route, .down⟩ = some slot.post
  aimed : ∀ (i : Nat) (slot : Slot), w'.slots[i]? = some slot →
    ∀ session, slot.session = some session → session.target = slot.route.target w.terms.port
  lookups : (journal.eventsOf none).foldlM lookStep none = some none
  /-- A session that was opened has been closed once, unless it is still kept. -/
  closed : ∀ owner session, .opened session ∈ journal.eventsOf owner →
    journal.events.countP (Event.closes session) + session.count (w'.sessionOf owner) = 1

theorem Orderly.balances {journal : Journal} (h : Orderly w site journal w' site')
    (hnone : ∀ (i : Nat) (slot : Slot), w.slots[i]? = some slot → slot.session = none)
    (session : Session) (owner : Option Nat) :
    (journal.eventsOf owner).countP (Event.opens session) =
      (journal.eventsOf owner).countP (Event.closes session) + session.count (w'.sessionOf owner) := by
  have hzero : session.count none = 0 := rfl
  cases owner with
  | none =>
    have hbalance := foldlM_balances session lookStep_balances h.lookups
    rwa [hzero, Nat.zero_add] at hbalance
  | some i =>
    cases hi : w.slots[i]? with
    | none =>
      obtain ⟨hi', hevents⟩ := h.absent i hi
      rw [hevents, sessionOf, hi']
      rfl
    | some slot =>
      obtain ⟨slot', hi', hrun⟩ := h.slots i slot hi
      have hbalance := foldlM_balances session Post.step_balances hrun
      rw [Slot.session_post, Slot.session_post, hnone i slot hi, hzero, Nat.zero_add] at hbalance
      rwa [sessionOf, hi']

theorem Orderly.disciplined {journal : Journal} (h : Orderly w site journal w' site')
    (hnone : ∀ (i : Nat) (slot : Slot), w.slots[i]? = some slot → slot.session = none)
    {targets : Nat → List Target} (haimed : w'.Aimed w.terms targets) :
    Disciplined w journal w' where
  owners entry hentry i howner := by
    by_contra hge
    have hi' : w'.slots[i]? = none := List.getElem?_eq_none (Nat.le_of_not_lt hge)
    have hi : w.slots[i]? = none := by
      cases hi : w.slots[i]? with
      | none => rfl
      | some slot =>
        obtain ⟨slot', hslot', -⟩ := h.slots i slot hi
        cases hi'.symm.trans hslot'
    have hevent : entry.2 ∈ journal.eventsOf (some i) := by
      rw [Journal.mem_eventsOf, ← howner]
      exact hentry
    rw [(h.absent i hi).2] at hevent
    cases hevent
  lines i slot hi' := by
    cases hi : w.slots[i]? with
    | none => cases hi'.symm.trans (h.absent i hi).1
    | some first =>
      obtain ⟨slot', hslot', hrun⟩ := h.slots i first hi
      cases hi'.symm.trans hslot'
      rw [Slot.post, hnone i first hi] at hrun
      exact ⟨first, rfl, hrun⟩
  aimed i slot hi := (haimed.slots i slot hi).session
  lookups := h.lookups
  closed _ session hopened := Journal.closed_once (h.balances hnone session)
    (h.adds.countP_opens session) hopened

/-! Closing leaves no session. -/

def SilentAt (i : Nat) (w : Writer) : Prop :=
  ∀ slot : Slot, w.slots[i]? = some slot → slot.session = none

theorem drainSlot_silent {i : Nat} {result : Except TransferError Unit}
    (h : w.drainSlot srv i site = (.ok result, w', site')) : w'.SilentAt i := by
  intro slot' hi'
  cases hi : w.slots[i]? with
  | none =>
    have hbeside := beside_drainSlot srv i w site
    rw [h] at hbeside
    have hlength : w'.slots.length = w.slots.length := hbeside.length
    have hlt := (List.getElem?_eq_some_iff.mp hi').1
    have hge := List.getElem?_eq_none_iff.mp hi
    omega
  | some slot =>
    obtain ⟨slot₁, hslot₁, hnone, -⟩ := drainSlot_drives srv site hi
    rw [h] at hslot₁ hnone
    cases hi'.symm.trans hslot₁
    exact hnone result rfl

theorem SilentAt.drainSlot {i j : Nat} (hsilent : w.SilentAt j) {result : Except TransferError Unit}
    (h : w.drainSlot srv i site = (.ok result, w', site')) : w'.SilentAt j := by
  by_cases hj : j = i
  · rw [hj]
    exact drainSlot_silent h
  · intro slot hslot
    have hbeside := beside_drainSlot srv i w site
    rw [h] at hbeside
    exact hsilent slot ((hbeside.others j hj).symm.trans hslot)

theorem drain_silent (is : List Nat) {result : Except TransferError Unit}
    (h : drain srv is w site = (.ok result, w', site')) :
    ∀ j, (j ∈ is ∨ w.SilentAt j) → w'.SilentAt j := by
  induction is generalizing w site result with
  | nil =>
    cases h
    rintro j (hj | hj)
    · cases hj
    · exact hj
  | cons i is ih =>
    rw [drain] at h
    split at h
    · cases h
    · next first w₁ site₁ hslot =>
      split at h
      · cases h
      · next later w₂ site₂ hrest =>
        cases h
        rintro j (hj | hj)
        · rcases List.mem_cons.mp hj with rfl | hj
          · exact ih hrest j (.inr (drainSlot_silent hslot))
          · exact ih hrest j (.inl hj)
        · exact ih hrest j (.inr (hj.drainSlot hslot))

theorem closed_write (srv : Server σ) (files : FileStore) (uri : Uri) (source : Option Source)
    (payload : Payload) (w : Writer) (site : Site σ) :
    (w.write srv files uri source payload site).2.1.closed = w.closed := by
  have hfound := (found_receive srv files uri source payload w site).closed
  obtain ⟨fault, w₁, site₁, hr, hw⟩ | ⟨e, w₁, site₁, hr, hw⟩ | ⟨i, content, w₁, site₁, hr, hw⟩ :=
    write_cases srv files uri source payload w site
  · rw [hr] at hfound
    rw [hw]
    exact hfound
  · rw [hr] at hfound
    rw [hw]
    exact hfound
  · rw [hr] at hfound
    rw [hw]
    exact (beside_push srv i content w₁ site₁).closed.trans hfound

theorem closed_silent {w : Writer} (hopen : w.closed = false) (srv : Server σ) (site : Site σ)
    (calls : List Call) (hclose : Call.close ∈ calls)
    (h : (Course.follow srv calls (.start w site)).Unbroken) (j : Nat) :
    (Course.follow srv calls (.start w site)).writer.SilentAt j := by
  have hrun : (Course.follow srv calls (.start w site)).Unbroken →
      (Call.close ∈ calls → (Course.follow srv calls (.start w site)).writer.closed = true) ∧
        ((Course.follow srv calls (.start w site)).writer.closed = true →
          (Course.follow srv calls (.start w site)).writer.SilentAt j) := by
    clear h hclose
    induction calls using List.reverseRecOn with
    | nil =>
      intro _
      refine ⟨nofun, fun hclosed => ?_⟩
      exact absurd (hclosed.symm.trans hopen) (by simp)
    | append_singleton calls call ih =>
      rw [Course.follow_append]
      intro hunbroken
      obtain ⟨hbefore, hno⟩ := hunbroken.of_step
      obtain ⟨hmem, hsilent⟩ := ih hbefore
      generalize Course.follow srv calls (.start w site) = c at hno hmem hsilent ⊢
      dsimp only [Course.step]
      cases hc : c.writer.closed with
      | true =>
        rw [Call.run_closed hc]
        exact ⟨fun _ => hc, fun _ => hsilent hc⟩
      | false =>
        cases call with
        | write files uri source payload =>
          have hstill := (closed_write srv files uri source payload c.writer c.site).trans hc
          refine ⟨fun hin => ?_, fun hclosed => absurd (hclosed.symm.trans hstill) (by simp)⟩
          rcases List.mem_append.mp hin with hin | hin
          · exact absurd ((hmem hin).symm.trans hc) (by simp)
          · cases List.mem_singleton.mp hin
        | close =>
          obtain ⟨w', site', hd, hclosed⟩ := close_cases hc hno
          have hsettings := drain_settings srv (List.range c.writer.slots.length)
            { c.writer with closed := true } c.site
          rw [hd] at hsettings
          dsimp only [Call.run]
          rw [hclosed]
          refine ⟨fun _ => hsettings.2.1, fun _ => drain_silent _ hd j ?_⟩
          rcases Nat.lt_or_ge j c.writer.slots.length with hlt | hge
          · exact .inl (List.mem_range.mpr hlt)
          · refine .inr fun slot hslot => ?_
            rw [List.getElem?_eq_none hge] at hslot
            cases hslot
  obtain ⟨hmem, hsilent⟩ := hrun h
  exact hsilent (hmem hclose)

theorem new_session {config : Config.Output} {fastLoad : Bool} {m : Placement.Manager} {task : Nat}
    (hw : Writer.new config fastLoad m task = .ok w) (i : Nat) (slot : Slot)
    (hi : w.slots[i]? = some slot) : slot.session = none := by
  obtain ⟨route, rfl⟩ := new_slot hw hi
  rfl

/-- The requests of a new writer keep to the discipline. After each call there is at most one session
for a slot, it leads where the slot's route leads, and lookups have left none; once the writer has been
closed, all sessions have been, each one once. -/
theorem sessions_disciplined {config : Config.Output} {fastLoad : Bool} {m : Placement.Manager}
    {task : Nat} (hw : Writer.new config fastLoad m task = .ok w) (srv : Server σ) (site : Site σ)
    (calls : List Call) :
    let c := Course.follow srv calls (.start w site)
    let journal := Course.journal srv calls (.start w site)
    site.wire.Adds journal.events c.site.wire ∧
      Disciplined w journal c.writer ∧
      (.close ∈ calls → c.Unbroken → ∀ session, .opened session ∈ journal.events →
        journal.events.countP (Event.closes session) = 1) := by
  intro c journal
  have horderly : Orderly w site journal c.writer c.site := Course.orderly srv calls (.start w site)
  have haimed : c.writer.Aimed w.terms (targetsFor config fastLoad m) :=
    Course.follow_induction (P := fun c => c.writer.Aimed w.terms (targetsFor config fastLoad m))
      (aimed_new hw) (fun c call h => h.run srv call c.site) calls
  have hdisciplined : Disciplined w journal c.writer := horderly.disciplined (new_session hw) haimed
  refine ⟨horderly.adds, hdisciplined, fun hclose hunbroken session hopened => ?_⟩
  obtain ⟨owner, howner⟩ := Journal.mem_events.mp hopened
  obtain ⟨-, -, -, -, -, -, hopen⟩ := new_cases hw
  have hsilent : c.writer.sessionOf owner = none := by
    cases owner with
    | none => rfl
    | some i =>
      refine Option.bind_eq_none_iff.mpr fun slot hi => ?_
      exact closed_silent hopen srv site calls hclose hunbroken i slot hi
  have hclosed := hdisciplined.closed owner session howner
  rwa [hsilent] at hclosed

/-- Two slots have a session each, and one of them a second after a commit that fails; all three are
closed. -/
theorem sessions_disciplined_losing :
    ∃ w, Writer.new (Sample.config 2) true Sample.manager 0 = .ok w ∧
      let start := Course.start w ⟨Sample.manager, .zero, .new 0⟩
      (Course.follow Sample.losing Sample.calls start).site.wire.trace.filterMap Event.opens? =
        [3, 2, 1] ∧
        ∀ session, .opened session ∈ (Course.journal Sample.losing Sample.calls start).events →
          (Course.journal Sample.losing Sample.calls start).events.countP (Event.closes session) = 1 := by
  have hw : ∃ w, Writer.new (Sample.config 2) true Sample.manager 0 = .ok w := ⟨_, rfl⟩
  obtain ⟨w, hw⟩ := hw
  have hunbroken :
      (Course.follow Sample.losing Sample.calls (.start w ⟨Sample.manager, .zero, .new 0⟩)).Unbroken := by
    cases hw
    decide +kernel
  refine ⟨w, hw, ?_, ?_⟩
  · cases hw
    decide +kernel
  · exact (sessions_disciplined hw Sample.losing ⟨Sample.manager, .zero, .new 0⟩ Sample.calls).2.2
      (by simp [Sample.calls]) hunbroken

end Writer

end ForestCourier
