import ForestCourier.Proofs.Writer.Lookup
import ForestCourier.Proofs.Writer.Totals
import ForestCourier.Proofs.Writer.Transfer

/-!
The books of a writer against the ledger of the server. What a stint does to its slot, no other slot
notices, since their sessions are apart. So the books, kept by each stint, say of every slot what it
has stored, what its session holds and what is still to be sent.
-/

namespace ForestCourier.Writer

variable {σ : Type}

def view (slot : Slot) (w : Writer) (wire : Wire σ) : Delivery σ := ⟨slot, slot.pending, w.stats, wire⟩

/-- What a stint does to its slot; `outcome` is how the delivery ended. -/
structure Delivery.Works (srv : Server σ) (terms : Terms) (outcome : Except (RequestError × Nat) Unit)
    (d d' : Delivery σ) : Prop where
  valid : d'.Valid terms
  current : d'.Current
  keeps : d.Keeps d'
  stores : ∃ new, d.Stores d' new ∧ (outcome = .ok () → ∀ p, srv.RejectsBy p → d.Thins p d' new)

namespace Delivery

variable {srv : Server σ} {terms : Terms} {outcome : Except (RequestError × Nat) Unit}
  {d d' d'' : Delivery σ}

theorem Works.of_moves (h : d.Moves srv terms d') (hc : d'.Current) :
    d.Works srv terms outcome d' where
  valid := h.valid
  current := hc
  keeps := h.keeps
  stores := by
    obtain ⟨new, hs, ht⟩ := h.stores
    exact ⟨new, hs, fun _ => ht⟩

theorem Works.trans_moves (h : d.Works srv terms outcome d') (h' : d'.Moves srv terms d'')
    (hc : d''.Current) : d.Works srv terms outcome d'' where
  valid := h'.valid
  current := hc
  keeps := h.keeps.trans h'.keeps
  stores := by
    obtain ⟨new, hs, ht⟩ := h.stores
    obtain ⟨new', hs', ht'⟩ := h'.stores
    exact ⟨new ++ new', hs.trans h.keeps h'.keeps hs', fun hok p hp => (ht hok p hp).trans (ht' p hp)⟩

theorem Works.of_clear (h : d.Moves srv terms d') {e : RequestError} {n : Nat} {stage : Stage}
    {failed : Nat} {wire : Wire σ} (hopened : wire.opened = (d'.clear srv terms).wire.opened)
    (hledger : wire.ledger = (d'.clear srv terms).wire.ledger) :
    d.Works srv terms (.error (e, n))
      { d'.clear srv terms with
        slot := { (d'.clear srv terms).slot with stage := stage }
        stats := { (d'.clear srv terms).stats with failed := failed }
        wire := wire } := by
  obtain ⟨hm, hslot, hbatch⟩ := discardSession_moves srv h.valid
  have hgone := h.trans hm
  obtain ⟨new, hs, -⟩ := hgone.stores
  have hsession : (d'.clear srv terms).slot.session = none := by simp only [clear, hslot]
  have hnone : (d'.discardSession srv terms).current = none := by simp [Delivery.current, hslot]
  refine ⟨⟨fun s hs => ?_, fun _ => rfl⟩, ⟨fun s hs => ?_, fun _ => rfl⟩, ⟨?_, ?_, ?_, ?_⟩,
    new, ⟨?_, ?_, hs.succeeded, ?_⟩, fun h => by cases h⟩
  · rw [hsession] at hs
    cases hs
  · rw [hsession] at hs
    cases hs
  · dsimp only
    rw [hopened]
    exact hgone.keeps.opened
  · intro n hn
    simp [Delivery.current, hsession] at hn
  · intro n hn
    dsimp only
    rw [hledger]
    refine hgone.keeps.elsewhere n fun ho => hn ?_
    exact ho.imp_right fun ho => ⟨ho.1, by dsimp only; rw [hopened]; exact ho.2⟩
  · intro n hn _
    dsimp only
    rw [hledger]
    refine hgone.keeps.dropped n ?_ (by simp [hnone])
    exact hn.imp_right fun hn => ⟨hn.1, by have := hn.2; dsimp only at this; rwa [hopened] at this⟩
  · dsimp only
    rw [hledger]
    exact hs.stored
  · intro entry hentry
    exact (hs.own entry hentry).imp_right fun ho => ⟨ho.1, by dsimp only; rw [hopened]; exact ho.2⟩
  · have horder := (List.sublist_append_left (new.map Prod.snd) _).trans hs.inOrder
    simpa [clear] using horder

end Delivery

theorem view_moves_load (srv : Server σ) (closing : Bool) {w : Writer} {slot : Slot} {site : Site σ}
    (hv : (w.view slot site.wire).Valid w.terms) :
    (w.view slot site.wire).Moves srv w.terms (w.load closing slot site).1 :=
  (Delivery.Moves.refl hv).of_same rfl rfl rfl rfl rfl rfl

theorem delivery_moves (srv : Server σ) (closing : Bool) {w : Writer} {slot : Slot} {site : Site σ}
    (hv : (w.view slot site.wire).Valid w.terms) (hc : (w.view slot site.wire).Current) :
    (w.view slot site.wire).Moves srv w.terms (w.delivery srv closing slot site).2 ∧
      ((w.delivery srv closing slot site).1 = .ok () →
        (w.delivery srv closing slot site).2.Current) := by
  have hload := view_moves_load srv closing hv
  have hloaded : (w.load closing slot site).1.Current := ⟨hc.held, hc.idle⟩
  obtain ⟨hmoves, hok⟩ := Delivery.deliver_moves srv (w.load closing slot site).2 hload.valid hloaded
  exact ⟨hload.trans hmoves, hok⟩

theorem view_put {i : Nat} {w : Writer} {site : Site σ} {d : Delivery σ}
    (h : d.slot.pending = d.batch) :
    (w.put i d site).1.view d.slot (w.put i d site).2.wire = d := by
  show (⟨d.slot, d.slot.pending, d.stats, d.wire⟩ : Delivery σ) = d
  rw [h]

theorem flush_works (srv : Server σ) {i : Nat} (closing : Bool) {w : Writer} {site : Site σ}
    {slot : Slot} (hi : w.slots[i]? = some slot) (hv : (w.view slot site.wire).Valid w.terms)
    (hc : (w.view slot site.wire).Current) :
    ∃ slot', (w.flush srv i closing site).2.1.slots[i]? = some slot' ∧
      (w.view slot site.wire).Works srv w.terms (w.outcome srv i closing site)
        ((w.flush srv i closing site).2.1.view slot' (w.flush srv i closing site).2.2.wire) := by
  have hlt : i < w.slots.length := (List.getElem?_eq_some_iff.mp hi).1
  obtain ⟨hmoves, hok⟩ := delivery_moves srv closing hv hc
  have hpending := pending_delivery srv closing slot w site
  have houtcome := outcome_eq srv closing site hi
  obtain ⟨d, hd, hf⟩ | ⟨e, n, d, count, hd, hf⟩ | ⟨e, n, d, kind, hd, hf⟩ :=
    flush_cases srv closing site hi
  · rw [hd] at hmoves hok hpending
    refine ⟨d.slot, by rw [hf]; simp [put, leave, hlt], ?_⟩
    rw [hf]
    dsimp only
    rw [view_put (hpending.trans (delivery_ok hd).1.symm)]
    exact .of_moves hmoves (hok rfl)
  · rw [hd] at hmoves hpending houtcome
    refine ⟨((d.clear srv w.terms).report e n d.lost).slot, by rw [hf]; simp [put, leave, hlt], ?_⟩
    rw [hf, houtcome]
    have hreported : ((d.clear srv w.terms).report e n d.lost).slot.pending = [] :=
      (Delivery.pending_clear srv w.terms d).trans hpending
    dsimp only
    rw [view_put hreported]
    exact .of_clear hmoves rfl rfl
  · rw [hd] at hmoves hpending houtcome
    refine ⟨(d.clear srv w.terms).slot, by rw [hf]; simp [put, leave, hlt], ?_⟩
    rw [hf, houtcome]
    dsimp only
    rw [view_put ((Delivery.pending_clear srv w.terms d).trans hpending)]
    exact .of_clear hmoves rfl rfl

theorem hangUp_works (srv : Server σ) {i : Nat} {w : Writer} {site : Site σ} {slot : Slot}
    (hi : w.slots[i]? = some slot) (hv : (w.view slot site.wire).Valid w.terms)
    (hempty : slot.queue = []) :
    ∃ slot', (w.hangUp srv i site).1.slots[i]? = some slot' ∧
      (w.view slot site.wire).Moves srv w.terms
        ((w.hangUp srv i site).1.view slot' (w.hangUp srv i site).2.wire) ∧
      ((w.hangUp srv i site).1.view slot' (w.hangUp srv i site).2.wire).Current := by
  unfold hangUp
  split
  · next hnone =>
    have hnone : slot.session = none := by simpa [hi] using hnone
    exact ⟨slot, hi, .refl hv, fun s hs => by simp [view, hnone] at hs, fun _ => hempty⟩
  · next session hs =>
    have hs : slot.session = some session := by simpa [hi] using hs
    refine ⟨{ slot with session := none }, by simp [hi], ?_, nofun, fun _ => hempty⟩
    exact .still ⟨nofun, hv.queue⟩ (.of_release hs rfl rfl rfl) rfl rfl (List.Sublist.refl _)
      fun p _ _ => rfl

theorem drainSlot_works (srv : Server σ) {i : Nat} {w : Writer} {site : Site σ} {slot : Slot}
    (hi : w.slots[i]? = some slot) (hq : w.Unqueued) (hv : (w.view slot site.wire).Valid w.terms)
    (hc : (w.view slot site.wire).Current) :
    ∃ slot', (w.drainSlot srv i site).2.1.slots[i]? = some slot' ∧
      (w.view slot site.wire).Works srv w.terms (w.drainStint srv i site).outcome
        ((w.drainSlot srv i site).2.1.view slot' (w.drainSlot srv i site).2.2.wire) := by
  have hflush : ∃ slot₁,
      (if w.isBusy i then w.flush srv i true site else (.ok (), w, site)).2.1.slots[i]? = some slot₁ ∧
      (w.view slot site.wire).Works srv w.terms (w.drainStint srv i site).outcome
        ((if w.isBusy i then w.flush srv i true site else (.ok (), w, site)).2.1.view slot₁
          (if w.isBusy i then w.flush srv i true site else (.ok (), w, site)).2.2.wire) ∧
      slot₁.queue = [] := by
    unfold drainStint
    dsimp only
    split
    · obtain ⟨slot₁, hslot₁, hworks⟩ := flush_works srv true hi hv hc
      exact ⟨slot₁, hslot₁, hworks, (flush_empties hq hslot₁).1⟩
    · next hbusy =>
      exact ⟨slot, hi, .of_moves (.refl hv) hc, ((isBusy_eq_false hi).mp (by simpa using hbusy)).1⟩
  obtain ⟨slot₁, hslot₁, hworks, hempty⟩ := hflush
  obtain ⟨kind, hd, -⟩ | ⟨result, w₁, site₁, hd, he⟩ := drainSlot_cases srv i w site
  · rw [hd] at hslot₁ hworks
    exact ⟨slot₁, hslot₁, hworks⟩
  · have hterms : w₁.terms = w.terms := by
      split at hd
      · have hb := (beside_flush srv i true w site).terms
        rwa [hd] at hb
      · simp only [Prod.mk.injEq] at hd
        rw [hd.2.1]
    rw [hd] at hslot₁ hworks
    obtain ⟨slot₂, hslot₂, hmoves, hcurrent⟩ := hangUp_works srv hslot₁ (hterms ▸ hworks.valid) hempty
    rw [hterms] at hmoves
    rw [he]
    exact ⟨slot₂, hslot₂, hworks.trans_moves hmoves hcurrent⟩

def storedOn (stints : List Stint) (ledger : Ledger) (i : Nat) : List Content :=
  (ledger.stored.filter fun entry => opens stints i entry.1).map Prod.snd

theorem opens_append (stints : List Stint) (t : Stint) (i n : Nat) :
    opens (stints ++ [t]) i n = true ↔
      opens stints i n = true ∨ t.slot = i ∧ t.before < n ∧ n ≤ t.after := by
  simp [opens]

/-- The books: every slot's session holds its queue, sessions of different slots are apart, and of
what was pushed on a slot the stored, the queued and the pending documents are left, in order. -/
structure Books (stints : List Stint) (pushed : Nat → List Content) (w : Writer) (wire : Wire σ) :
    Prop where
  valid : ∀ (i : Nat) (slot : Slot), w.slots[i]? = some slot → (w.view slot wire).Valid w.terms
  current : ∀ (i : Nat) (slot : Slot), w.slots[i]? = some slot → (w.view slot wire).Current
  owned : ∀ (i : Nat) (slot : Slot) (n : Nat), w.slots[i]? = some slot →
    (w.view slot wire).current = some n → opens stints i n = true
  apart : ∀ i j n, opens stints i n = true → opens stints j n = true → i = j
  opened : ∀ i n, opens stints i n = true → n ≤ wire.opened
  held : ∀ n, (∀ (i : Nat) (slot : Slot), w.slots[i]? = some slot →
    (w.view slot wire).current ≠ some n) → wire.ledger.held n = []
  stored : ∀ entry ∈ wire.ledger.stored, ∃ i, i < w.slots.length ∧ opens stints i entry.1 = true
  inOrder : ∀ (i : Nat) (slot : Slot), w.slots[i]? = some slot →
    (storedOn stints wire.ledger i ++ (slot.queue ++ slot.pending)).Sublist (pushed i)
  succeeded : wire.ledger.stored.length = w.stats.succeeded

namespace Books

variable {srv : Server σ} {stints : List Stint} {pushed : Nat → List Content} {w w' : Writer}
  {wire wire' : Wire σ} {i : Nat} {slot slot' : Slot} {outcome : Except (RequestError × Nat) Unit}

theorem opens_owned (h : Books stints pushed w wire) (hi : w.slots[i]? = some slot)
    (outcome : Except (RequestError × Nat) Unit) {n : Nat}
    (hn : (w.view slot wire).Owns (w'.view slot' wire') n) (j : Nat) :
    opens (stints ++ [⟨i, outcome, wire.opened, wire'.opened⟩]) j n = true ↔ j = i := by
  rw [opens_append]
  dsimp only
  rcases hn with hn | hn
  · have howned := h.owned i slot n hi hn
    have hle := h.opened i n howned
    constructor
    · rintro (hj | ⟨-, hlt, -⟩)
      · exact h.apart j i n hj howned
      · omega
    · rintro rfl
      exact .inl howned
  · constructor
    · rintro (hj | ⟨hji, -⟩)
      · have hle := h.opened j n hj
        have hlt : wire.opened < n := hn.1
        omega
      · exact hji.symm
    · rintro rfl
      exact .inr ⟨rfl, hn⟩

theorem opens_old (h : Books stints pushed w wire) {j n : Nat} (hn : opens stints j n = true)
    (k : Nat) :
    opens (stints ++ [⟨i, outcome, wire.opened, wire'.opened⟩]) k n = true ↔
      opens stints k n = true := by
  have hle := h.opened j n hn
  rw [opens_append]
  dsimp only
  constructor
  · rintro (hk | ⟨-, hlt, -⟩)
    · exact hk
    · omega
  · exact .inl

theorem storedOn_stint (h : Books stints pushed w wire) (hi : w.slots[i]? = some slot)
    {new : List (Nat × Content)} (hs : (w.view slot wire).Stores (w'.view slot' wire') new)
    (j : Nat) :
    storedOn (stints ++ [⟨i, outcome, wire.opened, wire'.opened⟩]) wire'.ledger j =
      storedOn stints wire.ledger j ++ if j = i then new.map Prod.snd else [] := by
  have hold : ∀ entry ∈ wire.ledger.stored,
      opens (stints ++ [⟨i, outcome, wire.opened, wire'.opened⟩]) j entry.1 =
        opens stints j entry.1 := by
    intro entry hentry
    obtain ⟨k, -, hk⟩ := h.stored entry hentry
    exact Bool.eq_iff_iff.mpr (h.opens_old hk j)
  have hnew : ∀ entry ∈ new, opens (stints ++ [⟨i, outcome, wire.opened, wire'.opened⟩]) j entry.1 =
      decide (j = i) := by
    intro entry hentry
    rw [Bool.eq_iff_iff, decide_eq_true_iff]
    exact h.opens_owned hi outcome (hs.own entry hentry) j
  have hstored : wire'.ledger.stored = wire.ledger.stored ++ new := hs.stored
  unfold storedOn
  rw [hstored, List.filter_append, List.map_append, List.filter_congr hold, List.filter_congr hnew]
  split
  · next hji => simp [hji]
  · next hji => simp [hji]

theorem slot_cases (hb : Beside i w w') (hi' : w'.slots[i]? = some slot') {j : Nat} {slot₁ : Slot}
    (hj : w'.slots[j]? = some slot₁) : j = i ∧ slot₁ = slot' ∨ j ≠ i ∧ w.slots[j]? = some slot₁ := by
  by_cases hji : j = i
  · subst hji
    rw [hi'] at hj
    exact .inl ⟨rfl, (Option.some.inj hj).symm⟩
  · rw [hb.others j hji] at hj
    exact .inr ⟨hji, hj⟩

theorem not_owns (h : Books stints pushed w wire) (hi : w.slots[i]? = some slot) {j : Nat}
    {slot₁ : Slot} (hji : j ≠ i) (hj : w.slots[j]? = some slot₁) {n : Nat}
    (hn : (w.view slot₁ wire).current = some n) :
    ¬ (w.view slot wire).Owns (w'.view slot' wire') n := by
  intro hown
  have howned := h.owned j slot₁ n hj hn
  exact hji ((h.opens_owned hi (.ok ()) hown j).mp ((opens_append ..).mpr (.inl howned)))

/-- So a session of another slot still holds that slot's queue. -/
theorem current_beside (h : Books stints pushed w wire) (hi : w.slots[i]? = some slot)
    (hk : (w.view slot wire).Keeps (w'.view slot' wire')) {j : Nat} {slot₁ : Slot} (hji : j ≠ i)
    (hj : w.slots[j]? = some slot₁) : (w'.view slot₁ wire').Current := by
  have hcurrent := h.current j slot₁ hj
  refine ⟨fun s hs => ?_, hcurrent.idle⟩
  have hsession : slot₁.session = some s := hs
  have hn : (w.view slot₁ wire).current = some s.number := by simp [Delivery.current, view, hsession]
  have helse : wire'.ledger.held s.number = wire.ledger.held s.number :=
    hk.elsewhere s.number (h.not_owns hi hji hj hn)
  exact helse.trans (hcurrent.held s hs)

theorem apart_append (h : Books stints pushed w wire) {j k n : Nat}
    (hj : opens (stints ++ [⟨i, outcome, wire.opened, wire'.opened⟩]) j n = true)
    (hk : opens (stints ++ [⟨i, outcome, wire.opened, wire'.opened⟩]) k n = true) : j = k := by
  rw [opens_append] at hj hk
  dsimp only at hj hk
  rcases hj with hj | ⟨hj, hlt, -⟩
  · rcases hk with hk | ⟨-, hlt, -⟩
    · exact h.apart j k n hj hk
    · have hle := h.opened j n hj
      omega
  · rcases hk with hk | ⟨hk, -⟩
    · have hle := h.opened k n hk
      omega
    · rw [← hj, ← hk]

/-- A session that no slot has after a stint holds nothing, also where the stint let it go. -/
theorem held_stint (h : Books stints pushed w wire) (hb : Beside i w w')
    (hi : w.slots[i]? = some slot) (hi' : w'.slots[i]? = some slot')
    (hk : (w.view slot wire).Keeps (w'.view slot' wire')) {n : Nat}
    (hn : ∀ (j : Nat) (slot₁ : Slot), w'.slots[j]? = some slot₁ →
      (w'.view slot₁ wire').current ≠ some n) :
    wire'.ledger.held n = [] := by
  by_cases hown : (w.view slot wire).Owns (w'.view slot' wire') n
  · exact hk.dropped n hown (hn i slot' hi')
  · have helse : wire'.ledger.held n = wire.ledger.held n := hk.elsewhere n hown
    rw [helse]
    apply h.held n
    intro j slot₁ hj hcurrent
    by_cases hji : j = i
    · subst hji
      rw [hi] at hj
      cases hj
      exact hown (.inl hcurrent)
    · exact hn j slot₁ (by rwa [hb.others j hji]) hcurrent

theorem stored_stint (h : Books stints pushed w wire) (hb : Beside i w w')
    (hi : w.slots[i]? = some slot) {new : List (Nat × Content)}
    (hs : (w.view slot wire).Stores (w'.view slot' wire') new) {entry : Nat × Content}
    (hentry : entry ∈ wire'.ledger.stored) :
    ∃ j, j < w'.slots.length ∧
      opens (stints ++ [⟨i, outcome, wire.opened, wire'.opened⟩]) j entry.1 = true := by
  have hstored : wire'.ledger.stored = wire.ledger.stored ++ new := hs.stored
  rw [hstored, List.mem_append] at hentry
  rw [hb.length]
  rcases hentry with hentry | hentry
  · obtain ⟨j, hlt, hj⟩ := h.stored entry hentry
    exact ⟨j, hlt, (opens_append ..).mpr (.inl hj)⟩
  · have hlt : i < w.slots.length := (List.getElem?_eq_some_iff.mp hi).1
    exact ⟨i, hlt, (h.opens_owned hi outcome (hs.own entry hentry) i).mpr rfl⟩

theorem stint (h : Books stints pushed w wire) (hb : Beside i w w') (hi : w.slots[i]? = some slot)
    (hi' : w'.slots[i]? = some slot')
    (hworks : (w.view slot wire).Works srv w.terms outcome (w'.view slot' wire')) :
    Books (stints ++ [⟨i, outcome, wire.opened, wire'.opened⟩]) pushed w' wire' := by
  obtain ⟨hv, hc, hk, new, hs, -⟩ := hworks
  have hopened : wire.opened ≤ wire'.opened := hk.opened
  refine ⟨fun j slot₁ hj => ?_, fun j slot₁ hj => ?_, fun j slot₁ n hj hn => ?_,
    fun j k n hj hk' => h.apart_append hj hk', fun j n hj => ?_, fun n hn => h.held_stint hb hi hi' hk hn,
    fun entry hentry => h.stored_stint hb hi hs hentry, fun j slot₁ hj => ?_, ?_⟩
  · rw [hb.terms]
    obtain ⟨rfl, rfl⟩ | ⟨-, hj⟩ := slot_cases hb hi' hj
    · exact hv
    · have hvalid := h.valid j slot₁ hj
      exact ⟨hvalid.session, hvalid.queue⟩
  · obtain ⟨rfl, rfl⟩ | ⟨hji, hj⟩ := slot_cases hb hi' hj
    · exact hc
    · exact h.current_beside hi hk hji hj
  · obtain ⟨rfl, rfl⟩ | ⟨-, hj⟩ := slot_cases hb hi' hj
    · exact (h.opens_owned hi outcome (hk.session n hn) j).mpr rfl
    · exact (opens_append ..).mpr (.inl (h.owned j slot₁ n hj hn))
  · rcases (opens_append ..).mp hj with hj | ⟨-, -, hle⟩
    · exact Nat.le_trans (h.opened j n hj) hopened
    · exact hle
  · rw [h.storedOn_stint hi hs]
    obtain ⟨rfl, rfl⟩ | ⟨hji, hj⟩ := slot_cases hb hi' hj
    · rw [if_pos rfl, List.append_assoc]
      exact ((List.Sublist.refl _).append hs.inOrder).trans (h.inOrder j slot hi)
    · rw [if_neg hji, List.append_nil]
      exact h.inOrder j slot₁ hj
  · have hstored : wire'.ledger.stored = wire.ledger.stored ++ new := hs.stored
    have hsucceeded : w'.stats.succeeded = w.stats.succeeded + new.length := hs.succeeded
    rw [hstored, List.length_append, h.succeeded, hsucceeded]

theorem new {config : Config.Output} {fastLoad : Bool} {m : Placement.Manager} {task : Nat}
    {w : Writer} (hw : Writer.new config fastLoad m task = .ok w) (state : σ) :
    Books [] (fun _ => []) w (.new state) := by
  obtain ⟨-, -, -, -, -, hstats, -⟩ := new_cases hw
  refine ⟨fun i slot hi => ?_, fun i slot hi => ?_, fun i slot n hi hn => ?_, nofun, nofun, fun _ _ => rfl,
    nofun, fun i slot hi => ?_, by simp [Ledger.empty, hstats, Stats.zero]⟩
  all_goals obtain ⟨route, rfl⟩ := new_slot hw hi
  · exact ⟨nofun, fun _ => rfl⟩
  · exact ⟨nofun, fun _ => rfl⟩
  · cases hn
  · exact List.Sublist.refl _

theorem found (h : Books stints pushed w wire) (hf : Found w w') (hl : wire.Looks wire') :
    Books stints pushed w' wire' := by
  have hheld : ∀ j n, opens stints j n = true → wire'.ledger.held n = wire.ledger.held n := by
    intro j n hn
    rcases hl.held n with heq | ⟨hlt, -⟩
    · exact heq
    · have hle := h.opened j n hn
      omega
  have hstoredOn : ∀ i, storedOn stints wire'.ledger i = storedOn stints wire.ledger i := by
    intro i
    rw [storedOn, storedOn, hl.stored]
  refine ⟨fun i slot' hi => ?_, fun i slot' hi => ?_, fun i slot' n hi hn => ?_, h.apart,
    fun i n hn => Nat.le_trans (h.opened i n hn) hl.opened, fun n hn => ?_, ?_, fun i slot' hi => ?_, ?_⟩
  · obtain ⟨slot, charged, hslot, rfl⟩ := hf.getElem? hi
    have hvalid := h.valid i slot hslot
    rw [hf.terms]
    exact ⟨hvalid.session, hvalid.queue⟩
  · obtain ⟨slot, charged, hslot, rfl⟩ := hf.getElem? hi
    have hcurrent := h.current i slot hslot
    refine ⟨fun s hs => ?_, hcurrent.idle⟩
    have hsession : slot.session = some s := hs
    have howned := h.owned i slot s.number hslot (by simp [Delivery.current, view, hsession])
    exact (hheld i s.number howned).trans (hcurrent.held s hs)
  · obtain ⟨slot, charged, hslot, rfl⟩ := hf.getElem? hi
    exact h.owned i slot n hslot hn
  · have hnone : wire.ledger.held n = [] := by
      refine h.held n fun i slot hi hcurrent => ?_
      obtain ⟨charge, hs⟩ := hf.slots
      refine hn i { slot with charged := charge i slot } ?_ hcurrent
      rw [hs, List.getElem?_mapIdx, hi]
      rfl
    rcases hl.held n with heq | ⟨-, heq⟩
    · rw [heq, hnone]
    · exact heq
  · rw [hl.stored, hf.length]
    exact h.stored
  · obtain ⟨slot, charged, hslot, rfl⟩ := hf.getElem? hi
    rw [hstoredOn]
    exact h.inOrder i slot hslot
  · rw [hl.stored, hf.stats]
    exact h.succeeded

theorem skip (h : Books stints pushed w wire) (source : Option Source) (e : ContentError)
    {site : Site σ} (hwire : site.wire = wire) :
    Books stints pushed (w.skip source e site).2.1 (w.skip source e site).2.2.wire := by
  subst hwire
  refine ⟨fun i slot hi => ?_, fun i slot hi => ?_, fun i slot n hi => h.owned i slot n hi, h.apart,
    h.opened, fun n hn => h.held n hn, h.stored, fun i slot hi => h.inOrder i slot hi, h.succeeded⟩
  · have hvalid := h.valid i slot hi
    exact ⟨hvalid.session, hvalid.queue⟩
  · have hcurrent := h.current i slot hi
    exact ⟨hcurrent.held, hcurrent.idle⟩

/-- A slot after a document has joined is a slot before with its batch longer, if it is the one
joined. -/
theorem gather_slot (content : Content) {j : Nat} (hj : (w.gather i content).slots[j]? = some slot') :
    ∃ slot, w.slots[j]? = some slot ∧ slot'.session = slot.session ∧ slot'.queue = slot.queue ∧
      slot'.pending = slot.pending ++ if j = i then [content] else [] := by
  rw [Writer.gather, List.getElem?_modify, Option.map_eq_map, Option.map_eq_some_iff] at hj
  obtain ⟨slot, hs, rfl⟩ := hj
  by_cases hji : i = j
  · rw [if_pos hji]
    exact ⟨slot, hs, rfl, rfl, by rw [if_pos hji.symm]⟩
  · rw [if_neg hji]
    exact ⟨slot, hs, rfl, rfl, by rw [if_neg (Ne.symm hji), List.append_nil]⟩

theorem gather (h : Books stints pushed w wire) (i : Nat) (content : Content) :
    Books stints (fun j => pushed j ++ if j = i then [content] else []) (w.gather i content) wire := by
  refine ⟨fun j slot' hj => ?_, fun j slot' hj => ?_, fun j slot' n hj hn => ?_, h.apart, h.opened,
    fun n hn => ?_, ?_, fun j slot' hj => ?_, h.succeeded⟩
  · obtain ⟨slot, hs, hsession, hqueue, -⟩ := gather_slot content hj
    have hvalid := h.valid j slot hs
    exact ⟨fun s hs' => hvalid.session s (hsession ▸ hs'), fun hauto => hqueue.trans (hvalid.queue hauto)⟩
  · obtain ⟨slot, hs, hsession, hqueue, -⟩ := gather_slot content hj
    have hcurrent := h.current j slot hs
    refine ⟨fun s hs' => ?_, fun hs' => hqueue.trans (hcurrent.idle (hsession ▸ hs'))⟩
    exact (hcurrent.held s (hsession ▸ hs')).trans hqueue.symm
  · obtain ⟨slot, hs, hsession, -⟩ := gather_slot content hj
    refine h.owned j slot n hs ?_
    rwa [Delivery.current, view, ← hsession]
  · refine h.held n fun j slot hj hcurrent => ?_
    have hlt : j < (w.gather i content).slots.length := by
      rw [(beside_gather i content w).length]
      exact (List.getElem?_eq_some_iff.mp hj).1
    obtain ⟨slot₁, hs, hsession, -⟩ := gather_slot content (List.getElem?_eq_getElem hlt)
    rw [hj] at hs
    cases hs
    refine hn j _ (List.getElem?_eq_getElem hlt) ?_
    rw [Delivery.current, view] at hcurrent ⊢
    rwa [hsession]
  · rw [(beside_gather i content w).length]
    exact h.stored
  · obtain ⟨slot, hs, -, hqueue, hpending⟩ := gather_slot content hj
    rw [hqueue, hpending, ← List.append_assoc, ← List.append_assoc]
    have horder := h.inOrder j slot hs
    rw [← List.append_assoc] at horder
    exact horder.append_right _

end Books

end ForestCourier.Writer
