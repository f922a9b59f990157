import Mathlib.Algebra.BigOperators.Fin
import ForestCourier.Proofs.Writer.Accounting
import ForestCourier.Proofs.Writer.Books

/-!
Durability of a writer. The books are kept by every call, so after any run the ledger of the server
and the accounts of the writer agree: what is stored is what is counted, each slot's documents are
stored in the order in which they were pushed, none twice, and sessions hold uncommitted just what
their slots are ready to send again.
-/

namespace ForestCourier.Writer

variable {σ : Type}

namespace Books

variable {srv : Server σ} {stints : List Stint} {pushed : Nat → List Content} {w : Writer}
  {site : Site σ}

theorem unqueued {wire : Wire σ} (h : Books stints pushed w wire) : w.Unqueued :=
  fun hauto i slot hi => (h.valid i slot hi).queue hauto

theorem push (h : Books stints pushed w site.wire) (srv : Server σ) {i : Nat}
    (hi : i < w.slots.length) (content : Content) :
    Books (stints ++ [w.pushStint srv i content site]) (fun j => pushed j ++ if j = i then [content] else [])
      (w.push srv i content site).2.1 (w.push srv i content site).2.2.wire := by
  have hg := h.gather i content
  have hlt : i < (w.gather i content).slots.length := by rwa [(beside_gather i content w).length]
  have hslot := List.getElem?_eq_getElem hlt
  unfold pushStint Writer.push
  dsimp only
  split
  · obtain ⟨slot', hslot', hworks⟩ :=
      flush_works srv false hslot (hg.valid i _ hslot) (hg.current i _ hslot)
    exact hg.stint (beside_flush srv i false _ site) hslot hslot' hworks
  · exact hg.stint (Beside.refl i _) hslot hslot
      (.of_moves (.refl (hg.valid i _ hslot)) (hg.current i _ hslot) : Delivery.Works srv _ _ _ _)

theorem drainSlot (h : Books stints pushed w site.wire) (srv : Server σ) {i : Nat}
    (hi : i < w.slots.length) :
    Books (stints ++ [w.drainStint srv i site]) pushed (w.drainSlot srv i site).2.1
      (w.drainSlot srv i site).2.2.wire := by
  have hslot := List.getElem?_eq_getElem hi
  obtain ⟨slot', hslot', hworks⟩ :=
    drainSlot_works srv hslot h.unqueued (h.valid i _ hslot) (h.current i _ hslot)
  exact h.stint (beside_drainSlot srv i w site) hslot hslot' hworks

theorem drain (h : Books stints pushed w site.wire) (srv : Server σ) {is : List Nat}
    (his : ∀ i ∈ is, i < w.slots.length) :
    Books (stints ++ drainStints srv is w site) pushed (Writer.drain srv is w site).2.1
      (Writer.drain srv is w site).2.2.wire := by
  induction is generalizing stints w site with
  | nil => simpa [drainStints, Writer.drain] using h
  | cons i is ih =>
    have hslot := h.drainSlot srv (his i List.mem_cons_self)
    have hlen := (beside_drainSlot srv i w site).length
    unfold drainStints
    cases hd : w.drainSlot srv i site with
    | mk r after =>
      rw [hd] at hslot hlen
      cases r with
      | error fault =>
        rw [drain_cons_error hd]
        exact hslot
      | ok first =>
        have hrest := ih hslot fun j hj => by
          rw [hlen]
          exact his j (List.mem_cons_of_mem _ hj)
        rw [List.append_assoc, List.singleton_append] at hrest
        rw [drain_cons_ok hd]
        exact hrest

theorem closing {wire : Wire σ} (h : Books stints pushed w wire) :
    Books stints pushed { w with closed := true } wire where
  valid i slot hi := ⟨(h.valid i slot hi).session, (h.valid i slot hi).queue⟩
  current i slot hi := ⟨(h.current i slot hi).held, (h.current i slot hi).idle⟩
  owned := h.owned
  apart := h.apart
  opened := h.opened
  held := h.held
  stored := h.stored
  inOrder := h.inOrder
  succeeded := h.succeeded

theorem close (h : Books stints pushed w site.wire) (srv : Server σ) :
    Books (stints ++ Call.close.stints srv w site) pushed (w.close srv site).2.1
      (w.close srv site).2.2.wire := by
  unfold Call.stints Writer.close
  dsimp only
  split
  · rwa [List.append_nil]
  · have hd := h.closing.drain srv fun i hi => List.mem_range.mp hi
    split
    · next hr => rwa [hr] at hd
    · next hr => rwa [hr] at hd

theorem run (h : Books stints pushed w site.wire) (hfits : w.Fits site.manager) (srv : Server σ)
    (call : Call) :
    Books (stints ++ call.stints srv w site)
        (fun i => pushed i ++ (Course.placedOn i (call.receipt srv w site)).toList)
        (call.run srv w site).2.1 (call.run srv w site).2.2.wire ∧
      (call.run srv w site).2.1.Fits (call.run srv w site).2.2.manager ∧
      (call.run srv w site).2.1.slots.length = w.slots.length ∧
      ∀ i content, call.receipt srv w site = some (.placed i content) → i < w.slots.length := by
  cases call with
  | write files uri source payload =>
    have hfound := found_receive srv files uri source payload w site
    have hreceived := h.found hfound (receive_looks srv files uri source payload w site)
    obtain ⟨hkept, hlt⟩ := hfits.receive srv files uri source payload
    have hlen := hfound.length
    simp only [Call.run, Call.receipt, Call.stints]
    obtain ⟨fault, w₁, site₁, hr, hw⟩ | ⟨e, w₁, site₁, hr, hw⟩ | ⟨i, content, w₁, site₁, hr, hw⟩ :=
      write_cases srv files uri source payload w site
    · rw [hr] at hreceived hkept hlen
      rw [hr, hw]
      refine ⟨?_, hkept, hlen, fun i content h => by simp [Except.toOption] at h⟩
      simpa [Except.toOption, Course.placedOn] using hreceived
    · rw [hr] at hreceived hkept hlen
      rw [hr, hw]
      refine ⟨?_, ⟨hkept.manager, hkept.slots, hkept.filling⟩, hlen,
        fun i content h => by simp [Except.toOption] at h⟩
      simpa [Except.toOption, Course.placedOn] using hreceived.skip source e rfl
    · rw [hr] at hreceived hkept hlen hlt
      rw [hr, hw]
      have hi : i < w₁.slots.length := by
        rw [hlen]
        exact hlt i content rfl
      have hpush := hreceived.push srv hi content
      refine ⟨?_, hkept.push srv i content, (beside_push srv i content w₁ site₁).length.trans hlen, ?_⟩
      · have hpushed : (fun j => pushed j ++ (Course.placedOn j
            (Except.toOption (ε := Fault TransferError) (.ok (Receipt.placed i content)))).toList) =
            fun j => pushed j ++ if j = i then [content] else [] := by
          funext j
          simp only [Except.toOption, Course.placedOn]
          split <;> rfl
        rw [hpushed]
        exact hpush
      · intro j doc hj
        cases hj
        rwa [hlen] at hi
  | close =>
    have hclose := h.close srv
    simp only [Call.run, Call.receipt, Course.placedOn, Option.toList_none, List.append_nil]
    exact ⟨hclose, (hfits.close srv).1, (hfits.close srv).2, fun i content h => by simp at h⟩

end Books

/-- What has become of a document that was placed. -/
inductive Fate where
  | stored
  | failed
  | queued
  | pending
deriving DecidableEq

def withFate (docs : List Content) (fates : List Fate) (fate : Fate) : List Content :=
  ((docs.zip fates).filter fun e => e.2 = fate).map Prod.fst

theorem fates_of_sublist {docs : List Content} {labelled : List (Content × Fate)}
    (h : (labelled.map Prod.fst).Sublist docs) :
    ∃ fates : List Fate, fates.length = docs.length ∧
      ∀ fate, fate ≠ .failed →
        withFate docs fates fate = (labelled.filter fun e => e.2 = fate).map Prod.fst := by
  induction docs generalizing labelled with
  | nil =>
    have hnil : labelled = [] := by simpa using h
    exact ⟨[], rfl, fun fate _ => by simp [hnil, withFate]⟩
  | cons doc docs ih =>
    rcases List.sublist_cons_iff.mp h with h | ⟨rest, heq, h⟩
    · obtain ⟨fates, hlen, hfates⟩ := ih h
      refine ⟨.failed :: fates, by simp [hlen], fun fate hfate => ?_⟩
      rw [← hfates fate hfate]
      simp [withFate, hfate.symm]
    · obtain ⟨e, labelled, rfl, rfl, rfl⟩ := List.map_eq_cons_iff.mp heq
      obtain ⟨fates, hlen, hfates⟩ := ih h
      refine ⟨e.2 :: fates, by simp [hlen], fun fate hfate => ?_⟩
      have hrest := hfates fate hfate
      simp only [withFate] at hrest ⊢
      rw [List.zip_cons_cons, List.filter_cons, List.filter_cons]
      dsimp only
      split
      · rw [List.map_cons, List.map_cons, hrest]
      · exact hrest

theorem length_withFate {docs : List Content} {fates : List Fate} (h : fates.length = docs.length)
    (fate : Fate) : (withFate docs fates fate).length = fates.count fate := by
  have hsnd : (docs.zip fates).map Prod.snd = fates := List.map_snd_zip (Nat.le_of_eq h)
  conv_rhs => rw [← hsnd]
  rw [withFate, List.length_map, ← List.countP_eq_length_filter, List.count, List.countP_map]
  refine List.countP_congr fun e _ => ?_
  simp

theorem length_eq_count (fates : List Fate) :
    fates.length =
      fates.count .stored + fates.count .queued + fates.count .pending + fates.count .failed := by
  induction fates with
  | nil => rfl
  | cons fate fates ih =>
    rw [List.length_cons, ih]
    cases fate <;> simp <;> omega

theorem Books.fates {stints : List Stint} {pushed : Nat → List Content} {w : Writer} {wire : Wire σ}
    (h : Books stints pushed w wire) (i : Nat) :
    ∃ fates : List Fate, ∀ slot : Slot, w.slots[i]? = some slot →
      fates.length = (pushed i).length ∧
      withFate (pushed i) fates .stored = storedOn stints wire.ledger i ∧
      withFate (pushed i) fates .queued = slot.queue ∧
      withFate (pushed i) fates .pending = slot.pending := by
  cases hi : w.slots[i]? with
  | none => exact ⟨[], nofun⟩
  | some slot =>
    have horder := h.inOrder i slot hi
    have hlabelled : (((storedOn stints wire.ledger i).map (·, Fate.stored) ++
        (slot.queue.map (·, Fate.queued) ++ slot.pending.map (·, Fate.pending))).map Prod.fst).Sublist
          (pushed i) := by
      simpa [Function.comp_def] using horder
    obtain ⟨fates, hlen, hfates⟩ := fates_of_sublist hlabelled
    refine ⟨fates, fun slot' hslot => ?_⟩
    cases hslot
    refine ⟨hlen, ?_, ?_, ?_⟩
    · simp [hfates .stored nofun, List.filter_map, Function.comp_def]
    · simp [hfates .queued nofun, List.filter_map, Function.comp_def]
    · simp [hfates .pending nofun, List.filter_map, Function.comp_def]

theorem sum_countP {α : Type} {n : Nat} {P : Nat → α → Bool} {Q : α → Bool} {xs : List α}
    (h : ∀ x ∈ xs, (∑ i : Fin n, if P i x then 1 else 0) = if Q x then 1 else 0) :
    ∑ i : Fin n, xs.countP (P i) = xs.countP Q := by
  induction xs with
  | nil => simp
  | cons x xs ih =>
    simp only [List.countP_cons, Finset.sum_add_distrib]
    rw [ih fun y hy => h y (List.mem_cons_of_mem _ hy), h x List.mem_cons_self]

namespace Course

def ledger (c : Course σ) : Ledger := c.site.wire.ledger

def stored (c : Course σ) (i : Nat) : List Content := storedOn c.stints c.ledger i

/-- The books are kept, and every document that was placed has a slot. -/
structure Kept (c : Course σ) : Prop where
  books : Books c.stints c.pushed c.writer c.site.wire
  fits : c.writer.Fits c.site.manager
  placed : ∀ i content, some (.placed i content) ∈ c.receipts → i < c.writer.slots.length

theorem Kept.start {config : Config.Output} {fastLoad : Bool} {m : Placement.Manager}
    {counters : Counters} {task : Nat} {w : Writer} (hm : m.Reachable)
    (hw : Writer.new config fastLoad m task = .ok w) (state : σ) :
    (Course.start w ⟨m, counters, .new state⟩).Kept :=
  ⟨.new hw state, fits_new hm.sound hw, fun i content h => by cases h⟩

theorem Kept.step {c : Course σ} (h : c.Kept) (srv : Server σ) (call : Call) :
    (c.step srv call).Kept := by
  obtain ⟨hbooks, hfits, hlen, hplaced⟩ := h.books.run h.fits srv call
  have hpushed : (c.step srv call).pushed = fun i =>
      c.pushed i ++ (placedOn i (call.receipt srv c.writer c.site)).toList := by
    funext i
    exact pushed_step srv c call i
  refine ⟨?_, hfits, fun i content hmem => ?_⟩
  · rw [hpushed]
    exact hbooks
  · have hlength : (c.step srv call).writer.slots.length = c.writer.slots.length := hlen
    rw [hlength]
    rcases List.mem_append.mp hmem with hmem | hmem
    · exact h.placed i content hmem
    · exact hplaced i content (List.mem_singleton.mp hmem).symm

theorem Kept.follow {c : Course σ} (h : c.Kept) (srv : Server σ) (calls : List Call) :
    (Course.follow srv calls c).Kept :=
  follow_induction h (fun _ call hc => hc.step srv call) calls

theorem Kept.pushed_eq_nil {c : Course σ} (h : c.Kept) {i : Nat} (hi : c.writer.slots.length ≤ i) :
    c.pushed i = [] := by
  rw [pushed, List.filterMap_eq_nil_iff]
  rintro (- | - | ⟨j, content⟩) hr
  · rfl
  · rfl
  · have hlt := h.placed j content hr
    have hij : i ≠ j := by omega
    simp [placedOn, hij]

theorem Kept.sum_pushed {c : Course σ} (h : c.Kept) :
    ∑ i : Fin c.writer.slots.length, (c.pushed i).length = c.placed := by
  simp only [pushed, List.length_filterMap_eq_countP]
  refine sum_countP (P := fun i r => (placedOn i r).isSome) fun r hr => ?_
  rcases r with - | - | ⟨j, content⟩
  · simp [placedOn]
  · simp [placedOn]
  · have hlt := h.placed j content hr
    have hif : ∀ i : Fin c.writer.slots.length,
        (if (placedOn i (some (.placed j content))).isSome then 1 else 0) =
          if i = ⟨j, hlt⟩ then 1 else 0 := by
      intro i
      by_cases hij : i = ⟨j, hlt⟩
      · simp [placedOn, hij]
      · have hne : (i : Nat) ≠ j := fun he => hij (Fin.ext he)
        simp [placedOn, hij, hne]
    simp [hif]

theorem Kept.sum_stored {c : Course σ} (h : c.Kept) :
    ∑ i : Fin c.writer.slots.length, (c.stored i).length = c.ledger.stored.length := by
  simp only [stored, storedOn, List.length_map, ← List.countP_eq_length_filter]
  refine (sum_countP (P := fun i (e : Nat × Content) => opens c.stints i e.1) (Q := fun _ => true)
    fun entry hentry => ?_).trans (by rw [List.countP_true])
  obtain ⟨j, hlt, hj⟩ := h.books.stored entry hentry
  have hif : ∀ i : Fin c.writer.slots.length,
      (if opens c.stints i entry.1 then 1 else 0) = if i = ⟨j, hlt⟩ then 1 else 0 := by
    intro i
    by_cases hij : i = ⟨j, hlt⟩
    · simp [hij, hj]
    · have hne : ¬ opens c.stints i entry.1 = true := fun hi =>
        hij (Fin.ext (h.books.apart i j entry.1 hi hj))
      simp [hij, hne]
  simp [hif]

end Course

/-- With the fates of all documents known, those that failed are the ones counted so, next to those
that had no content. -/
theorem failed_eq {counters : Counters} {c : Course σ} (h : c.Kept)
    (hbooks : Accounted counters (c.skipped + c.placed) c.writer c.site) {fates : Nat → List Fate}
    (hfates : ∀ i (slot : Slot), c.writer.slots[i]? = some slot →
      (fates i).length = (c.pushed i).length ∧
      withFate (c.pushed i) (fates i) .stored = c.stored i ∧
      withFate (c.pushed i) (fates i) .queued = slot.queue ∧
      withFate (c.pushed i) (fates i) .pending = slot.pending) :
    c.skipped + ∑ i : Fin c.writer.slots.length, (fates i).count .failed = c.writer.stats.failed := by
  have hslot : ∀ i : Fin c.writer.slots.length, (c.pushed i).length =
      (c.stored i).length + c.writer.slots[i.1].unsettled + (fates i).count .failed := by
    intro i
    obtain ⟨hlen, hstored, hqueued, hpending⟩ := hfates i _ (List.getElem?_eq_getElem i.2)
    rw [← hlen, length_eq_count, ← hstored, length_withFate hlen, Slot.unsettled,
      ← hqueued, ← hpending, length_withFate hlen, length_withFate hlen]
    omega
  have hplaced := h.sum_pushed
  have hstored := h.sum_stored
  have hunsettled : ∑ i : Fin c.writer.slots.length, c.writer.slots[i.1].unsettled =
      (c.writer.slots.map Slot.unsettled).sum := Fin.sum_univ_fun_getElem ..
  have hsucceeded : c.ledger.stored.length = c.writer.stats.succeeded := h.books.succeeded
  have hbalance := hbooks.balance
  simp only [hslot, Finset.sum_add_distrib] at hplaced
  simp only [total] at hbalance
  omega

/-- After any calls, whatever the server answered: as many documents are stored as are counted so,
and each by a session of just one slot; every document that was pushed on a slot is stored, counted
as failed, queued or pending, each list in the order of the pushes; and sessions hold uncommitted
just the queues. -/
theorem stored_exactly_once (srv : Server σ) {config : Config.Output} {fastLoad : Bool}
    {m : Placement.Manager} {task : Nat} {w : Writer} (hm : m.Reachable)
    (hw : Writer.new config fastLoad m task = .ok w) (counters : Counters) (state : σ)
    (calls : List Call) :
    let c := Course.follow srv calls (.start w ⟨m, counters, .new state⟩)
    c.ledger.stored.length = c.writer.stats.succeeded ∧
      (∀ entry ∈ c.ledger.stored,
        ∃! i, i < c.writer.slots.length ∧ opens c.stints i entry.1 = true) ∧
      (∀ i, c.writer.slots.length ≤ i → c.pushed i = []) ∧
      (∃ fates : Nat → List Fate,
        (∀ i (slot : Slot), c.writer.slots[i]? = some slot →
          (fates i).length = (c.pushed i).length ∧
          withFate (c.pushed i) (fates i) .stored = c.stored i ∧
          withFate (c.pushed i) (fates i) .queued = slot.queue ∧
          withFate (c.pushed i) (fates i) .pending = slot.pending) ∧
        (c.Unbroken → c.skipped + ∑ i : Fin c.writer.slots.length, (fates i).count .failed =
          c.writer.stats.failed)) ∧
      (∀ (i : Nat) (slot : Slot), c.writer.slots[i]? = some slot →
        (∀ s, slot.session = some s → c.ledger.held s.number = slot.queue) ∧
        (slot.session = none → slot.queue = [])) ∧
      ∀ n, c.ledger.held n ≠ [] →
        ∃ (i : Nat) (slot : Slot), c.writer.slots[i]? = some slot ∧ slot.session.map (·.number) = some n := by
  have hstart : (Course.start w ⟨m, counters, .new state⟩).Kept := .start hm hw state
  have hkept := hstart.follow srv calls
  obtain ⟨-, -, -, -, -, -, hopen⟩ := new_cases hw
  refine ⟨hkept.books.succeeded, fun entry hentry => ?_, fun i hi => hkept.pushed_eq_nil hi, ?_,
    fun i slot hi => ?_, fun n hn => ?_⟩
  · obtain ⟨i, hlt, hi⟩ := hkept.books.stored entry hentry
    exact ⟨i, ⟨hlt, hi⟩, fun j hj => hkept.books.apart j i entry.1 hj.2 hi⟩
  · choose fates hfates using hkept.books.fates
    refine ⟨fates, hfates, fun hrun => ?_⟩
    have hsite : (Site.mk m counters (.new state) : Site σ).manager.Sound := hm.sound
    exact failed_eq hkept ((Accounted.new hsite hw).follow hopen hrun).1 hfates
  · have hcurrent := hkept.books.current i slot hi
    exact ⟨hcurrent.held, hcurrent.idle⟩
  · by_contra hnone
    refine hn (hkept.books.held n fun i slot hi hcurrent => hnone ⟨i, slot, hi, hcurrent⟩)

namespace Sample

/-- The first commit fails, so that its transaction is sent again; every insert rejects what comes
first in a batch of two. -/
def losing : Server Nat where
  accept _ s := (.ok (), s)
  insert _ docs s := (.ok (if docs.length = 2 then [⟨0, none, "denied"⟩] else []), s)
  commit _ s := (if s = 0 then .error (.connection "reset") else .ok (), s + 1)
  rollback _ s := (.ok (), s)
  submit _ _ s := (.ok [], s)
  range _ _ s := (.ok (), s)
  next _ s := (.ok none, s)
  close _ s := (.ok (), s)
  wait _ s := s

end Sample

theorem stored_exactly_once_resent :
    ∃ w, Writer.new (Sample.config 2) true Sample.manager 0 = .ok w ∧
      let c := Course.follow Sample.losing Sample.calls (.start w ⟨Sample.manager, .zero, .new 0⟩)
      c.ledger.stored.length = c.writer.stats.succeeded ∧
        c.ledger.stored.map (fun entry => (entry.1, entry.2.body)) = [(2, .bytes [2]), (3, .bytes [3])] := by
  have hw : ∃ w, Writer.new (Sample.config 2) true Sample.manager 0 = .ok w := ⟨_, rfl⟩
  obtain ⟨w, hw⟩ := hw
  refine ⟨w, hw, ?_, ?_⟩
  · exact (stored_exactly_once Sample.losing Sample.reachable_manager hw .zero 0 Sample.calls).1
  · cases hw
    decide +kernel

end ForestCourier.Writer
