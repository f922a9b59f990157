import ForestCourier.Proofs.Writer.Totals

/-!
Over a run the total of a writer is the number of documents that had no content or were placed on a
slot. The first close leaves none of them unsettled and adds the final counts to the job's, once; it
answers the error of the first slot that could not be flushed.
-/

namespace ForestCourier.Writer

variable {σ : Type}

def closingAt (srv : Server σ) (w : Writer) (site : Site σ) : Nat → Writer × Site σ
  | 0 => ({ w with closed := true }, site)
  | i + 1 => ((closingAt srv w site i).1.drainSlot srv i (closingAt srv w site i).2).2

/-- The error of the flush of slot `i` on closing, if it needs one and that fails. -/
def closingError? (srv : Server σ) (w : Writer) (site : Site σ) (i : Nat) : Option TransferError :=
  let s := closingAt srv w site i
  if s.1.isBusy i then
    match (s.1.flush srv i true s.2).1 with
    | .error (.failed e) => some e
    | _ => none
  else none

/-- What a close answers that is not cut short: the error of the first slot that has one. -/
def closingResult (srv : Server σ) (w : Writer) (site : Site σ) (is : List Nat) :
    Except TransferError Unit :=
  match is.findSome? (closingError? srv w site) with
  | some e => .error e
  | none => .ok ()

theorem closingResult_cons (srv : Server σ) (w : Writer) (site : Site σ) (i : Nat) (is : List Nat) :
    closingResult srv w site (i :: is) =
      match closingError? srv w site i with
      | some e => .error e
      | none => closingResult srv w site is := by
  unfold closingResult
  rw [List.findSome?_cons]
  cases closingError? srv w site i <;> rfl

theorem drainSlot_result (srv : Server σ) (w : Writer) (site : Site σ) (i : Nat)
    (h : ∀ kind, ((closingAt srv w site i).1.drainSlot srv i (closingAt srv w site i).2).1 ≠
      .error (.overflow kind)) :
    ((closingAt srv w site i).1.drainSlot srv i (closingAt srv w site i).2).1 =
      .ok (match closingError? srv w site i with
        | some e => .error e
        | none => .ok ()) := by
  obtain ⟨kind, -, hd⟩ | ⟨result, w₁, site₁, hd, he⟩ :=
    drainSlot_cases srv i (closingAt srv w site i).1 (closingAt srv w site i).2
  · exact absurd hd (h kind)
  · rw [he]
    unfold closingError?
    dsimp only
    split at hd
    · next hbusy =>
      rw [if_pos hbusy, hd]
      cases result <;> rfl
    · next hbusy =>
      simp only [Prod.mk.injEq] at hd
      rw [if_neg hbusy]
      cases result with
      | ok u => rfl
      | error e => cases hd.1

theorem drain_result (srv : Server σ) (w : Writer) (site : Site σ) (m k : Nat)
    (h : ∀ kind, (drain srv (List.range' k m) (closingAt srv w site k).1
      (closingAt srv w site k).2).1 ≠ .error (.overflow kind)) :
    (drain srv (List.range' k m) (closingAt srv w site k).1 (closingAt srv w site k).2).1 =
      .ok (closingResult srv w site (List.range' k m)) := by
  induction m generalizing k with
  | zero => rfl
  | succ m ih =>
    have hslot := drainSlot_result srv w site k
    have hnext : closingAt srv w site (k + 1) =
        ((closingAt srv w site k).1.drainSlot srv k (closingAt srv w site k).2).2 := rfl
    rw [List.range'_succ] at h ⊢
    rw [closingResult_cons]
    unfold drain at h ⊢
    cases hd : (closingAt srv w site k).1.drainSlot srv k (closingAt srv w site k).2 with
    | mk r s =>
      rw [hd] at hslot hnext h
      cases r with
      | error fault =>
        cases fault with
        | overflow kind => exact absurd rfl (h kind)
        | failed e => cases hslot fun kind hk => by cases hk
      | ok first =>
        have hfirst := hslot fun kind hk => by cases hk
        simp only [Except.ok.injEq] at hfirst
        have hrest := ih (k + 1)
        rw [hnext] at hrest
        dsimp only at h hrest ⊢
        cases hr : drain srv (List.range' (k + 1) m) s.1 s.2 with
        | mk r' s' =>
          rw [hr] at h hrest
          cases r' with
          | error fault =>
            cases fault with
            | overflow kind => exact absurd rfl (h kind)
            | failed e => cases hrest fun kind hk => by cases hk
          | ok later =>
            have hlater := hrest fun kind hk => by cases hk
            simp only [Except.ok.injEq] at hlater
            rw [hfirst, hlater]
            cases closingError? srv w site k <;> rfl

def Stats.addTo (s : Stats) (c : Counters) : Counters :=
  (c.addCommitted (UInt64.ofNat s.succeeded)).addFailed (UInt64.ofNat s.failed)

/-- The first close drains all slots and adds the counts, unless it is cut short. -/
theorem close_cases {srv : Server σ} {w : Writer} {site : Site σ} (hopen : w.closed = false)
    (h : ∀ kind, (w.close srv site).1 ≠ .error (.overflow kind)) :
    ∃ w' site', drain srv (List.range w.slots.length) { w with closed := true } site =
        (.ok (closingResult srv w site (List.range w.slots.length)), w', site') ∧
      w.close srv site = ((closingResult srv w site (List.range w.slots.length)).mapError .failed, w',
        { site' with counters := w'.stats.addTo site'.counters }) := by
  have hresult := drain_result srv w site w.slots.length 0
  simp only [← List.range_eq_range', closingAt] at hresult
  unfold close at h ⊢
  rw [hopen] at h ⊢
  simp only [Bool.false_eq_true, if_false] at h ⊢
  cases hd : drain srv (List.range w.slots.length) { w with closed := true } site with
  | mk r s =>
    rw [hd] at h hresult
    cases r with
    | error fault =>
      cases fault with
      | overflow kind => exact absurd rfl (h kind)
      | failed e => cases hresult nofun
    | ok result =>
      have hr := hresult nofun
      simp only [Except.ok.injEq] at hr
      exact ⟨s.1, s.2, by rw [hr], by simp only [hr, Stats.addTo]⟩

theorem close_closed {w : Writer} (h : w.closed = true) (srv : Server σ) (site : Site σ) :
    w.close srv site = (.ok (), w, site) := by
  simp [close, h]

theorem Call.run_closed {w : Writer} (h : w.closed = true) (srv : Server σ) (call : Call)
    (site : Site σ) :
    call.run srv w site =
      (match call with
        | .write .. => .error (.failed .closed)
        | .close => .ok (), w, site) := by
  cases call with
  | write files uri source payload => simp [run, Writer.write, receive_closed h]
  | close => exact close_closed h srv site

theorem Call.receipt_closed {w : Writer} (h : w.closed = true) (srv : Server σ) (call : Call)
    (site : Site σ) : call.receipt srv w site = none := by
  cases call with
  | write files uri source payload => simp [receipt, receive_closed h, Except.toOption]
  | close => rfl

/-- The books of a writer that has received `n` documents and of the job it counts for. -/
structure Accounted (counters : Counters) (n : Nat) (w : Writer) (site : Site σ) : Prop where
  balance : w.total = n
  fits : w.Fits site.manager
  unqueued : w.Unqueued
  drained : w.closed = true → ∀ i, w.EmptyAt i
  counters : site.counters = if w.closed then w.stats.addTo counters else counters

namespace Accounted

variable {counters : Counters} {n : Nat} {w : Writer} {site : Site σ}

theorem new {config : Config.Output} {fastLoad : Bool} {task : Nat} (hm : site.manager.Sound)
    (hw : Writer.new config fastLoad site.manager task = .ok w) :
    Accounted site.counters 0 w site := by
  obtain ⟨routes, hslots, -, -, -, hstats, hclosed⟩ := new_cases hw
  refine ⟨?_, fits_new hm hw, fun _ i slot hi => ?_, fun h => ?_, by simp [hclosed]⟩
  · have hsum : (w.slots.map Slot.unsettled).sum = 0 := by
      simp [hslots, Slot.new, Slot.unsettled, Function.comp_def]
    rw [total, hstats, hsum]
    rfl
  · obtain ⟨route, rfl⟩ := new_slot hw hi
    rfl
  · rw [hclosed] at h
    cases h

theorem receive (h : Accounted counters n w site) (srv : Server σ) (files : FileStore) (uri : Uri)
    (source : Option Source) (payload : Payload) (hopen : w.closed = false) :
    Accounted counters n (w.receive srv files uri source payload site).2.1
        (w.receive srv files uri source payload site).2.2 ∧
      (w.receive srv files uri source payload site).2.1.closed = false := by
  have hfound := found_receive srv files uri source payload w site
  have hclosed := hfound.closed.trans hopen
  refine ⟨⟨?_, (h.fits.receive srv files uri source payload).1, h.unqueued.found hfound, ?_, ?_⟩,
    hclosed⟩
  · rw [total_found hfound, h.balance]
  · rw [hclosed]
    exact nofun
  · rw [counters_receive, hclosed, h.counters, hopen]
    rfl

theorem skip (h : Accounted counters n w site) (hopen : w.closed = false) (source : Option Source)
    (e : ContentError) :
    Accounted counters (n + 1) (w.skip source e site).2.1 (w.skip source e site).2.2 where
  balance := by
    rw [← h.balance]
    simp only [Writer.skip, total]
    omega
  fits := ⟨h.fits.manager, h.fits.slots, h.fits.filling⟩
  unqueued := h.unqueued
  drained hclosed := by
    have hstill : w.closed = true := hclosed
    rw [hopen] at hstill
    cases hstill
  counters := by
    have hcounters := h.counters
    rw [hopen] at hcounters
    simp only [Writer.skip, hopen]
    exact hcounters

theorem push (h : Accounted counters n w site) (hopen : w.closed = false) {srv : Server σ} {i : Nat}
    (hi : i < w.slots.length) {content : Content}
    (hno : ∀ kind, (w.push srv i content site).1 ≠ .error (.overflow kind)) :
    Accounted counters (n + 1) (w.push srv i content site).2.1 (w.push srv i content site).2.2 := by
  have hclosed := (beside_push srv i content w site).closed.trans hopen
  refine ⟨?_, h.fits.push srv i content, h.unqueued.push srv i content site, ?_, ?_⟩
  · rw [total_push hi hno, h.balance]
  · rw [hclosed]
    exact nofun
  · rw [counters_push, hclosed, h.counters, hopen]
    rfl

theorem close (h : Accounted counters n w site) (hopen : w.closed = false) {srv : Server σ}
    (hno : ∀ kind, (w.close srv site).1 ≠ .error (.overflow kind)) :
    Accounted counters n (w.close srv site).2.1 (w.close srv site).2.2 ∧
      (w.close srv site).2.1.closed = true := by
  obtain ⟨w', site', hd, hc⟩ := close_cases hopen hno
  have hfits : Fits { w with closed := true } site.manager :=
    ⟨h.fits.manager, h.fits.slots, h.fits.filling⟩
  have hkept := hfits.drain srv (List.range w.slots.length)
  have hq := (show Unqueued { w with closed := true } from h.unqueued).drain srv
    (List.range w.slots.length) site
  have hsettled := drain_settles srv (List.range w.slots.length) site
    (show Unqueued { w with closed := true } from h.unqueued) (by rw [hd]; exact nofun)
  obtain ⟨-, hclosed, hlen⟩ :=
    drain_settings srv (List.range w.slots.length) { w with closed := true } site
  have hcounters := counters_drain srv (List.range w.slots.length) { w with closed := true } site
  rw [hd] at hkept hq hsettled hclosed hlen hcounters
  rw [hc]
  refine ⟨⟨?_, hkept, hq, fun _ i slot hi => ?_, ?_⟩, hclosed⟩
  · exact hsettled.1.trans h.balance
  · refine hsettled.2 i (List.mem_range.mpr ?_) slot hi
    rw [← hlen]
    exact (List.getElem?_eq_some_iff.mp hi).1
  · have hbefore := h.counters
    rw [hopen] at hbefore
    dsimp only at hclosed hcounters ⊢
    rw [hclosed, hcounters, hbefore]
    rfl

theorem step (h : Accounted counters n w site) {srv : Server σ} {call : Call}
    (hno : ∀ kind, (call.run srv w site).1 ≠ .error (.overflow kind)) :
    Accounted counters (n + (call.receipt srv w site).toList.length) (call.run srv w site).2.1
        (call.run srv w site).2.2 ∧
      ((call.run srv w site).2.1.closed = true ↔ w.closed = true ∨ call = .close) := by
  cases hopen : w.closed with
  | true =>
    rw [Call.run_closed hopen, Call.receipt_closed hopen]
    exact ⟨h, by simp [hopen]⟩
  | false =>
    cases call with
    | write files uri source payload =>
      obtain ⟨hreceived, hstill⟩ := h.receive srv files uri source payload hopen
      have hlt := (h.fits.receive srv files uri source payload).2
      have hlen := (found_receive srv files uri source payload w site).length
      simp only [Call.run, Call.receipt] at hno ⊢
      obtain ⟨fault, w₁, site₁, hr, hw⟩ | ⟨e, w₁, site₁, hr, hw⟩ | ⟨i, content, w₁, site₁, hr, hw⟩ :=
        write_cases srv files uri source payload w site
      · rw [hr] at hreceived hstill
        rw [hr, hw]
        exact ⟨hreceived, by simpa using hstill⟩
      · rw [hr] at hreceived hstill
        rw [hr, hw]
        exact ⟨hreceived.skip hstill source e, by simpa [Writer.skip] using hstill⟩
      · rw [hr] at hreceived hstill hlt hlen
        rw [hw] at hno
        rw [hr, hw]
        refine ⟨hreceived.push hstill (hlen ▸ hlt i content rfl) hno, ?_⟩
        simp [(beside_push srv i content w₁ site₁).closed.trans hstill]
    | close =>
      simp only [Call.run, Call.receipt] at hno ⊢
      obtain ⟨hbooks, hclosed⟩ := h.close hopen hno
      exact ⟨hbooks, by simp [hclosed]⟩

theorem follow (h : Accounted counters 0 w site) (hopen : w.closed = false) {srv : Server σ}
    {calls : List Call} (hrun : (Course.follow srv calls (.start w site)).Unbroken) :
    let c := Course.follow srv calls (.start w site)
    Accounted counters (c.skipped + c.placed) c.writer c.site ∧
      (c.writer.closed = true ↔ Call.close ∈ calls) := by
  induction calls using List.reverseRecOn with
  | nil => exact ⟨h, by simp [Course.follow, Course.start, hopen]⟩
  | append_singleton calls call ih =>
    rw [Course.follow_append] at hrun ⊢
    obtain ⟨hbefore, hno⟩ := hrun.of_step
    obtain ⟨hbooks, hclosed⟩ := ih hbefore
    obtain ⟨hstep, hstepClosed⟩ := hbooks.step hno
    dsimp only
    refine ⟨?_, ?_⟩
    · rw [Course.skipped_add_placed_step]
      exact hstep
    · rw [List.mem_append, List.mem_singleton, ← hclosed, eq_comm (a := Call.close)]
      exact hstepClosed

end Accounted

namespace Sample

def site (state : Nat) : Site Nat := ⟨manager, .zero, .new state⟩

def calls : List Call := [call 1, call 2, call 3, .close]

end Sample

end ForestCourier.Writer
