import Mathlib.Algebra.BigOperators.Group.Finset.Piecewise
import ForestCourier.Proofs.Writer.Apart
import ForestCourier.Proofs.Writer.Sessions
import ForestCourier.Proofs.Writer.Turns

/-!
Isolation of slots. The accounts of the slots add up to what a writer has counted, and each of them is that
of a run which writes to no other slot. So what one forest receives does not depend on what is written to
another one, nor on what fails there, and the counts are the sums of such runs.
-/

namespace ForestCourier.Writer

variable {σ : Type}

section Totals

variable {w₀ w : Writer} {m : Placement.Manager} {site : Site σ}

theorem sum_share_append (n : Nat) (tally tally' : Tally) :
    ∑ i ∈ Finset.range n, Tally.share (tally ++ tally') i =
      ∑ i ∈ Finset.range n, tally.share i + ∑ i ∈ Finset.range n, tally'.share i := by
  simp only [Tally.share_append, Finset.sum_add_distrib]

theorem sum_share_single {n j : Nat} {stats : Stats} (h : n ≤ j → stats = 0) :
    ∑ i ∈ Finset.range n, Tally.share [(j, stats)] i = stats := by
  simp only [Tally.share_single, Finset.sum_ite_eq, Finset.mem_range]
  split
  · rfl
  · next hlt => exact (h (Nat.not_lt.mp hlt)).symm

theorem stats_drain (h : Steady w₀ m w site) (hm : m.policy.ByUri) (hfast : w₀.fastLoad = true)
    (srv : Server σ) {is : List Nat} (his : ∀ i ∈ is, i < w₀.slots.length) :
    (drain srv is w site).2.1.stats = w.stats +
      ∑ i ∈ Finset.range w₀.slots.length, (drainTally srv is w site).share i := by
  induction is generalizing w site with
  | nil =>
    have hnone : ∑ i ∈ Finset.range w₀.slots.length, (drainTally srv [] w site).share i = 0 :=
      Finset.sum_eq_zero fun _ _ => rfl
    rw [hnone, add_zero]
    rfl
  | cons i is ih =>
    obtain ⟨-, htally, hdrain⟩ := h.drain_cons hm srv i is
    have hslot := stats_eq_add_gained ((Peers.refl i w).drainSlot srv srv h h hm)
    have hrest := ih ((Steady.kept hm hfast srv).drainSlot i h) fun j hj => his j (List.mem_cons_of_mem i hj)
    have hi : w₀.slots.length ≤ i → gained w (w.drainSlot srv i site).2.1 = 0 := fun hle =>
      absurd (his i List.mem_cons_self) (Nat.not_lt.mpr hle)
    rw [hdrain, hrest, htally, sum_share_append, sum_share_single hi, ← add_assoc, ← hslot]

theorem stats_call (h : Steady w₀ m w site) (hm : m.policy.ByUri) (hfast : w₀.fastLoad = true)
    (srv : Server σ) (call : Call) :
    (call.run srv w site).2.1.stats = w.stats +
      ∑ i ∈ Finset.range w₀.slots.length, (call.tally srv w site).share i +
        skippedBy (call.receipt srv w site) := by
  by_cases hplaced : ∃ j content, call.receipt srv w site = some (.placed j content)
  · obtain ⟨j, content, hreceipt⟩ := hplaced
    obtain ⟨hrun, -, htally⟩ := h.call_placed hm hfast srv hreceipt
    have hj : w₀.slots.length ≤ j → gained w (w.push srv j content site).2.1 = 0 := fun hle => by
      rw [push_absent srv content site (List.getElem?_eq_none (h.length ▸ hle))]
      exact gained_eq (add_zero _).symm
    rw [hreceipt, hrun, htally, sum_share_single hj]
    exact (stats_eq_add_gained ((Peers.refl j w).push srv srv h h hm content)).trans (add_zero _).symm
  · by_cases hcall : call = .close
    · subst hcall
      have hzero : ∑ i ∈ Finset.range w₀.slots.length, Tally.share [] i = 0 :=
        Finset.sum_eq_zero fun _ _ => rfl
      dsimp only [Call.run, Call.tally]
      unfold Writer.close
      split
      · rw [hzero, add_zero]
        exact (add_zero w.stats).symm
      · have hrange : ∀ i ∈ List.range w.slots.length, i < w₀.slots.length := fun i hi =>
          h.length ▸ List.mem_range.mp hi
        have hdrained := stats_drain ((Steady.kept hm hfast srv).close w site h) hm hfast srv hrange
        split
        · next hd =>
          rw [hd] at hdrained
          exact hdrained.trans (add_zero _).symm
        · next hd =>
          rw [hd] at hdrained
          exact hdrained.trans (add_zero _).symm
    · obtain ⟨-, -, htally, hstats⟩ := h.call_unplaced hm hfast srv hcall fun j content hreceipt =>
        hplaced ⟨j, content, hreceipt⟩
      have hnone : ∑ i ∈ Finset.range w₀.slots.length, Tally.share [] i = 0 :=
        Finset.sum_eq_zero fun _ _ => rfl
      rw [htally, hnone, add_zero, hstats]

theorem skipped_step (srv : Server σ) (c : Course σ) (call : Call) :
    (⟨0, (c.step srv call).skipped, 0⟩ : Stats) =
      ⟨0, c.skipped, 0⟩ + skippedBy (call.receipt srv c.writer c.site) := by
  have hreceipts : (c.step srv call).receipts = c.receipts ++ [call.receipt srv c.writer c.site] := rfl
  rw [Course.skipped, Course.skipped, hreceipts, List.countP_append, List.countP_singleton]
  rcases call.receipt srv c.writer c.site with - | e | ⟨j, content⟩
  · rfl
  · rfl
  · rfl

theorem stats_follow {c : Course σ} (h : Steady w₀ m c.writer c.site) (hm : m.policy.ByUri)
    (hfast : w₀.fastLoad = true) (hstart : c.writer.stats = ⟨0, c.skipped, 0⟩) (srv : Server σ)
    (calls : List Call) :
    (c.follow srv calls).writer.stats =
      ∑ i ∈ Finset.range w₀.slots.length, (c.account srv calls i).stats +
        ⟨0, (c.follow srv calls).skipped, 0⟩ := by
  induction calls using List.reverseRecOn with
  | nil =>
    have hnone : ∑ i ∈ Finset.range w₀.slots.length, (c.account srv [] i).stats = 0 :=
      Finset.sum_eq_zero fun _ _ => rfl
    rw [hnone, zero_add]
    exact hstart
  | append_singleton calls call ih =>
    have hsteady := (Steady.kept hm hfast srv).follow h calls
    have hcall := stats_call hsteady hm hfast srv call
    have haccount (i : Nat) : (c.account srv (calls ++ [call]) i).stats = (c.account srv calls i).stats +
        (call.tally srv (c.follow srv calls).writer (c.follow srv calls).site).share i := by
      rw [Course.account_append]
      rfl
    have hwriter : (c.follow srv (calls ++ [call])).writer =
        (call.run srv (c.follow srv calls).writer (c.follow srv calls).site).2.1 := by
      rw [Course.follow_append]
      rfl
    simp only [haccount, Finset.sum_add_distrib]
    rw [hwriter, hcall, ih, Course.follow_append, skipped_step]
    simp only [add_assoc, add_left_comm]

theorem receipts_writes (h : Steady w m w site) (hm : m.policy.ByUri) (hfast : w.fastLoad = true)
    (srv : Server σ) {writes : List Call} (hwrites : Call.close ∉ writes) :
    ((Course.start w site).follow srv writes).receipts = writes.map (·.receipt srv w site) := by
  induction writes using List.reverseRecOn with
  | nil => rfl
  | append_singleton writes call ih =>
    have hbefore : Call.close ∉ writes := fun h => hwrites (List.mem_append_left _ h)
    have hsteady := (Steady.kept hm hfast srv).follow (c := .start w site) h writes
    have hreceipt := hsteady.receipt_eq hm hfast (Course.closed_follow srv hbefore _) h.manager srv srv call
    rw [Course.follow_append, List.map_append, ← ih hbefore]
    exact congrArg (fun r => (Course.follow srv writes (Course.start w site)).receipts ++ [r]) hreceipt

theorem account_close {config : Config.Output} {fastLoad : Bool} {task : Nat}
    (hw : Writer.new config fastLoad m task = .ok w) (hfast : w.fastLoad = true) (hm : m.policy.ByUri)
    (hsite : site.manager = m) (srv : Server σ) (i : Nat) :
    (Course.start w site).account srv [.close] i = ⟨[], 0⟩ := by
  have hsteady : Steady w m w site := .new hw hsite
  have hopen : w.closed = false := by
    obtain ⟨-, -, -, -, -, -, hopen⟩ := new_cases hw
    exact hopen
  obtain ⟨habsent, hpresent⟩ := ((Steady.kept hm hfast srv).close w site hsteady).drain_account hm hfast srv
    (List.nodup_range (n := w.slots.length)) i
  have haccount : (Course.start w site).account srv [.close] i = accountOf
      (drainJournal srv (List.range w.slots.length) { w with closed := true } site)
      (drainTally srv (List.range w.slots.length) { w with closed := true } site) i := by
    simp only [Course.account, Course.journal, Course.tally, Course.start, Call.journal, Call.tally, hopen,
      Bool.false_eq_true, if_false, List.append_nil]
  rw [haccount]
  by_cases hi : i ∈ List.range w.slots.length
  · obtain ⟨w', site', -, hslot, hdrained⟩ := hpresent hi
    have hslot : w'.slots[i]? = w.slots[i]? := hslot
    obtain ⟨slot, hi'⟩ : ∃ slot, w.slots[i]? = some slot :=
      ⟨_, List.getElem?_eq_getElem (List.mem_range.mp hi)⟩
    obtain ⟨route, rfl⟩ := new_slot hw hi'
    have hidle : w'.drainSlot srv i site' = (.ok (.ok ()), w', site') := by
      simp [drainSlot, isBusy, hangUp, hslot, hi', Slot.new]
    have hnothing : site'.wire.since site'.wire = [] :=
      Wire.since_of_trace (List.nil_append site'.wire.trace).symm
    rw [hdrained, hidle, gained_eq (add_zero _).symm]
    dsimp only
    rw [hnothing]
    rfl
  · exact habsent hi

theorem stats_alone {config : Config.Output} {fastLoad : Bool} {task : Nat}
    (hw : Writer.new config fastLoad m task = .ok w) (hfast : w.fastLoad = true) (hm : m.policy.ByUri)
    (hsite : site.manager = m) {srv : Server σ} {answer : Nat → List Event → Ask → Event}
    (hanswers : ∀ i, Course.AnsweredBy srv (.start w site) i (answer i)) {writes : List Call}
    (hwrites : Call.close ∉ writes) {i : Nat} (hi : i < w.slots.length) :
    ((Course.start w site).follow srv
        (writes.filter (Call.landsOn srv w site i) ++ [.close])).writer.stats =
      ((Course.start w site).account srv
        (writes.filter (Call.landsOn srv w site i) ++ [.close]) i).stats := by
  have hsteady : Steady w m w site := .new hw hsite
  obtain ⟨-, -, -, -, -, hzero, hopen⟩ := new_cases hw
  have hkept : Call.close ∉ writes.filter (Call.landsOn srv w site i) := fun h =>
    hwrites (List.mem_filter.mp h).1
  have hothers (j : Nat) (hj : j ≠ i) : ((Course.start w site).account srv
      (writes.filter (Call.landsOn srv w site i) ++ [.close]) j).stats = 0 := by
    have hnone : (writes.filter (Call.landsOn srv w site i)).filter (Call.landsOn srv w site j) = [] := by
      refine List.filter_eq_nil_iff.mpr fun call hcall hlands => ?_
      obtain ⟨content, hcontent⟩ := Call.landsOn_iff.mp (List.mem_filter.mp hcall).2
      obtain ⟨content', hcontent'⟩ := Call.landsOn_iff.mp hlands
      cases hcontent.symm.trans hcontent'
      exact hj rfl
    rw [account_writes hm hfast hopen hsteady hsteady (hanswers j) (hanswers j) hkept, hnone, List.nil_append,
      account_close hw hfast hm hsite]
  have hskipped : ((Course.start w site).follow srv
      (writes.filter (Call.landsOn srv w site i) ++ [.close])).skipped = 0 := by
    have hreceipts : ((Course.start w site).follow srv
        (writes.filter (Call.landsOn srv w site i) ++ [.close])).receipts =
          (writes.filter (Call.landsOn srv w site i)).map (·.receipt srv w site) ++ [none] := by
      rw [Course.follow_append, ← receipts_writes hsteady hm hfast srv hkept]
      rfl
    rw [Course.skipped, hreceipts, List.countP_append, List.countP_eq_zero.mpr]
    · rfl
    · intro receipt hreceipt
      obtain ⟨call, hcall, rfl⟩ := List.mem_map.mp hreceipt
      obtain ⟨content, hcontent⟩ := Call.landsOn_iff.mp (List.mem_filter.mp hcall).2
      rw [hcontent]
      exact Bool.false_ne_true
  rw [stats_follow hsteady hm hfast hzero, hskipped]
  exact (add_zero _).trans (Finset.sum_eq_single_of_mem i (Finset.mem_range.mpr hi) fun j _ hj => hothers j hj)

end Totals

section Stateless

variable {w₀ w : Writer} {m : Placement.Manager} {site : Site σ} {srv : Server σ}

theorem flush_records (srv : Server σ) (i : Nat) (closing : Bool) (w : Writer) (site : Site σ) :
    srv.Records site.wire (w.flush srv i closing site).2.2.wire := by
  cases hi : w.slots[i]? with
  | none =>
    rw [flush, hi]
    exact .of_same rfl
  | some slot =>
    have hdelivered : srv.Records site.wire (w.delivery srv closing slot site).2.wire :=
      (Delivery.steps_records srv w.terms).delivery closing slot site
    obtain ⟨d, hd, hf⟩ | ⟨e, n, d, count, hd, hf⟩ | ⟨e, n, d, kind, hd, hf⟩ :=
      flush_cases srv closing site hi
    · rw [hd] at hdelivered
      rw [hf]
      exact hdelivered
    · rw [hd] at hdelivered
      rw [hf]
      exact hdelivered.trans (Delivery.discardSession_records srv w.terms d)
    · rw [hd] at hdelivered
      rw [hf]
      exact hdelivered.trans (Delivery.discardSession_records srv w.terms d)

theorem kept_records (hm : m.policy.ByUri) (hfast : w₀.fastLoad = true) (srv : Server σ) (wire : Wire σ) :
    Kept srv fun w site => Steady w₀ m w site ∧ srv.Records wire site.wire := by
  have hkept := Steady.kept hm hfast srv
  refine ⟨fun files uri source payload w site h => ?_, fun source e w site h => ?_, fun i content w site h => ?_,
    fun i w site h => ?_, fun i w site h => ?_, fun w site h => ?_, fun counters w site h => ?_⟩
  · rw [h.1.receive_snd hm hfast srv]
    exact h
  · exact ⟨hkept.skip source e w site h.1, h.2.trans (.of_same rfl)⟩
  · refine ⟨hkept.push i content w site h.1, h.2.trans ?_⟩
    unfold push
    dsimp only
    split
    · exact flush_records srv i false _ site
    · exact .of_same rfl
  · exact ⟨hkept.flush i w site h.1, h.2.trans (flush_records srv i true w site)⟩
  · refine ⟨hkept.hangUp i w site h.1, h.2.trans ?_⟩
    unfold hangUp
    split
    · exact .of_same rfl
    · exact .of_cons rfl ⟨_, rfl⟩
  · exact ⟨hkept.close w site h.1, h.2⟩
  · exact ⟨hkept.count counters w site h.1, h.2⟩

/-- A server that answers a request the same way whatever went before answers every slot by its own
history. -/
theorem answeredBy_of_stateless (h : Steady w m w site) (hm : m.policy.ByUri) (hfast : w.fastLoad = true)
    {reply : Ask → Event} (hreply : ∀ e, srv.Answers e → e.unnumbered = reply e.ask) (i : Nat) :
    Course.AnsweredBy srv (.start w site) i fun _ => reply := by
  intro calls pre e post hhistory
  obtain ⟨-, x, hx, hall⟩ := (kept_records hm hfast srv site.wire).follow (c := .start w site)
    ⟨h, .of_same rfl⟩ calls
  have horderly := (Course.orderly srv calls (.start w site)).adds.trace
  have hevents := List.append_cancel_right (hx.symm.trans horderly)
  have he : e ∈ ((Course.start w site).account srv calls i).history := by
    rw [hhistory]
    exact List.mem_append_right pre List.mem_cons_self
  obtain ⟨event, hevent, rfl⟩ := List.mem_map.mp he
  rw [Event.ask_unnumbered]
  refine hreply event (hall event ?_)
  rw [hevents, List.mem_reverse]
  exact Journal.mem_events.mpr ⟨some i, hevent⟩

end Stateless

/-- Slots do not interfere: the account of a slot is that of the run which keeps its documents only, and of
any run that brings it the same documents and answers it alike, in whatever order the others come and
whatever fails there; and the counts are the sums of the runs of the slots and the documents that had no
content. -/
theorem slots_isolated {kind : Placement.Kind} (hkind : kind = .legacy ∨ kind = .segment)
    {topology : Topology} {batchSize : UInt64} {partition : Option String} {m : Placement.Manager}
    (hm : Placement.Manager.new kind topology batchSize partition = .ok m) {config : Config.Output}
    {task : Nat} {w : Writer} (hw : Writer.new config true m task = .ok w) {srv : Server σ} {site : Site σ}
    (hsite : site.manager = m) {answer : Nat → List Event → Ask → Event}
    (hanswers : ∀ i, Course.AnsweredBy srv (.start w site) i (answer i)) {writes : List Call}
    (hwrites : Call.close ∉ writes) :
    let start := Course.start w site
    (start.follow srv writes).receipts = writes.map (·.receipt srv w site) ∧
    (∀ i, start.account srv (writes ++ [.close]) i =
      start.account srv (writes.filter (Call.landsOn srv w site i) ++ [.close]) i) ∧
    (∀ (τ : Type) (srv' : Server τ) (site' : Site τ) (writes' : List Call) (i : Nat), site'.manager = m →
      Course.AnsweredBy srv' (.start w site') i (answer i) → Call.close ∉ writes' →
      writes'.filter (Call.landsOn srv w site i) = writes.filter (Call.landsOn srv w site i) →
      (Course.start w site').account srv' (writes' ++ [.close]) i =
        start.account srv (writes ++ [.close]) i) ∧
    (start.follow srv (writes ++ [.close])).writer.stats =
      ∑ i ∈ Finset.range w.slots.length,
          (start.follow srv (writes.filter (Call.landsOn srv w site i) ++ [.close])).writer.stats +
        ⟨0, (start.follow srv (writes ++ [.close])).skipped, 0⟩ := by
  have hbyUri := Placement.Manager.new_byUri hkind hm
  obtain ⟨-, -, -, hfast, -, hzero, hopen⟩ := new_cases hw
  have hsteady : Steady w m w site := .new hw hsite
  have halone (i : Nat) :=
    account_writes hbyUri hfast hopen hsteady hsteady (hanswers i) (hanswers i) hwrites
  refine ⟨receipts_writes hsteady hbyUri hfast srv hwrites, halone, ?_, ?_⟩
  · intro τ srv' site' writes' i hsite' hanswers' hwrites' hsame
    have hsteady' : Steady w m w site' := .new hw hsite'
    have hlands : Call.landsOn srv' w site' i = Call.landsOn srv w site i := by
      funext call
      unfold Call.landsOn
      rw [hsteady'.receipt_eq hbyUri hfast rfl hsite srv' srv]
    rw [account_writes hbyUri hfast hopen hsteady' hsteady hanswers' (hanswers i) hwrites', hlands, hsame,
      halone i]
  · rw [stats_follow hsteady hbyUri hfast hzero]
    refine congrArg (· + _) (Finset.sum_congr rfl fun i hi => ?_)
    rw [stats_alone hw hfast hbyUri hsite hanswers hwrites (Finset.mem_range.mp hi), ← halone i]

namespace Sample

def keyed : Placement.Manager := ⟨topology, [0, 1], .legacy 2, 2⟩

def keyedSite : Site Unit := ⟨keyed, .zero, .new ()⟩

def document (uri : String) (byte : UInt8) : Call := .write .empty ⟨uri⟩ none (.binary [byte])

/-- Five documents, the ones at `b` for the first forest and the ones at `a` for the second. -/
def documents : List Call :=
  [document "a" 1, document "b" 2, document "a" 3, document "b" 4, document "b" 5]

def replies (down : List String) : Ask → Event
  | .accept s =>
    if s.target.host ∈ down then .refused s.target s.transaction (.connection "refused") else .opened s
  | .insert s batch => .inserted s batch (.ok [])
  | .commit s => .committed s (.ok ())
  | .rollback s => .rolledBack s (.ok ())
  | .submit s query => .submitted s query (.ok [])
  | .range s query => .ranged s query (.ok ())
  | .next s => .fetched s (.ok none)
  | .close s => .closed s (.ok ())
  | .wait pause => .waited pause

theorem answers_partlyDown {down : List String} {e : Event} (h : (partlyDown down).Answers e) :
    e.unnumbered = replies down e.ask := by
  cases e with
  | opened s =>
    obtain ⟨state, hstate⟩ := h
    have hup : s.target.host ∉ down := fun hdown => by simp [partlyDown, hdown] at hstate
    exact (if_neg hup).symm
  | refused target transaction error =>
    obtain ⟨number, state, hstate⟩ := h
    by_cases hdown : target.host ∈ down
    · have herror : RequestError.connection "refused" = error := by simpa [partlyDown, hdown] using hstate
      exact (congrArg (Event.refused target transaction) herror).symm.trans (if_pos hdown).symm
    · simp [partlyDown, hdown] at hstate
  | inserted s batch answer =>
    obtain ⟨state, rfl⟩ := h
    rfl
  | committed s answer =>
    obtain ⟨state, rfl⟩ := h
    rfl
  | rolledBack s answer =>
    obtain ⟨state, rfl⟩ := h
    rfl
  | submitted s query answer =>
    obtain ⟨state, rfl⟩ := h
    rfl
  | ranged s query answer =>
    obtain ⟨state, rfl⟩ := h
    rfl
  | fetched s answer =>
    obtain ⟨state, rfl⟩ := h
    rfl
  | closed s answer =>
    obtain ⟨state, rfl⟩ := h
    rfl
  | waited pause => rfl

end Sample

/-- A host of the first forest is down and its slot has to fail over; the second forest receives what it
would receive alone. -/
theorem slots_isolated_down :
    ∃ w, Writer.new (Sample.config 2) true Sample.keyed 0 = .ok w ∧
      let srv := Sample.partlyDown ["a"]
      let start := Course.start w Sample.keyedSite
      let alone (i : Nat) := Sample.documents.filter (Call.landsOn srv w Sample.keyedSite i)
      (start.follow srv (Sample.documents ++ [.close])).writer.stats = ⟨5, 0, 1⟩ ∧
      (start.follow srv (alone 0 ++ [.close])).writer.stats = ⟨3, 0, 1⟩ ∧
      (start.follow srv (alone 1 ++ [.close])).writer.stats = ⟨2, 0, 0⟩ ∧
      (start.account srv (alone 1 ++ [.close]) 1).history.length = 4 ∧
      start.account srv (Sample.documents ++ [.close]) 1 = start.account srv (alone 1 ++ [.close]) 1 := by
  have hw : ∃ w, Writer.new (Sample.config 2) true Sample.keyed 0 = .ok w := ⟨_, rfl⟩
  obtain ⟨w, hw⟩ := hw
  have hm : Placement.Manager.new .legacy Sample.topology 2 none = .ok Sample.keyed := rfl
  have hbyUri := Placement.Manager.new_byUri (.inl rfl) hm
  have hfast : w.fastLoad = true := by
    cases hw
    rfl
  have hsteady : Steady w Sample.keyed w Sample.keyedSite := .new hw rfl
  have hanswers (i : Nat) : Course.AnsweredBy (Sample.partlyDown ["a"]) (.start w Sample.keyedSite) i
      fun _ => Sample.replies ["a"] :=
    answeredBy_of_stateless hsteady hbyUri hfast (fun _ => Sample.answers_partlyDown) i
  have hwrites : Call.close ∉ Sample.documents := by simp [Sample.documents, Sample.document]
  have hisolated := slots_isolated (.inl rfl) hm hw hsteady.manager hanswers hwrites
  refine ⟨w, hw, ?_, ?_, ?_, ?_, hisolated.2.1 1⟩
  · cases hw
    decide +kernel
  · cases hw
    decide +kernel
  · cases hw
    decide +kernel
  · cases hw
    decide +kernel

end ForestCourier.Writer
