import ForestCourier.Proofs.Writer.Alike
import ForestCourier.Proofs.Writer.Uses

/-!
Failures that pass are not seen. Two runs of the same calls, one without failed requests and one in
which every delivery succeeds in the end, place all documents alike, answer all calls alike and
store the same documents in the same order, provided that the servers reject the same documents and
the question after the forests of a partition is answered alike. The digests of the two runs stay
equal, call by call.
-/

namespace ForestCourier.Writer

variable {σ τ : Type}

theorem Call.events_eq {srv : Server σ} {call : Call} {w : Writer} {site : Site σ}
    {new : List Event} (h : (call.run srv w site).2.2.wire.trace = new ++ site.wire.trace) :
    call.events srv w site = new := by
  simp [Call.events, h]

/-- The events of a write are those of its placement, which are of a lookup, and, after them, those of
a flush, in which no query is made. -/
theorem write_events (srv : Server σ) (files : FileStore) (uri : Uri) (source : Option Source)
    (payload : Payload) (w : Writer) (site : Site σ) :
    ∃ asked sent,
      (w.receive srv files uri source payload site).2.2.wire.trace = asked ++ site.wire.trace ∧
      (w.write srv files uri source payload site).2.2.wire.trace =
        sent ++ (asked ++ site.wire.trace) ∧
      (Call.write files uri source payload).events srv w site = sent ++ asked ∧ answered sent = [] ∧
      ((w.receive srv files uri source payload site).1.toOption = none → sent = []) ∧
      w.Asks site.manager asked.reverse := by
  obtain ⟨events, hadds, hasks⟩ := receive_asks srv files uri source payload w site
  obtain ⟨asked, hasked, hlookup⟩ : ∃ asked,
      asked ++ site.wire.trace = (w.receive srv files uri source payload site).2.2.wire.trace ∧
        w.Asks site.manager asked.reverse :=
    ⟨events.reverse, hadds.trace.symm, by rwa [List.reverse_reverse]⟩
  obtain ⟨fault, w₁, site₁, hr, hw⟩ | ⟨e, w₁, site₁, hr, hw⟩ | ⟨i, content, w₁, site₁, hr, hw⟩ :=
    write_cases srv files uri source payload w site
  · rw [hr] at hasked
    rw [hr, hw]
    refine ⟨asked, [], hasked.symm, hasked.symm, Call.events_eq ?_, rfl, fun _ => rfl, hlookup⟩
    rw [Call.run, hw]
    exact hasked.symm
  · rw [hr] at hasked
    rw [hr, hw]
    refine ⟨asked, [], hasked.symm, hasked.symm, Call.events_eq ?_, rfl, fun _ => rfl, hlookup⟩
    rw [Call.run, hw]
    exact hasked.symm
  · obtain ⟨⟨sent, hsent, hnone⟩, -⟩ := push_continues srv i content w₁ site₁
    rw [hr] at hasked
    rw [← show _ = site₁.wire.trace from hasked] at hsent
    rw [hr, hw]
    refine ⟨asked, sent, hasked.symm, hsent, Call.events_eq ?_, hnone, fun h => (by cases h), hlookup⟩
    rw [Call.run, hw, hsent, List.append_assoc]

theorem Course.answers_step (srv : Server σ) (c : Course σ) (call : Call) :
    (c.step srv call).answers = c.answers ++ [answered (call.events srv c.writer c.site)] :=
  List.map_append

def Course.digest (c : Course σ) : Digest := Writer.digest c.stints c.writer c.site

/-- A call does the same on two runs, as far as one can tell without looking at the requests. If it
fails, it has placed no document and made no request except for a lookup. -/
structure Call.Alike (p : Content → Bool) (srv₁ : Server σ) (srv₂ : Server τ) (call : Call)
    (c₁ : Course σ) (c₂ : Course τ) : Prop where
  result : (call.run srv₁ c₁.writer c₁.site).1 = (call.run srv₂ c₂.writer c₂.site).1
  receipt : call.receipt srv₁ c₁.writer c₁.site = call.receipt srv₂ c₂.writer c₂.site
  digest : (c₁.step srv₁ call).digest = (c₂.step srv₂ call).digest
  clean : (c₁.step srv₁ call).digest.Clean p
  failure : ∀ fault, (call.run srv₁ c₁.writer c₁.site).1 = .error fault →
    call.receipt srv₁ c₁.writer c₁.site = none ∧
      (answered (call.events srv₁ c₁.writer c₁.site) = [] →
        call.events srv₁ c₁.writer c₁.site = [] ∧ call.events srv₂ c₂.writer c₂.site = []) ∧
      c₁.writer.Asks c₁.site.manager (call.events srv₁ c₁.writer c₁.site).reverse ∧
      c₂.writer.Asks c₂.site.manager (call.events srv₂ c₂.writer c₂.site).reverse

variable {p : Content → Bool} {srv₁ : Server σ} {srv₂ : Server τ} {c₁ : Course σ} {c₂ : Course τ}

def Digest.settle (p : Content → Bool) (g : Digest) : Except (Fault TransferError) Receipt → Digest
  | .error _ => g
  | .ok (.skipped _) => { g with failed := g.failed + 1 }
  | .ok (.placed i content) => g.push p i content

theorem Digest.Clean.settle {g : Digest} (h : g.Clean p) (r : Except (Fault TransferError) Receipt) :
    (g.settle p r).Clean p := by
  rcases r with fault | e | ⟨i, content⟩
  · exact h
  · exact h
  · exact h.push i content

theorem Digest.Clean.found {stints : List Stint} {w w' : Writer} {site : Site σ}
    (h : (Writer.digest stints w site).Clean p) (hf : Found w w') (site' : Site σ) :
    (Writer.digest stints w' site').Clean p := by
  intro holdings hmem
  obtain ⟨slot', hslot', rfl⟩ := List.mem_map.mp hmem
  obtain ⟨i, hi⟩ := List.mem_iff_getElem?.mp hslot'
  obtain ⟨slot, charged, hslot, rfl⟩ := hf.getElem? hi
  exact h slot.holdings (List.mem_map_of_mem (List.mem_of_getElem? hslot))

theorem digest_write {srv : Server σ} (hp : srv.RejectsBy p) {c : Course σ} (hkept : c.Kept)
    (hclean : c.digest.Clean p) {files : FileStore} {uri : Uri} {source : Option Source}
    {payload : Payload}
    (hok : ∀ t ∈ (Call.write files uri source payload).stints srv c.writer c.site, t.outcome = .ok ()) :
    (c.writer.write srv files uri source payload c.site).1 =
        (c.writer.receive srv files uri source payload c.site).1.map (fun _ => ()) ∧
      (c.step srv (.write files uri source payload)).digest =
        (digest c.stints (c.writer.receive srv files uri source payload c.site).2.1
          (c.writer.receive srv files uri source payload c.site).2.2).settle p
            (c.writer.receive srv files uri source payload c.site).1 := by
  have hfound := found_receive srv files uri source payload c.writer c.site
  have hbooks := hkept.books.found hfound (receive_looks srv files uri source payload c.writer c.site)
  have hlt := (hkept.fits.receive srv files uri source payload).2
  have hstep : (c.step srv (.write files uri source payload)).digest =
      digest (c.stints ++ (Call.write files uri source payload).stints srv c.writer c.site)
        (c.writer.write srv files uri source payload c.site).2.1
        (c.writer.write srv files uri source payload c.site).2.2 := rfl
  rw [hstep]
  obtain ⟨fault, w, site, hr, hw⟩ | ⟨e, w, site, hr, hw⟩ | ⟨i, content, w, site, hr, hw⟩ :=
    write_cases srv files uri source payload c.writer c.site
  · simp only [Call.stints, hw, hr, List.append_nil]
    exact ⟨rfl, rfl⟩
  · simp only [Call.stints, hw, hr, List.append_nil]
    exact ⟨rfl, rfl⟩
  · simp only [Call.stints, hw, hr] at hok ⊢
    rw [hr] at hfound hbooks hlt
    have hi : i < w.slots.length := by
      rw [hfound.length]
      exact hlt i content rfl
    exact digest_push hbooks hp hi (hclean.found hfound site) (hok _ (List.mem_singleton_self _))

theorem write_alike (hp₁ : srv₁.RejectsBy p) (hp₂ : srv₂.RejectsBy p) (hkept₁ : c₁.Kept)
    (hkept₂ : c₂.Kept) (hdigest : c₁.digest = c₂.digest) (hclean : c₁.digest.Clean p)
    {files : FileStore} {uri : Uri} {source : Option Source} {payload : Payload}
    (hfine : ¬ (c₁.step srv₁ (.write files uri source payload)).site.wire.Failed)
    (hok₁ : ∀ t ∈ (Call.write files uri source payload).stints srv₁ c₁.writer c₁.site, t.outcome = .ok ())
    (hok₂ : ∀ t ∈ (Call.write files uri source payload).stints srv₂ c₂.writer c₂.site, t.outcome = .ok ())
    (hanswers : answered ((Call.write files uri source payload).events srv₁ c₁.writer c₁.site) =
      answered ((Call.write files uri source payload).events srv₂ c₂.writer c₂.site)) :
    (Call.write files uri source payload).Alike p srv₁ srv₂ c₁ c₂ := by
  obtain ⟨asked₁, sent₁, hasked₁, htrace₁, hevents₁, hsent₁, hquiet₁, hlookup₁⟩ :=
    write_events srv₁ files uri source payload c₁.writer c₁.site
  obtain ⟨asked₂, sent₂, hasked₂, htrace₂, hevents₂, hsent₂, hquiet₂, hlookup₂⟩ :=
    write_events srv₂ files uri source payload c₂.writer c₂.site
  have hgained : answered asked₁ = answered asked₂ := by
    rw [hevents₁, hevents₂] at hanswers
    simp only [answered, List.filterMap_append] at hanswers hsent₁ hsent₂ ⊢
    rwa [hsent₁, hsent₂, List.nil_append, List.nil_append] at hanswers
  have hreceived : ¬ (c₁.writer.receive srv₁ files uri source payload c₁.site).2.2.wire.Failed := by
    rintro ⟨event, hmem, hfails⟩
    rw [hasked₁] at hmem
    have hwrite : (c₁.step srv₁ (.write files uri source payload)).site.wire.trace =
        sent₁ ++ (asked₁ ++ c₁.site.wire.trace) := htrace₁
    exact hfine ⟨event, by rw [hwrite]; exact List.mem_append_right _ hmem, hfails⟩
  obtain ⟨hresult, hplaced, hnone⟩ :=
    receive_alike hdigest files uri source payload hreceived hasked₁ hasked₂ hgained
  obtain ⟨hwrite₁, hdigest₁⟩ := digest_write hp₁ hkept₁ hclean hok₁
  obtain ⟨hwrite₂, hdigest₂⟩ := digest_write hp₂ hkept₂ (hdigest ▸ hclean) hok₂
  have hcleanReceived := hclean.found (found_receive srv₁ files uri source payload c₁.writer c₁.site)
    (c₁.writer.receive srv₁ files uri source payload c₁.site).2.2
  constructor
  · rw [Call.run, Call.run, hwrite₁, hwrite₂, hresult]
  · rw [Call.receipt, Call.receipt, hresult]
  · rw [hdigest₁, hdigest₂, hplaced, hresult]
  · rw [hdigest₁]
    exact hcleanReceived.settle _
  · intro fault hfault
    rw [Call.run, hwrite₁] at hfault
    have hnoReceipt : (c₁.writer.receive srv₁ files uri source payload c₁.site).1.toOption = none := by
      cases hr : (c₁.writer.receive srv₁ files uri source payload c₁.site).1 with
      | error fault => rfl
      | ok receipt =>
        rw [hr] at hfault
        cases hfault
    refine ⟨hnoReceipt, ?_⟩
    rw [hevents₁, hevents₂, hquiet₁ hnoReceipt, hquiet₂ (hresult ▸ hnoReceipt)]
    exact ⟨hnone, hlookup₁, hlookup₂⟩

theorem digest_closing {srv : Server σ} (hp : srv.RejectsBy p) {c : Course σ} (hkept : c.Kept)
    (hclean : c.digest.Clean p)
    (hok : ∀ t ∈ Call.close.stints srv c.writer c.site, t.outcome = .ok ()) :
    (c.writer.close srv c.site).1 = .ok () ∧
      (c.step srv .close).digest =
        if c.digest.settings.closed then c.digest else c.digest.close p := by
  have hclosed : c.digest.settings.closed = c.writer.closed := rfl
  have hstep : (c.step srv .close).digest = digest (c.stints ++ Call.close.stints srv c.writer c.site)
      (c.writer.close srv c.site).2.1 (c.writer.close srv c.site).2.2 := rfl
  rw [hclosed, hstep]
  cases hopen : c.writer.closed with
  | true =>
    rw [close_closed hopen]
    simp only [Call.stints, hopen, if_true, List.append_nil]
    exact ⟨trivial, rfl⟩
  | false => exact digest_close hkept.books hp hclean hopen hok

theorem close_alike (hp₁ : srv₁.RejectsBy p) (hp₂ : srv₂.RejectsBy p) (hkept₁ : c₁.Kept)
    (hkept₂ : c₂.Kept) (hdigest : c₁.digest = c₂.digest) (hclean : c₁.digest.Clean p)
    (hok₁ : ∀ t ∈ Call.close.stints srv₁ c₁.writer c₁.site, t.outcome = .ok ())
    (hok₂ : ∀ t ∈ Call.close.stints srv₂ c₂.writer c₂.site, t.outcome = .ok ()) :
    Call.close.Alike p srv₁ srv₂ c₁ c₂ := by
  obtain ⟨hresult₁, hdigest₁⟩ := digest_closing hp₁ hkept₁ hclean hok₁
  obtain ⟨hresult₂, hdigest₂⟩ := digest_closing hp₂ hkept₂ (hdigest ▸ hclean) hok₂
  constructor
  · rw [Call.run, Call.run, hresult₁, hresult₂]
  · rfl
  · rw [hdigest₁, hdigest₂, hdigest]
  · rw [hdigest₁]
    split
    · exact hclean
    · exact hclean.close
  · intro fault hfault
    rw [Call.run, hresult₁] at hfault
    cases hfault

theorem stints_ok {srv : Server σ} {call : Call} {c : Course σ}
    (hfine : ¬ (c.step srv call).site.wire.Failed) :
    ∀ t ∈ call.stints srv c.writer c.site, t.outcome = .ok () := by
  intro t ht
  by_contra hne
  cases call with
  | write files uri source payload =>
    obtain ⟨fault, w, site, hr, hw⟩ | ⟨e, w, site, hr, hw⟩ | ⟨i, content, w, site, hr, hw⟩ :=
      write_cases srv files uri source payload c.writer c.site
    · simp [Call.stints, hr] at ht
    · simp [Call.stints, hr] at ht
    · simp only [Call.stints, hr, List.mem_singleton] at ht
      rw [ht] at hne
      have hfailed := (push_continues srv i content w site).2 hne
      rw [← hw] at hfailed
      exact hfine hfailed
  | close => exact hfine ((close_continues srv c.writer c.site).2 t ht hne)

theorem Call.alike (hp₁ : srv₁.RejectsBy p) (hp₂ : srv₂.RejectsBy p) (hkept₁ : c₁.Kept)
    (hkept₂ : c₂.Kept) (hdigest : c₁.digest = c₂.digest) (hclean : c₁.digest.Clean p) (call : Call)
    (hfine : ¬ (c₁.step srv₁ call).site.wire.Failed)
    (hok : ∀ t ∈ call.stints srv₂ c₂.writer c₂.site, t.outcome = .ok ())
    (hanswers : answered (call.events srv₁ c₁.writer c₁.site) =
      answered (call.events srv₂ c₂.writer c₂.site)) : call.Alike p srv₁ srv₂ c₁ c₂ := by
  cases call with
  | write files uri source payload =>
    exact write_alike hp₁ hp₂ hkept₁ hkept₂ hdigest hclean hfine (stints_ok hfine) hok hanswers
  | close => exact close_alike hp₁ hp₂ hkept₁ hkept₂ hdigest hclean (stints_ok hfine) hok

theorem getElem?_concat {α : Type} {xs : List α} {n : Nat} (h : xs.length = n) (x : α) (k : Nat) :
    (xs ++ [x])[k]? = if k = n then some x else xs[k]? := by
  subst h
  by_cases hk : k = xs.length
  · rw [if_pos hk, hk, List.getElem?_concat_length]
  · rw [if_neg hk, List.getElem?_append, List.getElem?_singleton]
    split
    · rfl
    · rw [if_neg (by omega), List.getElem?_eq_none (by omega)]

structure Agree (p : Content → Bool) (w : Writer) (m : Placement.Manager) (c₁ : Course σ) (c₂ : Course τ) :
    Prop where
  kept₁ : c₁.Kept
  kept₂ : c₂.Kept
  settled₁ : w.Settled c₁.writer ∧ c₁.site.manager.standardPartition = m.standardPartition
  settled₂ : w.Settled c₂.writer ∧ c₂.site.manager.standardPartition = m.standardPartition
  digest : c₁.digest = c₂.digest
  clean : c₁.digest.Clean p
  results : c₁.results = c₂.results
  receipts : c₁.receipts = c₂.receipts
  even : c₁.receipts.length = c₁.results.length ∧ c₁.events.length = c₁.results.length ∧
    c₂.events.length = c₁.results.length
  failures : ∀ (k : Nat) (fault : Fault TransferError), c₁.results[k]? = some (.error fault) →
    c₁.receipts[k]? = some none ∧
      (c₁.answers[k]? = some [] → c₁.events[k]? = some [] ∧ c₂.events[k]? = some []) ∧
      ∃ events₁ events₂, c₁.events[k]? = some events₁ ∧ c₂.events[k]? = some events₂ ∧
        w.Asks m events₁.reverse ∧ w.Asks m events₂.reverse

namespace Agree

variable {w : Writer} {m : Placement.Manager}

theorem step (h : Agree p w m c₁ c₂) {call : Call} (ha : call.Alike p srv₁ srv₂ c₁ c₂) :
    Agree p w m (c₁.step srv₁ call) (c₂.step srv₂ call) where
  kept₁ := h.kept₁.step srv₁ call
  kept₂ := h.kept₂.step srv₂ call
  settled₁ := (kept_settled srv₁ w m).run call h.settled₁
  settled₂ := (kept_settled srv₂ w m).run call h.settled₂
  digest := ha.digest
  clean := ha.clean
  results := by simp only [Course.step, h.results, ha.result]
  receipts := by simp only [Course.step, h.receipts, ha.receipt]
  even := by
    obtain ⟨hreceipts, hevents₁, hevents₂⟩ := h.even
    simp only [Course.step, List.length_append, List.length_singleton]
    omega
  failures k fault hk := by
    obtain ⟨hreceipts, hevents₁, hevents₂⟩ := h.even
    have hanswers : c₁.answers.length = c₁.results.length := by
      rw [Course.answers, List.length_map, hevents₁]
    rw [Course.answers_step]
    simp only [Course.step] at hk ⊢
    rw [getElem?_concat rfl] at hk
    rw [getElem?_concat hreceipts, getElem?_concat hanswers, getElem?_concat hevents₁,
      getElem?_concat hevents₂]
    by_cases hlast : k = c₁.results.length
    · simp only [if_pos hlast, Option.some.injEq] at hk ⊢
      obtain ⟨hnone, hquiet, hasks₁, hasks₂⟩ := ha.failure fault hk
      exact ⟨hnone, hquiet, _, _, rfl, rfl, hasks₁.settled h.settled₁.1 h.settled₁.2,
        hasks₂.settled h.settled₂.1 h.settled₂.2⟩
    · simp only [if_neg hlast] at hk ⊢
      exact h.failures k fault hk

theorem start {counters : Counters} {s₁ : σ} {s₂ : τ}
    (h₁ : (Course.start w ⟨m, counters, .new s₁⟩).Kept)
    (h₂ : (Course.start w ⟨m, counters, .new s₂⟩).Kept)
    (hqueues : ∀ slot ∈ w.slots, slot.queue = []) :
    Agree p w m (Course.start w ⟨m, counters, .new s₁⟩) (Course.start w ⟨m, counters, .new s₂⟩) where
  kept₁ := h₁
  kept₂ := h₂
  settled₁ := ⟨⟨rfl, rfl, rfl, rfl⟩, rfl⟩
  settled₂ := ⟨⟨rfl, rfl, rfl, rfl⟩, rfl⟩
  digest := rfl
  clean := by
    intro holdings hmem doc hdoc
    obtain ⟨slot, hslot, rfl⟩ := List.mem_map.mp hmem
    have hnone : slot.holdings.queue = [] := hqueues slot hslot
    rw [hnone] at hdoc
    cases hdoc
  results := rfl
  receipts := rfl
  even := ⟨rfl, rfl, rfl⟩
  failures k fault hk := by simp [Course.start] at hk

end Agree

theorem step_suffix (srv : Server σ) (c : Course σ) (call : Call) :
    c.site.wire.trace <:+ (c.step srv call).site.wire.trace := by
  cases call with
  | write files uri source payload =>
    obtain ⟨asked, sent, -, htrace, -, -⟩ := write_events srv files uri source payload c.writer c.site
    exact ⟨sent ++ asked, by rw [List.append_assoc]; exact htrace.symm⟩
  | close => exact (close_continues srv c.writer c.site).1.suffix

/-- Two runs go on doing the same if no request of the first fails, all deliveries of the second
succeed and their queries are answered alike. -/
theorem Agree.follow {w : Writer} {m : Placement.Manager} (hp₁ : srv₁.RejectsBy p) (hp₂ : srv₂.RejectsBy p)
    (h : Agree p w m c₁ c₂) (calls : List Call) (hfine : ¬ (Course.follow srv₁ calls c₁).site.wire.Failed)
    (hok : ∀ t ∈ (Course.follow srv₂ calls c₂).stints, t.outcome = .ok ())
    (hanswers : (Course.follow srv₁ calls c₁).answers = (Course.follow srv₂ calls c₂).answers) :
    Agree p w m (Course.follow srv₁ calls c₁) (Course.follow srv₂ calls c₂) := by
  induction calls using List.reverseRecOn with
  | nil => exact h
  | append_singleton calls call ih =>
    rw [Course.follow_append] at hfine hok hanswers ⊢
    rw [Course.follow_append] at hanswers ⊢
    rw [Course.answers_step, Course.answers_step] at hanswers
    obtain ⟨hbefore, hlast⟩ := List.append_inj' hanswers rfl
    have hagree :=
      ih (fun ⟨event, hmem, hfails⟩ => hfine ⟨event, (step_suffix srv₁ _ call).subset hmem, hfails⟩)
      (fun t ht => hok t (List.mem_append_left _ ht)) hbefore
    refine hagree.step (Call.alike hp₁ hp₂ hagree.kept₁ hagree.kept₂ hagree.digest hagree.clean call hfine
      (fun t ht => hok t (List.mem_append_right _ ht)) ?_)
    exact List.singleton_inj.mp hlast

/-- Of two runs of the same calls, let the first have no failed request, and let each delivery of
the second succeed in the end, after any failures. If the servers reject the same documents and each
call has its queries answered alike, then the calls end alike, place the same documents on the same
slots, count the same and store the same documents for each slot in the same order. A call that
fails has placed no document, and in either run its requests are those of one lookup of the writer's
partition, or none; there are none if it got no answer. -/
theorem failures_unseen {p : Content → Bool} {srv₁ : Server σ} {srv₂ : Server τ}
    (hp₁ : srv₁.RejectsBy p) (hp₂ : srv₂.RejectsBy p) {config : Config.Output} {fastLoad : Bool}
    {m : Placement.Manager} {task : Nat} {w : Writer} (hm : m.Reachable)
    (hw : Writer.new config fastLoad m task = .ok w) (counters : Counters) (s₁ : σ) (s₂ : τ)
    (calls : List Call)
    (hfine : ∀ event ∈ (Course.follow srv₁ calls (.start w ⟨m, counters, .new s₁⟩)).site.wire.trace,
      event.fails = false)
    (hok : ∀ t ∈ (Course.follow srv₂ calls (.start w ⟨m, counters, .new s₂⟩)).stints, t.outcome = .ok ())
    (hanswers : (Course.follow srv₁ calls (.start w ⟨m, counters, .new s₁⟩)).answers =
      (Course.follow srv₂ calls (.start w ⟨m, counters, .new s₂⟩)).answers) :
    let c₁ := Course.follow srv₁ calls (.start w ⟨m, counters, .new s₁⟩)
    let c₂ := Course.follow srv₂ calls (.start w ⟨m, counters, .new s₂⟩)
    c₁.results = c₂.results ∧ c₁.receipts = c₂.receipts ∧
      (∀ (k : Nat) (fault : Fault TransferError), c₁.results[k]? = some (.error fault) →
        c₁.receipts[k]? = some none ∧
          (c₁.answers[k]? = some [] → c₁.events[k]? = some [] ∧ c₂.events[k]? = some []) ∧
          ∃ events₁ events₂, c₁.events[k]? = some events₁ ∧ c₂.events[k]? = some events₂ ∧
            w.Asks m events₁.reverse ∧ w.Asks m events₂.reverse) ∧
      c₁.writer.stats.succeeded = c₂.writer.stats.succeeded ∧
      c₁.writer.stats.failed = c₂.writer.stats.failed ∧
      c₁.site.manager = c₂.site.manager ∧ c₁.site.counters = c₂.site.counters ∧
      ∀ i, c₁.stored i = c₂.stored i := by
  have hqueues : ∀ slot ∈ w.slots, slot.queue = [] := by
    obtain ⟨routes, hslots, -⟩ := new_cases hw
    intro slot hslot
    rw [hslots] at hslot
    obtain ⟨route, -, rfl⟩ := List.mem_map.mp hslot
    rfl
  have hfailed : ¬ (Course.follow srv₁ calls (.start w ⟨m, counters, .new s₁⟩)).site.wire.Failed := by
    rintro ⟨event, hmem, hfails⟩
    rw [hfine event hmem] at hfails
    cases hfails
  have hstart : Agree p w m (Course.start w ⟨m, counters, .new s₁⟩) (Course.start w ⟨m, counters, .new s₂⟩) :=
    .start (.start hm hw s₁) (.start hm hw s₂) hqueues
  have hagree := hstart.follow hp₁ hp₂ calls hfailed hok hanswers
  refine ⟨hagree.results, hagree.receipts, hagree.failures, ?_, ?_, ?_, ?_, fun i => ?_⟩
  · exact congrArg Digest.succeeded hagree.digest
  · exact congrArg Digest.failed hagree.digest
  · exact congrArg Digest.manager hagree.digest
  · exact congrArg Digest.counters hagree.digest
  · exact congrArg (fun g => g.stored i) hagree.digest

namespace Sample

def rejections (p : Content → Bool) (docs : List Content) : List Rejection :=
  (docs.zipIdx.filter (p ·.1)).map fun e => ⟨e.2, none, "denied"⟩

/-- Answers every query with the items, and refuses what is asked when as many sessions and commits
have been asked for before as `down` tells. -/
def flaky (p : Content → Bool) (items : List Item) (down : List Nat) : Server Nat where
  accept _ s := (if s ∈ down then .error (.connection "refused") else .ok (), s + 1)
  insert _ docs s := (.ok (rejections p docs), s)
  commit _ s := (if s ∈ down then .error (.connection "refused") else .ok (), s + 1)
  rollback _ s := (.ok (), s)
  submit _ _ s := (.ok items, s)
  range _ _ s := (.ok (), s)
  next _ s := (.ok none, s)
  close _ s := (.ok (), s)
  wait _ s := s

theorem rejectsBy_flaky (p : Content → Bool) (items : List Item) (down : List Nat) :
    (flaky p items down).RejectsBy p := by
  intro session docs state rejected h i doc hdoc
  cases h
  rw [Bool.eq_iff_iff, List.any_eq_true]
  constructor
  · rintro ⟨r, hr, hindex⟩
    obtain ⟨e, he, rfl⟩ := List.mem_map.mp hr
    obtain ⟨he, hp⟩ := List.mem_filter.mp he
    have hi : e.2 = i := by simpa using hindex
    rw [List.mem_zipIdx_iff_getElem?, hi, hdoc] at he
    cases he
    exact hp
  · intro hp
    have hmem : (doc, i) ∈ docs.zipIdx := List.mem_zipIdx_iff_getElem?.mpr hdoc
    exact ⟨_, List.mem_map_of_mem (List.mem_filter.mpr ⟨hmem, hp⟩), by simp⟩

def denied (doc : Content) : Bool := doc.body = .bytes [2]

def partitioned : Placement.Manager :=
  ⟨topology, [0, 1], .partitioned ⟨.query, 2, some "default", .empty⟩, 2⟩

theorem reachable_partitioned : partitioned.Reachable :=
  .new (show Placement.Manager.new .query topology 2 none = _ from rfl)

end Sample

/-- The first session of a slot is refused, and the first commit, so that all is sent again. -/
theorem failures_unseen_resent :
    ∃ w, Writer.new (Sample.config 2) true Sample.partitioned 0 = .ok w ∧
      let c₁ := Course.follow (Sample.flaky Sample.denied [.text "1"] []) Sample.calls
        (.start w ⟨Sample.partitioned, .zero, .new 0⟩)
      let c₂ := Course.follow (Sample.flaky Sample.denied [.text "1"] [1, 3]) Sample.calls
        (.start w ⟨Sample.partitioned, .zero, .new 0⟩)
      (∀ event ∈ c₁.site.wire.trace, event.fails = false) ∧ (∀ t ∈ c₂.stints, t.outcome = .ok ()) ∧
        c₁.answers = c₂.answers ∧ c₁.results = c₂.results ∧ c₁.stored 0 = c₂.stored 0 ∧
        c₂.writer.stats = ⟨2, 1, 2⟩ ∧ (c₂.stored 0).map (·.body) = [.bytes [1], .bytes [3]] := by
  have hw : ∃ w, Writer.new (Sample.config 2) true Sample.partitioned 0 = .ok w := ⟨_, rfl⟩
  obtain ⟨w, hw⟩ := hw
  have hfine : ∀ event ∈ (Course.follow (Sample.flaky Sample.denied [.text "1"] []) Sample.calls
      (.start w ⟨Sample.partitioned, .zero, .new 0⟩)).site.wire.trace, event.fails = false := by
    cases hw
    decide +kernel
  have hok : ∀ t ∈ (Course.follow (Sample.flaky Sample.denied [.text "1"] [1, 3]) Sample.calls
      (.start w ⟨Sample.partitioned, .zero, .new 0⟩)).stints, t.outcome = .ok () := by
    cases hw
    decide +kernel
  have hanswers : (Course.follow (Sample.flaky Sample.denied [.text "1"] []) Sample.calls
        (.start w ⟨Sample.partitioned, .zero, .new 0⟩)).answers =
      (Course.follow (Sample.flaky Sample.denied [.text "1"] [1, 3]) Sample.calls
        (.start w ⟨Sample.partitioned, .zero, .new 0⟩)).answers := by
    cases hw
    decide +kernel
  obtain ⟨hresults, -, -, -, -, -, -, hstored⟩ :=
    failures_unseen (Sample.rejectsBy_flaky Sample.denied [.text "1"] [])
      (Sample.rejectsBy_flaky Sample.denied [.text "1"] [1, 3]) Sample.reachable_partitioned hw .zero 0 0
      Sample.calls hfine hok hanswers
  refine ⟨w, hw, hfine, hok, hanswers, hresults, hstored 0, ?_, ?_⟩
  · cases hw
    decide +kernel
  · cases hw
    decide +kernel

/-- A lookup has no retries of its own: a run in which no host is reached for it loses the document,
while all deliveries succeed. And a lookup that is answered may be of no use, so that a call can
fail after requests. -/
theorem lookup_seen :
    ∃ w, Writer.new (Sample.config 2) true Sample.partitioned 0 = .ok w ∧
      let steady := Sample.flaky Sample.denied [.text "1"] []
      let shaky := Sample.flaky Sample.denied [.text "1"] [0, 1]
      let lost := Sample.flaky Sample.denied [.text "9"] []
      let c₁ := Course.follow steady Sample.calls (.start w ⟨Sample.partitioned, .zero, .new 0⟩)
      let c₂ := Course.follow shaky Sample.calls (.start w ⟨Sample.partitioned, .zero, .new 0⟩)
      let c₃ := Course.follow lost Sample.calls (.start w ⟨Sample.partitioned, .zero, .new 0⟩)
      steady.RejectsBy Sample.denied ∧ shaky.RejectsBy Sample.denied ∧
        (RequestError.connection "refused").isRetryable = true ∧
        (∀ session query s, (steady.submit session query s).1 = (shaky.submit session query s).1) ∧
        (∀ event ∈ c₁.site.wire.trace, event.fails = false) ∧ (∀ t ∈ c₂.stints, t.outcome = .ok ()) ∧
        c₁.results = [.ok (), .ok (), .ok (), .ok ()] ∧
        c₂.results = [.error (.failed (.noReachableHost ["a", "b"] (some (.connection "refused")))),
          .ok (), .ok (), .ok ()] ∧
        (∀ event ∈ c₃.site.wire.trace, event.fails = false) ∧ (∀ t ∈ c₃.stints, t.outcome = .ok ()) ∧
        c₃.results[0]? = some (.error (.failed (.placement (.unknownForest ⟨"9"⟩)))) ∧
        (c₃.events[0]?).map List.length = some 3 := by
  have hw : ∃ w, Writer.new (Sample.config 2) true Sample.partitioned 0 = .ok w := ⟨_, rfl⟩
  obtain ⟨w, hw⟩ := hw
  refine ⟨w, hw, Sample.rejectsBy_flaky _ _ _, Sample.rejectsBy_flaky _ _ _, rfl, fun _ _ _ => rfl, ?_⟩
  cases hw
  decide +kernel

end ForestCourier.Writer
