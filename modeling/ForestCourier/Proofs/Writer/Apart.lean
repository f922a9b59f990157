import Mathlib.Algebra.BigOperators.Group.List.Basic
import ForestCourier.Proofs.Writer.Discipline
import ForestCourier.Proofs.Writer.Peers

/-!
Slots apart. A run keeps an account for each slot: what has been asked for it and answered, and what has
been counted there. Where documents are placed by their URI alone and the server answers to a slot by what
that slot has asked for, the account of a slot hangs on the documents that are placed there and on nothing
else: not on the documents in between, nor on what becomes of the other slots.
-/

namespace ForestCourier

/-- Wires that are abreast have the same requests, or have diverged. -/
theorem Wire.Abreast.since {σ₁ σ₂ : Type} {Q : Prop} {a₁ b₁ : Wire σ₁} {a₂ b₂ : Wire σ₂}
    (h : Wire.Abreast Q a₁ b₁ a₂ b₂) :
    (a₁.since b₁).map Event.unnumbered = (a₂.since b₂).map Event.unnumbered ∧ Q ∨
      Diverge ((a₁.since b₁).map Event.unnumbered) ((a₂.since b₂).map Event.unnumbered) := by
  obtain ⟨x₁, x₂, hx₁, hx₂, hx⟩ := h
  rwa [Wire.since_of_trace hx₁, Wire.since_of_trace hx₂]

namespace Writer

variable {σ σ₁ σ₂ : Type}

abbrev Tally := List (Nat × Stats)

def Tally.share (tally : Tally) (i : Nat) : Stats :=
  ((tally.filter fun entry => entry.1 = i).map Prod.snd).sum

theorem Tally.share_append (tally tally' : Tally) (i : Nat) :
    Tally.share (tally ++ tally') i = tally.share i + tally'.share i := by
  rw [share, List.filter_append, List.map_append, List.sum_append]
  rfl

theorem Tally.share_single (j : Nat) (stats : Stats) (i : Nat) :
    Tally.share [(j, stats)] i = if j = i then stats else 0 := by
  unfold share
  split
  · next h => simp [h]
  · next h => simp [h]

def drainTally (srv : Server σ) : List Nat → Writer → Site σ → Tally
  | [], _, _ => []
  | i :: is, w, site =>
    match w.drainSlot srv i site with
    | (.error _, w', _) => [(i, gained w w')]
    | (.ok _, w', site') => (i, gained w w') :: drainTally srv is w' site'

def Call.tally (srv : Server σ) : Call → Writer → Site σ → Tally
  | write files uri source payload, w, site =>
    match w.receive srv files uri source payload site with
    | (.ok (.placed i content), w₁, site₁) => [(i, gained w₁ (w₁.push srv i content site₁).2.1)]
    | _ => []
  | close, w, site =>
    if w.closed then []
    else drainTally srv (List.range w.slots.length) { w with closed := true } site

/-- What has been asked for a slot and answered, and what has been counted there. -/
structure Account where
  history : List Event
  stats : Stats

namespace Account

def add (a b : Account) : Account := ⟨a.history ++ b.history, a.stats + b.stats⟩

end Account

def accountOf (journal : Journal) (tally : Tally) (i : Nat) : Account where
  history := (journal.eventsOf (some i)).map Event.unnumbered
  stats := tally.share i

theorem accountOf_append (journal journal' : Journal) (tally tally' : Tally) (i : Nat) :
    accountOf (journal ++ journal') (tally ++ tally') i =
      (accountOf journal tally i).add (accountOf journal' tally' i) := by
  unfold accountOf Account.add
  rw [Journal.eventsOf_append, List.map_append, Tally.share_append]

theorem accountOf_work (i : Nat) (a b : Wire σ) (stats : Stats) :
    accountOf (Journal.entries (some i) a b) [(i, stats)] i =
      ⟨(a.since b).map Event.unnumbered, stats⟩ := by
  unfold accountOf
  rw [Journal.eventsOf_entries, Tally.share_single, if_pos rfl]

theorem accountOf_others {i j : Nat} (h : j ≠ i) (a b : Wire σ) (stats : Stats) :
    accountOf (Journal.entries (some j) a b) [(j, stats)] i = ⟨[], 0⟩ := by
  unfold accountOf
  rw [Journal.eventsOf_entries_of_ne (fun hij => h (Option.some.inj hij).symm), Tally.share_single, if_neg h]
  rfl

namespace Course

def tally (srv : Server σ) : List Call → Course σ → Tally
  | [], _ => []
  | call :: calls, c => call.tally srv c.writer c.site ++ tally srv calls (c.step srv call)

def account (srv : Server σ) (calls : List Call) (c : Course σ) (i : Nat) : Account :=
  accountOf (c.journal srv calls) (c.tally srv calls) i

/-- Whatever is written, the answers to slot `i` are those that `answer` gives to its history and the next
request. -/
def AnsweredBy (srv : Server σ) (c : Course σ) (i : Nat) (answer : List Event → Ask → Event) : Prop :=
  ∀ calls pre e post, (c.account srv calls i).history = pre ++ e :: post → e = answer pre e.ask

theorem account_append (srv : Server σ) (calls : List Call) (call : Call) (c : Course σ) (i : Nat) :
    c.account srv (calls ++ [call]) i = (c.account srv calls i).add
      (accountOf (call.journal srv (follow srv calls c).writer (follow srv calls c).site)
        (call.tally srv (follow srv calls c).writer (follow srv calls c).site) i) := by
  have hjournal : c.journal srv (calls ++ [call]) = c.journal srv calls ++
      call.journal srv (follow srv calls c).writer (follow srv calls c).site := by
    induction calls generalizing c with
    | nil => exact List.append_nil _
    | cons first calls ih => exact (congrArg _ (ih (c.step srv first))).trans (List.append_assoc ..).symm
  have htally : c.tally srv (calls ++ [call]) = c.tally srv calls ++
      call.tally srv (follow srv calls c).writer (follow srv calls c).site := by
    clear hjournal
    induction calls generalizing c with
    | nil => exact List.append_nil _
    | cons first calls ih => exact (congrArg _ (ih (c.step srv first))).trans (List.append_assoc ..).symm
  unfold account
  rw [hjournal, htally, accountOf_append]

theorem AnsweredBy.not_diverge {srv₁ : Server σ₁} {srv₂ : Server σ₂} {c₁ : Course σ₁} {c₂ : Course σ₂}
    {i : Nat} {answer : List Event → Ask → Event} (h₁ : AnsweredBy srv₁ c₁ i answer)
    (h₂ : AnsweredBy srv₂ c₂ i answer) (calls₁ calls₂ : List Call) :
    ¬ Diverge (c₁.account srv₁ calls₁ i).history (c₂.account srv₂ calls₂ i).history := by
  rintro ⟨pre, e₁, post₁, e₂, post₂, hhistory₁, hhistory₂, hask, hne⟩
  rw [h₁ calls₁ pre e₁ post₁ hhistory₁, h₂ calls₂ pre e₂ post₂ hhistory₂, hask] at hne
  exact hne rfl

theorem closed_follow (srv : Server σ) {writes : List Call} (hwrites : Call.close ∉ writes) (c : Course σ) :
    (follow srv writes c).writer.closed = c.writer.closed := by
  induction writes generalizing c with
  | nil => rfl
  | cons call writes ih =>
    obtain ⟨hcall, hrest⟩ := not_or.mp (mt List.mem_cons.mpr hwrites)
    refine (ih hrest (c.step srv call)).trans ?_
    cases call with
    | close => exact absurd rfl hcall
    | write files uri source payload =>
      have hfound := found_receive srv files uri source payload c.writer c.site
      show (c.writer.write srv files uri source payload c.site).2.1.closed = c.writer.closed
      obtain ⟨fault, w₁, site₁, hr, hw⟩ | ⟨e, w₁, site₁, hr, hw⟩ | ⟨i, content, w₁, site₁, hr, hw⟩ :=
        write_cases srv files uri source payload c.writer c.site
      · rw [hr] at hfound
        rw [hw]
        exact hfound.closed
      · rw [hr] at hfound
        rw [hw]
        exact hfound.closed
      · rw [hr] at hfound
        rw [hw]
        exact (beside_push srv i content w₁ site₁).closed.trans hfound.closed

end Course

def skippedBy : Option Receipt → Stats
  | some (.skipped _) => ⟨0, 1, 0⟩
  | _ => 0

namespace Steady

variable {w₀ w : Writer} {m : Placement.Manager} {site : Site σ}

theorem receipt_eq (h : Steady w₀ m w site) (hm : m.policy.ByUri) (hfast : w₀.fastLoad = true)
    (hclosed : w.closed = w₀.closed) {τ : Type} {site₀ : Site τ} (hsite₀ : site₀.manager = m)
    (srv : Server σ) (srv₀ : Server τ) (call : Call) :
    call.receipt srv w site = call.receipt srv₀ w₀ site₀ := by
  cases call with
  | close => rfl
  | write files uri source payload =>
    dsimp only [Call.receipt]
    rw [h.receive hm hfast hclosed hsite₀ srv srv₀]

theorem call_placed (h : Steady w₀ m w site) (hm : m.policy.ByUri) (hfast : w₀.fastLoad = true)
    (srv : Server σ) {call : Call} {j : Nat} {content : Content}
    (hreceipt : call.receipt srv w site = some (.placed j content)) :
    (call.run srv w site).2 = (w.push srv j content site).2 ∧
      call.journal srv w site = Journal.entries (some j) site.wire (w.push srv j content site).2.2.wire ∧
      call.tally srv w site = [(j, gained w (w.push srv j content site).2.1)] := by
  cases call with
  | close => cases hreceipt
  | write files uri source payload =>
    have hsame := h.receive_snd hm hfast srv files uri source payload
    dsimp only [Call.run, Call.journal, Call.tally]
    dsimp only [Call.receipt] at hreceipt
    obtain ⟨fault, w₁, site₁, hr, hw⟩ | ⟨e, w₁, site₁, hr, hw⟩ | ⟨i, content', w₁, site₁, hr, hw⟩ :=
      write_cases srv files uri source payload w site
    · rw [hr] at hreceipt
      cases hreceipt
    · rw [hr] at hreceipt
      cases hreceipt
    · rw [hr] at hreceipt hsame
      cases hreceipt
      cases hsame
      rw [hr, hw]
      refine ⟨rfl, ?_, rfl⟩
      dsimp only
      rw [entries_of_still rfl, List.nil_append]

theorem call_unplaced (h : Steady w₀ m w site) (hm : m.policy.ByUri) (hfast : w₀.fastLoad = true)
    (srv : Server σ) {call : Call} (hcall : call ≠ .close)
    (hreceipt : ∀ j content, call.receipt srv w site ≠ some (.placed j content)) :
    (call.run srv w site).2.1.slots = w.slots ∧ call.journal srv w site = [] ∧
      call.tally srv w site = [] ∧
      (call.run srv w site).2.1.stats = w.stats + skippedBy (call.receipt srv w site) := by
  cases call with
  | close => exact absurd rfl hcall
  | write files uri source payload =>
    have hsame := h.receive_snd hm hfast srv files uri source payload
    dsimp only [Call.run, Call.journal, Call.tally, Call.receipt] at hreceipt ⊢
    obtain ⟨fault, w₁, site₁, hr, hw⟩ | ⟨e, w₁, site₁, hr, hw⟩ | ⟨i, content, w₁, site₁, hr, hw⟩ :=
      write_cases srv files uri source payload w site
    · rw [hr] at hsame
      cases hsame
      rw [hr, hw]
      exact ⟨rfl, entries_of_still rfl, rfl, (add_zero w.stats).symm⟩
    · rw [hr] at hsame
      cases hsame
      rw [hr, hw]
      exact ⟨rfl, entries_of_still rfl, rfl, rfl⟩
    · rw [hr] at hreceipt
      exact absurd rfl (hreceipt i content)

theorem drain_cons (h : Steady w₀ m w site) (hm : m.policy.ByUri) (srv : Server σ) (i : Nat) (is : List Nat) :
    drainJournal srv (i :: is) w site = Journal.entries (some i) site.wire (w.drainSlot srv i site).2.2.wire ++
        drainJournal srv is (w.drainSlot srv i site).2.1 (w.drainSlot srv i site).2.2 ∧
      drainTally srv (i :: is) w site = [(i, gained w (w.drainSlot srv i site).2.1)] ++
        drainTally srv is (w.drainSlot srv i site).2.1 (w.drainSlot srv i site).2.2 ∧
      (drain srv (i :: is) w site).2 =
        (drain srv is (w.drainSlot srv i site).2.1 (w.drainSlot srv i site).2.2).2 := by
  obtain ⟨⟨result, hresult⟩, -⟩ := h.drainSlot_eq hm srv i
  cases hd : w.drainSlot srv i site with
  | mk r s =>
    obtain ⟨w₁, site₁⟩ := s
    rw [hd] at hresult
    cases hresult
    refine ⟨?_, ?_, drain_cons_ok hd is⟩
    · rw [drainJournal, hd]
    · rw [drainTally, hd]
      rfl

theorem drain_account (h : Steady w₀ m w site) (hm : m.policy.ByUri) (hfast : w₀.fastLoad = true)
    (srv : Server σ) {is : List Nat} (hnodup : is.Nodup) (i : Nat) :
    (i ∉ is → accountOf (drainJournal srv is w site) (drainTally srv is w site) i = ⟨[], 0⟩) ∧
      (i ∈ is → ∃ (w' : Writer) (site' : Site σ), Steady w₀ m w' site' ∧ w'.slots[i]? = w.slots[i]? ∧
        accountOf (drainJournal srv is w site) (drainTally srv is w site) i =
          ⟨(site'.wire.since (w'.drainSlot srv i site').2.2.wire).map Event.unnumbered,
            gained w' (w'.drainSlot srv i site').2.1⟩) := by
  induction is generalizing w site with
  | nil => exact ⟨fun _ => rfl, fun hi => by cases hi⟩
  | cons j is ih =>
    obtain ⟨hjournal, htally, -⟩ := h.drain_cons hm srv j is
    obtain ⟨hj, hrest⟩ := List.nodup_cons.mp hnodup
    obtain ⟨habsent, hpresent⟩ := ih ((kept hm hfast srv).drainSlot j h) hrest
    rw [hjournal, htally, accountOf_append]
    by_cases hji : j = i
    · subst hji
      rw [habsent hj, accountOf_work]
      refine ⟨fun hi => absurd List.mem_cons_self hi, fun _ => ⟨w, site, h, rfl, ?_⟩⟩
      simp only [Account.add, List.append_nil, add_zero]
    · rw [accountOf_others hji]
      simp only [Account.add, List.nil_append, zero_add]
      refine ⟨fun hi => habsent fun hin => hi (List.mem_cons_of_mem j hin), fun hi => ?_⟩
      obtain ⟨w', site', hsteady, hslot, haccount⟩ := hpresent ((List.mem_cons.mp hi).resolve_left (Ne.symm hji))
      exact ⟨w', site', hsteady, hslot.trans ((beside_drainSlot srv j w site).others i (Ne.symm hji)), haccount⟩

end Steady

/-- Two runs that come to the same slot `i` with the same account of it. -/
structure Even (i : Nat) (a₁ a₂ : Account) (w₁ w₂ : Writer) : Prop where
  account : a₁ = a₂
  slot : (w₁.slots[i]?).map Slot.unnumbered = (w₂.slots[i]?).map Slot.unnumbered

namespace Even

variable {i : Nat} {a₁ a₂ : Account} {w₀ w₁ w₂ w₁' w₂' : Writer} {m : Placement.Manager} {site₁ site₁' : Site σ₁}
  {site₂ site₂' : Site σ₂}

theorem peers (h : Even i a₁ a₂ w₁ w₂) : Peers i w₁.stats w₂.stats w₁ w₂ :=
  ⟨h.slot, 0, (add_zero _).symm, (add_zero _).symm⟩

theorem work (h : Even i a₁ a₂ w₁ w₂)
    (habreast : Wire.Abreast (Peers i w₁.stats w₂.stats w₁' w₂') site₁.wire site₁'.wire site₂.wire site₂'.wire)
    (hanswers : ¬ Diverge
      (a₁.history ++ (site₁.wire.since site₁'.wire).map Event.unnumbered)
      (a₂.history ++ (site₂.wire.since site₂'.wire).map Event.unnumbered)) :
    Even i (a₁.add ⟨(site₁.wire.since site₁'.wire).map Event.unnumbered, gained w₁ w₁'⟩)
      (a₂.add ⟨(site₂.wire.since site₂'.wire).map Event.unnumbered, gained w₂ w₂'⟩) w₁' w₂' := by
  rcases habreast.since with ⟨hsame, hpeers⟩ | hdiverge
  · obtain ⟨gain, hgain₁, hgain₂⟩ := hpeers.stats
    refine ⟨?_, hpeers.slot⟩
    rw [h.account, hsame, gained_eq hgain₁, gained_eq hgain₂]
  · refine absurd ?_ hanswers
    rw [h.account]
    exact hdiverge.prepend _

end Even

def Call.landsOn (srv : Server σ) (w : Writer) (site : Site σ) (i : Nat) (call : Call) : Bool :=
  (Course.placedOn i (call.receipt srv w site)).isSome

theorem Call.landsOn_iff {srv : Server σ} {w : Writer} {site : Site σ} {i : Nat} {call : Call} :
    call.landsOn srv w site i = true ↔ ∃ content, call.receipt srv w site = some (.placed i content) := by
  unfold landsOn
  rcases call.receipt srv w site with - | e | ⟨j, content⟩
  · simp [Course.placedOn]
  · simp [Course.placedOn]
  · by_cases hij : i = j
    · simp [Course.placedOn, hij]
    · simp [Course.placedOn, hij, Ne.symm hij]

section Runs

variable {w₀ : Writer} {m : Placement.Manager} {srv₁ : Server σ₁} {srv₂ : Server σ₂} {c₁ : Course σ₁}
  {c₂ : Course σ₂} {i : Nat} {answer : List Event → Ask → Event} {calls₁ calls₂ : List Call} {call : Call}

theorem Even.placed (hm : m.policy.ByUri) (hfast : w₀.fastLoad = true)
    (h : Even i (c₁.account srv₁ calls₁ i) (c₂.account srv₂ calls₂ i) (c₁.follow srv₁ calls₁).writer
      (c₂.follow srv₂ calls₂).writer)
    (h₁ : Steady w₀ m (c₁.follow srv₁ calls₁).writer (c₁.follow srv₁ calls₁).site)
    (h₂ : Steady w₀ m (c₂.follow srv₂ calls₂).writer (c₂.follow srv₂ calls₂).site)
    (ha₁ : c₁.AnsweredBy srv₁ i answer) (ha₂ : c₂.AnsweredBy srv₂ i answer) {content : Content}
    (hr₁ : call.receipt srv₁ (c₁.follow srv₁ calls₁).writer (c₁.follow srv₁ calls₁).site =
      some (.placed i content))
    (hr₂ : call.receipt srv₂ (c₂.follow srv₂ calls₂).writer (c₂.follow srv₂ calls₂).site =
      some (.placed i content)) :
    Even i (c₁.account srv₁ (calls₁ ++ [call]) i) (c₂.account srv₂ (calls₂ ++ [call]) i)
      (c₁.follow srv₁ (calls₁ ++ [call])).writer (c₂.follow srv₂ (calls₂ ++ [call])).writer := by
  obtain ⟨hrun₁, hjournal₁, htally₁⟩ := h₁.call_placed hm hfast srv₁ hr₁
  obtain ⟨hrun₂, hjournal₂, htally₂⟩ := h₂.call_placed hm hfast srv₂ hr₂
  have hanswers := ha₁.not_diverge ha₂ (calls₁ ++ [call]) (calls₂ ++ [call])
  rw [Course.account_append, Course.account_append, hjournal₁, hjournal₂, htally₁, htally₂, accountOf_work,
    accountOf_work] at hanswers ⊢
  have hwriter₁ : (c₁.follow srv₁ (calls₁ ++ [call])).writer =
      ((c₁.follow srv₁ calls₁).writer.push srv₁ i content (c₁.follow srv₁ calls₁).site).2.1 := by
    rw [Course.follow_append, ← hrun₁]
    rfl
  have hwriter₂ : (c₂.follow srv₂ (calls₂ ++ [call])).writer =
      ((c₂.follow srv₂ calls₂).writer.push srv₂ i content (c₂.follow srv₂ calls₂).site).2.1 := by
    rw [Course.follow_append, ← hrun₂]
    rfl
  rw [hwriter₁, hwriter₂]
  exact h.work (h.peers.push srv₁ srv₂ h₁ h₂ hm content) hanswers

theorem account_unplaced (hm : m.policy.ByUri) (hfast : w₀.fastLoad = true)
    (h₁ : Steady w₀ m (c₁.follow srv₁ calls₁).writer (c₁.follow srv₁ calls₁).site) (hcall : call ≠ .close)
    (hr₁ : ∀ content, call.receipt srv₁ (c₁.follow srv₁ calls₁).writer (c₁.follow srv₁ calls₁).site ≠
      some (.placed i content)) :
    c₁.account srv₁ (calls₁ ++ [call]) i = c₁.account srv₁ calls₁ i ∧
      (c₁.follow srv₁ (calls₁ ++ [call])).writer.slots[i]? = (c₁.follow srv₁ calls₁).writer.slots[i]? := by
  have hadd (a : Account) : a.add ⟨[], 0⟩ = a := by
    simp only [Account.add, List.append_nil, add_zero]
  have hwriter : (c₁.follow srv₁ (calls₁ ++ [call])).writer =
      (call.run srv₁ (c₁.follow srv₁ calls₁).writer (c₁.follow srv₁ calls₁).site).2.1 := by
    rw [Course.follow_append]
    rfl
  rw [Course.account_append, hwriter]
  by_cases hplaced : ∃ j content, call.receipt srv₁ (c₁.follow srv₁ calls₁).writer
      (c₁.follow srv₁ calls₁).site = some (.placed j content)
  · obtain ⟨j, content, hj⟩ := hplaced
    have hji : j ≠ i := by
      rintro rfl
      exact hr₁ content hj
    obtain ⟨hrun, hjournal, htally⟩ := h₁.call_placed hm hfast srv₁ hj
    rw [hjournal, htally, accountOf_others hji, hadd, hrun]
    exact ⟨rfl, (beside_push srv₁ j content _ _).others i (Ne.symm hji)⟩
  · obtain ⟨hslots, hjournal, htally, -⟩ := h₁.call_unplaced hm hfast srv₁ hcall
      fun j content hj => hplaced ⟨j, content, hj⟩
    rw [hjournal, htally, hslots]
    exact ⟨hadd _, rfl⟩

theorem Even.closed (hm : m.policy.ByUri) (hfast : w₀.fastLoad = true)
    (h : Even i (c₁.account srv₁ calls₁ i) (c₂.account srv₂ calls₂ i) (c₁.follow srv₁ calls₁).writer
      (c₂.follow srv₂ calls₂).writer)
    (h₁ : Steady w₀ m (c₁.follow srv₁ calls₁).writer (c₁.follow srv₁ calls₁).site)
    (h₂ : Steady w₀ m (c₂.follow srv₂ calls₂).writer (c₂.follow srv₂ calls₂).site)
    (ha₁ : c₁.AnsweredBy srv₁ i answer) (ha₂ : c₂.AnsweredBy srv₂ i answer)
    (hopen₁ : (c₁.follow srv₁ calls₁).writer.closed = false)
    (hopen₂ : (c₂.follow srv₂ calls₂).writer.closed = false) :
    c₁.account srv₁ (calls₁ ++ [.close]) i = c₂.account srv₂ (calls₂ ++ [.close]) i := by
  have hanswers := ha₁.not_diverge ha₂ (calls₁ ++ [.close]) (calls₂ ++ [.close])
  rw [Course.account_append, Course.account_append] at hanswers ⊢
  simp only [Call.journal, Call.tally, hopen₁, hopen₂, Bool.false_eq_true, if_false, h₁.length, h₂.length]
    at hanswers ⊢
  obtain ⟨habsent₁, hpresent₁⟩ := ((Steady.kept hm hfast srv₁).close _ _ h₁).drain_account hm hfast srv₁
    (List.nodup_range (n := w₀.slots.length)) i
  obtain ⟨habsent₂, hpresent₂⟩ := ((Steady.kept hm hfast srv₂).close _ _ h₂).drain_account hm hfast srv₂
    (List.nodup_range (n := w₀.slots.length)) i
  by_cases hi : i ∈ List.range w₀.slots.length
  · obtain ⟨w₁, site₁, hsteady₁, hslot₁, haccount₁⟩ := hpresent₁ hi
    obtain ⟨w₂, site₂, hsteady₂, hslot₂, haccount₂⟩ := hpresent₂ hi
    rw [haccount₁, haccount₂] at hanswers ⊢
    have heven : Even i (c₁.account srv₁ calls₁ i) (c₂.account srv₂ calls₂ i) w₁ w₂ :=
      ⟨h.account, by rw [hslot₁, hslot₂]; exact h.slot⟩
    exact (heven.work (heven.peers.drainSlot srv₁ srv₂ hsteady₁ hsteady₂ hm) hanswers).account
  · rw [habsent₁ hi, habsent₂ hi, h.account]

variable {w : Writer} {site₁ : Site σ₁} {site₂ : Site σ₂} {writes : List Call}

theorem even_writes (hm : m.policy.ByUri) (hfast : w.fastLoad = true) (h₁ : Steady w m w site₁)
    (h₂ : Steady w m w site₂) (ha₁ : Course.AnsweredBy srv₁ (.start w site₁) i answer)
    (ha₂ : Course.AnsweredBy srv₂ (.start w site₂) i answer) (hwrites : Call.close ∉ writes) :
    Even i ((Course.start w site₁).account srv₁ writes i)
      ((Course.start w site₂).account srv₂ (writes.filter (Call.landsOn srv₁ w site₁ i)) i)
      (Course.follow srv₁ writes (.start w site₁)).writer
      (Course.follow srv₂ (writes.filter (Call.landsOn srv₁ w site₁ i)) (.start w site₂)).writer := by
  induction writes using List.reverseRecOn with
  | nil => exact ⟨rfl, rfl⟩
  | append_singleton writes call ih =>
    have hbefore : Call.close ∉ writes := fun h => hwrites (List.mem_append_left _ h)
    have hcall : call ≠ .close := fun h => hwrites (h ▸ List.mem_append_right _ List.mem_cons_self)
    have hkept : Call.close ∉ writes.filter (Call.landsOn srv₁ w site₁ i) := fun h =>
      hbefore (List.mem_filter.mp h).1
    have heven := ih hbefore
    have hsteady₁ := (Steady.kept hm hfast srv₁).follow (c := .start w site₁) h₁ writes
    have hsteady₂ := (Steady.kept hm hfast srv₂).follow (c := .start w site₂) h₂
      (writes.filter (Call.landsOn srv₁ w site₁ i))
    have hreceipt₁ := hsteady₁.receipt_eq hm hfast (Course.closed_follow srv₁ hbefore _) h₁.manager srv₁ srv₁
      call
    have hreceipt₂ := hsteady₂.receipt_eq hm hfast (Course.closed_follow srv₂ hkept _) h₁.manager srv₂ srv₁
      call
    rw [List.filter_append, List.filter_singleton]
    cases hlands : call.landsOn srv₁ w site₁ i with
    | true =>
      obtain ⟨content, hcontent⟩ := Call.landsOn_iff.mp hlands
      exact heven.placed hm hfast hsteady₁ hsteady₂ ha₁ ha₂ (hreceipt₁.trans hcontent)
        (hreceipt₂.trans hcontent)
    | false =>
      obtain ⟨haccount, hslot⟩ := account_unplaced hm hfast hsteady₁ hcall (i := i) fun content hcontent => by
        rw [Call.landsOn_iff.mpr ⟨content, hreceipt₁.symm.trans hcontent⟩] at hlands
        cases hlands
      rw [cond_false, List.append_nil]
      exact ⟨haccount.trans heven.account, by rw [hslot, heven.slot]⟩

/-- The account of a slot hangs on the documents that are placed there alone, as long as the answers do. -/
theorem account_writes (hm : m.policy.ByUri) (hfast : w.fastLoad = true) (hopen : w.closed = false)
    (h₁ : Steady w m w site₁) (h₂ : Steady w m w site₂)
    (ha₁ : Course.AnsweredBy srv₁ (.start w site₁) i answer)
    (ha₂ : Course.AnsweredBy srv₂ (.start w site₂) i answer) (hwrites : Call.close ∉ writes) :
    (Course.start w site₁).account srv₁ (writes ++ [.close]) i = (Course.start w site₂).account srv₂
      (writes.filter (Call.landsOn srv₁ w site₁ i) ++ [.close]) i := by
  have hkept : Call.close ∉ writes.filter (Call.landsOn srv₁ w site₁ i) := fun h =>
    hwrites (List.mem_filter.mp h).1
  exact (even_writes hm hfast h₁ h₂ ha₁ ha₂ hwrites).closed hm hfast
    ((Steady.kept hm hfast srv₁).follow (c := .start w site₁) h₁ writes)
    ((Steady.kept hm hfast srv₂).follow (c := .start w site₂) h₂ _) ha₁ ha₂
    ((Course.closed_follow srv₁ hwrites _).trans hopen) ((Course.closed_follow srv₂ hkept _).trans hopen)

end Runs

end Writer

end ForestCourier
