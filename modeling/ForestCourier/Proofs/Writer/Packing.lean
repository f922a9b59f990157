import ForestCourier.Proofs.Writer.Batches

/-!
How a writer packs its documents. As long as each document that it places goes to the slot where some are pending
already, no other slot has any, and a slot is flushed when its batch is full. A step of a call keeps to that,
whatever becomes of the flush, and by load it does so of its own accord.
-/

namespace ForestCourier.Writer

variable {σ : Type}

def Work.held : Work → Option (Nat × Content)
  | pushing i content => some (i, content)
  | _ => none

theorem Work.held_inquired (uri : Uri) (content : Content) (partition : String)
    (outcome : Except TransferError Unit ⊕ Inquiry) : (inquired uri content partition outcome).held = none := by
  rcases outcome with (e | u) | next
  · rfl
  · rfl
  · rfl

theorem Work.held_placed (content : Content) (r : Except (Fault TransferError) Nat) :
    (placed content r).held = r.toOption.map (·, content) := by cases r <;> rfl

def Hand.placed? (srv : Server σ) (hand : Hand) (site : Site σ) : Option (Nat × Content) := (hand.go srv site).1.work.held

theorem Hand.held_received (srv : Server σ) (files : FileStore) (uri : Uri) (source : Option Source)
    (payload : Payload) (w : Writer) (site : Site σ) :
    (received srv files uri source payload w site).1.work.held =
      match (w.receive srv files uri source payload site).1 with
      | .ok (.placed i content) => some (i, content)
      | _ => none := by
  unfold received
  split
  · next hr => rw [hr]; rfl
  · next hr => rw [hr]; rfl
  · next hr => rw [hr]; rfl

/-- What a call is at goes with whether its writer is closed. By load no document waits for a partition. -/
def Work.Suits (kind : Placement.Kind) (closed : Bool) (i : Nat) : Work → Prop
  | pushing j _ => j = i ∧ closed = false
  | inquiring .. | placing .. => kind ≠ .statistical ∧ closed = false
  | draining _ => closed = true
  | _ => True

/-- A writer that has placed these documents and flushed them in batches of `b`, as they came. What is left over is
pending on slot `i`, which by load is the one that fills up. -/
structure Packs (kind : Placement.Kind) (b : Nat) (placed : List (Nat × Content)) (flushed : List (Flush σ))
    (hand : Hand) (i : Nat) (rest : List Content) : Prop where
  size : max 1 hand.writer.terms.batchSize.toNat = b
  fastLoad : hand.writer.fastLoad = true
  pending : hand.writer.pendingAt = lone i rest
  room : rest.length < b
  dispatched : Dispatched b placed flushed hand.writer.closed (rest.map (i, ·) ++ hand.work.held.toList)
  suits : hand.work.Suits kind hand.writer.closed i
  filling : kind = .statistical →
    hand.writer.filling = some i ∨ hand.writer.filling = none ∧ rest = [] ∧ hand.work.held = none

theorem Work.Suits.inquired {kind : Placement.Kind} {closed : Bool} {i : Nat} {uri : Uri} {content : Content}
    {partition : String} (h : kind ≠ .statistical ∧ closed = false) (outcome : Except TransferError Unit ⊕ Inquiry) :
    (Work.inquired uri content partition outcome).Suits kind closed i := by
  rcases outcome with (e | u) | next
  · trivial
  · exact h
  · exact h

namespace Packs

variable {kind : Placement.Kind} {b : Nat} {placed : List (Nat × Content)} {flushed : List (Flush σ)}
  {w w' : Writer} {work : Work} {i : Nat} {rest : List Content}

theorem new {config : Config.Output} {m : Placement.Manager} {task : Nat}
    (hw : Writer.new config true m task = .ok w) (i : Nat) :
    Packs kind (max 1 config.batchSize.toNat) [] ([] : List (Flush σ)) ⟨w, .idle⟩ i [] := by
  obtain ⟨-, -, -, hfast, hfilling, -⟩ := new_cases hw
  refine ⟨?_, hfast, pendingAt_new hw i, Nat.lt_of_lt_of_le Nat.one_pos (Nat.le_max_left ..), .nil _ _, trivial,
    fun _ => .inr ⟨hfilling, rfl, rfl⟩⟩
  rw [(new_terms hw).2]

theorem begin (h : Packs kind b placed flushed ⟨w, .idle⟩ i rest) (call : Call) :
    Packs kind b placed flushed (call.begin w) i rest := by
  cases call with
  | write files uri source payload =>
    exact ⟨h.size, h.fastLoad, h.pending, h.room, h.dispatched, trivial, h.filling⟩
  | close =>
    dsimp only [Call.begin]
    split
    · exact h
    · exact ⟨h.size, h.fastLoad, h.pending, h.room, h.dispatched.close, rfl, h.filling⟩

/-- The writer may change in what is of no account here. -/
theorem of_same (h : Packs kind b placed flushed ⟨w, work⟩ i rest) (hterms : w'.terms = w.terms)
    (hfast : w'.fastLoad = w.fastLoad) (hpending : w'.pendingAt = w.pendingAt) (hclosed : w'.closed = w.closed)
    (hfilling : kind = .statistical → w'.filling = w.filling) : Packs kind b placed flushed ⟨w', work⟩ i rest where
  size := hterms ▸ h.size
  fastLoad := hfast.trans h.fastLoad
  pending := hpending.trans h.pending
  room := h.room
  dispatched := hclosed.symm ▸ h.dispatched
  suits := hclosed.symm ▸ h.suits
  filling hload := (hfilling hload).symm ▸ h.filling hload

theorem onward {work' : Work} (h : Packs kind b placed flushed ⟨w, work⟩ i rest) (hheld : work.held = none)
    (hheld' : work'.held = none) (hsuits : work'.Suits kind w.closed i) : Packs kind b placed flushed ⟨w, work'⟩ i rest where
  size := h.size
  fastLoad := h.fastLoad
  pending := h.pending
  room := h.room
  dispatched := hheld'.symm ▸ hheld ▸ h.dispatched
  suits := hsuits
  filling hload := (h.filling hload).imp_right fun hnone => ⟨hnone.1, hnone.2.1, hheld'⟩

/-- A document that is placed is held. It goes where documents are pending already, or nowhere are any. -/
theorem hold (h : Packs kind b placed flushed ⟨w, work⟩ i rest) (hheld : work.held = none) (hfound : Found w w')
    (hopen : w.closed = false) {j : Nat} (content : Content) (hj : rest ≠ [] → j = i)
    (hfilling : kind = .statistical → w'.filling = some j) :
    Packs kind b (placed ++ [(j, content)]) flushed ⟨w', .pushing j content⟩ j rest := by
  have hsame : rest.map (i, ·) = rest.map (j, ·) ∧ lone i rest = lone j rest := by
    cases rest with
    | nil => exact ⟨rfl, (lone_nil i).trans (lone_nil j).symm⟩
    | cons first rest =>
      rw [hj (List.cons_ne_nil first rest)]
      exact ⟨rfl, rfl⟩
  have hpending : w.pendingAt = lone i rest := h.pending
  have hdispatched := h.dispatched
  rw [show (Hand.mk w work).writer.closed = false from hopen, hheld, Option.toList_none, List.append_nil] at hdispatched
  refine ⟨hfound.terms ▸ h.size, hfound.fastLoad.trans h.fastLoad, ?_, h.room, ?_, ⟨rfl, hfound.closed.trans hopen⟩,
    fun hload => .inl (hfilling hload)⟩
  · rw [pendingAt_found hfound, hpending, hsame.2]
  · rw [show (Hand.mk w' _).writer.closed = false from hfound.closed.trans hopen, ← hsame.1]
    exact hdispatched.place (j, content)

theorem opened {hand : Hand} (h : Packs kind b placed flushed hand i rest) {srv : Server σ} {site : Site σ}
    {d : Nat × Content} (hd : hand.placed? srv site = some d) :
    hand.writer.closed = false ∧ hand.work.held = none := by
  obtain ⟨w, work⟩ := hand
  cases work with
  | receiving files uri source payload =>
    refine ⟨Bool.eq_false_iff.mpr fun hclosed => ?_, rfl⟩
    have hresolved : w.unresolved? files uri source payload site.manager = none :=
      if_pos (by rw [show w.closed = true from hclosed]; rfl)
    rw [Hand.placed?, Hand.go_resolved srv hresolved, Hand.held_received, receive_closed hclosed] at hd
    cases hd
  | placing => exact ⟨h.suits.2, rfl⟩
  | inquiring uri content partition inquiry => cases (Work.held_inquired uri content partition _).symm.trans hd
  | idle | pushing => cases hd
  | draining is =>
    cases is with
    | nil => cases hd
    | cons i is =>
      dsimp only [Hand.placed?, Hand.go] at hd
      split at hd <;> cases hd

theorem receiving (srv : Server σ) {files : FileStore} {uri : Uri} {source : Option Source} {payload : Payload}
    {site : Site σ} (h : Packs kind b placed flushed ⟨w, .receiving files uri source payload⟩ i rest)
    (hkind : site.manager.kind = kind) (hsteady : kind ≠ .statistical → ∀ d,
      Hand.placed? srv ⟨w, .receiving files uri source payload⟩ site = some d → rest ≠ [] → d.1 = i) :
    let before := Hand.mk w (.receiving files uri source payload)
    ∃ i', Packs kind b (placed ++ (before.placed? srv site).toList) flushed (before.go srv site).1 i' rest := by
  intro before
  cases hlookup : w.unresolved? files uri source payload site.manager with
  | some missing =>
    obtain ⟨hopen, -, hpartitioned, -⟩ := unresolved?_eq_some.mp hlookup
    refine ⟨i, ?_⟩
    rw [Hand.placed?, Hand.go_unresolved srv hlookup, show (Work.inquiring ..).held = none from rfl, Option.toList_none,
      List.append_nil]
    exact h.onward rfl rfl ⟨hkind ▸ Placement.Kind.ne_statistical hpartitioned, hopen⟩
  | none =>
    have hfound := found_receive srv files uri source payload w site
    have hload (hstat : kind = .statistical) :=
      receive_by_load srv files uri source payload h.fastLoad (hkind.trans hstat)
    have hclosed (h : w.closed = true) := receive_closed h srv files uri source payload site
    rw [Hand.placed?, Hand.go_resolved srv hlookup, Hand.received] at hsteady
    rw [Hand.placed?, Hand.go_resolved srv hlookup, Hand.received]
    cases hr : w.receive srv files uri source payload site with
    | mk r state =>
      obtain ⟨w₁, site₁⟩ := state
      rw [hr] at hfound hload hclosed hsteady
      -- Where nothing is placed, by load the slot that fills up is as before.
      have hkept (hnone : ∀ j content, r ≠ .ok (.placed j content)) :
          Packs kind b placed flushed ⟨w₁, .idle⟩ i rest := by
        have hsame : kind = .statistical → w₁.filling = w.filling := fun hstat => by
          obtain ⟨j, content, hplaced, -⟩ | ⟨-, hfilling⟩ := hload hstat
          · exact absurd hplaced (hnone j content)
          · exact hfilling
        have hwriter := h.of_same hfound.terms hfound.fastLoad (pendingAt_found hfound) hfound.closed hsame
        exact hwriter.onward rfl rfl trivial
      cases r with
      | error fault =>
        refine ⟨i, ?_⟩
        exact (List.append_nil placed).symm ▸ hkept fun _ _ h => by cases h
      | ok receipt =>
        cases receipt with
        | skipped e =>
          refine ⟨i, ?_⟩
          have hskipped : Packs kind b placed flushed ⟨(w₁.skip source e site₁).2.1, .idle⟩ i rest :=
            (hkept fun _ _ h => by cases h).of_same rfl rfl rfl rfl fun _ => rfl
          exact (List.append_nil placed).symm ▸ hskipped
        | placed j content =>
          have hopen : w.closed = false := Bool.eq_false_iff.mpr fun h => by cases hclosed h
          have hfilling (hstat : kind = .statistical) :
              w₁.filling = some j ∧ (w.filling = none ∨ w.filling = some j) := by
            obtain ⟨k, content', hplaced, hfilling⟩ | ⟨hnone, -⟩ := hload hstat
            · cases hplaced
              exact hfilling
            · exact absurd rfl (hnone j content)
          refine ⟨j, h.hold rfl hfound hopen content (fun hrest => ?_) fun hstat => (hfilling hstat).1⟩
          by_cases hstat : kind = .statistical
          · obtain hi | ⟨-, hnil, -⟩ := h.filling hstat
            · obtain hnone | hj := (hfilling hstat).2
              · cases hnone.symm.trans hi
              · exact Option.some.inj (hj.symm.trans hi)
            · exact absurd hnil hrest
          · exact hsteady hstat (j, content) rfl hrest

theorem placing (srv : Server σ) {uri : Uri} {content : Content} {site : Site σ}
    (h : Packs kind b placed flushed ⟨w, .placing uri content⟩ i rest)
    (hsteady : ∀ d, Hand.placed? srv ⟨w, .placing uri content⟩ site = some d → rest ≠ [] → d.1 = i) :
    let before := Hand.mk w (.placing uri content)
    ∃ i', Packs kind b (placed ++ (before.placed? srv site).toList) flushed (before.go srv site).1 i' rest := by
  obtain ⟨hkind, hopen⟩ := h.suits
  dsimp only [Hand.placed?, Hand.go] at hsteady ⊢
  cases hp : (w.place uri site).1 with
  | error fault =>
    refine ⟨i, ?_⟩
    exact (List.append_nil placed).symm ▸ h.onward rfl rfl trivial
  | ok j =>
    rw [hp] at hsteady
    exact ⟨j, h.hold rfl (.refl w) hopen content (hsteady _ rfl) fun hstat => absurd hstat hkind⟩

theorem pushed (srv : Server σ) {j : Nat} {content : Content} (site : Site σ)
    (h : Packs kind b placed flushed ⟨w, .pushing j content⟩ i rest) (hlt : j < w.slots.length) :
    let before := Hand.mk w (.pushing j content)
    ∃ rest', Packs kind b placed (flushed ++ (before.flush? site).toList) (before.go srv site).1 i rest' := by
  obtain ⟨rfl, hopen⟩ : j = i ∧ w.closed = false := h.suits
  have hbeside := beside_gather j content w
  have hpending : (w.gather j content).pendingAt = lone j (rest ++ [content]) := by
    rw [pendingAt_gather hlt, h.pending, lone_self, update_lone]
  have hdispatched : Dispatched b placed flushed w.closed ((rest ++ [content]).map (j, ·)) := by
    rw [List.map_append]
    exact h.dispatched
  have hfilling (hstat : kind = .statistical) : w.filling = some j :=
    (h.filling hstat).resolve_right fun hnone => by cases hnone.2.2
  have hlength : (rest ++ [content]).length = rest.length + 1 := List.length_append
  have hroom := h.room
  have hsize : max 1 w.terms.batchSize.toNat = b := h.size
  have hfull := isFull_gather hlt content
  rw [show w.pendingAt = _ from h.pending, lone_self] at hfull
  dsimp only [Hand.flush?, Hand.go, push]
  by_cases hf : (w.gather j content).isFull j = true
  · have hflushed := hbeside.trans (beside_flush srv j false (w.gather j content) site)
    have hbatch : (Flush.mk j false (w.gather j content) site).batch = rest ++ [content] := by
      rw [Flush.batch, hpending, lone_self]
    rw [if_pos hf, if_pos hf, Option.toList_some]
    refine ⟨[], hflushed.terms ▸ h.size, hflushed.fastLoad.trans h.fastLoad, ?_, Nat.zero_lt_of_lt hroom, ?_, trivial,
      fun hstat => .inr ⟨?_, rfl, rfl⟩⟩
    · rw [pendingAt_flush, hpending, update_lone]
    · refine hflushed.closed.symm ▸ hdispatched.flush (congrArg _ hbatch) ?_ (fun _ => ?_) nofun
      · exact hbatch ▸ List.append_ne_nil_of_right_ne_nil rest (List.cons_ne_nil content [])
      · rw [hbatch]
        have := hfull.mp hf
        omega
    · rw [filling_flush srv false site (hbeside.length.symm ▸ hlt)]
      exact if_pos (hfilling hstat)
  · rw [if_neg hf, if_neg hf, Option.toList_none, List.append_nil]
    refine ⟨rest ++ [content], h.size, h.fastLoad, hpending, ?_, ?_, trivial, fun hstat => .inl (hfilling hstat)⟩
    · have := mt hfull.mpr hf
      omega
    · exact (List.append_nil _).symm ▸ hdispatched

theorem drained (srv : Server σ) (j : Nat) {js : List Nat} (site : Site σ)
    (h : Packs kind b placed flushed ⟨w, .draining js⟩ i rest) :
    ∃ rest', Packs kind b placed (flushed ++ if w.isBusy j then [⟨j, true, w, site⟩] else [])
      ⟨(w.drainSlot srv j site).2.1, .draining js⟩ i rest' := by
  have hbeside := beside_drainSlot srv j w site
  obtain ⟨hpending, hfilling⟩ := drainSlot_flush srv j w site
  cases hbusy : w.isBusy j with
  | false =>
    rw [hbusy] at hpending hfilling
    refine ⟨rest, ?_⟩
    rw [if_neg Bool.false_ne_true, List.append_nil]
    exact h.of_same hbeside.terms hbeside.fastLoad hpending hbeside.closed fun _ => hfilling
  | true =>
    have hclosed : w.closed = true := h.suits
    have hlone : w.pendingAt = lone i rest := h.pending
    have hdispatched : Dispatched b placed flushed w.closed (rest.map (i, ·) ++ []) := h.dispatched
    have hbatch : (Flush.mk j true w site).batch = lone i rest j := congrFun hlone j
    rw [hbusy, if_pos rfl] at hpending hfilling
    rw [pendingAt_flush, hlone] at hpending
    rw [filling_flush srv true site (isBusy_lt hbusy)] at hfilling
    rw [if_pos rfl]
    by_cases hnil : lone i rest j = []
    · refine ⟨rest, hbeside.terms ▸ h.size, hbeside.fastLoad.trans h.fastLoad, ?_, h.room, ?_,
        hbeside.closed.trans hclosed, fun hstat => ?_⟩
      · rw [hpending, update_lone_of_nil hnil]
      · exact hbeside.closed.symm ▸ hdispatched.flush_nil (hbatch.trans hnil) rfl
      · rw [hfilling]
        refine (leave_filling j ((h.filling hstat).imp_right (·.1))).imp id fun ⟨hnone, hij⟩ => ⟨hnone, ?_, rfl⟩
        obtain rfl | hnone := hij
        · exact (lone_self j rest).symm.trans hnil
        · exact ((h.filling hstat).resolve_left fun hi => by cases hnone.symm.trans hi).2.1
    · obtain rfl : j = i := by
        by_contra hji
        exact hnil (lone_of_ne hji rest)
      rw [lone_self] at hbatch hnil
      rw [List.append_nil] at hdispatched
      refine ⟨[], hbeside.terms ▸ h.size, hbeside.fastLoad.trans h.fastLoad, ?_, Nat.zero_lt_of_lt h.room, ?_,
        hbeside.closed.trans hclosed, fun hstat => .inr ⟨?_, rfl, rfl⟩⟩
      · rw [hpending, update_lone]
      · exact hbeside.closed.symm ▸ hdispatched.flush (congrArg _ hbatch) (hbatch ▸ hnil) nofun fun _ =>
          ⟨hclosed, hbatch ▸ h.room⟩
      · rw [hfilling]
        exact if_pos ((h.filling hstat).resolve_right fun hnone => hnil hnone.2.1)

/-- Any step of a call leaves the writer packing, if a document that it places goes where some are pending. By load
it does. -/
theorem go {hand : Hand} (h : Packs kind b placed flushed hand i rest) (srv : Server σ) {site : Site σ}
    (hkind : site.manager.kind = kind) (hdue : ∀ j, hand.work.due = some j → j < hand.writer.slots.length)
    (hsteady : kind ≠ .statistical → ∀ d, hand.placed? srv site = some d → rest ≠ [] → d.1 = i) :
    ∃ i' rest', Packs kind b (placed ++ (hand.placed? srv site).toList) (flushed ++ (hand.flush? site).toList)
      (hand.go srv site).1 i' rest' := by
  obtain ⟨w, work⟩ := hand
  cases work with
  | idle =>
    refine ⟨i, rest, ?_⟩
    dsimp only [Hand.placed?, Hand.flush?, Hand.go, Work.held]
    rw [Option.toList_none, Option.toList_none, List.append_nil, List.append_nil]
    exact h
  | receiving files uri source payload =>
    obtain ⟨i', hpacks⟩ := h.receiving srv hkind hsteady
    refine ⟨i', rest, ?_⟩
    dsimp only [Hand.flush?]
    rw [Option.toList_none, List.append_nil]
    exact hpacks
  | inquiring uri content partition inquiry =>
    have hheld := Work.held_inquired uri content partition (inquiry.step srv w partition site).1
    refine ⟨i, rest, ?_⟩
    dsimp only [Hand.placed?, Hand.flush?, Hand.go]
    rw [hheld, Option.toList_none, Option.toList_none, List.append_nil, List.append_nil]
    exact h.onward rfl hheld (.inquired h.suits _)
  | placing uri content =>
    obtain ⟨i', hpacks⟩ := h.placing srv (hsteady h.suits.1)
    refine ⟨i', rest, ?_⟩
    dsimp only [Hand.flush?]
    rw [Option.toList_none, List.append_nil]
    exact hpacks
  | pushing j content =>
    obtain ⟨rest', hpacks⟩ := h.pushed srv site (hdue j rfl)
    refine ⟨i, rest', ?_⟩
    rw [show Hand.placed? srv ⟨w, .pushing j content⟩ site = none from rfl, Option.toList_none, List.append_nil]
    exact hpacks
  | draining js =>
    cases js with
    | nil =>
      refine ⟨i, rest, ?_⟩
      dsimp only [Hand.placed?, Hand.flush?, Hand.go, Work.held]
      rw [Option.toList_none, Option.toList_none, List.append_nil, List.append_nil]
      exact h.onward rfl rfl trivial
    | cons j js =>
      obtain ⟨rest', hpacks⟩ := h.drained srv j site
      refine ⟨i, rest', ?_⟩
      dsimp only [Hand.placed?, Hand.flush?, Hand.go]
      rw [apply_ite Option.toList, Option.toList_some, Option.toList_none]
      cases hd : w.drainSlot srv j site with
      | mk r state =>
        rw [hd] at hpacks
        cases r with
        | error fault => exact (List.append_nil placed).symm ▸ hpacks.onward rfl rfl trivial
        | ok first => exact (List.append_nil placed).symm ▸ hpacks.onward rfl rfl hpacks.suits

theorem single {hand : Hand} (h : Packs kind b placed flushed hand i rest) {j k : Nat}
    (hj : hand.writer.pendingAt j ≠ []) (hk : hand.writer.pendingAt k ≠ []) : j = k := by
  have hat {j : Nat} (hj : hand.writer.pendingAt j ≠ []) : j = i := by
    by_contra hji
    exact hj ((congrFun h.pending j).trans (lone_of_ne hji rest))
  rw [hat hj, hat hk]

end Packs

end ForestCourier.Writer
