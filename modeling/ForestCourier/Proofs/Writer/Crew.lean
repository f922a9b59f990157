import Mathlib.Logic.Function.Iterate
import ForestCourier.Proofs.Writer.Charges
import ForestCourier.Proofs.Writer.Inquiry

/-!
Writers that share a site. Each has one call at a time, and between two steps of it the others may take
steps of their calls. A document is received, which may ask the manager for a place, before it is pushed
on its slot, and a writer that is closed drains one slot after the other. If the manager does not know
the partition of a document, then every request of the lookup is a step, and so is the placement after it:
other writers may look the partition up at the same time. A flush is one step, since what it finds of what
writers share is the answers of the server, which may be any, and it turns to the manager only after all of
them (`Hand.go_apart`). A call whose steps are not interrupted does what the call does, and a writer that
joins later is one that has been idle so far.
-/

namespace ForestCourier.Writer

open Placement (Use)

variable {σ : Type}

/-- What is left to do of a call. -/
inductive Work where
  | idle
  | receiving (files : FileStore) (uri : Uri) (source : Option Source) (payload : Payload)
  | inquiring (uri : Uri) (content : Content) (partition : String) (inquiry : Inquiry)
  | placing (uri : Uri) (content : Content)
  | pushing (slot : Nat) (content : Content)
  | draining (slots : List Nat)

/-- The slot of a document that has been placed and not been pushed. -/
def Work.due : Work → Option Nat
  | pushing i _ => some i
  | _ => none

def Work.inquired (uri : Uri) (content : Content) (partition : String) :
    Except TransferError Unit ⊕ Inquiry → Work
  | .inl (.error _) => idle
  | .inl (.ok ()) => placing uri content
  | .inr next => inquiring uri content partition next

def Work.placed (content : Content) : Except (Fault TransferError) Nat → Work
  | .error _ => idle
  | .ok i => pushing i content

theorem Work.due_inquired (uri : Uri) (content : Content) (partition : String)
    (outcome : Except TransferError Unit ⊕ Inquiry) : (inquired uri content partition outcome).due = none := by
  rcases outcome with (e | u) | next
  · rfl
  · rfl
  · rfl

theorem Work.due_placed {content : Content} {r : Except (Fault TransferError) Nat} {i : Nat} :
    (placed content r).due = some i ↔ r = .ok i := by
  cases r with
  | error fault => exact ⟨nofun, nofun⟩
  | ok j => exact ⟨fun h => congrArg _ (Option.some.inj h), fun h => congrArg _ (Except.ok.inj h)⟩

def Work.inquires : Work → Bool
  | inquiring .. => true
  | _ => false

theorem Work.inquires_ended (uri : Uri) (content : Content) (partition : String) (r : Except TransferError Unit) :
    (inquired uri content partition (.inl r)).inquires = false := by cases r <;> rfl

theorem Work.inquires_placed (content : Content) (r : Except (Fault TransferError) Nat) :
    (placed content r).inquires = false := by cases r <;> rfl

/-- A document has its content and waits until its partition is known. -/
def Work.waits : Work → Bool
  | inquiring .. | placing .. => true
  | _ => false

structure Hand where
  writer : Writer
  work : Work

def Call.begin : Call → Writer → Hand
  | write files uri source payload, w => ⟨w, .receiving files uri source payload⟩
  | close, w =>
    if w.closed then ⟨w, .idle⟩
    else ⟨{ w with closed := true }, .draining (List.range w.slots.length)⟩

theorem Call.begin_inquires (call : Call) (w : Writer) : (call.begin w).work.inquires = false := by
  cases call with
  | write files uri source payload => rfl
  | close =>
    dsimp only [begin]
    split <;> rfl

namespace Hand

def received (srv : Server σ) (files : FileStore) (uri : Uri) (source : Option Source) (payload : Payload)
    (w : Writer) (site : Site σ) : Hand × Site σ :=
  match w.receive srv files uri source payload site with
  | (.error _, w, site) => (⟨w, .idle⟩, site)
  | (.ok (.skipped e), w, site) => (⟨(w.skip source e site).2.1, .idle⟩, (w.skip source e site).2.2)
  | (.ok (.placed i content), w, site) => (⟨w, .pushing i content⟩, site)

/-- The next step of a call. An overflow abandons what is left of it. -/
def go (srv : Server σ) (hand : Hand) (site : Site σ) : Hand × Site σ :=
  match hand.work with
  | .idle => (hand, site)
  | .receiving files uri source payload =>
    match hand.writer.unresolved? files uri source payload site.manager with
    | some (content, partition) =>
      (⟨hand.writer, .inquiring (uri.wrap hand.writer.uriPrefix hand.writer.uriSuffix) content partition
        (.search hand.writer.hosts none)⟩, site)
    | none => received srv files uri source payload hand.writer site
  | .inquiring uri content partition inquiry =>
    match inquiry.step srv hand.writer partition site with
    | (outcome, site) => (⟨hand.writer, .inquired uri content partition outcome⟩, site)
  | .placing uri content =>
    match hand.writer.place uri site with
    | (r, site) => (⟨hand.writer, .placed content r⟩, site)
  | .pushing i content =>
    match hand.writer.push srv i content site with
    | (_, w, site) => (⟨w, .idle⟩, site)
  | .draining (i :: is) =>
    match hand.writer.drainSlot srv i site with
    | (.error _, w, site) => (⟨w, .idle⟩, site)
    | (.ok _, w, site) => (⟨w, .draining is⟩, site)
  | .draining [] =>
    let counters := (site.counters.addCommitted (UInt64.ofNat hand.writer.stats.succeeded)).addFailed
      (UInt64.ofNat hand.writer.stats.failed)
    (⟨hand.writer, .idle⟩, { site with counters := counters })

def deed (srv : Server σ) (hand : Hand) (site : Site σ) : Option Deed :=
  match hand.work with
  | .receiving files uri source payload =>
    if (hand.writer.unresolved? files uri source payload site.manager).isSome then none
    else hand.writer.receiveDeed srv files uri source payload site
  | .placing uri _ => hand.writer.placeDeed uri site
  | .pushing i content => hand.writer.pushDeed srv i content site
  | .draining (i :: _) => hand.writer.drainDeed srv i site
  | _ => none

section

variable (srv : Server σ) {files : FileStore} {uri : Uri} {source : Option Source} {payload : Payload} {w : Writer}
  {site : Site σ}

theorem go_unresolved {content : Content} {partition : String}
    (h : w.unresolved? files uri source payload site.manager = some (content, partition)) :
    go srv ⟨w, .receiving files uri source payload⟩ site =
      (⟨w, .inquiring (uri.wrap w.uriPrefix w.uriSuffix) content partition (.search w.hosts none)⟩, site) := by
  simp only [go, h]

theorem go_resolved (h : w.unresolved? files uri source payload site.manager = none) :
    go srv ⟨w, .receiving files uri source payload⟩ site = received srv files uri source payload w site := by
  simp only [go, h]

theorem deed_resolved (h : w.unresolved? files uri source payload site.manager = none) :
    deed srv ⟨w, .receiving files uri source payload⟩ site = w.receiveDeed srv files uri source payload site := by
  simp only [deed, h, Option.isSome_none, Bool.false_eq_true, if_false]

end

theorem received_induction {P : Writer → Site σ → Prop} {srv : Server σ} {files : FileStore} {uri : Uri}
    {source : Option Source} {payload : Payload} {w : Writer} {site : Site σ}
    (h : P (w.receive srv files uri source payload site).2.1 (w.receive srv files uri source payload site).2.2)
    (hskip : ∀ e w site, P w site → P (w.skip source e site).2.1 (w.skip source e site).2.2) :
    P (received srv files uri source payload w site).1.writer (received srv files uri source payload w site).2 := by
  unfold received
  split
  · next hr => rwa [hr] at h
  · next hr =>
    rw [hr] at h
    exact hskip _ _ _ h
  · next hr => rwa [hr] at h

theorem go_draining (srv : Server σ) (w : Writer) (i : Nat) (is : List Nat) (site : Site σ) :
    (go srv ⟨w, .draining (i :: is)⟩ site).1.writer = (w.drainSlot srv i site).2.1 ∧
      (go srv ⟨w, .draining (i :: is)⟩ site).2 = (w.drainSlot srv i site).2.2 := by
  dsimp only [go]
  split
  · next hd => exact ⟨by rw [hd], by rw [hd]⟩
  · next hd => exact ⟨by rw [hd], by rw [hd]⟩

/-- What a document that is received, passed over or pushed and a slot that is drained leave to a writer,
every step does. -/
theorem go_keeps {P : Writer → Prop} {srv : Server σ}
    (receive : ∀ files uri source payload w site, P w → P (w.receive srv files uri source payload site).2.1)
    (skip : ∀ w, P w → P { w with stats := { w.stats with failed := w.stats.failed + 1 } })
    (push : ∀ i content w site, P w → P (w.push srv i content site).2.1)
    (drainSlot : ∀ i w site, P w → P (w.drainSlot srv i site).2.1)
    {hand : Hand} (h : P hand.writer) (site : Site σ) : P (hand.go srv site).1.writer := by
  obtain ⟨w, work⟩ := hand
  cases work with
  | idle => exact h
  | receiving files uri source payload =>
    dsimp only [go]
    split
    · exact h
    · exact received_induction (P := fun w _ => P w) (receive files uri source payload w site h)
        fun _ w _ => skip w
  | inquiring uri content partition inquiry => exact h
  | placing uri content => exact h
  | pushing i content => exact push i content w site h
  | draining is =>
    cases is with
    | nil => exact h
    | cons i is =>
      rw [(go_draining srv w i is site).1]
      exact drainSlot i w site h

def goes (srv : Server σ) (n : Nat) (hand : Hand) (site : Site σ) : Hand × Site σ :=
  (fun state : Hand × Site σ => state.1.go srv state.2)^[n] (hand, site)

theorem goes_succ (srv : Server σ) (n : Nat) (hand : Hand) (site : Site σ) :
    hand.goes srv (n + 1) site = (hand.go srv site).1.goes srv n (hand.go srv site).2 :=
  Function.iterate_succ_apply ..

theorem goes_add (srv : Server σ) (n n' : Nat) (hand : Hand) (site : Site σ) :
    hand.goes srv (n + n') site = (hand.goes srv n site).1.goes srv n' (hand.goes srv n site).2 := by
  rw [Nat.add_comm]
  exact Function.iterate_add_apply ..

end Hand

/-- Writers at work on one site. -/
structure Crew (σ : Type) where
  hands : List Hand
  site : Site σ
  /-- What each writer has done, newest first; the writers do not see it. -/
  deeds : List (Nat × Deed)

inductive Move where
  | call (call : Call)
  | go

namespace Crew

def start (writers : List Writer) (site : Site σ) : Crew σ := ⟨writers.map (⟨·, .idle⟩), site, []⟩

/-- A move of one writer: it takes a call, if it has none, or goes on with the one it has. -/
def step (srv : Server σ) (crew : Crew σ) (move : Nat × Move) : Crew σ :=
  match crew.hands[move.1]? with
  | none => crew
  | some hand =>
    match move.2 with
    | .call call =>
      match hand.work with
      | .idle => { crew with hands := crew.hands.set move.1 (call.begin hand.writer) }
      | _ => crew
    | .go =>
      { hands := crew.hands.set move.1 (hand.go srv crew.site).1
        site := (hand.go srv crew.site).2
        deeds := ((hand.deed srv crew.site).map fun deed => (move.1, deed)).toList ++ crew.deeds }

def run (srv : Server σ) (moves : List (Nat × Move)) (crew : Crew σ) : Crew σ :=
  moves.foldl (step srv) crew

theorem run_concat (srv : Server σ) (moves : List (Nat × Move)) (move : Nat × Move) (crew : Crew σ) :
    crew.run srv (moves ++ [move]) = (crew.run srv moves).step srv move := List.foldl_concat ..

theorem run_induction {P : Crew σ → Prop} {srv : Server σ} {crew : Crew σ} (h : P crew)
    (hstep : ∀ crew move, P crew → P (crew.step srv move)) (moves : List (Nat × Move)) :
    P (crew.run srv moves) := by
  unfold run
  induction moves generalizing crew with
  | nil => exact h
  | cons move moves ih => exact ih (hstep crew move h)

theorem step_call (srv : Server σ) {crew : Crew σ} {k : Nat} {w : Writer}
    (hk : crew.hands[k]? = some ⟨w, .idle⟩) (call : Call) :
    crew.step srv (k, .call call) = { crew with hands := crew.hands.set k (call.begin w) } := by
  rw [step, hk]

theorem step_go (srv : Server σ) {crew : Crew σ} {k : Nat} {hand : Hand} (hk : crew.hands[k]? = some hand) :
    crew.step srv (k, .go) =
      { hands := crew.hands.set k (hand.go srv crew.site).1
        site := (hand.go srv crew.site).2
        deeds := ((hand.deed srv crew.site).map fun deed => (k, deed)).toList ++ crew.deeds } := by
  rw [step, hk]

/-- A move changes nothing, begins a call of a writer that has none, or makes the next step of one. -/
theorem step_cases (srv : Server σ) (crew : Crew σ) (move : Nat × Move) :
    (crew.step srv move = crew ∧ (move.2 = .go → crew.hands[move.1]? = none)) ∨
    (∃ w call, move.2 = .call call ∧ crew.hands[move.1]? = some ⟨w, .idle⟩ ∧
      crew.step srv move = { crew with hands := crew.hands.set move.1 (call.begin w) }) ∨
    ∃ hand, move.2 = .go ∧ crew.hands[move.1]? = some hand ∧
      crew.step srv move =
        { hands := crew.hands.set move.1 (hand.go srv crew.site).1
          site := (hand.go srv crew.site).2
          deeds := ((hand.deed srv crew.site).map fun deed => (move.1, deed)).toList ++ crew.deeds } := by
  obtain ⟨k, move⟩ := move
  cases hk : crew.hands[k]? with
  | none => exact .inl ⟨by rw [step, hk], fun _ => rfl⟩
  | some hand =>
    cases move with
    | go => exact .inr (.inr ⟨hand, rfl, rfl, step_go srv hk⟩)
    | call call =>
      obtain ⟨w, work⟩ := hand
      cases work with
      | idle => exact .inr (.inl ⟨w, call, rfl, rfl, step_call srv hk call⟩)
      | receiving | inquiring | placing | pushing | draining => exact .inl ⟨by rw [step, hk], fun hgo => by cases hgo⟩

theorem set_cases {hands : List Hand} {j k : Nat} {hand hand' : Hand} (h : (hands.set j hand)[k]? = some hand') :
    k = j ∧ hand' = hand ∨ j ≠ k ∧ hands[k]? = some hand' := by
  rw [List.getElem?_set] at h
  split at h
  · next hjk =>
    split at h
    · exact .inl ⟨hjk.symm, (Option.some.inj h).symm⟩
    · cases h
  · next hjk => exact .inr ⟨hjk, h⟩

/-- What a call leaves to its writer when it begins and at its next step, a move leaves to all writers. -/
theorem step_keeps {P : Nat → Writer → Prop} {srv : Server σ} {crew : Crew σ} {move : Nat × Move}
    (h : ∀ k hand, crew.hands[k]? = some hand → P k hand.writer)
    (close : ∀ k w, P k w → P k { w with closed := true })
    (go : ∀ hand, move.2 = .go → crew.hands[move.1]? = some hand → P move.1 (hand.go srv crew.site).1.writer) :
    ∀ k hand, (crew.step srv move).hands[k]? = some hand → P k hand.writer := by
  have hset {hand : Hand} (hhand : P move.1 hand.writer) :
      ∀ k hand', (crew.hands.set move.1 hand)[k]? = some hand' → P k hand'.writer := by
    intro k hand' hk
    obtain ⟨rfl, rfl⟩ | ⟨-, hk⟩ := set_cases hk
    · exact hhand
    · exact h k hand' hk
  obtain ⟨hstep, -⟩ | ⟨w, call, -, hk, hstep⟩ | ⟨hand, hgo, hk, hstep⟩ := step_cases srv crew move
  · rw [hstep]
    exact h
  · have hw := h _ _ hk
    rw [hstep]
    cases call with
    | write files uri source payload => exact hset hw
    | close =>
      dsimp only [Call.begin]
      split
      · exact hset hw
      · exact hset (close _ w hw)
  · rw [hstep]
    exact hset (go hand hgo hk)

theorem length_step (srv : Server σ) (crew : Crew σ) (move : Nat × Move) :
    (crew.step srv move).hands.length = crew.hands.length := by
  obtain ⟨hstep, -⟩ | ⟨_, _, -, -, hstep⟩ | ⟨_, -, -, hstep⟩ := step_cases srv crew move
  · rw [hstep]
  · rw [hstep]
    exact List.length_set
  · rw [hstep]
    exact List.length_set

theorem length_run (srv : Server σ) (moves : List (Nat × Move)) (crew : Crew σ) :
    (crew.run srv moves).hands.length = crew.hands.length :=
  run_induction (P := fun crew' => crew'.hands.length = crew.hands.length) rfl
    (fun crew' move h => (length_step srv crew' move).trans h) moves

theorem run_goes (srv : Server σ) (n : Nat) {crew : Crew σ} {k : Nat} {hand : Hand}
    (hk : crew.hands[k]? = some hand) :
    (crew.run srv (List.replicate n (k, .go))).hands = crew.hands.set k (hand.goes srv n crew.site).1 ∧
      (crew.run srv (List.replicate n (k, .go))).site = (hand.goes srv n crew.site).2 := by
  induction n generalizing crew hand with
  | zero =>
    obtain ⟨hlt, rfl⟩ := List.getElem?_eq_some_iff.mp hk
    exact ⟨(List.set_getElem_self hlt).symm, rfl⟩
  | succ n ih =>
    have hlt : k < crew.hands.length := (List.getElem?_eq_some_iff.mp hk).1
    have hrun : crew.run srv (List.replicate (n + 1) (k, .go)) =
        (crew.step srv (k, .go)).run srv (List.replicate n (k, .go)) := rfl
    have hnext : (crew.step srv (k, .go)).hands[k]? = some (hand.go srv crew.site).1 := by
      rw [step_go srv hk]
      exact List.getElem?_set_self hlt
    obtain ⟨hhands, hsite⟩ := ih hnext
    rw [hrun, Hand.goes_succ, hhands, hsite, step_go srv hk]
    exact ⟨List.set_set .., rfl⟩

end Crew

theorem Hand.goes_inquire (srv : Server σ) (w : Writer) (uri : Uri) (content : Content) (partition : String)
    (inquiry : Inquiry) (site : Site σ) :
    ∃ n, (Hand.mk w (.inquiring uri content partition inquiry)).goes srv n site =
      (⟨w, .inquired uri content partition (.inl (inquiry.result srv w partition site).1)⟩,
        (inquiry.result srv w partition site).2) := by
  induction hleft : inquiry.left using Nat.strongRecOn generalizing inquiry site with
  | ind left ih =>
    have hgo : (Hand.mk w (.inquiring uri content partition inquiry)).go srv site =
        (⟨w, .inquired uri content partition (inquiry.step srv w partition site).1⟩,
          (inquiry.step srv w partition site).2) := rfl
    have hresult := inquiry.result_step srv w partition site
    cases hnext : (inquiry.step srv w partition site).1 with
    | inl r =>
      rw [hnext] at hgo hresult
      refine ⟨1, ?_⟩
      rw [goes_succ, hgo, hresult]
      rfl
    | inr next =>
      rw [hnext] at hgo hresult
      obtain ⟨n, hn⟩ := ih next.left (hleft ▸ Inquiry.left_step hnext) next (inquiry.step srv w partition site).2 rfl
      refine ⟨n + 1, ?_⟩
      rw [goes_succ, hgo, hresult]
      exact hn

theorem Hand.goes_drain (srv : Server σ) (is : List Nat) (w : Writer) (site : Site σ) :
    ∃ n, (Hand.mk w (.draining is)).goes srv n site =
      match drain srv is w site with
      | (.error _, w', site') => (⟨w', .idle⟩, site')
      | (.ok _, w', site') => (⟨w', .idle⟩, { site' with
          counters := (site'.counters.addCommitted (UInt64.ofNat w'.stats.succeeded)).addFailed
            (UInt64.ofNat w'.stats.failed) }) := by
  induction is generalizing w site with
  | nil => exact ⟨1, rfl⟩
  | cons i is ih =>
    cases hd : w.drainSlot srv i site with
    | mk result state =>
      obtain ⟨w₁, site₁⟩ := state
      cases result with
      | error fault =>
        refine ⟨1, ?_⟩
        rw [drain_cons_error hd]
        simp [Hand.goes, Hand.go, hd]
      | ok first =>
        obtain ⟨n, hn⟩ := ih w₁ site₁
        have hgo : (Hand.mk w (.draining (i :: is))).go srv site = (⟨w₁, .draining is⟩, site₁) := by
          simp [Hand.go, hd]
        refine ⟨n + 1, ?_⟩
        rw [Hand.goes_succ, hgo, hn, drain, hd]
        dsimp only
        cases drain srv is w₁ site₁ with
        | mk later state => cases later <;> rfl

theorem Hand.goes_receive (srv : Server σ) (files : FileStore) (uri : Uri) (source : Option Source)
    (payload : Payload) (w : Writer) (site : Site σ) :
    ∃ n, (Hand.mk w (.receiving files uri source payload)).goes srv n site =
      received srv files uri source payload w site := by
  cases hlookup : w.unresolved? files uri source payload site.manager with
  | none =>
    refine ⟨1, ?_⟩
    rw [goes_succ, go_resolved srv hlookup]
    rfl
  | some missing =>
    obtain ⟨content, partition⟩ := missing
    obtain ⟨n, hn⟩ := goes_inquire srv w (uri.wrap w.uriPrefix w.uriSuffix) content partition (.search w.hosts none) site
    have hreceive := receive_unresolved srv hlookup
    have hgo := go_unresolved srv hlookup
    cases hr : (Inquiry.search w.hosts none).result srv w partition site with
    | mk r site₁ =>
      rw [hr] at hn hreceive
      cases r with
      | error e =>
        refine ⟨n + 1, ?_⟩
        rw [goes_succ, hgo, hn, received, hreceive]
        rfl
      | ok u =>
        refine ⟨n + 1 + 1, ?_⟩
        rw [goes_succ, hgo, goes_add, hn, received, hreceive]
        dsimp only
        cases hp : w.place (uri.wrap w.uriPrefix w.uriSuffix) site₁ with
        | mk placed site₂ =>
          have hplaced : (Hand.mk w (.placing (uri.wrap w.uriPrefix w.uriSuffix) content)).go srv site₁ =
              (⟨w, .placed content placed⟩, site₂) := by simp only [go, hp]
          refine hplaced.trans ?_
          cases placed <;> rfl

/-- A call whose steps are not interrupted does what the call does. -/
theorem Call.goes_begin (srv : Server σ) (call : Call) (w : Writer) (site : Site σ) :
    ∃ n, (call.begin w).goes srv n site =
      (⟨(call.run srv w site).2.1, .idle⟩, (call.run srv w site).2.2) := by
  cases call with
  | write files uri source payload =>
    obtain ⟨n, hn⟩ := Hand.goes_receive srv files uri source payload w site
    dsimp only [Call.run, Call.begin]
    obtain ⟨fault, w₁, site₁, hr, hw⟩ | ⟨e, w₁, site₁, hr, hw⟩ | ⟨i, content, w₁, site₁, hr, hw⟩ :=
      write_cases srv files uri source payload w site
    · exact ⟨n, by rw [hn, hw, Hand.received, hr]⟩
    · exact ⟨n, by rw [hn, hw, Hand.received, hr]⟩
    · refine ⟨n + 1, ?_⟩
      rw [Hand.goes_add, hn, hw, Hand.received, hr]
      rfl
  | close =>
    dsimp only [Call.run, Call.begin]
    unfold Writer.close
    split
    · exact ⟨0, rfl⟩
    · obtain ⟨n, hn⟩ := Hand.goes_drain srv (List.range w.slots.length) { w with closed := true } site
      refine ⟨n, hn.trans ?_⟩
      cases drain srv (List.range w.slots.length) { w with closed := true } site with
      | mk result state =>
        cases result with
        | error fault => rfl
        | ok first => rfl

theorem Crew.run_begin (srv : Server σ) {crew : Crew σ} {k : Nat} {w : Writer}
    (hk : crew.hands[k]? = some ⟨w, .idle⟩) (call : Call) (n : Nat) :
    (crew.run srv ((k, .call call) :: List.replicate n (k, .go))).hands =
        crew.hands.set k ((call.begin w).goes srv n crew.site).1 ∧
      (crew.run srv ((k, .call call) :: List.replicate n (k, .go))).site =
        ((call.begin w).goes srv n crew.site).2 := by
  have hlt : k < crew.hands.length := (List.getElem?_eq_some_iff.mp hk).1
  have hrun : crew.run srv ((k, .call call) :: List.replicate n (k, .go)) =
      (crew.step srv (k, .call call)).run srv (List.replicate n (k, .go)) := rfl
  have hbegun : (crew.step srv (k, .call call)).hands[k]? = some (call.begin w) := by
    rw [step_call srv hk]
    exact List.getElem?_set_self hlt
  obtain ⟨hhands, hsite⟩ := run_goes srv n hbegun
  rw [hrun, hhands, hsite, step_call srv hk]
  exact ⟨List.set_set .., rfl⟩

theorem Crew.run_call (srv : Server σ) {crew : Crew σ} {k : Nat} {w : Writer}
    (hk : crew.hands[k]? = some ⟨w, .idle⟩) (call : Call) :
    ∃ n, (crew.run srv ((k, .call call) :: List.replicate n (k, .go))).hands =
        crew.hands.set k ⟨(call.run srv w crew.site).2.1, .idle⟩ ∧
      (crew.run srv ((k, .call call) :: List.replicate n (k, .go))).site =
        (call.run srv w crew.site).2.2 := by
  obtain ⟨n, hn⟩ := call.goes_begin srv w crew.site
  have hbegun := run_begin srv hk call n
  rw [hn] at hbegun
  exact ⟨n, hbegun⟩

/-- What happens to a crew next: one of its writers makes a move, or somebody else turns to the manager. -/
inductive Turn where
  | move (writer : Nat) (move : Move)
  | use (use : Use)

namespace Crew

def turn (srv : Server σ) (crew : Crew σ) : Turn → Crew σ
  | .move k move => crew.step srv (k, move)
  | .use use => { crew with site := { crew.site with manager := crew.site.manager.use use } }

def play (srv : Server σ) (turns : List Turn) (crew : Crew σ) : Crew σ := turns.foldl (turn srv) crew

theorem play_concat (srv : Server σ) (turns : List Turn) (turn : Turn) (crew : Crew σ) :
    crew.play srv (turns ++ [turn]) = (crew.play srv turns).turn srv turn := List.foldl_concat ..

def shown? {α : Type} (show? : Hand → Site σ → Option α) (k : Nat) (crew : Crew σ) : Turn → Option α
  | .move j .go => if j = k then (crew.hands[k]?).bind (show? · crew.site) else none
  | _ => none

theorem turn_eq_go {α : Type} {show? : Hand → Site σ → Option α} {k : Nat} {crew : Crew σ} {turn : Turn} {shown : α}
    (h : crew.shown? show? k turn = some shown) : turn = .move k .go := by
  unfold shown? at h
  split at h
  · split at h
    · next hk => rw [hk]
    · cases h
  · cases h

def record {α : Type} (show? : Hand → Site σ → Option α) (srv : Server σ) (k : Nat) : List Turn → Crew σ → List α
  | [], _ => []
  | turn :: turns, crew => (crew.shown? show? k turn).toList ++ record show? srv k turns (crew.turn srv turn)

theorem record_concat {α : Type} (show? : Hand → Site σ → Option α) (srv : Server σ) (k : Nat) (turns : List Turn)
    (turn : Turn) (crew : Crew σ) : crew.record show? srv k (turns ++ [turn]) =
      crew.record show? srv k turns ++ ((crew.play srv turns).shown? show? k turn).toList := by
  induction turns generalizing crew with
  | nil => exact List.append_nil _
  | cons first turns ih =>
    rw [List.cons_append, record, ih, record, List.append_assoc]
    rfl

variable {crew : Crew σ} {k : Nat} {turn : Turn}

theorem length_turn (srv : Server σ) (turn : Turn) (crew : Crew σ) :
    (crew.turn srv turn).hands.length = crew.hands.length := by
  cases turn with
  | use use => rfl
  | move k move => exact length_step srv crew (k, move)

/-- In a turn writer `k` stays as it is, takes a call, or makes the next step of the one it has. -/
theorem turn_cases (srv : Server σ) {hand : Hand} (hk : (crew.turn srv turn).hands[k]? = some hand) :
    (crew.hands[k]? = some hand ∧ ∀ {α : Type} (show? : Hand → Site σ → Option α), crew.shown? show? k turn = none) ∨
    (∃ w call, crew.hands[k]? = some ⟨w, .idle⟩ ∧ hand = Call.begin call w ∧
      ∀ {α : Type} (show? : Hand → Site σ → Option α), crew.shown? show? k turn = none) ∨
    ∃ before, crew.hands[k]? = some before ∧ hand = (before.go srv crew.site).1 ∧
      ∀ {α : Type} (show? : Hand → Site σ → Option α), crew.shown? show? k turn = show? before crew.site := by
  cases turn with
  | use use => exact .inl ⟨hk, fun _ => rfl⟩
  | move j move =>
    change (crew.step srv (j, move)).hands[k]? = some hand at hk
    obtain ⟨hstep, hnone⟩ | ⟨w, call, hcall, hj, hstep⟩ | ⟨before, hgo, hj, hstep⟩ := step_cases srv crew (j, move)
    · rw [hstep] at hk
      refine .inl ⟨hk, fun show? => ?_⟩
      cases move with
      | call call => rfl
      | go =>
        refine if_neg fun hjk => ?_
        cases (hnone rfl).symm.trans (hjk ▸ hk)
    · obtain rfl : move = .call call := hcall
      rw [hstep] at hk
      obtain ⟨rfl, rfl⟩ | ⟨-, hk⟩ := set_cases hk
      · exact .inr (.inl ⟨w, call, hj, rfl, fun _ => rfl⟩)
      · exact .inl ⟨hk, fun _ => rfl⟩
    · obtain rfl : move = .go := hgo
      rw [hstep] at hk
      obtain ⟨rfl, rfl⟩ | ⟨hjk, hk⟩ := set_cases hk
      · refine .inr (.inr ⟨before, hj, rfl, fun show? => ?_⟩)
        rw [shown?, if_pos rfl, hj]
        rfl
      · exact .inl ⟨hk, fun _ => if_neg hjk⟩

end Crew

end ForestCourier.Writer
