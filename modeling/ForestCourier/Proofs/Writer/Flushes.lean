import Mathlib.Algebra.Order.BigOperators.Group.List
import Mathlib.Algebra.Order.Group.Nat
import ForestCourier.Proofs.Writer.Crew
import ForestCourier.Proofs.Writer.Solvency
import ForestCourier.Proofs.Writer.Turns

/-!
The flushes of writers that share a manager. Whatever the writers do, and however their steps come one
after the other, each flush keeps to its schedule: it goes round the failover targets of its slot, from
where the flush before it has left off, and its result is decided by its last attempt.
-/

namespace ForestCourier.Writer

variable {σ : Type}

def Hand.flush? (hand : Hand) (site : Site σ) : Option (Flush σ) :=
  match hand.work with
  | .pushing i content =>
    if (hand.writer.gather i content).isFull i then some ⟨i, false, hand.writer.gather i content, site⟩ else none
  | .draining (i :: _) => if hand.writer.isBusy i then some ⟨i, true, hand.writer, site⟩ else none
  | _ => none

namespace Crew

def flush? (crew : Crew σ) : Nat × Move → Option (Nat × Flush σ)
  | (k, .go) => (crew.hands[k]?).bind fun hand => (hand.flush? crew.site).map (k, ·)
  | (_, .call _) => none

def flushes (srv : Server σ) : List (Nat × Move) → Crew σ → List (Nat × Flush σ)
  | [], _ => []
  | move :: moves, crew => (crew.flush? move).toList ++ flushes srv moves (crew.step srv move)

theorem flush?_eq_some {crew : Crew σ} {move : Nat × Move} {k : Nat} {f : Flush σ}
    (h : crew.flush? move = some (k, f)) :
    ∃ hand, crew.hands[k]? = some hand ∧ hand.flush? crew.site = some f ∧ move = (k, .go) := by
  obtain ⟨k', move⟩ := move
  cases move with
  | call call => cases h
  | go =>
    obtain ⟨hand, hk, hf⟩ := Option.bind_eq_some_iff.mp h
    obtain ⟨g, hg, he⟩ := Option.map_eq_some_iff.mp hf
    cases he
    exact ⟨hand, hk, hg, rfl⟩

theorem flushes_split (srv : Server σ) {moves : List (Nat × Move)} {crew : Crew σ}
    {before after : List (Nat × Flush σ)} {k : Nat} {f : Flush σ} (h : crew.flushes srv moves = before ++ (k, f) :: after) :
    ∃ (sofar later : List (Nat × Move)) (hand : Hand), moves = sofar ++ (k, .go) :: later ∧
      (crew.run srv sofar).hands[k]? = some hand ∧ hand.flush? (crew.run srv sofar).site = some f ∧
      after = ((crew.run srv sofar).step srv (k, .go)).flushes srv later := by
  induction moves generalizing crew before with
  | nil =>
    rw [flushes] at h
    exact absurd h.symm (List.append_ne_nil_of_right_ne_nil _ (List.cons_ne_nil _ _))
  | cons move moves ih =>
    have hlater {before : List (Nat × Flush σ)}
        (h : (crew.step srv move).flushes srv moves = before ++ (k, f) :: after) :
        ∃ (sofar later : List (Nat × Move)) (hand : Hand), move :: moves = sofar ++ (k, .go) :: later ∧
          (crew.run srv sofar).hands[k]? = some hand ∧ hand.flush? (crew.run srv sofar).site = some f ∧
          after = ((crew.run srv sofar).step srv (k, .go)).flushes srv later := by
      obtain ⟨sofar, later, hand, rfl, hfacts⟩ := ih h
      exact ⟨move :: sofar, later, hand, rfl, hfacts⟩
    rw [flushes] at h
    cases hmove : crew.flush? move with
    | none =>
      rw [hmove] at h
      exact hlater h
    | some entry =>
      rw [hmove] at h
      cases before with
      | nil =>
        obtain ⟨rfl, hrest⟩ := List.cons.inj h
        obtain ⟨hand, hk, hf, rfl⟩ := flush?_eq_some hmove
        exact ⟨[], moves, hand, rfl, hk, hf, hrest.symm⟩
      | cons first before => exact hlater (List.cons.inj h).2

end Crew

def SameRoute (i : Nat) (w w' : Writer) : Prop :=
  ∀ slot' : Slot, w'.slots[i]? = some slot' → ∃ slot, w.slots[i]? = some slot ∧ slot'.route = slot.route

namespace SameRoute

variable {i : Nat} {w w' w'' : Writer}

theorem refl (i : Nat) (w : Writer) : SameRoute i w w := fun slot hi => ⟨slot, hi, rfl⟩

theorem trans (h : SameRoute i w w') (h' : SameRoute i w' w'') : SameRoute i w w'' := by
  intro slot'' hi
  obtain ⟨slot', hslot', hroute'⟩ := h' slot'' hi
  obtain ⟨slot, hslot, hroute⟩ := h slot' hslot'
  exact ⟨slot, hslot, hroute'.trans hroute⟩

theorem of_modify {j : Nat} {change : Slot → Slot} (hslots : w'.slots = w.slots.modify j change)
    (hroute : ∀ slot, (change slot).route = slot.route) : SameRoute i w w' := by
  intro slot' hi
  rw [hslots, List.getElem?_modify] at hi
  obtain ⟨slot, hslot, rfl⟩ := Option.map_eq_some_iff.mp hi
  refine ⟨slot, hslot, ?_⟩
  split
  · exact hroute slot
  · rfl

theorem of_beside {j : Nat} (h : Beside j w w') (hij : i ≠ j) : SameRoute i w w' := by
  intro slot' hi
  rw [h.others i hij] at hi
  exact ⟨slot', hi, rfl⟩

theorem of_found (h : Found w w') : SameRoute i w w' := by
  intro slot' hi
  obtain ⟨slot, charged, hslot, rfl⟩ := h.getElem? hi
  exact ⟨slot, hslot, rfl⟩

theorem gather (i j : Nat) (content : Content) (w : Writer) : SameRoute i w (w.gather j content) :=
  of_modify rfl fun _ => rfl

theorem hangUp (srv : Server σ) (i j : Nat) (w : Writer) (site : Site σ) :
    SameRoute i w (w.hangUp srv j site).1 :=
  of_modify (hangUp_slots srv j w site) fun _ => rfl

theorem drainSlot (srv : Server σ) (i j : Nat) (w : Writer) (site : Site σ) :
    SameRoute i (if w.isBusy j then w.flush srv j true site else (.ok (), w, site)).2.1
      (w.drainSlot srv j site).2.1 := by
  obtain ⟨kind, hd, -⟩ | ⟨result, w₁, site₁, hd, he⟩ := drainSlot_cases srv j w site
  · rw [hd]
    exact refl i _
  · rw [hd, he]
    exact hangUp srv i j w₁ site₁

end SameRoute

/-! What holds of the flushes of a hand. -/

namespace Hand

variable {srv : Server σ} {hand : Hand} {site : Site σ} {f : Flush σ}

theorem flush?_cases (h : hand.flush? site = some f) :
    (∃ i content, hand.work = .pushing i content ∧ (hand.writer.gather i content).isFull i = true ∧
      f = ⟨i, false, hand.writer.gather i content, site⟩) ∨
    ∃ i is, hand.work = .draining (i :: is) ∧ hand.writer.isBusy i = true ∧ f = ⟨i, true, hand.writer, site⟩ := by
  obtain ⟨w, work⟩ := hand
  cases work with
  | idle | receiving | inquiring | placing => cases h
  | pushing i content =>
    dsimp only [flush?] at h
    split at h
    · next hfull =>
      cases h
      exact .inl ⟨i, content, rfl, hfull, rfl⟩
    · cases h
  | draining is =>
    cases is with
    | nil => cases h
    | cons i is =>
      dsimp only [flush?] at h
      split at h
      · next hbusy =>
        cases h
        exact .inr ⟨i, is, rfl, hbusy, rfl⟩
      · cases h

theorem flush?_slot (h : hand.flush? site = some f) : ∃ slot, f.writer.slots[f.slot]? = some slot := by
  obtain ⟨i, content, -, hfull, rfl⟩ | ⟨i, is, -, hbusy, rfl⟩ := flush?_cases h
  · exact Option.isSome_iff_exists.mp (Option.isSome_of_any hfull)
  · exact Option.isSome_iff_exists.mp (Option.isSome_of_any hbusy)

theorem flush?_aimed {terms : Terms} {targets : Nat → List Target} (h : hand.flush? site = some f)
    (hw : hand.writer.Aimed terms targets) : f.writer.Aimed terms targets := by
  obtain ⟨j, content, -, -, rfl⟩ | ⟨j, is, -, -, rfl⟩ := flush?_cases h
  · exact hw.gather j content
  · exact hw

theorem flush?_backed {reserve : Nat → Nat} (h : hand.flush? site = some f)
    (hw : hand.writer.Backed reserve site.manager) : f.writer.Backed reserve f.site.manager := by
  obtain ⟨j, content, -, -, rfl⟩ | ⟨j, is, -, -, rfl⟩ := flush?_cases h
  · exact hw.gather j content
  · exact hw

theorem flush?_sameRoute (h : hand.flush? site = some f) (i : Nat) : SameRoute i hand.writer f.writer := by
  obtain ⟨j, content, -, -, rfl⟩ | ⟨j, is, -, -, rfl⟩ := flush?_cases h
  · exact .gather i j content hand.writer
  · exact .refl i hand.writer

theorem go_flushed (srv : Server σ) (h : hand.flush? site = some f) (i : Nat) :
    SameRoute i (f.run srv).2.1 (hand.go srv site).1.writer := by
  obtain ⟨w, work⟩ := hand
  obtain ⟨j, content, hwork, hfull, rfl⟩ | ⟨j, is, hwork, hbusy, rfl⟩ := flush?_cases h
  · cases hwork
    have hpush : w.push srv j content site = (w.gather j content).flush srv j false site := by
      rw [push]
      exact if_pos hfull
    dsimp only [go]
    rw [hpush]
    exact .refl i _
  · cases hwork
    have hdrained := SameRoute.drainSlot srv i j w site
    rw [if_pos hbusy] at hdrained
    rwa [(go_draining srv w j is site).1]

theorem go_sameRoute (srv : Server σ) {i : Nat} (h : ∀ f, hand.flush? site = some f → f.slot ≠ i) :
    SameRoute i hand.writer (hand.go srv site).1.writer := by
  cases hf : hand.flush? site with
  | some f =>
    have hflush : SameRoute i f.writer (f.run srv).2.1 :=
      .of_beside (beside_flush srv f.slot f.closing f.writer f.site) (h f hf).symm
    exact (flush?_sameRoute hf i).trans (hflush.trans (go_flushed srv hf i))
  | none =>
    obtain ⟨w, work⟩ := hand
    cases work with
    | idle | inquiring | placing => exact .refl i w
    | receiving files uri source payload =>
      dsimp only [go]
      split
      · exact .refl i w
      · exact received_induction (P := fun w' _ => SameRoute i w w')
          (.of_found (found_receive srv files uri source payload w site)) fun _ _ _ h => h
    | pushing j content =>
      have hfull : ¬ (w.gather j content).isFull j = true := by
        intro hfull
        simp [flush?, hfull] at hf
      have hpush : w.push srv j content site = (.ok (), w.gather j content, site) := by
        rw [push]
        exact if_neg hfull
      dsimp only [go]
      rw [hpush]
      exact .gather i j content w
    | draining is =>
      cases is with
      | nil => exact .refl i w
      | cons j is =>
        have hbusy : ¬ w.isBusy j = true := by
          intro hbusy
          simp [flush?, hbusy] at hf
        have hdrained := SameRoute.drainSlot srv i j w site
        rw [if_neg hbusy] at hdrained
        rwa [(go_draining srv w j is site).1]

theorem go_aimed {terms : Terms} {targets : Nat → List Target} (h : hand.writer.Aimed terms targets)
    (srv : Server σ) (site : Site σ) : (hand.go srv site).1.writer.Aimed terms targets :=
  hand.go_keeps (P := fun w => w.Aimed terms targets)
    (fun files uri source payload w site h => h.found (found_receive srv files uri source payload w site))
    (fun _ h => ⟨h.kept, h.slots⟩) (fun i content _ site h => h.push srv i content site)
    (fun i _ site h => h.drainSlot srv i site) h site

theorem go_terms (srv : Server σ) (hand : Hand) (site : Site σ) :
    (hand.go srv site).1.writer.terms = hand.writer.terms :=
  hand.go_keeps (P := fun w => w.terms = hand.writer.terms)
    (fun files uri source payload w site h => (found_receive srv files uri source payload w site).terms.trans h)
    (fun _ h => h) (fun i content w site h => (beside_push srv i content w site).terms.trans h)
    (fun i w site h => (beside_drainSlot srv i w site).terms.trans h) rfl site

theorem go_backed {reserve : Nat → Nat} (h : hand.writer.Backed reserve site.manager)
    (hpos : 0 < hand.writer.terms.batchSize.toNat) (srv : Server σ) :
    (hand.go srv site).1.writer.Backed reserve (hand.go srv site).2.manager := by
  obtain ⟨w, work⟩ := hand
  cases work with
  | idle => exact h
  | receiving files uri source payload =>
    dsimp only [go]
    split
    · exact h
    · exact received_induction (P := fun w' site' => w'.Backed reserve site'.manager)
        (h.receive hpos srv files uri source payload) fun _ _ _ h => ⟨h.prices, h.covered⟩
  | inquiring uri content partition inquiry =>
    have huses := inquiry.step_uses srv w partition site
    dsimp only [go]
    rw [huses]
    unfold Inquiry.uses
    split
    · exact h.cachePartition partition _
    · exact h
  | placing uri content => exact h.place uri
  | pushing i content => exact h.push srv i content
  | draining is =>
    cases is with
    | nil => exact h
    | cons i is =>
      obtain ⟨hwriter, hsite⟩ := go_draining srv w i is site
      rw [hwriter, hsite]
      exact h.drainSlot srv i

end Hand

namespace Crew

variable {srv : Server σ} {crew : Crew σ}

def RouteAt (k i : Nat) (route : Route) (crew : Crew σ) : Prop :=
  ∀ j hand, crew.hands[j]? = some hand → j = k → ∀ slot : Slot, hand.writer.slots[i]? = some slot → slot.route = route

theorem RouteAt.step {k i : Nat} {route : Route} (h : crew.RouteAt k i route) {move : Nat × Move}
    (hother : ∀ f, crew.flush? move = some (k, f) → f.slot ≠ i) : (crew.step srv move).RouteAt k i route := by
  obtain ⟨j, move⟩ := move
  refine step_keeps (P := fun j w => j = k → ∀ slot : Slot, w.slots[i]? = some slot → slot.route = route) h
    (fun _ _ h => h) fun hand hmove hj hjk slot' hslot' => ?_
  cases hmove
  cases hjk
  have hsame : SameRoute i hand.writer (hand.go srv crew.site).1.writer :=
    Hand.go_sameRoute srv fun f hf => hother f (by simp [flush?, hj, hf])
  obtain ⟨slot, hslot, hroute⟩ := hsame slot' hslot'
  exact hroute.trans (h _ hand hj rfl slot hslot)

theorem RouteAt.next {k i : Nat} {route : Route} (h : crew.RouteAt k i route) {moves : List (Nat × Move)}
    {between rest : List (Nat × Flush σ)} {g : Flush σ} (hsplit : crew.flushes srv moves = between ++ (k, g) :: rest)
    (hbetween : ∀ entry ∈ between, entry.1 = k → entry.2.slot ≠ i) {slot : Slot}
    (hslot : g.writer.slots[i]? = some slot) : slot.route = route := by
  induction moves generalizing crew between with
  | nil =>
    rw [flushes] at hsplit
    exact absurd hsplit.symm (List.append_ne_nil_of_right_ne_nil _ (List.cons_ne_nil _ _))
  | cons move moves ih =>
    rw [flushes] at hsplit
    cases hmove : crew.flush? move with
    | none =>
      rw [hmove] at hsplit
      exact ih (h.step fun f hf => by cases hmove.symm.trans hf) hsplit hbetween
    | some entry =>
      rw [hmove] at hsplit
      cases between with
      | nil =>
        obtain ⟨rfl, -⟩ := List.cons.inj hsplit
        obtain ⟨hand, hk, hg, -⟩ := flush?_eq_some hmove
        obtain ⟨slot₀, hslot₀, hroute⟩ := Hand.flush?_sameRoute hg i slot hslot
        exact hroute.trans (h k hand hk rfl slot₀ hslot₀)
      | cons first between =>
        obtain ⟨hfirst, hrest⟩ := List.cons.inj hsplit
        refine ih (h.step fun f hf => ?_) hrest fun entry hentry => hbetween entry (List.mem_cons_of_mem _ hentry)
        rw [hmove, hfirst] at hf
        cases hf
        exact hbetween _ List.mem_cons_self rfl

/-- Writers on one manager, whose loads cover the charges of all of them. -/
structure Backed (batch : UInt64) (crew : Crew σ) : Prop where
  prices : crew.site.manager.policy.Prices batch
  terms : ∀ hand ∈ crew.hands, hand.writer.terms.batchSize = batch
  covered : ∀ i, (crew.hands.map fun hand => hand.writer.charge i * batch.toNat).sum ≤
    (crew.site.manager.policy.load i).toNat

namespace Backed

variable {batch : UInt64} {k : Nat} {hand hand' : Hand}

/-- To each writer, what the others are charged for is a reserve. -/
theorem backed (h : crew.Backed batch) (hk : crew.hands[k]? = some hand) :
    hand.writer.Backed (fun i => (crew.hands.map fun hand => hand.writer.charge i * batch.toNat).sum -
      hand.writer.charge i * batch.toNat) crew.site.manager := by
  have hmem := List.mem_of_getElem? hk
  have hbatch := h.terms hand hmem
  refine ⟨hbatch ▸ h.prices, fun i => ?_⟩
  have hpart : hand.writer.charge i * batch.toNat ≤
      (crew.hands.map fun hand => hand.writer.charge i * batch.toNat).sum :=
    List.le_sum_of_mem (List.mem_map_of_mem hmem)
  have hcovered := h.covered i
  rw [hbatch]
  omega

theorem set (h : crew.Backed batch) (hk : crew.hands[k]? = some hand) {site : Site σ} {deeds : List (Nat × Deed)}
    (hterms : hand'.writer.terms = hand.writer.terms)
    (hhand : hand'.writer.Backed (fun i => (crew.hands.map fun hand => hand.writer.charge i * batch.toNat).sum -
      hand.writer.charge i * batch.toNat) site.manager) :
    (Crew.mk (crew.hands.set k hand') site deeds).Backed batch := by
  have hmem := List.mem_of_getElem? hk
  have hbatch : hand'.writer.terms.batchSize = batch := by rw [hterms, h.terms hand hmem]
  refine ⟨hbatch ▸ hhand.prices, fun other hother => ?_, fun i => ?_⟩
  · rcases List.mem_or_eq_of_mem_set hother with hother | rfl
    · exact h.terms other hother
    · exact hbatch
  · have hsum := sum_map_set (fun hand : Hand => hand.writer.charge i * batch.toNat) hk hand'
    have hpart : hand.writer.charge i * batch.toNat ≤
        (crew.hands.map fun hand => hand.writer.charge i * batch.toNat).sum :=
      List.le_sum_of_mem (List.mem_map_of_mem hmem)
    have hcovered := hhand.covered i
    rw [hbatch] at hcovered
    dsimp only at hsum hcovered ⊢
    omega

theorem step (h : crew.Backed batch) (hpos : 0 < batch.toNat) (srv : Server σ) (move : Nat × Move) :
    (crew.step srv move).Backed batch := by
  obtain ⟨hstep, -⟩ | ⟨w, call, -, hk, hstep⟩ | ⟨hand, -, hk, hstep⟩ := Crew.step_cases srv crew move
  · rw [hstep]
    exact h
  · have hw := h.backed hk
    rw [hstep]
    cases call with
    | write files uri source payload => exact h.set hk rfl hw
    | close =>
      dsimp only [Call.begin]
      split
      · exact h.set hk rfl hw
      · exact h.set hk rfl ⟨hw.prices, hw.covered⟩
  · have hbatch := h.terms hand (List.mem_of_getElem? hk)
    have hterms : (hand.go srv crew.site).1.writer.terms = hand.writer.terms := hand.go_terms srv crew.site
    rw [hstep]
    exact h.set hk hterms (Hand.go_backed (h.backed hk) (hbatch ▸ hpos) srv)

theorem start {m : Placement.Manager} (hm : m.Reachable) {writers : List Writer}
    (hwriters : ∀ w ∈ writers, ∃ (config : Config.Output) (fastLoad : Bool) (task : Nat),
      config.batchSize = Placement.batchOf m.batchSize ∧ Writer.new config fastLoad m task = .ok w)
    (counters : Counters) (wire : Wire σ) :
    (Crew.start writers ⟨m, counters, wire⟩).Backed (Placement.batchOf m.batchSize) := by
  refine ⟨hm.prices, fun hand hhand => ?_, fun i => ?_⟩
  · obtain ⟨w, hw, rfl⟩ := List.mem_map.mp hhand
    obtain ⟨config, fastLoad, task, hbatch, hnew⟩ := hwriters w hw
    dsimp only
    rw [(new_terms hnew).2]
    exact hbatch
  · refine Nat.le_trans (Nat.le_of_eq (List.sum_eq_zero fun charged hcharged => ?_)) (Nat.zero_le _)
    obtain ⟨hand, hhand, rfl⟩ := List.mem_map.mp hcharged
    obtain ⟨w, hw, rfl⟩ := List.mem_map.mp hhand
    obtain ⟨config, fastLoad, task, -, hnew⟩ := hwriters w hw
    dsimp only
    cases hi : w.slots[i]? with
    | none => rw [charge, hi, Option.map_none, Option.getD_none, Nat.zero_mul]
    | some slot =>
      obtain ⟨route, rfl⟩ := new_slot hnew hi
      rw [charge_eq hi, show (Slot.new route).charged.toNat = 0 from rfl, Nat.zero_mul]

end Backed

theorem run_backed {m : Placement.Manager} (hm : m.Reachable) {writers : List Writer}
    (hwriters : ∀ w ∈ writers, ∃ (config : Config.Output) (fastLoad : Bool) (task : Nat),
      config.batchSize = Placement.batchOf m.batchSize ∧ Writer.new config fastLoad m task = .ok w)
    (srv : Server σ) (counters : Counters) (wire : Wire σ) (moves : List (Nat × Move)) :
    (Crew.run srv moves (.start writers ⟨m, counters, wire⟩)).Backed (Placement.batchOf m.batchSize) :=
  run_induction (P := fun crew => crew.Backed (Placement.batchOf m.batchSize)) (.start hm hwriters counters wire)
    (fun _ move h => h.step (Placement.batchOf_pos m.batchSize) srv move) moves

end Crew

/-- Whether the target after number `n`, counted round the list, is another failover target: of the replicas
of a forest if there is more than one, and of the output hosts if its name is another. -/
def elsewhere (fastLoad : Bool) (targets : List Target) (n : Nat) : Bool :=
  if fastLoad then 1 < targets.length
  else (targets[(n + 1) % targets.length]?).map (·.host) ≠ (targets[n % targets.length]?).map (·.host)

theorem elsewhere_mod (fastLoad : Bool) (targets : List Target) (n : Nat) :
    elsewhere fastLoad targets (n % targets.length) = elsewhere fastLoad targets n := by
  rw [elsewhere, elsewhere, Nat.mod_add_mod, Nat.mod_mod]

section

variable {config : Config.Output} {fastLoad : Bool} {m : Placement.Manager} {i : Nat} {route : Route}

theorem targetsFor_forest {target : Target} (h : target ∈ targetsFor config fastLoad m i) :
    target.forest.isSome = fastLoad := by
  unfold targetsFor at h
  cases fastLoad with
  | false =>
    obtain ⟨host, -, rfl⟩ := List.mem_map.mp h
    rfl
  | true =>
    rw [if_pos rfl] at h
    split at h
    · cases h
    · split at h
      · rw [List.mem_singleton.mp h]
        rfl
      · obtain ⟨replica, -, rfl⟩ := List.mem_map.mp h
        rfl

theorem Route.moves_eq (h : route.Tidy) (hknown : route.known config.port = targetsFor config fastLoad m i) :
    route.moves = elsewhere fastLoad (targetsFor config fastLoad m i) route.position := by
  have htarget : (route.target config.port).forest.isSome = fastLoad :=
    targetsFor_forest (hknown ▸ List.mem_of_getElem? (getElem?_position config.port route))
  have hhere := h.getElem?_iterate config.port 0
  have hnext := h.getElem?_iterate config.port 1
  rw [← hknown]
  rcases route with ⟨id, host, _ | cursor⟩ | rotation
  · rw [← htarget]
    rfl
  · rw [← htarget]
    exact (congrArg (fun n => decide (1 < n)) (List.length_map _)).symm
  · have hfast : fastLoad = false := htarget.symm
    rw [Nat.add_zero] at hhere
    rw [hfast, elsewhere, if_neg Bool.false_ne_true, hnext, hhere]
    exact decide_eq_decide.mpr (not_congr Option.some_inj.symm)

theorem Route.Tidy.moves_iterate (h : route.Tidy) (hknown : route.known config.port = targetsFor config fastLoad m i)
    (j : Nat) :
    (rotate^[j] route).moves = elsewhere fastLoad (targetsFor config fastLoad m i) (route.position + j) := by
  obtain ⟨htidy, hknown', hposition⟩ := h.iterate config.port j
  rw [moves_eq htidy (hknown'.trans hknown), hposition, hknown, elsewhere_mod]

end

def concluded (budget : Nat) : Except RequestError Unit → Except (Fault TransferError) Unit
  | .ok () => .ok ()
  | .error e =>
    match e.severity with
    | .permanent => .ok ()
    | .retryable => .error (.failed (.retriesExhausted .batchWrite budget e))
    | .fatal => .error (.failed (.request e))

/-- A flush with a budget of attempts, which go round the targets from `position` on: those that failed, and
the last, which decides the result unless the charges to be given back are no word. -/
structure Flush.Scheduled (srv : Server σ) (budget : Nat) (fastLoad : Bool) (targets : List Target) (position : Nat)
    (failed : List Attempt) (last : Attempt) (f : Flush σ) : Prop where
  length : failed.length < budget
  events : (f.events srv).reverse = timeline .writer 1 failed last
  before : ∀ (j : Nat) (a : Attempt), failed[j]? = some a →
    ∃ target, targets[(position + j) % targets.length]? = some target ∧ a.At target
  ending : ∃ target, targets[(position + failed.length) % targets.length]? = some target ∧ last.At target
  retried : ∀ a ∈ failed, ∃ e, a.answer = .error e ∧ e.severity = .retryable
  rotations : (f.run srv).2.1.stats.rotations = f.writer.stats.rotations +
    (List.range failed.length).countP fun j => elsewhere fastLoad targets (position + j)
  result : (∀ kind, (f.run srv).1 ≠ .error (.overflow kind)) → (f.run srv).1 = concluded budget last.answer
  exhausted : ∀ e, last.answer = .error e → e.severity = .retryable → failed.length + 1 = budget

theorem isRetryable_iff {e : RequestError} : e.isRetryable = true ↔ e.severity = .retryable := by
  rw [RequestError.isRetryable, ErrorClass.isRetryable, decide_eq_true_iff]

theorem Flush.Conducted.scheduled {srv : Server σ} {f : Flush σ} {slot : Slot} {failed : List Attempt}
    {last : Attempt} (h : f.Conducted srv slot failed last) {config : Config.Output} {fastLoad : Bool}
    {m : Placement.Manager} (hretry : f.writer.terms.retry = .writer) (hport : f.writer.terms.port = config.port)
    (hsize : f.writer.terms.transactionSize = config.transactionSize)
    (haims : slot.Aims config.port (targetsFor config fastLoad m f.slot)) :
    f.Scheduled srv (if 1 < config.transactionSize then 3 else 15) fastLoad (targetsFor config fastLoad m f.slot)
      slot.route.position failed last := by
  have hbudget : f.writer.terms.maxAttempts - 1 + 1 = if 1 < config.transactionSize then 3 else 15 := by
    rw [Terms.maxAttempts, hsize, hretry]
    split
    · rfl
    · rfl
  have htarget (j : Nat) := haims.tidy.getElem?_iterate config.port j
  rw [haims.known] at htarget
  have hexhausted (e : RequestError) (he : last.answer = .error e) (hr : e.severity = .retryable) :
      failed.length + 1 = if 1 < config.transactionSize then 3 else 15 := by
    rw [h.exhausted e he (isRetryable_iff.mpr hr), hbudget]
  refine ⟨?_, hretry ▸ h.events, fun j a hj => ⟨_, htarget j, hport ▸ h.before j a hj⟩,
    ⟨_, htarget failed.length, hport ▸ h.ending⟩, fun a ha => ?_, ?_, fun hok => ?_, hexhausted⟩
  · rw [← hbudget]
    exact Nat.lt_succ_of_le h.length
  · obtain ⟨e, he, hr⟩ := h.retried a ha
    exact ⟨e, he, isRetryable_iff.mp hr⟩
  · rw [h.rotations]
    congr 2
    funext j
    exact haims.tidy.moves_iterate haims.known j
  · cases hanswer : last.answer with
    | ok u => exact h.succeeds hanswer
    | error e =>
      obtain hresult | ⟨kind, hover, -⟩ := h.fails e hanswer
      · rw [hresult, Delivery.outcome, concluded]
        cases hseverity : e.severity with
        | permanent | fatal => rfl
        | retryable =>
          rw [← hexhausted e hanswer hseverity]
          rfl
      · exact absurd hover (hok kind)

namespace Crew

def termsFor (config : Config.Output) : Terms where
  port := config.port
  transaction := if config.usesTransactions then .update else .auto
  batchSize := config.batchSize
  transactionSize := config.transactionSize
  retry := .writer

theorem run_aimed {config : Config.Output} {fastLoad : Bool} {m : Placement.Manager} {task : Nat} {w : Writer}
    (hw : Writer.new config fastLoad m task = .ok w) {writers : List Writer} {k : Nat} (hk : writers[k]? = some w)
    (srv : Server σ) (site : Site σ) (moves : List (Nat × Move)) {hand : Hand}
    (hhand : (Crew.run srv moves (.start writers site)).hands[k]? = some hand) :
    hand.writer.Aimed (termsFor config) (targetsFor config fastLoad m) := by
  refine run_induction (P := fun crew => ∀ (j : Nat) (hand : Hand), crew.hands[j]? = some hand → j = k →
    hand.writer.Aimed (termsFor config) (targetsFor config fastLoad m)) (fun j hand hj hjk => ?_)
    (fun crew move h => ?_) moves k hand hhand rfl
  · rw [Crew.start, List.getElem?_map, hjk, hk] at hj
    cases hj
    have haimed := aimed_new hw
    rwa [(new_terms hw).2] at haimed
  · exact step_keeps (P := fun j w => j = k → w.Aimed (termsFor config) (targetsFor config fastLoad m)) h
      (fun _ _ h hjk => ⟨(h hjk).kept, (h hjk).slots⟩) fun hand _ hj hjk => Hand.go_aimed (h _ hand hj hjk) srv crew.site

theorem routeAt_flushed {srv : Server σ} {crew : Crew σ} {k : Nat} {hand : Hand} {f : Flush σ} {slot : Slot}
    {failed : List Attempt} {last : Attempt} (hk : crew.hands[k]? = some hand)
    (hflush : hand.flush? crew.site = some f) (h : f.Conducted srv slot failed last) :
    (crew.step srv (k, .go)).RouteAt k f.slot (Route.rotate^[failed.length] slot.route) := by
  obtain ⟨slot₁, hslot₁, hroute₁⟩ := h.route
  have hlt : k < crew.hands.length := (List.getElem?_eq_some_iff.mp hk).1
  intro j hand' hj hjk slot' hslot'
  rw [step_go srv hk, hjk] at hj
  dsimp only at hj
  rw [List.getElem?_set_self hlt] at hj
  cases hj
  obtain ⟨slot₂, hslot₂, hroute₂⟩ := Hand.go_flushed srv hflush f.slot slot' hslot'
  cases hslot₁.symm.trans hslot₂
  exact hroute₂.trans hroute₁

end Crew

/-- However the writers of a job take their steps, each flush makes at most three attempts where a transaction
spans several batches, and else at most fifteen. They go round the failover targets of the slot from its place
among them on, and all but the last fail in passing and are followed by a pause. The last one decides the
result, and the next flush of the slot starts where this one has ended. Only a batch size that is not that of the
manager can make the charges overflow that are to be given back, which ends the program. -/
theorem flushes_scheduled {m : Placement.Manager} {writers : List Writer} (srv : Server σ) (counters : Counters)
    (wire : Wire σ) (moves : List (Nat × Move)) {before after : List (Nat × Flush σ)} {k : Nat} {f : Flush σ}
    (hf : Crew.flushes srv moves (.start writers ⟨m, counters, wire⟩) = before ++ (k, f) :: after)
    {config : Config.Output} {fastLoad : Bool} {task : Nat} {w : Writer}
    (hw : Writer.new config fastLoad m task = .ok w) (hk : writers[k]? = some w) :
    let budget := if 1 < config.transactionSize then 3 else 15
    let targets := targetsFor config fastLoad m f.slot
    (∃ (slot : Slot) (failed : List Attempt) (last : Attempt), f.writer.slots[f.slot]? = some slot ∧
      f.Scheduled srv budget fastLoad targets slot.route.position failed last ∧
      ∀ (between rest : List (Nat × Flush σ)) (g : Flush σ), after = between ++ (k, g) :: rest →
        (∀ entry ∈ between, entry.1 = k → entry.2.slot ≠ f.slot) → g.slot = f.slot →
          ∃ slot', g.writer.slots[g.slot]? = some slot' ∧
            slot'.route.position = (slot.route.position + failed.length) % targets.length) ∧
    (m.Reachable →
      (∀ w' ∈ writers, ∃ (config' : Config.Output) (fastLoad' : Bool) (task' : Nat),
        config'.batchSize = Placement.batchOf m.batchSize ∧ Writer.new config' fastLoad' m task' = .ok w') →
      ∀ kind, (f.run srv).1 ≠ .error (.overflow kind)) := by
  intro budget targets
  obtain ⟨sofar, later, hand, -, hhand, hflush, rfl⟩ := Crew.flushes_split srv hf
  have hf_aimed := Hand.flush?_aimed hflush (Crew.run_aimed hw hk srv _ sofar hhand)
  obtain ⟨slot, hslot⟩ := Hand.flush?_slot hflush
  have haims : slot.Aims config.port (targetsFor config fastLoad m f.slot) := hf_aimed.slots f.slot slot hslot
  have hterms : f.writer.terms = Crew.termsFor config := hf_aimed.kept
  have hport : f.writer.terms.port = config.port := congrArg Terms.port hterms
  obtain ⟨failed, last, hconducted⟩ := flush_conducted srv hslot (hport ▸ haims.session)
  refine ⟨⟨slot, failed, last, hslot, hconducted.scheduled (congrArg Terms.retry hterms) hport
    (congrArg Terms.transactionSize hterms) haims, fun between rest g hafter hbetween hg => ?_⟩,
    fun hm hwriters kind hover => ?_⟩
  · obtain ⟨sofar', -, hand', -, -, hflush', -⟩ := Crew.flushes_split srv hafter
    obtain ⟨slot', hslot'⟩ := Hand.flush?_slot hflush'
    refine ⟨slot', hslot', ?_⟩
    have hroute := (Crew.routeAt_flushed hhand hflush hconducted).next hafter hbetween (hg ▸ hslot')
    obtain ⟨-, -, hposition⟩ := haims.tidy.iterate config.port failed.length
    rw [hroute, hposition, haims.known]
  · have hbacked := (Crew.run_backed hm hwriters srv counters wire sofar).backed hhand
    exact (Hand.flush?_backed hflush hbacked).flush_unbroken srv f.slot f.closing kind hover

namespace Sample

def written (k : Nat) (byte : UInt8) : List (Nat × Move) := [(k, .call (call byte)), (k, .go), (k, .go)]

/-- Two writers write their documents, and drain their slots in turn when they are closed. -/
def taken : List (Nat × Move) :=
  written 0 1 ++ written 0 2 ++ written 1 3 ++ written 0 4 ++ written 0 5 ++
    [(1, .call .close), (0, .call .close), (1, .go), (0, .go), (1, .go), (0, .go)]

end Sample

/-- The host of a forest is down and that of its replica is not. The first flush of a slot goes on to the
replica, and the second starts there. -/
theorem flushes_scheduled_down :
    ∃ w, Writer.new (Sample.config 2) true Sample.manager 0 = .ok w ∧
      let srv := Sample.partlyDown ["a"]
      ∃ (f g : Flush Unit) (rest : List (Nat × Flush Unit)) (failed : List Attempt) (last : Attempt),
        Crew.flushes srv Sample.taken (.start [w, w] ⟨Sample.manager, .zero, .new ()⟩) = (0, f) :: (0, g) :: rest ∧
        f.Scheduled srv 3 true [⟨"a", 8006, some ⟨"1"⟩⟩, ⟨"b", 8006, some ⟨"2"⟩⟩] 0 failed last ∧
        failed.length = 1 := by
  have hw : ∃ w, Writer.new (Sample.config 2) true Sample.manager 0 = .ok w := ⟨_, rfl⟩
  obtain ⟨w, hw⟩ := hw
  have hpositions : (Crew.flushes (Sample.partlyDown ["a"]) Sample.taken
      (.start [w, w] ⟨Sample.manager, .zero, .new ()⟩)).map (fun entry =>
        (entry.1, entry.2.slot, (entry.2.writer.slots[entry.2.slot]?).map fun slot => slot.route.position)) =
      [(0, 0, some 0), (0, 0, some 1), (1, 1, some 0), (0, 1, some 0)] := by
    cases hw
    decide +kernel
  obtain ⟨⟨k, f⟩, after, hflushes, hf, hafter⟩ := List.map_eq_cons_iff.mp hpositions
  obtain ⟨⟨k', g⟩, rest, rfl, hg, -⟩ := List.map_eq_cons_iff.mp hafter
  obtain ⟨rfl, hf⟩ := Prod.mk.inj hf
  obtain ⟨hf, hposition⟩ := Prod.mk.inj hf
  obtain ⟨rfl, hg⟩ := Prod.mk.inj hg
  obtain ⟨hg, hposition'⟩ := Prod.mk.inj hg
  have hfirst : Crew.flushes (Sample.partlyDown ["a"]) Sample.taken
      (.start [w, w] ⟨Sample.manager, .zero, .new ()⟩) = [] ++ (0, f) :: (0, g) :: rest := hflushes
  obtain ⟨⟨slot, failed, last, hslot, hscheduled, hnext⟩, -⟩ :=
    flushes_scheduled (Sample.partlyDown ["a"]) .zero (.new ()) Sample.taken hfirst hw rfl
  dsimp only at hf hg hposition hposition'
  have hbetween : ∀ entry ∈ ([] : List (Nat × Flush Unit)), entry.1 = 0 → entry.2.slot ≠ f.slot :=
    List.forall_mem_nil _
  obtain ⟨slot', hslot', hmoved⟩ := hnext [] rest g rfl hbetween (hg.trans hf.symm)
  rw [hslot, Option.map_some, Option.some_inj] at hposition
  rw [hslot', Option.map_some, Option.some_inj] at hposition'
  have htargets : targetsFor (Sample.config 2) true Sample.manager f.slot =
      [⟨"a", 8006, some ⟨"1"⟩⟩, ⟨"b", 8006, some ⟨"2"⟩⟩] := by
    rw [hf]
    decide +kernel
  have hbudget : (if 1 < (Sample.config 2).transactionSize then 3 else 15) = 3 := by decide
  rw [hbudget, htargets, hposition] at hscheduled
  rw [htargets, hposition, hposition', Nat.zero_add] at hmoved
  have hlength : failed.length < 3 := hscheduled.length
  have hodd : 1 = failed.length % 2 := hmoved
  exact ⟨w, hw, f, g, rest, failed, last, hflushes, hscheduled, by omega⟩

end ForestCourier.Writer
