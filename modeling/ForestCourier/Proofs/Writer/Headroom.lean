import Mathlib.Algebra.BigOperators.Group.Finset.Piecewise
import Mathlib.Algebra.BigOperators.Ring.Finset
import Mathlib.Algebra.Group.Action.Defs
import Mathlib.Algebra.Order.BigOperators.Group.Finset
import ForestCourier.Job.Output
import ForestCourier.Proofs.Config.Settings
import ForestCourier.Proofs.Discovery.Counts
import ForestCourier.Proofs.Writer.Filling
import ForestCourier.Proofs.Writer.Overflow

/-!
Room for charges. A batch is charged as a whole when its first document is placed, so that a writer is ahead of the
documents that it was given by less than a batch. Together, writers that share a manager are ahead by less than a
batch each, and a charge fits as long as document counts and batches leave room for that. Batches of any size are
accepted, and very large ones leave none.
-/

namespace ForestCourier

namespace Writer

variable {σ : Type}

def tally {α : Type} (p : α → Bool) (k : Nat) (entries : List (Nat × α)) : Nat :=
  entries.countP fun entry => entry.1 = k && p entry.2

section Tally

variable {α : Type} (p : α → Bool) (entries : List (Nat × α))

theorem tally_cons (k : Nat) (entry : Nat × α) :
    tally p k (entry :: entries) = tally p k entries + if entry.1 = k ∧ p entry.2 = true then 1 else 0 := by
  simp [tally, List.countP_cons]

theorem tally_append (k : Nat) (more : List (Nat × α)) :
    tally p k (entries ++ more) = tally p k entries + tally p k more := List.countP_append ..

theorem sum_tally (n : Nat) :
    ∑ k ∈ Finset.range n, tally p k entries = entries.countP fun entry => entry.1 < n && p entry.2 := by
  induction entries with
  | nil => simp [tally]
  | cons entry entries ih =>
    have hone : ∑ k ∈ Finset.range n, (if entry.1 = k ∧ p entry.2 = true then 1 else 0) =
        if entry.1 < n ∧ p entry.2 = true then 1 else 0 := by
      by_cases hp : p entry.2 = true
      · simp only [hp, and_true]
        rw [Finset.sum_ite_eq]
        simp only [Finset.mem_range]
      · simp [hp]
    simp only [tally_cons, Finset.sum_add_distrib, ih, hone]
    simp [List.countP_cons]

end Tally

def Move.writes : Move → Bool
  | call (.write ..) => true
  | _ => false

/-- The documents that writers are called to write. A call to a writer that has another one counts, too. -/
def written (moves : List (Nat × Move)) : Nat := moves.countP fun move => move.2.writes

def Deed.starts : Deed → Bool
  | started _ => true
  | _ => false

def Work.unplaced : Work → Nat
  | receiving .. | inquiring .. | placing .. => 1
  | _ => 0

def Work.unpushed : Work → Nat
  | pushing .. => 1
  | _ => 0

theorem Owes.pendingAt_nil {batch : UInt64} {n : Nat} {owed : Nat → Nat} {w : Writer}
    (h : w.Owes batch n none owed) (hfilling : w.filling = none) (i : Nat) : w.pendingAt i = [] := by
  cases hi : w.slots[i]? with
  | none =>
    rw [pendingAt, hi]
    rfl
  | some slot =>
    rw [pendingAt_eq hi]
    by_contra hpending
    cases hfilling.symm.trans ((h.filling i).mpr (.inr ⟨slot, hi, hpending⟩))

/-- A writer that has started so many batches of `b` and was given so many documents. As long as it is open, the
batches that it started are full of those, but for the one that fills up. -/
structure Hand.Prepaid (b started given : Nat) (hand : Hand) : Prop where
  full : hand.writer.closed = false → hand.writer.filling = none →
    b * started + hand.work.unplaced ≤ given
  filling : hand.writer.closed = false → ∀ i, hand.writer.filling = some i →
    b * started + hand.work.unplaced + hand.work.unpushed + (hand.writer.pendingAt i).length ≤ given + b
  closed : hand.writer.closed = true → b * started + 1 ≤ given + b
  draining : ∀ is, hand.work = .draining is → hand.writer.closed = true

namespace Hand.Prepaid

variable {b started given : Nat} {batch : UInt64} {n : Nat} {owed : Nat → Nat} {loads : List UInt64} {hand : Hand}

theorem ahead (h : hand.Prepaid b started given) (hpos : 0 < b)
    (howes : hand.writer.Owes batch n hand.work.due owed) : b * started + 1 ≤ given + b := by
  cases hclosed : hand.writer.closed with
  | true => exact h.closed hclosed
  | false =>
    cases hfilling : hand.writer.filling with
    | none =>
      have := h.full hclosed hfilling
      omega
    | some i =>
      have hbatch := h.filling hclosed i hfilling
      have hdocument : 1 ≤ hand.work.unpushed + (hand.writer.pendingAt i).length := by
        obtain hdue | ⟨slot, hi, hpending⟩ := (howes.filling i).mp hfilling
        · cases hwork : hand.work with
          | pushing j content => exact Nat.le_add_right 1 _
          | idle | receiving | inquiring | placing | draining =>
            rw [hwork] at hdue
            cases hdue
        · rw [pendingAt_eq hi]
          have := List.length_pos_iff.mpr hpending
          omega
      omega

theorem mono (h : hand.Prepaid b started given) {given' : Nat} (hle : given ≤ given') :
    hand.Prepaid b started given' where
  full hopen hnone := (h.full hopen hnone).trans hle
  filling hopen i hi := (h.filling hopen i hi).trans (Nat.add_le_add_right hle b)
  closed hclosed := (h.closed hclosed).trans (Nat.add_le_add_right hle b)
  draining := h.draining

theorem begin {w : Writer} (h : Hand.Prepaid b started given ⟨w, .idle⟩) (hpos : 0 < b)
    (howes : w.Owes batch n none owed) (call : Call) :
    (call.begin w).Prepaid b started (given + if (Move.call call).writes then 1 else 0) := by
  cases call with
  | write files uri source payload =>
    refine ⟨fun hopen hnone => ?_, fun hopen i hi => ?_, fun hclosed => ?_, nofun⟩
    · exact Nat.add_le_add_right (h.full hopen hnone) 1
    · have hbatch : b * started + 0 + 0 + (w.pendingAt i).length ≤ given + b := h.filling hopen i hi
      change b * started + 1 + 0 + (w.pendingAt i).length ≤ given + 1 + b
      omega
    · exact Nat.le_trans (h.closed hclosed) (Nat.add_le_add_right (Nat.le_succ given) b)
  | close =>
    change Prepaid b started given _
    dsimp only [Call.begin]
    split
    · exact h
    · exact ⟨nofun, nofun, fun _ => h.ahead hpos howes, fun _ _ => rfl⟩

/-- With nothing left to do of a call, the writer may change in what is of no account here. -/
theorem idle {w w' : Writer} {work : Work} (h : Hand.Prepaid b started given ⟨w, work⟩)
    (hclosed : w'.closed = w.closed) (hfilling : w'.filling = w.filling) (hpending : w'.pendingAt = w.pendingAt) :
    Hand.Prepaid b started given ⟨w', .idle⟩ := by
  refine ⟨fun hopen hnone => ?_, fun hopen i hi => ?_, fun hshut => h.closed (hclosed.symm.trans hshut), nofun⟩
  · exact Nat.le_trans (Nat.le_add_right _ _) (h.full (hclosed.symm.trans hopen) (hfilling.symm.trans hnone))
  · have hbatch := h.filling (hclosed.symm.trans hopen) i (hfilling.symm.trans hi)
    rw [← hpending] at hbatch
    change b * started + 0 + 0 + (w'.pendingAt i).length ≤ given + b
    change b * started + _ + _ + (w'.pendingAt i).length ≤ given + b at hbatch
    omega

theorem receiveDeed_starts {w : Writer} {site : Site σ} {srv : Server σ} {files : FileStore} {uri : Uri}
    {source : Option Source} {payload : Payload} (howes : w.Owes batch n none owed)
    (hload : site.manager.kind = .statistical)
    (hdeed : (w.receiveDeed srv files uri source payload site).any Deed.starts = true) :
    w.filling = none ∧ ∃ i content, (w.receive srv files uri source payload site).1 = .ok (.placed i content) := by
  unfold receiveDeed at hdeed
  split at hdeed
  · next i content hr =>
    refine ⟨?_, i, content, hr⟩
    obtain ⟨j, content', hok, -, hbefore⟩ | ⟨hnone, -⟩ :=
      receive_by_load srv files uri source payload howes.fastLoad hload
    · cases hr.symm.trans hok
      refine hbefore.resolve_right fun hi => ?_
      rw [(howes.again hi).1] at hdeed
      cases hdeed
    · exact absurd hr (hnone i content)
  · cases hdeed

theorem receiving {w : Writer} {files : FileStore} {uri : Uri} {source : Option Source} {payload : Payload}
    {site : Site σ} (h : Hand.Prepaid b started given ⟨w, .receiving files uri source payload⟩) (srv : Server σ)
    (howes : w.Owes batch n none owed) (hload : site.manager.kind = .statistical) {more : Nat}
    (hmore : more = 0 ∨ more = 1 ∧ w.filling = none ∧
      ∃ i content, (w.receive srv files uri source payload site).1 = .ok (.placed i content)) :
    (Hand.go srv ⟨w, .receiving files uri source payload⟩ site).1.Prepaid b (started + more) given := by
  have hfound := found_receive srv files uri source payload w site
  have hplaced := receive_by_load srv files uri source payload howes.fastLoad hload
  have hclosed (h : w.closed = true) := receive_closed h srv files uri source payload site
  rw [Hand.go_resolved srv (unresolved?_statistical hload), Hand.received]
  cases hr : w.receive srv files uri source payload site with
  | mk r state =>
    obtain ⟨w₁, site₁⟩ := state
    rw [hr] at hfound hplaced hclosed hmore
    have hpending := pendingAt_found hfound
    have hkept (hnone : ∀ i content, r ≠ .ok (.placed i content)) :
        Prepaid b (started + more) given ⟨w₁, .idle⟩ := by
      obtain rfl | ⟨-, -, i, content, hok⟩ := hmore
      · obtain ⟨i, content, hok, -⟩ | ⟨-, hfilling⟩ := hplaced
        · exact absurd hok (hnone i content)
        · exact h.idle hfound.closed hfilling hpending
      · exact absurd hok (hnone i content)
    cases r with
    | error fault => exact hkept fun _ _ h => by cases h
    | ok receipt =>
      cases receipt with
      | skipped e => exact (hkept fun _ _ h => by cases h).idle rfl rfl rfl
      | placed i content =>
        have hopen : w.closed = false := Bool.eq_false_iff.mpr fun h => by cases hclosed h
        have hopen₁ : w₁.closed = false := hfound.closed.trans hopen
        obtain ⟨j, content', hok, hfilling, hbefore⟩ | ⟨hnone, -⟩ := hplaced
        · cases hok
          refine ⟨fun _ hnone => (by cases hfilling.symm.trans hnone), fun _ j hj => ?_,
            fun hshut => (by cases hopen₁.symm.trans hshut), fun is hwork => by cases hwork⟩
          cases hfilling.symm.trans hj
          rw [hpending]
          change b * (started + more) + 0 + 1 + (w.pendingAt i).length ≤ given + b
          cases hfill : w.filling with
          | none =>
            have hfull : b * started + 1 ≤ given := h.full hopen hfill
            have hbatch : b * (started + more) ≤ b * started + b :=
              Nat.mul_le_mul_left b (show started + more ≤ started + 1 by omega)
            rw [howes.pendingAt_nil hfill, List.length_nil]
            omega
          | some k =>
            obtain rfl : k = i := by simpa [hfill] using hbefore
            have hbatch : b * started + 1 + 0 + (w.pendingAt k).length ≤ given + b := h.filling hopen k hfill
            obtain rfl | ⟨-, hnone, -⟩ := hmore
            · exact hbatch
            · cases hfill.symm.trans hnone
        · exact absurd rfl (hnone i content)

theorem pushing {w : Writer} {i : Nat} {content : Content} {site : Site σ}
    (h : Hand.Prepaid b started given ⟨w, .pushing i content⟩) (srv : Server σ)
    (howes : w.Owes batch n (some i) owed) (hb : w.terms.batchSize.toNat = b) :
    (Hand.go srv ⟨w, .pushing i content⟩ site).1.Prepaid b started given := by
  have hlt : i < w.slots.length := howes.length ▸ howes.due_lt i rfl
  have hfilling : w.filling = some i := (howes.filling i).mpr (.inl rfl)
  have hbeside := beside_gather i content w
  have hpending : (w.gather i content).pendingAt i = w.pendingAt i ++ [content] := by
    rw [pendingAt_gather hlt, Function.update_self]
  have hbatch (hopen : w.closed = false) : b * started + 0 + 1 + (w.pendingAt i).length ≤ given + b :=
    h.filling hopen i hfilling
  have hfull := isFull_gather hlt content
  have hwriter : (Hand.go srv ⟨w, .pushing i content⟩ site).1 = ⟨(w.push srv i content site).2.1, .idle⟩ := rfl
  rw [hwriter, push]
  by_cases hf : (w.gather i content).isFull i = true
  · have hflushed := hbeside.trans (beside_flush srv i false (w.gather i content) site)
    have hnone := filling_flush srv false site (hbeside.length.symm ▸ hlt : i < (w.gather i content).slots.length)
    rw [leave, show (w.gather i content).filling = some i from hfilling, if_pos rfl] at hnone
    rw [if_pos hf]
    refine ⟨fun hopen _ => ?_, fun _ j hj => (by cases hnone.symm.trans hj),
      fun hshut => h.closed (hflushed.closed.symm.trans hshut), fun _ hidle => by cases hidle⟩
    have := hbatch (hflushed.closed.symm.trans hopen)
    have := hfull.mp hf
    change b * started + 0 ≤ given
    omega
  · rw [if_neg hf]
    refine ⟨fun _ hnone => (by cases hfilling.symm.trans hnone), fun hopen j hj => ?_, h.closed,
      fun _ hidle => by cases hidle⟩
    cases hfilling.symm.trans hj
    have := hbatch hopen
    change b * started + 0 + 0 + ((w.gather i content).pendingAt i).length ≤ given + b
    rw [hpending, List.length_append, List.length_singleton]
    omega

theorem flushDeed_starts (srv : Server σ) (i : Nat) (closing : Bool) (w : Writer) (site : Site σ) :
    (w.flushDeed srv i closing site).any Deed.starts = false := by
  unfold flushDeed
  split
  · rfl
  · split
    · rfl
    · split <;> rfl

/-- A step of a call starts a batch at most, and that is paid for by the documents to come. -/
theorem go (h : hand.Prepaid b started given) (srv : Server σ) {site : Site σ}
    (howes : hand.writer.Owes batch n hand.work.due owed) (hwaits : hand.work.waits = false)
    (hload : site.manager.kind = .statistical) (hb : batch.toNat = b) :
    (hand.go srv site).1.Prepaid b
      (started + if (hand.deed srv site).any Deed.starts = true then 1 else 0) given := by
  obtain ⟨w, work⟩ := hand
  cases work with
  | idle => exact h
  | receiving files uri source payload =>
    refine h.receiving srv howes hload ?_
    rw [Hand.deed_resolved srv (unresolved?_statistical hload)]
    split
    · next hstarts => exact .inr ⟨rfl, receiveDeed_starts howes hload hstarts⟩
    · exact .inl rfl
  | inquiring | placing => cases hwaits
  | pushing i content =>
    have hdeed : (Hand.deed srv ⟨w, .pushing i content⟩ site).any Deed.starts = false := by
      dsimp only [Hand.deed, pushDeed]
      split
      · exact flushDeed_starts ..
      · rfl
    rw [if_neg (Bool.eq_false_iff.mp hdeed)]
    exact h.pushing srv howes ((congrArg UInt64.toNat howes.batchSize).trans hb)
  | draining is =>
    have hclosed : w.closed = true := h.draining is rfl
    have hpaid := h.closed hclosed
    cases is with
    | nil => exact h.idle rfl rfl rfl
    | cons i is =>
      have hdeed : (Hand.deed srv ⟨w, .draining (i :: is)⟩ site).any Deed.starts = false := by
        dsimp only [Hand.deed, drainDeed]
        split
        · exact flushDeed_starts ..
        · rfl
      have hshut : (Hand.go srv ⟨w, .draining (i :: is)⟩ site).1.writer.closed = true := by
        rw [(Hand.go_draining srv w i is site).1]
        exact (beside_drainSlot srv i w site).closed.trans hclosed
      rw [if_neg (Bool.eq_false_iff.mp hdeed)]
      exact ⟨fun hopen => (by cases hshut.symm.trans hopen), fun hopen => (by cases hshut.symm.trans hopen),
        fun _ => hpaid, fun _ _ => hshut⟩

end Hand.Prepaid

/-- Writers after these moves, none of which is ahead of its documents by a batch. -/
structure Crew.Prepaid (b : Nat) (moves : List (Nat × Move)) (crew : Crew σ) : Prop where
  hands : ∀ (k : Nat) (hand : Hand), crew.hands[k]? = some hand →
    hand.Prepaid b (tally Deed.starts k crew.deeds) (tally Move.writes k moves)
  known : ∀ entry ∈ crew.deeds, entry.1 < crew.hands.length

namespace Crew.Prepaid

variable {batch : UInt64} {documents : List UInt64} {moves : List (Nat × Move)} {crew : Crew σ}

theorem step (h : crew.Prepaid batch.toNat moves) (hconserves : crew.Conserves batch documents)
    (hpos : 0 < batch.toNat) (srv : Server σ) (move : Nat × Move) :
    (crew.step srv move).Prepaid batch.toNat (moves ++ [move]) := by
  obtain ⟨loads, hm, -, -⟩ := hconserves.loads
  have hload : crew.site.manager.kind = .statistical := by rw [Placement.Manager.kind, hm]; rfl
  have hgiven (k : Nat) : tally Move.writes k (moves ++ [move]) =
      tally Move.writes k moves + if move.1 = k ∧ move.2.writes = true then 1 else 0 := by
    rw [tally_append, tally_cons]
    exact congrArg _ (Nat.zero_add _)
  have hmore (k : Nat) (hand : Hand) (hk : crew.hands[k]? = some hand) :
      hand.Prepaid batch.toNat (tally Deed.starts k crew.deeds) (tally Move.writes k (moves ++ [move])) :=
    (h.hands k hand hk).mono (hgiven k ▸ Nat.le_add_right _ _)
  obtain ⟨hstep, -⟩ | ⟨w, call, hcall, hj, hstep⟩ | ⟨hand, hgo, hj, hstep⟩ := Crew.step_cases srv crew move
  · rw [hstep]
    exact ⟨hmore, h.known⟩
  · rw [hstep]
    refine ⟨fun k hand' hk => ?_, fun entry hentry => ?_⟩
    · obtain ⟨rfl, rfl⟩ | ⟨-, hk⟩ := Crew.set_cases hk
      · have hbegun := (h.hands _ _ hj).begin hpos (hconserves.hands _ _ hj).1 call
        rw [hgiven, hcall]
        simpa using hbegun
      · exact hmore k hand' hk
    · rw [List.length_set]
      exact h.known entry hentry
  · rw [hstep]
    refine ⟨fun k hand' hk => ?_, fun entry hentry => ?_⟩
    · have hstarted :
          tally Deed.starts k (((hand.deed srv crew.site).map fun deed => (move.1, deed)).toList ++ crew.deeds) =
            tally Deed.starts k crew.deeds +
              if move.1 = k ∧ (hand.deed srv crew.site).any Deed.starts = true then 1 else 0 := by
        cases hand.deed srv crew.site with
        | none => simp
        | some deed => exact tally_cons ..
      have hgiven : tally Move.writes k (moves ++ [move]) = tally Move.writes k moves := by
        simp [hgiven, hgo, Move.writes]
      dsimp only
      rw [hstarted, hgiven]
      obtain ⟨rfl, rfl⟩ | ⟨hjk, hk⟩ := Crew.set_cases hk
      · obtain ⟨howes, hwaits⟩ := hconserves.hands _ hand hj
        simpa using (h.hands _ hand hj).go srv howes hwaits hload rfl
      · simpa [hjk] using h.hands k hand' hk
    · rw [List.length_set]
      rcases List.mem_append.mp hentry with hnew | hold
      · obtain ⟨deed, -, rfl⟩ := Option.map_eq_some_iff.mp (Option.mem_toList.mp hnew)
        exact (List.getElem?_eq_some_iff.mp hj).1
      · exact h.known entry hold

theorem start (b : Nat) {config : Config.Output} {m : Placement.Manager} {writers : List Writer}
    (hwriters : ∀ w ∈ writers, ∃ task, Writer.new config true m task = .ok w) (counters : Counters) (wire : Wire σ) :
    (Crew.start writers ⟨m, counters, wire⟩).Prepaid b [] := by
  refine ⟨fun k hand hk => ?_, List.forall_mem_nil _⟩
  dsimp only [Crew.start] at hk
  rw [List.getElem?_map] at hk
  obtain ⟨w, hw, rfl⟩ := Option.map_eq_some_iff.mp hk
  obtain ⟨task, hnew⟩ := hwriters w (List.mem_of_getElem? hw)
  obtain ⟨-, -, -, -, hfilling, -, hopen⟩ := new_cases hnew
  refine ⟨fun _ _ => Nat.le_refl _, fun _ i hi => (by cases hfilling.symm.trans hi),
    fun hshut => (by cases hopen.symm.trans hshut), nofun⟩

theorem started_le (h : crew.Prepaid batch.toNat moves) (i : Nat) :
    started i crew.deeds ≤ ∑ k ∈ Finset.range crew.hands.length, tally Deed.starts k crew.deeds := by
  rw [sum_tally]
  refine List.countP_mono_left fun entry hentry hstarted => ?_
  rw [of_decide_eq_true hstarted]
  simpa [Deed.starts] using h.known entry hentry

/-- What the writers have charged on any forest, and what some of them lack to be ahead by a batch. -/
theorem charged_le (h : crew.Prepaid batch.toNat moves) (lack : Nat → Nat)
    (hands : ∀ (k : Nat) (hand : Hand), crew.hands[k]? = some hand →
      batch.toNat * tally Deed.starts k crew.deeds + 1 + lack k ≤ tally Move.writes k moves + batch.toNat)
    (i : Nat) :
    batch.toNat * started i crew.deeds + ∑ k ∈ Finset.range crew.hands.length, lack k ≤
      written moves + crew.hands.length * (batch.toNat - 1) := by
  have hsum : ∑ k ∈ Finset.range crew.hands.length, (batch.toNat * tally Deed.starts k crew.deeds + 1 + lack k) ≤
      ∑ k ∈ Finset.range crew.hands.length, (tally Move.writes k moves + batch.toNat) :=
    Finset.sum_le_sum fun k hk => hands k _ (List.getElem?_eq_getElem (Finset.mem_range.mp hk))
  simp only [Finset.sum_add_distrib, ← Finset.mul_sum, Finset.sum_const, Finset.card_range, smul_eq_mul,
    Nat.mul_one] at hsum
  have hstarted := Nat.mul_le_mul_left batch.toNat (h.started_le i)
  have hgiven : ∑ k ∈ Finset.range crew.hands.length, tally Move.writes k moves ≤ written moves := by
    rw [sum_tally]
    exact List.countP_mono_left fun move _ hmove => (Bool.and_eq_true_iff.mp hmove).2
  rw [Nat.mul_sub_one]
  omega

theorem load_le (h : crew.Prepaid batch.toNat moves) (hconserves : crew.Conserves batch documents)
    (hpos : 0 < batch.toNat) {i : Nat} {count : UInt64} (hi : documents[i]? = some count) :
    crew.site.manager.load i ≤ count.toNat + written moves + crew.hands.length * (batch.toNat - 1) := by
  have hcharged := h.charged_le (fun _ => 0)
    (fun k hand hk => (h.hands k hand hk).ahead hpos (hconserves.hands k hand hk).1) i
  rw [Finset.sum_const_zero] at hcharged
  have := hconserves.load_le hi
  omega

/-- Where a charge is too large a word, so is what the writers could charge with these documents at most. -/
theorem fault_bound (h : crew.Prepaid batch.toNat moves) (hconserves : crew.Conserves batch documents)
    (hpos : 0 < batch.toNat) (hdocuments : documents ≠ []) {srv : Server σ} {k : Nat} {hand : Hand}
    (hk : crew.hands[k]? = some hand) {kind : Overflow}
    (hfault : hand.fault? srv crew.site = some (.overflow kind)) :
    kind = .addition ∧ ∀ (i : Nat) (count : UInt64), documents[i]? = some count →
      2 ^ 64 ≤ crew.site.manager.load i + batch.toNat ∧
        2 ^ 64 ≤ count.toNat + written moves + crew.hands.length * (batch.toNat - 1) := by
  obtain ⟨hkind, ⟨files, uri, source, payload, hwork⟩, hopen, hnone, hroom⟩ :=
    hconserves.fault_cases hdocuments hk hfault
  -- The writer is about to start a batch, so that all those that it started are full.
  have hfull := (h.hands k hand hk).full hopen hnone
  rw [hwork, Work.unplaced] at hfull
  refine ⟨hkind, fun i count hi => ?_⟩
  have hover := hroom i (List.getElem?_eq_some_iff.mp hi).1
  have hcharged := h.charged_le (fun j => if j = k then batch.toNat else 0) (fun j hand' hj => ?_) i
  · rw [Finset.sum_ite_eq', if_pos (Finset.mem_range.mpr (List.getElem?_eq_some_iff.mp hk).1)] at hcharged
    have := hconserves.load_le hi
    exact ⟨hover, by omega⟩
  · by_cases hjk : j = k
    · rw [if_pos hjk, hjk]
      omega
    · rw [if_neg hjk]
      exact (h.hands j hand' hj).ahead hpos (hconserves.hands j hand' hj).1

theorem fits (h : crew.Prepaid batch.toNat moves) (hconserves : crew.Conserves batch documents)
    (hpos : 0 < batch.toNat) {i : Nat} {count : UInt64} (hi : documents[i]? = some count)
    (hcount : count.toNat < 2 ^ 63) (hroom : crew.hands.length * (batch.toNat - 1) ≤ 2 ^ 62)
    (hfew : written moves < 2 ^ 62) (srv : Server σ) (k : Nat) (hand : Hand) (hk : crew.hands[k]? = some hand)
    (kind : Overflow) : hand.fault? srv crew.site ≠ some (.overflow kind) := by
  intro hfault
  have hsome : documents ≠ [] := List.ne_nil_of_mem (List.mem_of_getElem? hi)
  have hmost := ((h.fault_bound hconserves hpos hsome hk hfault).2 i count hi).2
  omega

end Crew.Prepaid

theorem Crew.Prepaid.run {t : Topology} {config : Config.Output} (hpos : 0 < config.batchSize)
    {m : Placement.Manager} (hm : Placement.Manager.new .statistical t config.batchSize config.partition = .ok m)
    {writers : List Writer} (hwriters : ∀ w ∈ writers, ∃ task, Writer.new config true m task = .ok w)
    (srv : Server σ) (counters : Counters) (wire : Wire σ) :
    ∃ documents : List UInt64,
      (∀ (i : Nat) (f : Forest), m.forest? i = some f → documents[i]? = some f.documents) ∧
      ∀ moves, (Crew.run srv moves (.start writers ⟨m, counters, wire⟩)).Conserves config.batchSize documents ∧
        (Crew.run srv moves (.start writers ⟨m, counters, wire⟩)).Prepaid config.batchSize.toNat moves := by
  obtain ⟨documents, hpolicy, hlength, hdocuments⟩ := Placement.Manager.new_statistical hm
  have hbatch : Placement.batchOf config.batchSize = config.batchSize := Placement.batchOf_eq hpos
  have hstart : (Crew.start writers ⟨m, counters, wire⟩).Conserves config.batchSize documents := by
    have hnew := Crew.Conserves.start hm hpolicy hlength
      (fun w hw => (hwriters w hw).elim fun task hnew => ⟨config, task, hbatch.symm, hnew⟩) counters wire
    rwa [hbatch] at hnew
  have hpos' : 0 < config.batchSize.toNat := UInt64.lt_iff_toNat_lt.mp hpos
  have hconserves (moves : List (Nat × Move)) :
      (Crew.run srv moves (.start writers ⟨m, counters, wire⟩)).Conserves config.batchSize documents :=
    Crew.run_induction hstart (fun _ move h => h.step hpos' srv move) moves
  refine ⟨documents, hdocuments, fun moves => ⟨hconserves moves, ?_⟩⟩
  induction moves using List.reverseRecOn with
  | nil => exact Crew.Prepaid.start _ hwriters counters wire
  | append_singleton moves move ih =>
    rw [Crew.run_concat]
    exact ih.step (hconserves moves) hpos' srv move

theorem written_goes (moves : List (Nat × Move)) (move : Nat × Move) (k n : Nat) :
    written (moves ++ move :: List.replicate n (k, .go)) = written (moves ++ [move]) := by
  simp [written, List.countP_append, List.countP_cons, List.countP_replicate, Move.writes]

/-- Charges overflow only where document counts and batches leave no room for all documents that are written and a
batch for each writer. Whatever configuration is accepted, whatever discovery comes to and whatever writers do that
place by load and share a manager, no load is more than that, and to give charges back never overflows. If the
writers' batches are no more than `2 ^ 62` documents together and fewer than that are written, no call is abandoned
for an overflow, nor is any step of it. -/
theorem charges_fit {τ : Type} {options : Config.Options} {config : Config.Output}
    (hconfig : Config.Output.ofOptions options = .ok config) {surveyed : Server τ} {wire₀ : Wire τ}
    {layout : Discovery.Layout} (hlayout : (Discovery.discover surveyed config wire₀).1 = .ok layout)
    (hpolicy : layout.policy = .statistical) {m : Placement.Manager}
    (hm : OutputJob.managerFor config layout = .ok m) {writers : List Writer}
    (hwriters : ∀ w ∈ writers, ∃ task, Writer.new config true m task = .ok w) (srv : Server σ)
    (counters : Counters) (wire : Wire σ) (moves : List (Nat × Move)) :
    let crew : Crew σ := .run srv moves (.start writers ⟨m, counters, wire⟩)
    let batch := config.batchSize.toNat
    let most (f : Forest) := f.documents.toNat + written moves + writers.length * (batch - 1)
    (∀ (i : Nat) (f : Forest), m.forest? i = some f →
      f.documents.toNat < 2 ^ 63 ∧ crew.site.manager.load i ≤ most f) ∧
    (∀ (k : Nat) (hand : Hand), crew.hands[k]? = some hand →
      (∀ (i : Nat) (slot : Slot), hand.writer.slots[i]? = some slot → slot.charged.toNat * batch < 2 ^ 64) ∧
      ∀ kind, hand.fault? srv crew.site = some (.overflow kind) → kind = .addition ∧
        ∀ (i : Nat) (f : Forest), m.forest? i = some f →
          2 ^ 64 ≤ crew.site.manager.load i + batch ∧ 2 ^ 64 ≤ most f) ∧
    (writers.length * (batch - 1) ≤ 2 ^ 62 →
      (written moves < 2 ^ 62 → ∀ (k : Nat) (hand : Hand), crew.hands[k]? = some hand →
        ∀ kind, hand.fault? srv crew.site ≠ some (.overflow kind)) ∧
      ∀ (k : Nat) (w : Writer) (call : Call), crew.hands[k]? = some ⟨w, .idle⟩ →
        written (moves ++ [(k, .call call)]) < 2 ^ 62 →
        ∀ kind, (call.run srv w crew.site).1 ≠ .error (.overflow kind)) := by
  intro crew batch most
  have hsize : 0 < config.batchSize := Config.Output.batchSize_pos hconfig
  have hpos : 0 < batch := UInt64.lt_iff_toNat_lt.mp hsize
  have hnew : Placement.Manager.new .statistical layout.forests config.batchSize config.partition = .ok m := by
    rw [← hpolicy]
    exact mapError_eq_ok.mp hm
  obtain ⟨htopology, hupdatable, -⟩ := Placement.Manager.new_settings hnew
  have hcount (i : Nat) (f : Forest) (hf : m.forest? i = some f) : f.documents.toNat < 2 ^ 63 := by
    obtain ⟨j, -, hj⟩ := Option.bind_eq_some_iff.mp hf
    rw [htopology] at hj
    exact Discovery.discover_counts hlayout f (List.mem_of_getElem? hj)
  obtain ⟨first, hfirst, -⟩ := Placement.Manager.forest?_updatable (htopology.symm ▸ hupdatable)
    (Placement.Manager.forestCount_pos hnew)
  obtain ⟨documents, hdocuments, hruns⟩ := Crew.Prepaid.run hsize hnew hwriters srv counters wire
  have hsome : documents ≠ [] := List.ne_nil_of_mem (List.mem_of_getElem? (hdocuments 0 first hfirst))
  have hlength (moves : List (Nat × Move)) :
      (Crew.run srv moves (.start writers ⟨m, counters, wire⟩)).hands.length = writers.length :=
    (Crew.length_run ..).trans (List.length_map _)
  have hfits (moves : List (Nat × Move)) (hroom : writers.length * (batch - 1) ≤ 2 ^ 62)
      (hfew : written moves < 2 ^ 62) :=
    (hruns moves).2.fits (hruns moves).1 hpos (hdocuments 0 first hfirst) (hcount 0 first hfirst)
      ((hlength moves).symm ▸ hroom) hfew srv
  obtain ⟨hconserves, hprepaid⟩ := hruns moves
  refine ⟨fun i f hf => ⟨hcount i f hf, ?_⟩, fun k hand hk => ⟨fun i slot hi => ?_, fun kind hfault => ?_⟩,
    fun hroom => ⟨hfits moves hroom, fun k w call hk hfew kind h => ?_⟩⟩
  · have hload := hprepaid.load_le hconserves hpos (hdocuments i f hf)
    rwa [hlength] at hload
  · have hcovered := (hconserves.backed hk).charged_le hi
    rw [(hconserves.hands k hand hk).1.batchSize] at hcovered
    exact Nat.lt_of_le_of_lt hcovered (UInt64.toNat_lt _)
  · obtain ⟨hkind, hover⟩ := hprepaid.fault_bound hconserves hpos hsome hk hfault
    refine ⟨hkind, fun i f hf => ?_⟩
    have hmost := hover i f.documents (hdocuments i f hf)
    rwa [hlength] at hmost
  · obtain ⟨n, hn⟩ := call.fault_of_run srv h
    obtain ⟨hbegun, hsite⟩ := Crew.run_begin srv hk call n
    have hrun : Crew.run srv (moves ++ (k, .call call) :: List.replicate n (k, .go))
        (.start writers ⟨m, counters, wire⟩) =
          crew.run srv ((k, .call call) :: List.replicate n (k, .go)) := List.foldl_append ..
    have hfit := hfits (moves ++ (k, .call call) :: List.replicate n (k, .go)) hroom
      ((written_goes moves _ k n).symm ▸ hfew) k ((call.begin w).goes srv n crew.site).1
    rw [hrun, hbegun, hsite] at hfit
    exact hfit (List.getElem?_set_self (List.getElem?_eq_some_iff.mp hk).1) kind hn

namespace Sample

def inBatchesOf (size : String) : Config.Options :=
  .ofList [(Config.Key.outputHost, "b"), (Config.Key.batchSize, size)]

/-- What the options come to. Batches of a thousand documents and more have a transaction each. -/
def large (size : UInt64) : Config.Output :=
  { Discovery.Sample.toBoth with hosts := ["b"], batchSize := size, transactionSize := 1 }

def counted (documents : Int64) : List (List Item) :=
  [[.bool true, .bool true, .bool true], [.text "statistical"],
    [.int 7, .text "b", .bool true, .int documents], [.int 7, .int 0], [.text "manual"]]

def loaded (documents : UInt64) : Discovery.Layout :=
  ⟨.statistical, ⟨[⟨.ofNat 7, "b", true, [], documents⟩]⟩, true, .manual⟩

def byLoad (documents size : UInt64) : Placement.Manager :=
  ⟨⟨[⟨.ofNat 7, "b", true, [], documents⟩]⟩, [0], .statistical ⟨size, [documents]⟩, size⟩

end Sample

/-- Two writers start batches of `2 ^ 40` documents on a forest that has as many as can be. No load could be larger
after two documents, and the next call fits, too. -/
theorem charges_fit_two :
    let config := Sample.large 1099511627776
    let layout := Sample.loaded 9223372036854775807
    let m := Sample.byLoad 9223372036854775807 1099511627776
    let moves := Sample.written 0 1 ++ Sample.written 1 2
    Config.Output.ofOptions (Sample.inBatchesOf "1099511627776") = .ok config ∧
      (Discovery.discover Discovery.Sample.outspoken config
        (.new (Sample.counted 9223372036854775807))).1 = .ok layout ∧
      layout.policy = .statistical ∧ OutputJob.managerFor config layout = .ok m ∧
      ∃ w, Writer.new config true m 0 = .ok w ∧
        let crew : Crew Unit := .run (Sample.partlyDown []) moves (.start [w, w] ⟨m, .zero, .new ()⟩)
        crew.site.manager.load 0 = 9223372036854775807 + 2 * 1099511627776 ∧
          crew.site.manager.load 0 ≤ 9223372036854775807 + written moves + 2 * (1099511627776 - 1) ∧
          ∀ (k : Nat) (w' : Writer), crew.hands[k]? = some ⟨w', .idle⟩ → ∀ kind,
            ((Sample.call 3).run (Sample.partlyDown []) w' crew.site).1 ≠ .error (.overflow kind) := by
  intro config layout m moves
  have hconfig : Config.Output.ofOptions (Sample.inBatchesOf "1099511627776") = .ok config := by decide +kernel
  have hlayout : (Discovery.discover Discovery.Sample.outspoken config
      (.new (Sample.counted 9223372036854775807))).1 = .ok layout := by decide +kernel
  have hm : OutputJob.managerFor config layout = .ok m := by decide +kernel
  have hw : ∃ w, Writer.new config true m 0 = .ok w := ⟨_, rfl⟩
  obtain ⟨w, hw⟩ := hw
  have hwriters : ∀ w' ∈ [w, w], ∃ task, Writer.new config true m task = .ok w' := by
    intro w' hw'
    obtain rfl | rfl := List.mem_pair.mp hw'
    · exact ⟨0, hw⟩
    · exact ⟨0, hw⟩
  obtain ⟨hloads, -, hcalls⟩ :=
    charges_fit hconfig hlayout rfl hm hwriters (Sample.partlyDown []) .zero (.new ()) moves
  refine ⟨hconfig, hlayout, rfl, hm, w, hw, ?_, (hloads 0 _ rfl).2, fun k w' hk => ?_⟩
  · cases hw
    decide +kernel
  · have hroom : 2 * (1099511627776 - 1) ≤ 2 ^ 62 := by decide
    have hfew : written (moves ++ [(k, .call (Sample.call 3))]) = 3 := rfl
    exact (hcalls hroom).2 k w' (Sample.call 3) hk (hfew.trans_lt (by decide))

/-- A batch that is as large as a word leaves no room on a forest that has a document: the first call to write
another one is abandoned, though the configuration was accepted. -/
theorem charges_overflow : ¬∀ (σ τ : Type) (options : Config.Options) (config : Config.Output) (surveyed : Server τ)
    (wire₀ : Wire τ) (layout : Discovery.Layout) (m : Placement.Manager) (writers : List Writer) (srv : Server σ)
    (counters : Counters) (wire : Wire σ) (moves : List (Nat × Move)),
    Config.Output.ofOptions options = .ok config →
    (Discovery.discover surveyed config wire₀).1 = .ok layout → layout.policy = .statistical →
    OutputJob.managerFor config layout = .ok m →
    (∀ w ∈ writers, ∃ task, Writer.new config true m task = .ok w) →
    let crew : Crew σ := .run srv moves (.start writers ⟨m, counters, wire⟩)
    ∀ (k : Nat) (w : Writer) (call : Call), crew.hands[k]? = some ⟨w, .idle⟩ →
      written (moves ++ [(k, .call call)]) < 2 ^ 62 →
      ∀ kind, (call.run srv w crew.site).1 ≠ .error (.overflow kind) := by
  intro h
  have hw : ∃ w, Writer.new (Sample.large 18446744073709551615) true
      (Sample.byLoad 1 18446744073709551615) 0 = .ok w := ⟨_, rfl⟩
  obtain ⟨w, hw⟩ := hw
  refine h Unit (List (List Item)) (Sample.inBatchesOf "18446744073709551615") (Sample.large 18446744073709551615)
    Discovery.Sample.outspoken (.new (Sample.counted 1)) (Sample.loaded 1)
    (Sample.byLoad 1 18446744073709551615) [w] (Sample.partlyDown []) .zero (.new ()) [] (by decide +kernel)
    (by decide +kernel) rfl (by decide +kernel) (fun w' hw' => ⟨0, List.mem_singleton.mp hw' ▸ hw⟩) 0 w
    (Sample.call 1) rfl (by decide +kernel) .addition ?_
  cases hw
  decide +kernel

end Writer

end ForestCourier
