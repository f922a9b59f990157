import Mathlib.Algebra.BigOperators.Group.Finset.Basic
import ForestCourier.Proofs.Writer.Crew
import ForestCourier.Proofs.Writer.Turns

/-!
Conservation of loads. Whatever writers do that share a manager which places by load, and however their
steps come one after the other, the load of a forest is its document count and a batch for each batch
that was started on it and not given back. A writer gives batches back when a flush fails for good, and
then those it has started on the slot since what the slot held was stored or lost last.
-/

namespace ForestCourier.Writer

variable {σ : Type}

/-- The batches of each slot that writer `k` has started and that were not settled or lost since. -/
def owed (k : Nat) : List (Nat × Deed) → Nat → Nat
  | [] => fun _ => 0
  | (k', deed) :: deeds => if k' = k then deed.owe (owed k deeds) else owed k deeds

def started (i : Nat) (deeds : List (Nat × Deed)) : Nat := deeds.countP fun entry => entry.2 = .started i

/-- The batches of slot `i` that were given back: when a flush fails, all that its writer owes. -/
def returned (i : Nat) : List (Nat × Deed) → Nat
  | [] => 0
  | (k, deed) :: deeds => (if deed = .failed i then owed k deeds i else 0) + returned i deeds

section

variable (k : Nat) (deed : Deed) (deeds : List (Nat × Deed)) (i : Nat)

theorem owed_cons_self : owed k ((k, deed) :: deeds) = deed.owe (owed k deeds) := if_pos rfl

theorem owed_cons_of_ne {k' : Nat} (h : k' ≠ k) : owed k ((k', deed) :: deeds) = owed k deeds := if_neg h

theorem started_cons :
    started i ((k, deed) :: deeds) = started i deeds + if deed = .started i then 1 else 0 := by
  rw [started, List.countP_cons]
  simp [started]

end

theorem Deed.owe_le (owed : Nat → Nat) (deed : Deed) (i : Nat) :
    (if deed = .failed i then owed i else 0) + deed.owe owed i ≤
      owed i + if deed = .started i then 1 else 0 := by
  cases deed with
  | started j =>
    by_cases hij : j = i
    · simp [owe, hij]
    · simp [owe, hij, Function.update_of_ne (Ne.symm hij)]
  | settled j | failed j =>
    by_cases hij : j = i
    · simp [owe, hij]
    · simp [owe, hij, Function.update_of_ne (Ne.symm hij)]

theorem returned_add_owed_le (i : Nat) (deeds : List (Nat × Deed)) (writers : Finset Nat) :
    returned i deeds + ∑ k ∈ writers, owed k deeds i ≤ started i deeds := by
  induction deeds generalizing writers with
  | nil => simp [returned, owed, started]
  | cons entry deeds ih =>
    obtain ⟨k, deed⟩ := entry
    have hothers : ∑ k' ∈ writers.erase k, owed k' ((k, deed) :: deeds) i =
        ∑ k' ∈ writers.erase k, owed k' deeds i := by
      refine Finset.sum_congr rfl fun k' hk' => ?_
      rw [owed_cons_of_ne k' deed deeds (Finset.ne_of_mem_erase hk').symm]
    have hwriters : ∑ k' ∈ writers, owed k' ((k, deed) :: deeds) i ≤
        deed.owe (owed k deeds) i + ∑ k' ∈ writers.erase k, owed k' deeds i := by
      rw [← hothers, ← owed_cons_self]
      by_cases hk : k ∈ writers
      · exact (Finset.add_sum_erase writers _ hk).ge
      · rw [Finset.erase_eq_of_notMem hk]
        exact Nat.le_add_left ..
    have hbefore := ih (insert k (writers.erase k))
    rw [Finset.sum_insert (Finset.notMem_erase k writers)] at hbefore
    have hdeed := deed.owe_le (owed k deeds) i
    rw [started_cons, returned]
    omega

/-- A crew whose loads account for all batches, and whose slots are charged for what they owe. -/
structure Crew.Conserves (batch : UInt64) (documents : List UInt64) (crew : Crew σ) : Prop where
  loads : ∃ loads : List UInt64, crew.site.manager.policy = .statistical ⟨batch, loads⟩ ∧
    loads.length = documents.length ∧
    ∀ (i : Nat) (load count : UInt64), loads[i]? = some load → documents[i]? = some count →
      load.toNat + batch.toNat * returned i crew.deeds =
        count.toNat + batch.toNat * started i crew.deeds
  hands : ∀ (k : Nat) (hand : Hand), crew.hands[k]? = some hand →
    hand.writer.Owes batch documents.length hand.work.due (owed k crew.deeds) ∧ hand.work.waits = false

theorem Hand.go_waits (srv : Server σ) {hand : Hand} {site : Site σ} (h : hand.work.waits = false)
    (hload : site.manager.kind = .statistical) : (hand.go srv site).1.work.waits = false := by
  obtain ⟨w, work⟩ := hand
  cases work with
  | idle | pushing => rfl
  | receiving files uri source payload =>
    rw [go_resolved srv (unresolved?_statistical hload), received]
    split <;> rfl
  | inquiring | placing => cases h
  | draining is =>
    cases is with
    | nil => rfl
    | cons i is =>
      dsimp only [go]
      split <;> rfl

theorem Hand.go_charges (srv : Server σ) {hand : Hand} {site : Site σ} {batch : UInt64} {n : Nat}
    {owed : Nat → Nat} {loads : List UInt64} (h : hand.writer.Owes batch n hand.work.due owed)
    (hwork : hand.work.waits = false) (hm : site.manager.policy = .statistical ⟨batch, loads⟩)
    (hlength : loads.length = n) (hpos : 0 < batch.toNat) (hcovers : Covers batch owed loads) :
    Charges batch n (hand.go srv site).1.work.due owed loads (hand.deed srv site)
      (hand.go srv site).1.writer (hand.go srv site).2 := by
  obtain ⟨w, work⟩ := hand
  cases work with
  | idle => exact h.still hm
  | inquiring | placing => cases hwork
  | receiving files uri source payload =>
    have hload : site.manager.kind = .statistical := by rw [Placement.Manager.kind, hm]; rfl
    have hreceived := receive_charges srv files uri source payload h hm hlength hpos hcovers
    rw [go_resolved srv (unresolved?_statistical hload), deed_resolved srv (unresolved?_statistical hload), received]
    split
    · next hr =>
      rw [hr] at hreceived
      exact hreceived
    · next hr =>
      rw [hr] at hreceived
      exact ⟨⟨hreceived.owes.batchSize, hreceived.owes.fastLoad, hreceived.owes.length,
        hreceived.owes.charged, hreceived.owes.filling, hreceived.owes.due_lt⟩, hreceived.loads⟩
    · next hr =>
      rw [hr] at hreceived
      exact hreceived
  | pushing i content => exact push_charges srv content h hm hlength hcovers
  | draining slots =>
    cases slots with
    | nil => exact h.still hm
    | cons i is =>
      have hdrained := drainSlot_charges srv i h hm hlength hcovers
      dsimp only [go, deed]
      split
      · next hd =>
        rw [hd] at hdrained
        exact hdrained
      · next hd =>
        rw [hd] at hdrained
        exact hdrained

theorem load_covers {batch load count : UInt64} {i : Nat} {deeds : List (Nat × Deed)}
    (h : load.toNat + batch.toNat * returned i deeds = count.toNat + batch.toNat * started i deeds)
    (writers : Finset Nat) : count.toNat + batch.toNat * ∑ k ∈ writers, owed k deeds i ≤ load.toNat := by
  have hbatches := Nat.mul_le_mul_left batch.toNat (returned_add_owed_le i deeds writers)
  rw [Nat.mul_add] at hbatches
  omega

theorem Shifts.length {batch : UInt64} {owed : Nat → Nat} {loads loads' : List UInt64}
    {deed : Option Deed} (h : Shifts batch owed loads loads' deed) : loads'.length = loads.length := by
  unfold Shifts at h
  split at h
  · obtain ⟨_, _, -, -, rfl⟩ := h
    exact List.length_set
  · obtain ⟨_, _, -, -, rfl⟩ := h
    exact List.length_set
  · rw [h]

theorem Shifts.load {batch : UInt64} {owed : Nat → Nat} {loads loads' : List UInt64} {deed : Deed}
    (h : Shifts batch owed loads loads' (some deed)) {i : Nat} {load' : UInt64}
    (hload' : loads'[i]? = some load') :
    ∃ load : UInt64, loads[i]? = some load ∧
      load'.toNat + batch.toNat * (if deed = .failed i then owed i else 0) =
        load.toNat + batch.toNat * (if deed = .started i then 1 else 0) := by
  cases deed with
  | started j =>
    obtain ⟨load, charged, hload, hsum, rfl⟩ := h
    have hlt : j < loads.length := (List.getElem?_eq_some_iff.mp hload).1
    by_cases hij : j = i
    · subst hij
      rw [List.getElem?_set_self hlt] at hload'
      cases hload'
      exact ⟨load, hload, by simpa using hsum⟩
    · rw [List.getElem?_set_ne hij] at hload'
      exact ⟨load', hload', by simp [hij]⟩
  | settled j =>
    have hsame : loads' = loads := h
    rw [hsame] at hload'
    exact ⟨load', hload', by simp⟩
  | failed j =>
    obtain ⟨load, left, hload, hsum, rfl⟩ := h
    have hlt : j < loads.length := (List.getElem?_eq_some_iff.mp hload).1
    by_cases hij : j = i
    · subst hij
      rw [List.getElem?_set_self hlt] at hload'
      cases hload'
      exact ⟨load, hload, by simpa using hsum⟩
    · rw [List.getElem?_set_ne hij] at hload'
      exact ⟨load', hload', by simp [hij]⟩

namespace Crew.Conserves

variable {srv : Server σ} {batch : UInt64} {documents : List UInt64} {crew : Crew σ}

theorem account {loads loads' : List UInt64} {k : Nat} {deed : Option Deed} {deeds : List (Nat × Deed)}
    (hshifts : Shifts batch (owed k deeds) loads loads' deed)
    (h : ∀ (i : Nat) (load count : UInt64), loads[i]? = some load → documents[i]? = some count →
      load.toNat + batch.toNat * returned i deeds = count.toNat + batch.toNat * started i deeds)
    (i : Nat) (load' count : UInt64) (hload' : loads'[i]? = some load')
    (hcount : documents[i]? = some count) :
    load'.toNat + batch.toNat * returned i ((deed.map fun deed => (k, deed)).toList ++ deeds) =
      count.toNat + batch.toNat * started i ((deed.map fun deed => (k, deed)).toList ++ deeds) := by
  cases deed with
  | none =>
    rw [hshifts] at hload'
    exact h i load' count hload' hcount
  | some deed =>
    obtain ⟨load, hload, hshift⟩ := hshifts.load hload'
    have hbefore := h i load count hload hcount
    dsimp only [Option.map_some, Option.toList_some, List.singleton_append]
    rw [returned, started_cons, Nat.mul_add, Nat.mul_add]
    omega

theorem owed_self (k : Nat) (deed : Option Deed) (deeds : List (Nat × Deed)) :
    owed k ((deed.map fun deed => (k, deed)).toList ++ deeds) = owedAfter (owed k deeds) deed := by
  cases deed with
  | none => rfl
  | some deed => exact owed_cons_self k deed deeds

theorem owed_of_ne {k k' : Nat} (hk : k' ≠ k) (deed : Option Deed) (deeds : List (Nat × Deed)) :
    owed k ((deed.map fun deed => (k', deed)).toList ++ deeds) = owed k deeds := by
  cases deed with
  | none => rfl
  | some deed => exact owed_cons_of_ne k deed deeds hk

theorem go (h : crew.Conserves batch documents) (hpos : 0 < batch.toNat) (srv : Server σ) {k : Nat}
    {hand : Hand} (hk : crew.hands[k]? = some hand) :
    (crew.step srv (k, .go)).Conserves batch documents := by
  obtain ⟨loads, hm, hlength, haccount⟩ := h.loads
  have hcovers : Covers batch (owed k crew.deeds) loads := by
    intro i load hload
    have hlt : i < documents.length := hlength ▸ (List.getElem?_eq_some_iff.mp hload).1
    have hcover := load_covers (haccount i load _ hload (List.getElem?_eq_getElem hlt)) {k}
    rw [Finset.sum_singleton] at hcover
    omega
  obtain ⟨howes, hwork⟩ := h.hands k hand hk
  have hload : crew.site.manager.kind = .statistical := by rw [Placement.Manager.kind, hm]; rfl
  have hcharges := hand.go_charges srv howes hwork hm hlength hpos hcovers
  obtain ⟨loads', hm', hshifts⟩ := hcharges.loads
  rw [step_go srv hk]
  refine ⟨⟨loads', hm', hshifts.length.trans hlength, account hshifts haccount⟩, fun j hand' hj => ?_⟩
  obtain ⟨rfl, rfl⟩ | ⟨hjk, hj⟩ := Crew.set_cases hj
  · dsimp only
    rw [owed_self]
    exact ⟨hcharges.owes, hand.go_waits srv hwork hload⟩
  · dsimp only
    rw [owed_of_ne hjk]
    exact h.hands j hand' hj

theorem begin {w : Writer} {n : Nat} {owed : Nat → Nat} (h : w.Owes batch n none owed) (call : Call) :
    (call.begin w).writer.Owes batch n (call.begin w).work.due owed ∧ (call.begin w).work.waits = false := by
  cases call with
  | write files uri source payload => exact ⟨h, rfl⟩
  | close =>
    dsimp only [Call.begin]
    split
    · exact ⟨h, rfl⟩
    · exact ⟨⟨h.batchSize, h.fastLoad, h.length, h.charged, h.filling, h.due_lt⟩, rfl⟩

theorem step (h : crew.Conserves batch documents) (hpos : 0 < batch.toNat) (srv : Server σ)
    (move : Nat × Move) : (crew.step srv move).Conserves batch documents := by
  obtain ⟨hstep, -⟩ | ⟨w, call, -, hk, hstep⟩ | ⟨hand, hgo, hk, -⟩ := Crew.step_cases srv crew move
  · rw [hstep]
    exact h
  · rw [hstep]
    refine ⟨h.loads, fun j hand' hj => ?_⟩
    obtain ⟨rfl, rfl⟩ | ⟨-, hj⟩ := Crew.set_cases hj
    · exact begin (h.hands _ _ hk).1 call
    · exact h.hands j hand' hj
  · obtain ⟨k, move⟩ := move
    obtain rfl : move = .go := hgo
    exact h.go hpos srv hk

theorem start {t : Topology} {partition : Option String} {m : Placement.Manager} {counts : List UInt64}
    (hm : Placement.Manager.new .statistical t batch partition = .ok m)
    (hpolicy : m.policy = .statistical ⟨Placement.batchOf batch, counts⟩)
    (hcounts : counts.length = m.forestCount) {writers : List Writer}
    (hwriters : ∀ w ∈ writers, ∃ (config : Config.Output) (task : Nat),
      config.batchSize = Placement.batchOf batch ∧ Writer.new config true m task = .ok w)
    (counters : Counters) (wire : Wire σ) :
    (Crew.start writers ⟨m, counters, wire⟩).Conserves (Placement.batchOf batch) counts := by
  refine ⟨⟨counts, hpolicy, rfl, fun i load count hload hcount => ?_⟩, fun k hand hk => ?_⟩
  · cases hload.symm.trans hcount
    rfl
  · dsimp only [Crew.start] at hk
    rw [List.getElem?_map] at hk
    obtain ⟨w, hw, rfl⟩ := Option.map_eq_some_iff.mp hk
    obtain ⟨config, task, hbatch, hnew⟩ := hwriters w (List.mem_of_getElem? hw)
    obtain ⟨-, -, -, hfast, hfilling, -⟩ := new_cases hnew
    refine ⟨⟨?_, hfast, ?_, fun i slot hi => ?_, fun i => ?_, nofun⟩, rfl⟩
    · rw [(new_terms hnew).2]
      exact hbatch
    · rw [(fits_new (Placement.Manager.sound_new hm) hnew).slots, if_pos hfast, hcounts]
    · obtain ⟨route, rfl⟩ := new_slot hnew hi
      rfl
    · dsimp only
      rw [hfilling]
      constructor
      · nofun
      · rintro (hdue | ⟨slot, hi, hpending⟩)
        · cases hdue
        · obtain ⟨route, rfl⟩ := new_slot hnew hi
          exact absurd rfl hpending

end Crew.Conserves

/-- Whatever writers do that share a manager, and in whatever order, each load is the document count
of its forest and a batch for each batch started and not given back. It covers what any writer may yet
have to give back, which is what its slot is charged for. -/
theorem loads_conserved {t : Topology} {batch : UInt64} {partition : Option String}
    {m : Placement.Manager} (hm : Placement.Manager.new .statistical t batch partition = .ok m)
    {writers : List Writer}
    (hwriters : ∀ w ∈ writers, ∃ (config : Config.Output) (task : Nat),
      config.batchSize = Placement.batchOf batch ∧ Writer.new config true m task = .ok w)
    (srv : Server σ) (counters : Counters) (wire : Wire σ) (moves : List (Nat × Move)) :
    let crew := Crew.run srv moves (.start writers ⟨m, counters, wire⟩)
    (∃ loads, crew.site.manager.policy.loads? = some loads ∧
      ∀ (i : Nat) (f : Forest), m.forest? i = some f → ∃ load, loads[i]? = some load ∧
        returned i crew.deeds ≤ started i crew.deeds ∧
        load.toNat = f.documents.toNat +
          (Placement.batchOf batch).toNat * (started i crew.deeds - returned i crew.deeds) ∧
        ∀ writers : Finset Nat, f.documents.toNat +
          (Placement.batchOf batch).toNat * ∑ k ∈ writers, owed k crew.deeds i ≤ load.toNat) ∧
      ∀ (k : Nat) (hand : Hand), crew.hands[k]? = some hand →
        ∀ (i : Nat) (slot : Slot), hand.writer.slots[i]? = some slot →
          slot.charged.toNat = owed k crew.deeds i := by
  intro crew
  obtain ⟨counts, hpolicy, hlength, hforests⟩ := Placement.Manager.new_statistical hm
  have hconserves : crew.Conserves (Placement.batchOf batch) counts :=
    Crew.run_induction (P := fun crew => crew.Conserves (Placement.batchOf batch) counts)
      (.start hm hpolicy hlength hwriters counters wire)
      (fun _ move h => h.step (Placement.batchOf_pos batch) srv move) moves
  obtain ⟨loads, hloads, hcount, haccount⟩ := hconserves.loads
  refine ⟨⟨loads, by rw [hloads]; rfl, fun i f hf => ?_⟩, fun k hand hk => (hconserves.hands k hand hk).1.charged⟩
  have hdocuments := hforests i f hf
  have hlt : i < loads.length := hcount ▸ (List.getElem?_eq_some_iff.mp hdocuments).1
  have hload : loads[i]? = some loads[i] := List.getElem?_eq_getElem hlt
  have hbalance := haccount i _ _ hload hdocuments
  have hreturned : returned i crew.deeds ≤ started i crew.deeds := by
    have hle := returned_add_owed_le i crew.deeds ∅
    rwa [Finset.sum_empty, Nat.add_zero] at hle
  refine ⟨_, hload, hreturned, ?_, load_covers hbalance⟩
  have hmore := Nat.mul_le_mul_left (Placement.batchOf batch).toNat hreturned
  rw [Nat.mul_sub]
  omega

namespace Sample

/-- One writer fails on the second forest while another one is about to store on the first. -/
def moves : List (Nat × Move) :=
  [(0, .call (call 1)), (0, .go), (1, .call (call 2)), (1, .go), (0, .go), (1, .go), (0, .call .close),
    (1, .call .close), (1, .go), (1, .go), (0, .go), (0, .go)]

end Sample

/-- The batch that was lost has been given back, and the one that was stored has not. -/
theorem loads_conserved_failing :
    ∃ m w, Placement.Manager.new .statistical Sample.topology 2 none = .ok m ∧
      Writer.new (Sample.config 2) true m 0 = .ok w ∧
      let crew := Crew.run (Sample.partlyDown ["b"]) Sample.moves (.start [w, w] ⟨m, .zero, .new ()⟩)
      crew.deeds = [(0, .settled 0), (1, .failed 1), (1, .started 1), (0, .started 0)] ∧
        crew.site.manager.policy.loads? = some [2, 0] ∧
        ∃ loads, crew.site.manager.policy.loads? = some loads ∧
          ∀ (i : Nat) (f : Forest), m.forest? i = some f → ∃ load, loads[i]? = some load ∧
            load.toNat = f.documents.toNat + 2 * (started i crew.deeds - returned i crew.deeds) := by
  have hm : ∃ m, Placement.Manager.new .statistical Sample.topology 2 none = .ok m := ⟨_, rfl⟩
  obtain ⟨m, hm⟩ := hm
  have hw : ∃ w, Writer.new (Sample.config 2) true m 0 = .ok w := ⟨_, rfl⟩
  obtain ⟨w, hw⟩ := hw
  have hwriters : ∀ w' ∈ [w, w], ∃ (config : Config.Output) (task : Nat),
      config.batchSize = Placement.batchOf 2 ∧ Writer.new config true m task = .ok w' := by
    intro w' hmem
    have heq : w' = w := by simpa using hmem
    rw [heq]
    exact ⟨Sample.config 2, 0, rfl, hw⟩
  refine ⟨m, w, hm, hw, ?_, ?_, ?_⟩
  · cases hm
    cases hw
    decide +kernel
  · cases hm
    cases hw
    decide +kernel
  · obtain ⟨⟨loads, hloads, hforests⟩, -⟩ :=
      loads_conserved hm hwriters (Sample.partlyDown ["b"]) .zero (.new ()) Sample.moves
    refine ⟨loads, hloads, fun i f hf => ?_⟩
    obtain ⟨load, hload, -, hbalance, -⟩ := hforests i f hf
    exact ⟨load, hload, hbalance⟩

end ForestCourier.Writer
