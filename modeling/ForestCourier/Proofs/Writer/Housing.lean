import ForestCourier.Proofs.Writer.Aim
import ForestCourier.Proofs.Writer.Crew
import ForestCourier.Proofs.Writer.Turns
import ForestCourier.Proofs.Writer.Uses

/-!
Documents stay on forests that take them. What the writers of a crew ask of the manager is written down, next
to what anybody else asks between their steps; each slot that a document is placed on is the one of a forest
that the manager may place it on, and what a slot holds was placed there.
-/

namespace ForestCourier.Writer

open Placement (Manager Use)

variable {σ : Type}

variable {m : Manager} {uses : List Use} {w w' : Writer} {site : Site σ}

/-- Slot `i` is one that the manager may place a document of the writer on. -/
def Lodges (m : Manager) (uses : List Use) (w : Writer) (i : Nat) : Prop := ∃ f, m.Takes w.partition uses i f

theorem Lodges.append {i : Nat} (h : w.Lodges m uses i) (more : List Use) : w.Lodges m (uses ++ more) i := by
  obtain ⟨f, hf⟩ := h
  exact ⟨f, hf.append more⟩

theorem place_lodges (hm : m.Fresh) (hsite : site.manager = m.useAll uses) {uri : Uri} {i : Nat}
    (h : (w.place uri site).1 = .ok i) : w.Lodges m uses i := by
  unfold place at h
  dsimp only at h
  cases hr : (site.manager.place uri w.partition).1 with
  | error fault =>
    rw [hr] at h
    cases h
  | ok j =>
    rw [hr] at h
    cases h
    rw [hsite] at hr
    exact hm.place_takes hr

theorem place_uses (hsite : site.manager = m.useAll uses) (uri : Uri) :
    (w.place uri site).2.manager = m.useAll (uses ++ [.place uri w.partition]) := by
  rw [Manager.useAll_append, ← hsite]
  rfl

theorem slotFor_lodges (srv : Server σ) (uri : Uri) (hm : m.Fresh) (hsite : site.manager = m.useAll uses)
    (hfilling : w.fastLoad = true → ∀ i, w.filling = some i → w.Lodges m uses i) :
    let uses' := uses ++ w.slotUses srv uri site
    (w.slotFor srv uri site).2.2.manager = m.useAll uses' ∧
      (w.fastLoad = true → (∀ i, (w.slotFor srv uri site).1 = .ok i → w.Lodges m uses' i) ∧
        ∀ i, (w.slotFor srv uri site).2.1.filling = some i → w.Lodges m uses' i) := by
  obtain ⟨hmanager, hfill, hslot⟩ | ⟨earlier, site₁, huses, hearlier, hmanager, hslot, hfill⟩ :=
    slotFor_asks srv uri w site
  · refine ⟨by rw [hmanager, hsite, Manager.useAll_append], fun hfast => ⟨fun i hi => ?_, fun i hi => ?_⟩⟩
    · exact (hfilling hfast i (hslot hfast i hi)).append _
    · exact (hfilling hfast i (hfill ▸ hi)).append _
  · rw [hsite, ← Manager.useAll_append] at hearlier
    have hplaced {i : Nat} (hi : (w.place uri site₁).1 = .ok i) :
        w.Lodges m (uses ++ (earlier ++ [.place uri w.partition])) i := by
      rw [← List.append_assoc]
      exact (place_lodges hm hearlier hi).append _
    rw [huses]
    refine ⟨?_, fun hfast => ⟨fun i hi => hplaced (hslot i hi), fun i hi => ?_⟩⟩
    · rw [hmanager, place_uses hearlier uri, List.append_assoc]
    · rcases hfill i hi with hi | hi
      · exact (hfilling hfast i hi).append _
      · exact hplaced hi

theorem receive_lodges (srv : Server σ) (files : FileStore) (uri : Uri) (source : Option Source)
    (payload : Payload) (hm : m.Fresh) (hsite : site.manager = m.useAll uses)
    (hfilling : w.fastLoad = true → ∀ i, w.filling = some i → w.Lodges m uses i) :
    let uses' := uses ++ w.receiveUses srv files uri source payload site
    (w.receive srv files uri source payload site).2.2.manager = m.useAll uses' ∧
      (w.fastLoad = true →
        (∀ i content, (w.receive srv files uri source payload site).1 = .ok (.placed i content) →
          w.Lodges m uses' i) ∧
        ∀ i, (w.receive srv files uri source payload site).2.1.filling = some i → w.Lodges m uses' i) := by
  cases hclosed : w.closed with
  | true =>
    have huses : w.receiveUses srv files uri source payload site = [] := by simp [receiveUses, hclosed]
    rw [receive_closed hclosed, huses, List.append_nil]
    exact ⟨hsite, fun hfast => ⟨fun i content hok => (by cases hok), hfilling hfast⟩⟩
  | false =>
    cases hcontent : Content.create files w.options source (uri.wrap w.uriPrefix w.uriSuffix) payload with
    | error e =>
      have huses : w.receiveUses srv files uri source payload site = [] := by
        simp [receiveUses, hclosed, hcontent]
      rw [receive_skipping srv site hclosed hcontent, huses, List.append_nil]
      exact ⟨hsite, fun hfast => ⟨fun i content hok => (by cases hok), hfilling hfast⟩⟩
    | ok content =>
      have huses : w.receiveUses srv files uri source payload site =
          w.slotUses srv (uri.wrap w.uriPrefix w.uriSuffix) site := by
        simp [receiveUses, hclosed, hcontent]
      obtain ⟨hmanager, hlodges⟩ := slotFor_lodges srv (uri.wrap w.uriPrefix w.uriSuffix) hm hsite hfilling
      rw [receive_placing srv site hclosed hcontent, huses]
      refine ⟨hmanager, fun hfast => ⟨fun i content' hi => ?_, (hlodges hfast).2⟩⟩
      cases hr : (w.slotFor srv (uri.wrap w.uriPrefix w.uriSuffix) site).1 with
      | error fault =>
        rw [hr] at hi
        cases hi
      | ok j =>
        rw [hr] at hi
        cases hi
        exact (hlodges hfast).1 i hr

/-- The failover targets of the forest that an index stands for. -/
def quarters (m : Manager) (port : UInt16) (i : Nat) : List Target :=
  ((m.forest? i).map fun f => (Route.ofForest f).known port).getD []

/-- A writer with a slot for each forest, that holds documents only on slots that they may be placed on. -/
structure Housed (m : Manager) (uses : List Use) (w : Writer) : Prop where
  length : w.slots.length = m.forestCount
  aimed : w.Aimed w.terms (quarters m w.terms.port)
  filling : ∀ i, w.filling = some i → w.Lodges m uses i
  holds : ∀ (i : Nat) (slot : Slot), w.slots[i]? = some slot → slot.Empty ∨ w.Lodges m uses i

namespace Housed

theorem append (h : w.Housed m uses) (more : List Use) : w.Housed m (uses ++ more) where
  length := h.length
  aimed := h.aimed
  filling i hi := (h.filling i hi).append more
  holds i slot hi := (h.holds i slot hi).imp_right (·.append more)

theorem found (h : w.Housed m uses) (hw : Found w w') (hfilling : ∀ i, w'.filling = some i → w.Lodges m uses i) :
    w'.Housed m uses := by
  have haimed := h.aimed.found hw
  refine ⟨hw.length.trans h.length, by rwa [hw.terms], fun i hi => ?_, fun i slot' hi => ?_⟩
  · unfold Lodges
    rw [hw.partition]
    exact hfilling i hi
  · obtain ⟨slot, charged, hslot, rfl⟩ := hw.getElem? hi
    unfold Lodges
    rw [hw.partition]
    exact h.holds i slot hslot

theorem beside (h : w.Housed m uses) {i : Nat} (hw : Beside i w w')
    (haimed : w'.Aimed w.terms (quarters m w.terms.port)) (hi : w.Lodges m uses i) : w'.Housed m uses := by
  refine ⟨hw.length.trans h.length, by rwa [hw.terms], fun j hj => ?_, fun j slot hj => ?_⟩
  · unfold Lodges
    rw [hw.partition]
    exact h.filling j (hw.filling j hj)
  · unfold Lodges
    rw [hw.partition]
    by_cases hji : j = i
    · rw [hji]
      exact .inr hi
    · rw [hw.others j hji] at hj
      exact h.holds j slot hj

theorem flush (h : w.Housed m uses) (srv : Server σ) {i : Nat} (hi : w.Lodges m uses i) (closing : Bool)
    (site : Site σ) : (w.flush srv i closing site).2.1.Housed m uses :=
  h.beside (beside_flush srv i closing w site) (h.aimed.flush srv i closing site) hi

theorem push (h : w.Housed m uses) (srv : Server σ) {i : Nat} (hi : w.Lodges m uses i) (content : Content)
    (site : Site σ) : (w.push srv i content site).2.1.Housed m uses :=
  h.beside (beside_push srv i content w site) (h.aimed.push srv i content site) hi

theorem hangUp (h : w.Housed m uses) (srv : Server σ) (i : Nat) (site : Site σ) :
    (w.hangUp srv i site).1.Housed m uses := by
  have hw := beside_hangUp srv i w site
  refine ⟨hw.length.trans h.length, hw.terms ▸ h.aimed.hangUp srv i site, fun j hj => ?_, fun j slot' hj => ?_⟩
  · unfold Lodges
    rw [hw.partition]
    exact h.filling j (hw.filling j hj)
  · unfold Lodges
    rw [hw.partition]
    rw [hangUp_slots, List.getElem?_modify] at hj
    obtain ⟨slot, hslot, rfl⟩ := Option.map_eq_some_iff.mp hj
    split
    · exact h.holds j slot hslot
    · exact h.holds j slot hslot

theorem drainSlot (h : w.Housed m uses) (srv : Server σ) (i : Nat) (site : Site σ) :
    (w.drainSlot srv i site).2.1.Housed m uses := by
  have hflush : (if w.isBusy i then w.flush srv i true site else (.ok (), w, site)).2.1.Housed m uses := by
    split
    · next hbusy =>
      obtain ⟨slot, hslot⟩ := Option.isSome_iff_exists.mp (Option.isSome_of_any hbusy)
      rcases h.holds i slot hslot with hempty | hi
      · rw [(isBusy_eq_false hslot).mpr hempty] at hbusy
        cases hbusy
      · exact h.flush srv hi true site
    · exact h
  obtain ⟨kind, hd, -⟩ | ⟨result, w₁, site₁, hd, he⟩ := drainSlot_cases srv i w site
  · rwa [hd] at hflush
  · rw [hd] at hflush
    rw [he]
    exact hflush.hangUp srv i site₁

end Housed

/-- A new writer has a slot for each forest, in the order of the indices. -/
theorem housed_new (hm : m.Fresh) {earlier : List Use} {config : Config.Output} {task : Nat}
    (hw : Writer.new config true (m.useAll earlier) task = .ok w) (uses : List Use) : w.Housed m uses := by
  have htracks := Manager.tracks hm.unassigned earlier
  obtain ⟨routes, hroutes, -, hfast, hfilling, -⟩ := new_cases hw
  have hfits := fits_new (hm.reachable.useAll earlier).sound hw
  obtain ⟨hslots, -⟩ := new_terms hw
  refine ⟨?_, ⟨rfl, fun i slot hi => ?_⟩, fun i hi => ?_, fun i slot hi => ?_⟩
  · have hlength := hfits.slots
    rw [hfast, if_pos rfl] at hlength
    exact hlength.trans htracks.forestCount
  · rw [slotsFor, if_pos rfl] at hslots
    rw [← Except.ok.inj hslots, List.getElem?_map, htracks.forests] at hi
    obtain ⟨f, hf, rfl⟩ := Option.map_eq_some_iff.mp hi
    refine ⟨?_, trivial, nofun⟩
    unfold quarters
    rw [hm.getElem?_forests hf]
    rfl
  · rw [hfilling] at hi
    cases hi
  · obtain ⟨route, rfl⟩ := new_slot hw hi
    exact .inl ⟨rfl, rfl⟩

namespace Hand

def asks (srv : Server σ) (hand : Hand) (site : Site σ) : List Use :=
  match hand.work with
  | .receiving files uri source payload =>
    if (hand.writer.unresolved? files uri source payload site.manager).isSome then []
    else hand.writer.receiveUses srv files uri source payload site
  | .inquiring _ _ partition inquiry => inquiry.uses partition
  | .placing uri _ => [.place uri hand.writer.partition]
  | .pushing i content => hand.writer.pushUses srv i content site
  | .draining (i :: _) => hand.writer.drainUses srv i site
  | _ => []

/-- A step that pushes or drains makes its requests whatever has become of the manager, and asks it once, at most. -/
theorem go_apart (srv : Server σ) {hand : Hand} {site site' : Site σ} (h : site'.wire = site.wire)
    (hwork : (∃ i content, hand.work = .pushing i content) ∨ ∃ is, hand.work = .draining is) :
    (hand.go srv site').1 = (hand.go srv site).1 ∧ (hand.go srv site').2.wire = (hand.go srv site).2.wire ∧
      hand.asks srv site' = hand.asks srv site ∧ (hand.asks srv site).length ≤ 1 := by
  obtain ⟨w, work⟩ := hand
  obtain ⟨i, content, rfl⟩ | ⟨is, rfl⟩ := hwork
  · obtain ⟨hpush, huses⟩ := push_apart srv i (w := w) content h
    exact ⟨congrArg (Hand.mk · .idle) hpush.writer, hpush.wire, huses⟩
  · cases is with
    | nil => exact ⟨rfl, h, rfl, Nat.zero_le 1⟩
    | cons i is =>
      obtain ⟨hdrain, huses⟩ := drainSlot_apart srv i (w := w) h
      dsimp only [go]
      cases hd : w.drainSlot srv i site with
      | mk r state =>
        cases hd' : w.drainSlot srv i site' with
        | mk r' state' =>
          rw [hd, hd'] at hdrain
          obtain rfl : r' = r := hdrain.result
          cases r' with
          | error fault => exact ⟨congrArg (Hand.mk · .idle) hdrain.writer, hdrain.wire, huses⟩
          | ok first => exact ⟨congrArg (Hand.mk · (.draining is)) hdrain.writer, hdrain.wire, huses⟩

/-- A hand whose writer, if it places documents itself, is housed, and was given a place for the one it holds. -/
def Housed (m : Manager) (uses : List Use) (hand : Hand) : Prop :=
  hand.writer.fastLoad = true →
    hand.writer.Housed m uses ∧ ∀ i, hand.work.due = some i → hand.writer.Lodges m uses i

variable {hand : Hand}

theorem Housed.append (h : hand.Housed m uses) (more : List Use) : hand.Housed m (uses ++ more) := fun hfast =>
  ⟨(h hfast).1.append more, fun i hi => ((h hfast).2 i hi).append more⟩

theorem Housed.begin {w : Writer} (h : (Hand.mk w .idle).Housed m uses) (call : Call) :
    (call.begin w).Housed m uses := by
  cases call with
  | write files uri source payload => exact fun hfast => ⟨(h hfast).1, nofun⟩
  | close =>
    dsimp only [Call.begin]
    split
    · exact h
    · intro hfast
      obtain ⟨hw, -⟩ := h hfast
      exact ⟨⟨hw.length, ⟨hw.aimed.kept, hw.aimed.slots⟩, hw.filling, hw.holds⟩, nofun⟩

theorem Housed.receiving (srv : Server σ) (files : FileStore) (uri : Uri) (source : Option Source)
    (payload : Payload) (hm : m.Fresh) (hsite : site.manager = m.useAll uses)
    (h : (Hand.mk w (.receiving files uri source payload)).Housed m uses) :
    let before := Hand.mk w (.receiving files uri source payload)
    (before.go srv site).2.manager = m.useAll (uses ++ before.asks srv site) ∧
      (before.go srv site).1.Housed m (uses ++ before.asks srv site) := by
  cases hlookup : w.unresolved? files uri source payload site.manager with
  | some missing =>
    simp only [asks, hlookup, Option.isSome_some, if_true, List.append_nil]
    rw [go_unresolved srv hlookup]
    exact ⟨hsite, fun hfast => ⟨(h hfast).1, fun i hi => by cases hi⟩⟩
  | none =>
    have hfound := found_receive srv files uri source payload w site
    obtain ⟨hmanager, hlodges⟩ := receive_lodges srv files uri source payload hm hsite fun hfast => (h hfast).1.filling
    have hpartition := hfound.partition
    have hhoused (hfast : w.fastLoad = true) : (w.receive srv files uri source payload site).2.1.Housed m
        (uses ++ w.receiveUses srv files uri source payload site) :=
      ((h hfast).1.append _).found hfound (hlodges hfast).2
    have hfastLoad := hfound.fastLoad
    simp only [asks, hlookup, Option.isSome_none, Bool.false_eq_true, if_false]
    rw [go_resolved srv hlookup, received]
    cases hr : w.receive srv files uri source payload site with
    | mk r state =>
      obtain ⟨w₁, site₁⟩ := state
      rw [hr] at hmanager hlodges hpartition hhoused hfastLoad
      cases r with
      | error fault => exact ⟨hmanager, fun hfast => ⟨hhoused (hfastLoad ▸ hfast), fun i hi => by cases hi⟩⟩
      | ok receipt =>
        cases receipt with
        | skipped e =>
          refine ⟨hmanager, fun hfast => ?_⟩
          have hw := hhoused (hfastLoad ▸ hfast)
          exact ⟨⟨hw.length, ⟨hw.aimed.kept, hw.aimed.slots⟩, hw.filling, hw.holds⟩, fun i hi => by cases hi⟩
        | placed i content =>
          refine ⟨hmanager, fun hfast => ⟨hhoused (hfastLoad ▸ hfast), fun j hj => ?_⟩⟩
          cases hj
          unfold Lodges
          rw [hpartition]
          exact (hlodges (hfastLoad ▸ hfast)).1 i content rfl

theorem Housed.placing (srv : Server σ) {uri : Uri} {content : Content} (hm : m.Fresh)
    (hsite : site.manager = m.useAll uses) (h : (Hand.mk w (.placing uri content)).Housed m uses) :
    let before := Hand.mk w (.placing uri content)
    (before.go srv site).2.manager = m.useAll (uses ++ before.asks srv site) ∧
      (before.go srv site).1.Housed m (uses ++ before.asks srv site) := by
  refine ⟨place_uses hsite uri, fun hfast => ⟨(h hfast).1.append _, fun i hi => ?_⟩⟩
  exact (place_lodges hm hsite (Work.due_placed.mp hi)).append _

theorem Housed.go (srv : Server σ) (hm : m.Fresh) (hsite : site.manager = m.useAll uses) (h : hand.Housed m uses) :
    (hand.go srv site).2.manager = m.useAll (uses ++ hand.asks srv site) ∧
      (hand.go srv site).1.Housed m (uses ++ hand.asks srv site) := by
  obtain ⟨w, work⟩ := hand
  cases work with
  | idle =>
    dsimp only [Hand.go, Hand.asks]
    rw [List.append_nil]
    exact ⟨hsite, h⟩
  | receiving files uri source payload => exact Housed.receiving srv files uri source payload hm hsite h
  | inquiring uri content partition inquiry =>
    refine ⟨?_, fun hfast => ⟨(h hfast).1.append _, fun i hi => ?_⟩⟩
    · rw [Manager.useAll_append, ← hsite]
      exact inquiry.step_uses srv w partition site
    · cases (Work.due_inquired ..).symm.trans hi
  | placing uri content => exact Housed.placing srv hm hsite h
  | pushing i content =>
    refine ⟨?_, fun hfast => ⟨?_, nofun⟩⟩
    · rw [Manager.useAll_append, ← hsite]
      exact push_uses srv i content w site
    · obtain ⟨hw, hdue⟩ := h ((beside_push srv i content w site).fastLoad ▸ hfast)
      exact (hw.push srv (hdue i rfl) content site).append _
  | draining is =>
    cases is with
    | nil =>
      dsimp only [Hand.go, Hand.asks]
      rw [List.append_nil]
      exact ⟨hsite, h⟩
    | cons i is =>
      have hmanager := drainSlot_uses srv i w site
      have hfastLoad := (beside_drainSlot srv i w site).fastLoad
      have hhoused (hfast : w.fastLoad = true) := ((h hfast).1.drainSlot srv i site).append (w.drainUses srv i site)
      rw [hsite, ← Manager.useAll_append] at hmanager
      dsimp only [Hand.go, Hand.asks]
      cases hd : w.drainSlot srv i site with
      | mk r state =>
        rw [hd] at hmanager hfastLoad hhoused
        cases r with
        | error fault => exact ⟨hmanager, fun hfast => ⟨hhoused (hfastLoad ▸ hfast), nofun⟩⟩
        | ok first => exact ⟨hmanager, fun hfast => ⟨hhoused (hfastLoad ▸ hfast), nofun⟩⟩

theorem settled_go {before : Writer} {hand : Hand} (h : before.Settled hand.writer) (srv : Server σ)
    (site : Site σ) : before.Settled (hand.go srv site).1.writer :=
  hand.go_keeps (fun _ _ _ _ _ _ h => h.trans (.of_found (found_receive ..)))
    (fun _ h => ⟨h.terms, h.partition, h.hosts, h.fastLoad⟩)
    (fun _ _ _ _ h => h.trans (.of_beside (beside_push ..)))
    (fun _ _ _ h => h.trans (.of_beside (beside_drainSlot ..))) h site

end Hand

namespace Crew

def asks (srv : Server σ) (crew : Crew σ) : Turn → List Use
  | .move k .go =>
    match crew.hands[k]? with
    | none => []
    | some hand => hand.asks srv crew.site
  | .move _ (.call _) => []
  | .use use => [use]

def history (srv : Server σ) : List Turn → Crew σ → List Use
  | [], _ => []
  | turn :: turns, crew => crew.asks srv turn ++ history srv turns (crew.turn srv turn)

theorem history_concat (srv : Server σ) (turns : List Turn) (turn : Turn) (crew : Crew σ) :
    crew.history srv (turns ++ [turn]) = crew.history srv turns ++ (crew.play srv turns).asks srv turn := by
  induction turns generalizing crew with
  | nil => exact List.append_nil _
  | cons first turns ih =>
    rw [List.cons_append, history, ih, history, List.append_assoc]
    rfl

structure Housed (m : Manager) (uses : List Use) (crew : Crew σ) : Prop where
  manager : crew.site.manager = m.useAll uses
  hands : ∀ hand ∈ crew.hands, hand.Housed m uses

variable {crew : Crew σ}

theorem Housed.set (h : crew.Housed m uses) {more : List Use} {k : Nat} {hand : Hand} {site : Site σ}
    {deeds : List (Nat × Deed)} (hmanager : site.manager = m.useAll (uses ++ more))
    (hhand : hand.Housed m (uses ++ more)) :
    (Crew.mk (crew.hands.set k hand) site deeds).Housed m (uses ++ more) := by
  refine ⟨hmanager, fun other hother => ?_⟩
  rcases List.mem_or_eq_of_mem_set hother with hother | rfl
  · exact (h.hands other hother).append more
  · exact hhand

theorem Housed.turn (h : crew.Housed m uses) (srv : Server σ) (hm : m.Fresh) (turn : Turn) :
    (crew.turn srv turn).Housed m (uses ++ crew.asks srv turn) := by
  cases turn with
  | use use =>
    refine ⟨?_, fun hand hhand => (h.hands hand hhand).append _⟩
    rw [Manager.useAll_append, ← h.manager]
    rfl
  | move k move =>
    rw [Crew.turn]
    obtain ⟨hstep, hnone⟩ | ⟨w, call, hcall, hk, hstep⟩ | ⟨hand, hgo, hk, hstep⟩ := step_cases srv crew (k, move)
    · have hasks : crew.asks srv (.move k move) = [] := by
        cases move with
        | call call => rfl
        | go => rw [Crew.asks, hnone rfl]
      rw [hstep, hasks, List.append_nil]
      exact h
    · obtain rfl : move = .call call := hcall
      have hbegun := (h.hands _ (List.mem_of_getElem? hk)).begin call
      rw [hstep, Crew.asks]
      exact h.set (by rw [List.append_nil, h.manager]) (by rwa [List.append_nil])
    · obtain rfl : move = .go := hgo
      have hwent := (h.hands _ (List.mem_of_getElem? hk)).go srv hm h.manager
      rw [hstep, Crew.asks, hk]
      exact h.set hwent.1 hwent.2

theorem Housed.play (h : crew.Housed m uses) (srv : Server σ) (hm : m.Fresh) (turns : List Turn) :
    (crew.play srv turns).Housed m (uses ++ crew.history srv turns) := by
  induction turns generalizing crew uses with
  | nil =>
    rw [history, List.append_nil]
    exact h
  | cons turn turns ih =>
    rw [history, ← List.append_assoc]
    exact ih (h.turn srv hm turn)

theorem play_settled (srv : Server σ) (turns : List Turn) (crew : Crew σ) :
    (crew.play srv turns).hands.length = crew.hands.length ∧
      ∀ (k : Nat) (hand : Hand), (crew.play srv turns).hands[k]? = some hand →
        ∃ before, crew.hands[k]? = some before ∧ before.writer.Settled hand.writer := by
  induction turns using List.reverseRecOn with
  | nil => exact ⟨rfl, fun k hand hk => ⟨hand, hk, rfl, rfl, rfl, rfl⟩⟩
  | append_singleton turns turn ih =>
    obtain ⟨hlength, hsettled⟩ := ih
    rw [play_concat]
    cases turn with
    | use use => exact ⟨hlength, hsettled⟩
    | move k move =>
      refine ⟨(length_step srv _ _).trans hlength, step_keeps
        (P := fun k w => ∃ before, crew.hands[k]? = some before ∧ before.writer.Settled w)
        hsettled (fun k w h => ?_) fun hand _ hk => ?_⟩
      · obtain ⟨before, hk, h⟩ := h
        exact ⟨before, hk, h.terms, h.partition, h.hosts, h.fastLoad⟩
      · obtain ⟨before, hk, h⟩ := hsettled k hand hk
        exact ⟨before, hk, hand.settled_go h srv _⟩

theorem housed_start {m : Manager} (hm : m.Fresh) {writers : List Writer}
    (hwriters : ∀ w ∈ writers, ∃ (config : Config.Output) (fastLoad : Bool) (uses : List Placement.Use) (task : Nat),
      Writer.new config fastLoad (m.useAll uses) task = .ok w)
    (earlier : List Placement.Use) (counters : Counters) (wire : Wire σ) :
    (Crew.start writers ⟨m.useAll earlier, counters, wire⟩).Housed m earlier := by
  refine ⟨rfl, fun hand hhand hfast => ?_⟩
  obtain ⟨w, hw, rfl⟩ := List.mem_map.mp hhand
  obtain ⟨config, fastLoad, before, task, hnew⟩ := hwriters w hw
  obtain ⟨-, -, -, hfastLoad, -⟩ := new_cases hnew
  rw [← hfastLoad.trans rfl, hfast] at hnew
  exact ⟨housed_new hm hnew earlier, nofun⟩

end Crew

/-- Whatever is asked of the manager of a job, it answers only indices of forests of the topology that take
documents, and, if it keeps to partitions, of those that were named for the partition first. So a writer with
fast load that shares it has a slot for each document that is given a place, and holds none on the slots of
other forests. -/
theorem placements_valid {kind : Placement.Kind} {t : Topology} {batch : UInt64} {standard : Option String}
    (hm : Manager.new kind t batch standard = .ok m) :
    m.topology = t ∧ m.kind = kind ∧
      (∀ (uses : List Use) (uri : Uri) (partition : Option String) (i : Nat),
        ((m.useAll uses).place uri partition).1 = .ok i →
          i < (m.useAll uses).forestCount ∧
            ∃ f, (m.useAll uses).forest? i = some f ∧ m.Takes partition uses i f) ∧
      ∀ (srv : Server σ) (earlier : List Use) (writers : List Writer) (counters : Counters) (wire : Wire σ)
        (turns : List Turn),
        (∀ w ∈ writers, ∃ (config : Config.Output) (fastLoad : Bool) (uses : List Use) (task : Nat),
          Writer.new config fastLoad (m.useAll uses) task = .ok w) →
        let crew := (Crew.start writers ⟨m.useAll earlier, counters, wire⟩).play srv turns
        let uses := earlier ++ (Crew.start writers ⟨m.useAll earlier, counters, wire⟩).history srv turns
        crew.site.manager = m.useAll uses ∧ crew.hands.length = writers.length ∧
          ∀ (k : Nat) (hand : Hand) (w : Writer), crew.hands[k]? = some hand → writers[k]? = some w →
            w.fastLoad = true →
              (∀ i, hand.work.due = some i ∨ hand.writer.filling = some i →
                i < hand.writer.slots.length ∧ ∃ f, m.Takes w.partition uses i f) ∧
              ∀ (i : Nat) (slot : Slot), hand.writer.slots[i]? = some slot →
                slot.Empty ∨ ∃ f, m.Takes w.partition uses i f ∧
                  slot.route.known hand.writer.terms.port = (Route.ofForest f).known hand.writer.terms.port := by
  have hfresh := Manager.fresh_new hm
  obtain ⟨htopology, -, hkind, -⟩ := Manager.new_settings hm
  refine ⟨htopology, hkind, fun uses uri partition i hplace => ?_, ?_⟩
  · have htracks := Manager.tracks hfresh.unassigned uses
    obtain ⟨f, hf⟩ := hfresh.place_takes hplace
    exact ⟨htracks.forestCount ▸ hf.lt, f, (htracks.forest? i).trans hf.1, hf⟩
  · intro srv earlier writers counters wire turns hwriters crew uses
    have hcrew : crew.Housed m uses :=
      (Crew.housed_start hfresh hwriters earlier counters wire).play srv hfresh turns
    obtain ⟨hlength, hsettled⟩ := Crew.play_settled srv turns (Crew.start writers ⟨m.useAll earlier, counters, wire⟩)
    refine ⟨hcrew.manager, hlength.trans (List.length_map _), fun k hand w hk hw hfast => ?_⟩
    obtain ⟨before, hbefore, -, hname, -, hfastLoad⟩ := hsettled k hand hk
    rw [Crew.start, List.getElem?_map, hw] at hbefore
    cases hbefore
    obtain ⟨hhoused, hdue⟩ := hcrew.hands hand (List.mem_of_getElem? hk) (hfastLoad.trans hfast)
    unfold Lodges at hdue
    have hfilling := hhoused.filling
    have hholds := hhoused.holds
    unfold Lodges at hfilling hholds
    rw [hname] at hdue hfilling hholds
    refine ⟨fun i hi => ?_, fun i slot hi => (hholds i slot hi).imp_right ?_⟩
    · obtain ⟨f, hf⟩ := hi.elim (hdue i) (hfilling i)
      exact ⟨hhoused.length ▸ hf.lt, f, hf⟩
    · rintro ⟨f, hf⟩
      refine ⟨f, hf, ?_⟩
      have hknown := (hhoused.aimed.slots i slot hi).known
      rwa [quarters, hf.1] at hknown

namespace Sample

/-- Of three forests the one in the middle takes no documents. -/
def mixed : Topology where
  forests := [⟨⟨"1"⟩, "a", true, [], 0⟩, ⟨⟨"2"⟩, "b", false, [], 0⟩, ⟨⟨"3"⟩, "b", true, [], 0⟩]

/-- Two forests are named for the partition before a document is written that belongs to it, and then another. -/
def housing : List Turn :=
  [.use (.cache "p" [⟨"2"⟩, ⟨"3"⟩]), .move 0 (.call (call 1)), .use (.cache "p" [⟨"1"⟩]), .move 0 .go]

end Sample

/-- The document is placed on the second slot, since the forest of the first was named too late. -/
theorem placements_valid_partitioned :
    ∃ m w, Manager.new .query Sample.mixed 2 none = .ok m ∧
      Writer.new { Sample.config 2 with partition := some "p" } true m 0 = .ok w ∧
      let crew := Crew.play (Sample.partlyDown []) Sample.housing (.start [w] ⟨m, .zero, .new ()⟩)
      (crew.hands[0]?.bind (·.work.due)) = some 1 ∧ ∃ f, m.Takes (some "p")
        [.cache "p" [⟨"2"⟩, ⟨"3"⟩], .cache "p" [⟨"1"⟩], .place ⟨"/in/x"⟩ (some "p")] 1 f := by
  have hm : ∃ m, Manager.new .query Sample.mixed 2 none = .ok m := ⟨_, rfl⟩
  obtain ⟨m, hm⟩ := hm
  have hw : ∃ w, Writer.new { Sample.config 2 with partition := some "p" } true m 0 = .ok w := by
    cases hm
    exact ⟨_, rfl⟩
  obtain ⟨w, hw⟩ := hw
  have hsettings : w.fastLoad = true ∧ w.partition = some "p" := by
    cases hm
    cases hw
    exact ⟨rfl, rfl⟩
  have hdue : ((Crew.play (Sample.partlyDown []) Sample.housing (.start [w] ⟨m, .zero, .new ()⟩)).hands[0]?.bind
      (·.work.due)) = some 1 := by
    cases hm
    cases hw
    decide +kernel
  have huses : Crew.history (Sample.partlyDown []) Sample.housing (.start [w] ⟨m, .zero, .new ()⟩) =
      [.cache "p" [⟨"2"⟩, ⟨"3"⟩], .cache "p" [⟨"1"⟩], .place ⟨"/in/x"⟩ (some "p")] := by
    cases hm
    cases hw
    decide +kernel
  refine ⟨m, w, hm, hw, hdue, ?_⟩
  obtain ⟨hand, hhand, hslot⟩ := Option.bind_eq_some_iff.mp hdue
  obtain ⟨-, -, hhands⟩ := (placements_valid hm).2.2.2 (Sample.partlyDown []) [] [w] .zero (.new ()) Sample.housing
    fun w' hw' => ⟨_, true, [], 0, List.mem_singleton.mp hw' ▸ hw⟩
  obtain ⟨-, f, hf⟩ := (hhands 0 hand w hhand rfl hsettings.1).1 1 (.inl hslot)
  have htakes : m.Takes w.partition (Crew.history (Sample.partlyDown []) Sample.housing
    (.start [w] ⟨m, .zero, .new ()⟩)) 1 f := hf
  rw [huses, hsettings.2] at htakes
  exact ⟨f, htakes⟩

end ForestCourier.Writer
