import ForestCourier.Proofs.Placement.Rotations
import ForestCourier.Proofs.Writer.Housing
import ForestCourier.Proofs.Writer.Packing

/-!
Batches are filled before a writer moves on. By load, it keeps to the slot that fills up; where forests take turns
and nobody else asks for them, a turn is as long as a batch. Either way the documents of a batch go to one slot,
and whatever happens to the flushes, what a writer has placed is flushed in batches of full size, until it is
closed.
-/

namespace ForestCourier.Writer

open Placement (Manager Use)

variable {σ : Type}

/-- Documents that belong to one batch, by their numbers, were placed on one slot. -/
def Blockwise (b : Nat) (placed : List (Nat × Content)) : Prop :=
  ∀ (n : Nat) (d d' : Nat × Content), (n + 1) % b ≠ 0 → placed[n]? = some d → placed[n + 1]? = some d' → d'.1 = d.1

theorem Blockwise.of_append {b : Nat} {placed more : List (Nat × Content)} (h : Blockwise b (placed ++ more)) :
    Blockwise b placed := by
  intro n d d' hn hd hd'
  have hlt : n + 1 < placed.length := (List.getElem?_eq_some_iff.mp hd').1
  refine h n d d' hn ?_ ?_
  · rw [List.getElem?_append_left (by omega)]
    exact hd
  · rw [List.getElem?_append_left hlt]
    exact hd'

/-- A batch that has been begun goes on where it was begun. -/
theorem Packs.steady {kind : Placement.Kind} {b : Nat} {placed : List (Nat × Content)} {flushed : List (Flush σ)}
    {hand : Hand} {i : Nat} {rest : List Content} (h : Packs kind b placed flushed hand i rest) {srv : Server σ}
    {site : Site σ} {d : Nat × Content} (hd : hand.placed? srv site = some d) (hblocks : Blockwise b (placed ++ [d]))
    (hrest : rest ≠ []) : d.1 = i := by
  obtain ⟨hopen, hheld⟩ := h.opened hd
  have hdispatched := h.dispatched
  rw [hopen, hheld, Option.toList_none, List.append_nil] at hdispatched
  have hlength : placed.length = (Flush.laden flushed).length * b + rest.length := by
    have hfull := fun f hf => hdispatched.full_of_laden hf (hdispatched.unclosed f hf)
    rw [hdispatched.account, List.length_append, Flush.length_parcels hfull, List.length_map]
  have hpos := List.length_pos_iff.mpr hrest
  have hroom := h.room
  -- The last document that was placed is pending, and it is of the same batch.
  obtain ⟨n, hn⟩ : ∃ n, n + 1 = placed.length := ⟨placed.length - 1, by omega⟩
  have hmod : (n + 1) % b ≠ 0 := by
    rw [hn, hlength, Nat.mul_add_mod_self_right, Nat.mod_eq_of_lt hroom]
    exact hpos.ne'
  have hlast : placed[n]? = some (i, rest.getLast hrest) := by
    rw [show n = placed.length - 1 by omega, ← List.getLast?_eq_getElem?, hdispatched.account, List.getLast?_append,
      List.getLast?_map, List.getLast?_eq_some_getLast hrest]
    rfl
  refine hblocks n _ d hmod (by rw [List.getElem?_append_left (by omega)]; exact hlast) ?_
  rw [hn, List.getElem?_concat_length]

namespace Crew

def placed (srv : Server σ) (k : Nat) (turns : List Turn) (crew : Crew σ) : List (Nat × Content) :=
  crew.record (Hand.placed? srv) srv k turns

def flushed (srv : Server σ) (k : Nat) (turns : List Turn) (crew : Crew σ) : List (Flush σ) :=
  crew.record Hand.flush? srv k turns

variable {crew : Crew σ} {k : Nat} {turn : Turn}

variable {m : Manager} {kind : Placement.Kind} {b : Nat} {uses : List Use}

/-- Through all turns a writer packs, if the documents that it places go to one slot batch by batch. By load they
do, whoever else uses the manager. -/
theorem play_packs (hm : m.Fresh) (srv : Server σ) (hcrew : crew.Housed m uses)
    (hstart : ∀ hand, crew.hands[k]? = some hand → ∃ i rest, Packs m.kind b [] ([] : List (Flush σ)) hand i rest)
    (turns : List Turn) (hblocks : m.kind ≠ .statistical → Blockwise b (crew.placed srv k turns)) :
    ∀ hand, (crew.play srv turns).hands[k]? = some hand →
      ∃ i rest, Packs m.kind b (crew.placed srv k turns) (crew.flushed srv k turns) hand i rest := by
  induction turns using List.reverseRecOn with
  | nil => exact hstart
  | append_singleton turns turn ih =>
    intro hand hk
    rw [play_concat] at hk
    rw [placed, record_concat] at hblocks
    rw [placed, flushed, record_concat, record_concat]
    have ih := ih fun hload => (hblocks hload).of_append
    have hhoused := hcrew.play srv hm turns
    obtain ⟨hsame, hshown⟩ | ⟨w, call, hidle, rfl, hshown⟩ | ⟨before, hbefore, rfl, hshown⟩ := turn_cases srv hk
    · rw [hshown, hshown, Option.toList_none, Option.toList_none, List.append_nil, List.append_nil]
      exact ih hand hsame
    · obtain ⟨i, rest, hpacks⟩ := ih _ hidle
      rw [hshown, hshown, Option.toList_none, Option.toList_none, List.append_nil, List.append_nil]
      exact ⟨i, rest, hpacks.begin call⟩
    · obtain ⟨i, rest, hpacks⟩ := ih before hbefore
      rw [hshown] at hblocks
      rw [hshown, hshown]
      refine hpacks.go srv ?_ ?_ fun hload d hd hrest => ?_
      · rw [hhoused.manager]
        exact (Manager.tracks hm.unassigned _).alike.kind
      · intro j hj
        obtain ⟨hwriter, hdue⟩ := hhoused.hands before (List.mem_of_getElem? hbefore) hpacks.fastLoad
        obtain ⟨f, hf⟩ := hdue j hj
        exact hwriter.length ▸ hf.lt
      · rw [hd] at hblocks
        exact hpacks.steady hd (hblocks hload) hrest

end Crew

theorem resolveUses_placeless (srv : Server σ) (w : Writer) (site : Site σ) :
    ∀ use ∈ w.resolveUses srv site, use.places = false := by
  intro use huse
  unfold resolveUses at huse
  split at huse
  · cases huse
  · split at huse
    · cases huse
    · split at huse
      · cases huse
      · split at huse
        · cases huse
        · rw [List.mem_singleton.mp huse]
          rfl

theorem flushUses_placeless (srv : Server σ) (i : Nat) (closing : Bool) (w : Writer) (site : Site σ) :
    ∀ use ∈ w.flushUses srv i closing site, use.places = false := by
  intro use huse
  unfold flushUses at huse
  split at huse
  · cases huse
  · split at huse
    · cases huse
    · split at huse
      · cases huse
      · rw [List.mem_singleton.mp huse]
        rfl

theorem toOption_place (uri : Uri) (w : Writer) (site : Site σ) :
    (w.place uri site).1.toOption = (site.manager.place uri w.partition).1.toOption := by
  unfold place
  dsimp only
  cases (site.manager.place uri w.partition).1 <;> rfl

section Sole

variable {kind : Placement.Kind} {t : Topology} {batch : UInt64} {standard : Option String} {m : Manager}
  {uses : List Use} {w : Writer} {site : Site σ}

theorem slotFor_sent (hm : Manager.new kind t batch standard = .ok m)
    (hkind : kind = .bucket ∨ kind.partitioned = true) (srv : Server σ) (uri : Uri) (hfast : w.fastLoad = true)
    (hsite : site.manager = m.useAll uses) :
    (m.sent (m.policy.lane w.partition) (uses ++ w.slotUses srv uri site)).map (·.2) =
      (m.sent (m.policy.lane w.partition) uses).map (·.2) ++ (w.slotFor srv uri site).1.toOption.toList := by
  have hsame : site.manager.kind = kind := by
    obtain ⟨-, -, hnew, -⟩ := Manager.new_settings hm
    rw [hsite, ← hnew]
    exact (Manager.tracks (Manager.fresh_new hm).unassigned uses).alike.kind
  obtain rfl | hpartitioned := hkind
  · have hload : site.manager.kind ≠ .statistical := by rw [hsame]; exact nofun
    have hlookup : site.manager.kind.partitioned = false := by rw [hsame]; rfl
    rw [slotFor_place srv uri hfast hload hlookup, toOption_place, hsite, ← Manager.sent_concat_place hm (.inl rfl)]
    simp [slotUses, hfast, hload, hlookup]
  · have hlookup : site.manager.kind.partitioned = true := by rw [hsame, hpartitioned]
    have hload := Placement.Kind.ne_statistical hlookup
    have hresolved := resolvePartition_uses srv w site
    rw [hsite, ← Manager.useAll_append] at hresolved
    have hplaceless := resolveUses_placeless srv w site
    cases hr : w.resolvePartition srv site with
    | mk r site₁ =>
      rw [hr] at hresolved
      rw [slotFor_lookup srv uri hfast hload hlookup hr]
      cases r with
      | error e =>
        rw [show w.slotUses srv uri site = w.resolveUses srv site by simp [slotUses, hfast, hload, hlookup, hr],
          Manager.sent_concat_placeless _ _ hplaceless]
        exact (List.append_nil _).symm
      | ok u =>
        rw [show w.slotUses srv uri site = w.resolveUses srv site ++ [.place uri w.partition] by
          simp [slotUses, hfast, hload, hlookup, hr], ← List.append_assoc,
          Manager.sent_concat_place hm (.inr hpartitioned), Manager.sent_concat_placeless _ _ hplaceless,
          ← show site₁.manager = _ from hresolved]
        exact congrArg _ (congrArg Option.toList (toOption_place uri w site₁).symm)

theorem Inquiry.uses_placeless (name : String) (inquiry : Inquiry) : ∀ use ∈ inquiry.uses name, use.places = false := by
  intro use huse
  unfold Inquiry.uses at huse
  split at huse
  · rw [List.mem_singleton.mp huse]
    rfl
  · cases huse

/-- The documents that a step of a call places are those that are sent by what it asks. -/
theorem Hand.go_sent (hm : Manager.new kind t batch standard = .ok m)
    (hkind : kind = .bucket ∨ kind.partitioned = true) (srv : Server σ) {hand : Hand} (hfast : hand.writer.fastLoad = true)
    (hsite : site.manager = m.useAll uses) :
    let lane := m.policy.lane hand.writer.partition
    (m.sent lane (uses ++ hand.asks srv site)).map (·.2) =
      (m.sent lane uses).map (·.2) ++ (hand.placed? srv site).toList.map (·.1) := by
  intro lane
  have hstill {more : List Use} (h : ∀ use ∈ more, use.places = false) {placed : Option (Nat × Content)}
      (hnone : placed = none) :
      (m.sent lane (uses ++ more)).map (·.2) = (m.sent lane uses).map (·.2) ++ placed.toList.map (·.1) := by
    rw [Manager.sent_concat_placeless lane uses h, hnone]
    exact (List.append_nil _).symm
  obtain ⟨w, work⟩ := hand
  cases work with
  | idle => exact hstill (List.forall_mem_nil _) rfl
  | receiving files uri source payload =>
    cases hlookup : w.unresolved? files uri source payload site.manager with
    | some missing =>
      rw [show asks srv ⟨w, .receiving files uri source payload⟩ site = [] by simp [asks, hlookup], placed?,
        go_unresolved srv hlookup]
      exact hstill (List.forall_mem_nil _) rfl
    | none =>
      rw [show asks srv ⟨w, .receiving files uri source payload⟩ site =
        w.receiveUses srv files uri source payload site by simp [asks, hlookup], placed?, go_resolved srv hlookup,
        held_received]
      cases hclosed : w.closed with
      | true =>
        rw [receive_closed hclosed,
          show w.receiveUses srv files uri source payload site = [] by simp [receiveUses, hclosed]]
        exact hstill (List.forall_mem_nil _) rfl
      | false =>
        cases hcontent : Content.create files w.options source (uri.wrap w.uriPrefix w.uriSuffix) payload with
        | error e =>
          rw [receive_skipping srv site hclosed hcontent,
            show w.receiveUses srv files uri source payload site = [] by simp [receiveUses, hclosed, hcontent]]
          exact hstill (List.forall_mem_nil _) rfl
        | ok content =>
          rw [receive_placing srv site hclosed hcontent, show w.receiveUses srv files uri source payload site =
            w.slotUses srv (uri.wrap w.uriPrefix w.uriSuffix) site by simp [receiveUses, hclosed, hcontent],
            slotFor_sent hm hkind srv _ hfast hsite]
          cases (w.slotFor srv (uri.wrap w.uriPrefix w.uriSuffix) site).1 <;> rfl
  | inquiring uri content partition inquiry =>
    exact hstill (inquiry.uses_placeless partition) (Work.held_inquired uri content partition _)
  | placing uri content =>
    have hplaced : placed? srv ⟨w, .placing uri content⟩ site = (w.place uri site).1.toOption.map (·, content) :=
      Work.held_placed content _
    rw [hplaced, toOption_place, hsite]
    refine (Manager.sent_concat_place hm hkind uses uri w.partition).trans (congrArg _ ?_)
    cases ((m.useAll uses).place uri w.partition).1 <;> rfl
  | pushing i content =>
    refine hstill ?_ rfl
    dsimp only [asks, pushUses]
    split
    · exact flushUses_placeless srv i false _ site
    · exact List.forall_mem_nil _
  | draining is =>
    cases is with
    | nil => exact hstill (List.forall_mem_nil _) rfl
    | cons i is =>
      refine hstill ?_ ?_
      · dsimp only [asks, drainUses]
        split
        · exact flushUses_placeless srv i true w site
        · exact List.forall_mem_nil _
      · dsimp only [placed?, go]
        split <;> rfl

namespace Crew

/-- What a writer places that is the only one to turn to the manager is what the manager sends in its lane. -/
theorem play_sent (hm : Manager.new kind t batch standard = .ok m) (hkind : kind = .bucket ∨ kind.partitioned = true)
    (srv : Server σ) {crew : Crew σ} (hcrew : crew.Housed m []) {hand : Hand} (hhands : crew.hands = [hand])
    (hfast : hand.writer.fastLoad = true) (turns : List Turn) (halone : ∀ use, Turn.use use ∉ turns) :
    (m.sent (m.policy.lane hand.writer.partition) (crew.history srv turns)).map (·.2) =
      (crew.placed srv 0 turns).map (·.1) := by
  induction turns using List.reverseRecOn with
  | nil => rfl
  | append_singleton turns turn ih =>
    have ih := ih fun use huse => halone use (List.mem_append_left _ huse)
    have hmanager := (hcrew.play srv (Manager.fresh_new hm) turns).manager
    obtain ⟨hlength, hsettled⟩ := play_settled srv turns crew
    rw [history_concat, placed, record_concat, List.map_append]
    have hquiet (hasks : (crew.play srv turns).asks srv turn = [])
        (hshown : (crew.play srv turns).shown? (Hand.placed? srv) 0 turn = none) :
        (m.sent (m.policy.lane hand.writer.partition)
            (crew.history srv turns ++ (crew.play srv turns).asks srv turn)).map (·.2) =
          (crew.placed srv 0 turns).map (·.1) ++
            ((crew.play srv turns).shown? (Hand.placed? srv) 0 turn).toList.map (·.1) := by
      rw [hasks, hshown, List.append_nil, ih]
      exact (List.append_nil _).symm
    cases turn with
    | use use => exact absurd (List.mem_append_right turns (List.mem_singleton_self _)) (halone use)
    | move j move =>
      cases move with
      | call call => exact hquiet rfl rfl
      | go =>
        rw [hhands, List.length_singleton] at hlength
        cases hj : (crew.play srv turns).hands[j]? with
        | none =>
          have hne : j ≠ 0 := by
            rintro rfl
            exact absurd (List.getElem?_eq_none_iff.mp hj) (by omega)
          exact hquiet (by rw [Crew.asks, hj]) (if_neg hne)
        | some before =>
          have hlt : j < _ := (List.getElem?_eq_some_iff.mp hj).1
          obtain rfl : j = 0 := by omega
          obtain ⟨first, hfirst, -, hpartition, -, hfastLoad⟩ := hsettled 0 before hj
          rw [hhands] at hfirst
          cases hfirst
          have hsent := before.go_sent hm hkind srv (hfastLoad.trans hfast) hmanager
          rw [hpartition] at hsent
          rw [Crew.asks, shown?, if_pos rfl, hj]
          exact hsent.trans (congrArg (· ++ _) ih)

end Crew

theorem sent_of_placed {lane : Option String} {placed : List (Nat × Content)}
    (hsent : (m.sent lane uses).map (·.2) = placed.map (·.1)) {n : Nat} {d : Nat × Content} (hd : placed[n]? = some d) :
    ∃ position, (m.sent lane uses)[n]? = some (position, d.1) := by
  have hat := congrArg (·[n]?) hsent
  rw [List.getElem?_map, List.getElem?_map, hd] at hat
  obtain ⟨s, hs, hslot⟩ := Option.map_eq_some_iff.mp hat
  exact ⟨s.1, hs.trans (congrArg some (Prod.ext rfl hslot))⟩

theorem blockwise_sent (h : m.Rotates uses) {lane : Option String} {placed : List (Nat × Content)}
    (hsent : (m.sent lane uses).map (·.2) = placed.map (·.1)) (hle : placed.length ≤ 2 ^ 64) :
    Blockwise (Placement.batchOf m.batchSize).toNat placed := by
  intro n d d' hn hd hd'
  obtain ⟨position, hs⟩ := sent_of_placed hsent hd
  obtain ⟨position', hs'⟩ := sent_of_placed hsent hd'
  obtain ⟨e, -, hfollows⟩ := h.follows_of_sent hs
  have hlength : (m.sent lane uses).length = placed.length := by simpa using congrArg List.length hsent
  exact hfollows.steady (hlength ▸ hle) hn hs hs'

theorem slot_sent (hm : Manager.new .bucket t batch standard = .ok m) {placed : List (Nat × Content)}
    (hsent : (m.sent none uses).map (·.2) = placed.map (·.1)) (hle : placed.length ≤ 2 ^ 64) {n : Nat}
    {d : Nat × Content} (hd : placed[n]? = some d) : d.1 = n / max 1 batch.toNat % m.forestCount := by
  have hrotates := Manager.rotates hm (.inl rfl) uses
  obtain ⟨hpolicy, hbatch, hpos⟩ := Manager.new_bucket hm
  obtain ⟨position, hs⟩ := sent_of_placed hsent hd
  obtain ⟨e, he, hfollows⟩ := hrotates.follows_of_sent hs
  obtain ⟨e', he', hforests⟩ := hrotates.kept none ⟨List.range m.forestCount, 0⟩ (by rw [hpolicy]; rfl)
  cases he.symm.trans he'
  have hlt : n < placed.length := (List.getElem?_eq_some_iff.mp hd).1
  have hlength : (m.sent none uses).length = placed.length := by simpa using congrArg List.length hsent
  obtain ⟨i, hi, hturn⟩ := hfollows.turns n (hlength ▸ hlt) (by omega)
  cases hs.symm.trans hturn
  rw [hforests, List.length_range, hbatch, Placement.toNat_batchOf, List.getElem?_range (Nat.mod_lt _ hpos)] at hi
  exact (Option.some.inj hi).symm

end Sole

/-- Forests take turns, and the one writer of a crew, with batches of the same size, is all that turns to a manager
that nobody has turned to before. It places no more documents than the manager can count: after them the count
starts anew, be it in the middle of a batch. -/
structure Sole (srv : Server σ) (kind : Placement.Kind) (batch batchSize : UInt64) (earlier : List Use) (crew : Crew σ)
    (turns : List Turn) : Prop where
  rotating : kind = .bucket ∨ kind.partitioned = true
  size : batchSize = batch
  fresh : earlier = []
  one : crew.hands.length = 1
  alone : ∀ use, Turn.use use ∉ turns
  count : (crew.placed srv 0 turns).length ≤ 2 ^ 64

namespace Sole

variable {srv : Server σ} {kind : Placement.Kind} {t : Topology} {batch batchSize : UInt64} {standard : Option String}
  {m : Manager} {earlier : List Use} {crew : Crew σ} {turns : List Turn} {k : Nat} {w : Writer}

theorem sent (h : Sole srv kind batch batchSize earlier crew turns) (hm : Manager.new kind t batch standard = .ok m)
    (hcrew : crew.Housed m earlier) (hk : crew.hands[k]? = some ⟨w, .idle⟩) (hfast : w.fastLoad = true) :
    (crew.placed srv k turns).length ≤ 2 ^ 64 ∧
      (m.sent (m.policy.lane w.partition) (crew.history srv turns)).map (·.2) =
        (crew.placed srv k turns).map (·.1) := by
  obtain rfl : k = 0 := by
    have hlt := (List.getElem?_eq_some_iff.mp hk).1
    rw [h.one] at hlt
    omega
  obtain ⟨hand, hhands⟩ := List.length_eq_one_iff.mp h.one
  rw [hhands] at hk
  cases hk
  exact ⟨h.count, Crew.play_sent hm h.rotating srv (h.fresh ▸ hcrew) hhands hfast turns h.alone⟩

theorem blockwise (h : Sole srv kind batch batchSize earlier crew turns)
    (hm : Manager.new kind t batch standard = .ok m) (hcrew : crew.Housed m earlier)
    (hk : crew.hands[k]? = some ⟨w, .idle⟩) (hfast : w.fastLoad = true) :
    Blockwise (max 1 batchSize.toNat) (crew.placed srv k turns) := by
  have hb : (Placement.batchOf m.batchSize).toNat = max 1 batchSize.toNat := by
    rw [(Manager.new_prices hm).2, Placement.toNat_batchOf, h.size]
  obtain ⟨hcount, hsent⟩ := h.sent hm hcrew hk hfast
  exact hb ▸ blockwise_sent (Manager.rotates hm h.rotating _) hsent hcount

theorem slot (h : Sole srv .bucket batch batchSize earlier crew turns)
    (hm : Manager.new .bucket t batch standard = .ok m) (hcrew : crew.Housed m earlier)
    (hk : crew.hands[k]? = some ⟨w, .idle⟩) (hfast : w.fastLoad = true) {n : Nat} {d : Nat × Content}
    (hd : (crew.placed srv k turns)[n * max 1 batchSize.toNat]? = some d) : d.1 = n % m.forestCount := by
  obtain ⟨hcount, hsent⟩ := h.sent hm hcrew hk hfast
  rw [(Manager.new_bucket hm).1] at hsent
  have hslot := slot_sent hm hsent hcount hd
  rwa [← h.size, Nat.mul_div_cancel n (Nat.lt_of_lt_of_le Nat.one_pos (Nat.le_max_left ..))] at hslot

end Sole

/-- Every batch is filled before a writer with fast load moves on, if documents are placed by load, for whomever, or
forests take turns for this writer alone. Whatever becomes of its writes and flushes, at most one slot has documents
pending, each flush that is not made by closing takes a full batch, the batches are cut from what was placed, one
after the other, and only the last one, which is flushed by closing, may be smaller. In buckets the batches go to the
forests in turn. -/
theorem batches_filled {kind : Placement.Kind} {t : Topology} {batch : UInt64} {standard : Option String} {m : Manager}
    (hm : Manager.new kind t batch standard = .ok m) (srv : Server σ) {writers : List Writer}
    (hwriters : ∀ w ∈ writers, ∃ (config : Config.Output) (fastLoad : Bool) (uses : List Use) (task : Nat),
      Writer.new config fastLoad (m.useAll uses) task = .ok w)
    {k : Nat} {w : Writer} (hk : writers[k]? = some w) {config : Config.Output} {before : List Use} {task : Nat}
    (hw : Writer.new config true (m.useAll before) task = .ok w) (earlier : List Use) (counters : Counters)
    (wire : Wire σ) (turns : List Turn)
    (hkind : kind = .statistical ∨
      Sole srv kind batch config.batchSize earlier (.start writers ⟨m.useAll earlier, counters, wire⟩) turns) :
    let start := Crew.start writers ⟨m.useAll earlier, counters, wire⟩
    let b := max 1 config.batchSize.toNat
    let placed := start.placed srv k turns
    let flushed := start.flushed srv k turns
    let laden := Flush.laden flushed
    (∀ hand, (start.play srv turns).hands[k]? = some hand → ∀ i j, hand.writer.pendingAt i ≠ [] →
      hand.writer.pendingAt j ≠ [] → i = j) ∧
    (∀ f ∈ flushed, f.closing = false → f.batch.length = b) ∧
    (∀ n f, laden[n]? = some f → f.batch.map (f.slot, ·) = (placed.drop (n * b)).take b) ∧
    (∀ n f, laden[n]? = some f → f.closing = true → f.batch.length < b ∧ n + 1 = laden.length) ∧
    (kind = .bucket → ∀ n f, laden[n]? = some f → f.slot = n % m.forestCount) := by
  intro start b placed flushed laden
  have hfresh := Manager.fresh_new hm
  obtain ⟨-, -, hnew, -⟩ := Manager.new_settings hm
  obtain ⟨-, -, -, hfast, -⟩ := new_cases hw
  have hhoused : start.Housed m earlier := Crew.housed_start hfresh hwriters earlier counters wire
  have hstart : start.hands[k]? = some ⟨w, .idle⟩ := by
    rw [show start.hands = writers.map (Hand.mk · .idle) from rfl, List.getElem?_map, hk]
    rfl
  have hpacks : ∀ hand, (start.play srv turns).hands[k]? = some hand →
      ∃ i rest, Packs m.kind b placed flushed hand i rest := by
    refine Crew.play_packs hfresh srv hhoused (fun hand hhand => ?_) turns fun hload => ?_
    · cases hstart.symm.trans hhand
      exact ⟨0, [], .new hw 0⟩
    · exact (hkind.resolve_left (hnew ▸ hload)).blockwise hm hhoused hstart hfast
  have hlt : k < (start.play srv turns).hands.length := by
    rw [(Crew.play_settled srv turns start).1]
    exact (List.getElem?_eq_some_iff.mp hstart).1
  obtain ⟨i, rest, h⟩ := hpacks _ (List.getElem?_eq_getElem hlt)
  refine ⟨fun hand hhand i j hi hj => ?_, h.dispatched.full, fun n f hf => h.dispatched.parcel_eq hf,
    fun n f hf hclosing => ?_, fun hbucket n f hf => ?_⟩
  · obtain ⟨_, _, h⟩ := hpacks hand hhand
    exact h.single hi hj
  · obtain ⟨hopen, -⟩ | ⟨-, hsmall, hlast, -⟩ := (h.dispatched.cases hf).2
    · exact absurd (hopen.symm.trans hclosing) Bool.false_ne_true
    · exact ⟨hsmall, hlast⟩
  · subst hbucket
    obtain ⟨content, hfirst⟩ := h.dispatched.first (Nat.zero_lt_of_lt h.room) hf
    exact (hkind.resolve_left nofun).slot hm hhoused hstart hfast hfirst

namespace Sample

def five : List (Nat × Move) :=
  written 0 1 ++ written 0 2 ++ written 0 3 ++ written 0 4 ++ written 0 5 ++
    [(0, .call .close), (0, .go), (0, .go), (0, .go)]

def fiveAlone : List Turn := five.map fun entry => .move entry.1 entry.2

end Sample

/-- No host can be reached, and each flush fails. Two batches of two documents go to the two forests all the same,
and closing flushes the last document, for the first forest again. -/
theorem batches_filled_down :
    ∃ w, Writer.new (Sample.config 2) true Sample.manager 0 = .ok w ∧
      let start := Crew.start [w] ⟨Sample.manager, .zero, .new ()⟩
      ∃ f g last : Flush Unit,
        Flush.laden (start.flushed (Sample.partlyDown ["a", "b"]) 0 Sample.fiveAlone) = [f, g, last] ∧
          (f.slot = 0 ∧ f.batch.length = 2) ∧ (g.slot = 1 ∧ g.batch.length = 2) ∧
          last.slot = 0 ∧ last.closing = true ∧ last.batch.length < 2 := by
  have hw : ∃ w, Writer.new (Sample.config 2) true Sample.manager 0 = .ok w := ⟨_, rfl⟩
  obtain ⟨w, hw⟩ := hw
  have hclosing : (Flush.laden ((Crew.start [w] ⟨Sample.manager, .zero, .new ()⟩).flushed
      (Sample.partlyDown ["a", "b"]) 0 Sample.fiveAlone)).map (·.closing) = [false, false, true] := by
    cases hw
    decide +kernel
  have hcount : ((Crew.start [w] ⟨Sample.manager, .zero, .new ()⟩).placed (Sample.partlyDown ["a", "b"]) 0
      Sample.fiveAlone).length = 5 := by
    cases hw
    decide +kernel
  have hsole : Sole (Sample.partlyDown ["a", "b"]) .bucket 2 (Sample.config 2).batchSize []
      (Crew.start [w] ⟨Sample.manager, .zero, .new ()⟩) Sample.fiveAlone := by
    refine ⟨.inl rfl, rfl, rfl, rfl, fun use huse => ?_, hcount.trans_le (by decide)⟩
    obtain ⟨entry, -, hentry⟩ := List.mem_map.mp huse
    cases hentry
  have hm : Placement.Manager.new .bucket Sample.topology 2 none = .ok Sample.manager := rfl
  obtain ⟨-, hfull, -, hlast, hslots⟩ := batches_filled hm (Sample.partlyDown ["a", "b"])
    (fun w' hw' => ⟨_, true, [], 0, List.mem_singleton.mp hw' ▸ hw⟩) (k := 0) rfl
    (show Writer.new _ true (Sample.manager.useAll []) 0 = .ok w from hw) [] .zero (.new ()) Sample.fiveAlone (.inr hsole)
  obtain ⟨f, after, hladen, hf, hafter⟩ := List.map_eq_cons_iff.mp hclosing
  obtain ⟨g, after, rfl, hg, hafter⟩ := List.map_eq_cons_iff.mp hafter
  obtain ⟨last, after, rfl, hclose, hafter⟩ := List.map_eq_cons_iff.mp hafter
  obtain rfl := List.map_eq_nil_iff.mp hafter
  have hat (n : Nat) := congrArg (·[n]?) hladen
  have hmem {f' : Flush Unit} (h : f' ∈ [f, g, last]) : f' ∈ (Crew.start [w] ⟨Sample.manager, .zero, .new ()⟩).flushed
      (Sample.partlyDown ["a", "b"]) 0 Sample.fiveAlone := List.mem_of_mem_filter (hladen ▸ h)
  exact ⟨w, hw, f, g, last, hladen, ⟨hslots rfl 0 f (hat 0), hfull f (hmem (by simp)) hf⟩,
    ⟨hslots rfl 1 g (hat 1), hfull g (hmem (by simp)) hg⟩, hslots rfl 2 last (hat 2), hclose,
    (hlast 2 last (hat 2) hclose).1⟩

end ForestCourier.Writer
