import Mathlib.Data.List.Destutter
import Mathlib.Data.List.Sort
import ForestCourier.Proofs.Writer.Rejection

/-!
Rejected documents are taken out of their list one at a time, each by its position. Rejections name positions in any
order, any number of times, in the list or not; sorted, each once, and taken out from the last one down, every
position still holds the document that was named when its turn comes. What is left are the other documents in their
order, and the count of failed documents has grown by those that are gone.
-/

namespace ForestCourier.Writer

def namedPositions (docs : List Content) (rejections : List Rejection) : List Nat :=
  rejections.filterMap fun r => (docs[r.index]?).map fun _ => r.index

theorem mem_namedPositions {docs : List Content} {rejections : List Rejection} {i : Nat} :
    i ∈ namedPositions docs rejections ↔ i < docs.length ∧ ∃ r ∈ rejections, r.index = i := by
  rw [namedPositions, List.mem_filterMap]
  constructor
  · rintro ⟨r, hr, hi⟩
    obtain ⟨doc, hdoc, rfl⟩ := Option.map_eq_some_iff.mp hi
    exact ⟨(List.getElem?_eq_some_iff.mp hdoc).1, r, hr, rfl⟩
  · rintro ⟨hlt, r, hr, rfl⟩
    exact ⟨r, hr, by rw [List.getElem?_eq_getElem hlt, Option.map_some]⟩

theorem mem_rejectedIndices {docs : List Content} {rejections : List Rejection} {i : Nat} :
    i ∈ rejectedIndices docs rejections ↔ i < docs.length ∧ ∃ r ∈ rejections, r.index = i := by
  simp [rejectedIndices]

theorem pairwise_rejectedIndices (docs : List Content) (rejections : List Rejection) :
    (rejectedIndices docs rejections).Pairwise (· < ·) := List.pairwise_lt_range.filter _

theorem mem_destutter_ne {is : List Nat} {i : Nat} : i ∈ is.destutter (· ≠ ·) ↔ i ∈ is := by
  have hfrom (first : Nat) (is : List Nat) : i ∈ is.destutter' (· ≠ ·) first ↔ i ∈ first :: is := by
    induction is generalizing first with
    | nil => rw [List.destutter'_nil]
    | cons next is ih =>
      by_cases h : first = next
      · rw [List.destutter'_cons_neg is (not_not_intro h), ih, h, List.mem_cons, List.mem_cons, List.mem_cons,
          or_self_left]
      · rw [List.destutter'_cons_pos is h, List.mem_cons, ih]
        exact List.mem_cons.symm
  cases is with
  | nil => rw [List.destutter_nil]
  | cons first is => rw [List.destutter_cons', hfrom]

theorem pairwise_destutter_ne {is : List Nat} (h : is.Pairwise (· ≤ ·)) :
    (is.destutter (· ≠ ·)).Pairwise (· < ·) := by
  have hle : (is.destutter (· ≠ ·)).IsChain (· ≤ ·) := (h.sublist (is.destutter_sublist _)).isChain
  have hne : (is.destutter (· ≠ ·)).IsChain (· ≠ ·) := is.isChain_destutter _
  rw [← List.isChain_iff_pairwise, List.isChain_iff_forall_rel_of_append_cons_cons]
  intro i j before later hsplit
  rw [List.isChain_iff_forall_rel_of_append_cons_cons] at hle hne
  exact Nat.lt_of_le_of_ne (hle hsplit) (hne hsplit)

/-- The positions to be taken out are the named ones, sorted, each once. -/
theorem rejectedIndices_eq (docs : List Content) (rejections : List Rejection) :
    rejectedIndices docs rejections = (namedPositions docs rejections).mergeSort.destutter (· ≠ ·) := by
  have hsorted : (namedPositions docs rejections).mergeSort.Pairwise (· ≤ ·) := List.pairwise_mergeSort' _ _
  refine (pairwise_rejectedIndices docs rejections).eq_of_mem_iff (pairwise_destutter_ne hsorted) fun i => ?_
  rw [mem_destutter_ne, List.mem_mergeSort, mem_rejectedIndices, mem_namedPositions]

theorem getElem?_without {docs : List Content} {indices : List Nat} {i : Nat} (h : ∀ j ∈ indices, i < j) :
    (without docs indices)[i]? = docs[i]? := by
  induction indices with
  | nil => rfl
  | cons j js ih =>
    obtain ⟨hj, hjs⟩ := List.forall_mem_cons.mp h
    calc (without docs (j :: js))[i]?
      _ = ((without docs js).eraseIdx j)[i]? := rfl
      _ = (without docs js)[i]? := List.getElem?_eraseIdx_of_lt hj
      _ = docs[i]? := ih hjs

/-- When the turn of a position comes, the document that was named is there. -/
theorem rejected_in_place {docs : List Content} {rejections : List Rejection} {before later : List Nat} {i : Nat}
    (h : rejectedIndices docs rejections = before ++ i :: later) :
    ∃ doc, docs[i]? = some doc ∧ (without docs later)[i]? = some doc := by
  have hascending := pairwise_rejectedIndices docs rejections
  have hmem : i ∈ rejectedIndices docs rejections := by
    rw [h]
    exact List.mem_append_right _ List.mem_cons_self
  rw [h, List.pairwise_append, List.pairwise_cons] at hascending
  obtain ⟨-, ⟨hlater, -⟩, -⟩ := hascending
  have hlt := (mem_rejectedIndices.mp hmem).1
  refine ⟨docs[i], List.getElem?_eq_getElem hlt, ?_⟩
  rw [getElem?_without hlater, List.getElem?_eq_getElem hlt]

namespace Delivery

variable {σ : Type}

/-- What inserting documents comes to: how it ends, what is left of the documents, the counts and the wire. -/
inductive Drops (srv : Server σ) (session : Session) (docs : List Content) (stats : Stats) (w : Wire σ) :
    Except RequestError Unit → List Content → Stats → Wire σ → Prop
  /-- Where there is nothing to insert no request is made. -/
  | nothing : docs = [] → Drops srv session docs stats w (.ok ()) docs stats w
  | failed {e : RequestError} {s : σ} : docs ≠ [] → srv.insert session docs w.state = (.error e, s) →
      Drops srv session docs stats w (.error e) docs stats (w.after s (.inserted session docs (.error e)))
  | accepted {rejections : List Rejection} {s : σ} {gone : Nat} : docs ≠ [] →
      srv.insert session docs w.state = (.ok rejections, s) →
      (kept docs rejections).length + gone = docs.length →
      Drops srv session docs stats w (.ok ()) (kept docs rejections) { stats with failed := stats.failed + gone }
        ((rejectionNotices docs rejections).foldl Wire.note (w.after s (.inserted session docs (.ok rejections))))

theorem insert_drops (srv : Server σ) (session : Session) (docs : List Content) (d : Delivery σ) :
    ∃ result left stats wire, Drops srv session docs d.stats d.wire result left stats wire ∧
      d.insert srv session docs = (result.map fun _ => left, { d with stats := stats, wire := wire }) := by
  unfold insert
  split
  · next hempty => exact ⟨_, _, _, _, .nothing (List.isEmpty_iff.mp hempty), rfl⟩
  · next hsome =>
    have hne : docs ≠ [] := fun h => hsome (List.isEmpty_iff.mpr h)
    unfold Wire.insert
    cases h : srv.insert session docs d.wire.state with
    | mk answer s =>
      cases answer with
      | error e => exact ⟨_, _, _, _, .failed hne h, rfl⟩
      | ok rejections =>
        refine ⟨_, _, _, _, .accepted hne h (length_kept_add docs rejections), ?_⟩
        rw [← without_rejectedIndices]
        rfl

/-- Inserting a batch, or a queue again, drops exactly the documents at the positions that some rejection names, and
counts these as failed. But for the wire nothing else is changed, and nothing at all if the request fails. The positions
are taken out sorted, each once, from the last one down, and the document is in its place when its turn comes. -/
theorem rejected_dropped (srv : Server σ) (session : Session) (d : Delivery σ) :
    (∃ result left stats wire, Drops srv session d.batch d.stats d.wire result left stats wire ∧
      d.insertBatch srv session = (result, { d with batch := left, stats := stats, wire := wire })) ∧
    (∃ result left stats wire, Drops srv session d.slot.queue d.stats d.wire result left stats wire ∧
      d.replayQueue srv session =
        (result, { d with slot := { d.slot with queue := left }, stats := stats, wire := wire })) ∧
    ∀ docs rejections,
      without docs ((namedPositions docs rejections).mergeSort.destutter (· ≠ ·)) = kept docs rejections ∧
      ∀ before i later, (namedPositions docs rejections).mergeSort.destutter (· ≠ ·) = before ++ i :: later →
        ∃ doc, docs[i]? = some doc ∧ (without docs later)[i]? = some doc := by
  refine ⟨?_, ?_, fun docs rejections => ?_⟩
  · obtain ⟨result, left, stats, wire, hdrops, hinsert⟩ := d.insert_drops srv session d.batch
    refine ⟨result, left, stats, wire, hdrops, ?_⟩
    unfold insertBatch
    rw [hinsert]
    cases hdrops <;> rfl
  · obtain ⟨result, left, stats, wire, hdrops, hinsert⟩ := d.insert_drops srv session d.slot.queue
    refine ⟨result, left, stats, wire, hdrops, ?_⟩
    unfold replayQueue
    rw [hinsert]
    cases hdrops <;> rfl
  · rw [← rejectedIndices_eq]
    exact ⟨without_rejectedIndices docs rejections, fun _ _ _ => rejected_in_place⟩

end Delivery

namespace Sample

def page (name : String) : Content := ⟨⟨name⟩, .bytes [], .text, .standard, none⟩

def fourPages : List Content := ["a", "b", "c", "d"].map page

/-- Rejects the fourth document, then the second, one that there is not, and the second again. -/
def picky : Server Unit where
  accept _ s := (.ok (), s)
  insert _ _ s := (.ok ([3, 1, 7, 1].map fun i => ⟨i, none, "denied"⟩), s)
  commit _ s := (.ok (), s)
  rollback _ s := (.ok (), s)
  submit _ _ s := (.ok [], s)
  range _ _ s := (.ok (), s)
  next _ s := (.ok none, s)
  close _ s := (.ok (), s)
  wait _ s := s

def sending : Delivery Unit := ⟨.new (.forest ⟨"1"⟩ "a" none), fourPages, .zero, .new ()⟩

end Sample

/-- Of four documents the first and the third are left. The fourth goes before the second, which is found in its
place. -/
theorem rejected_dropped_unsorted :
    let session : Session := ⟨1, ⟨"a", 8006, some ⟨"1"⟩⟩, .update⟩
    let positions := namedPositions Sample.fourPages ([3, 1, 7, 1].map fun i => ⟨i, none, "denied"⟩)
    (∃ stats wire,
      Delivery.Drops Sample.picky session Sample.fourPages .zero (.new ()) (.ok ()) (["a", "c"].map Sample.page)
        stats wire ∧ stats = ⟨0, 2, 0⟩) ∧
      positions.mergeSort.destutter (· ≠ ·) = [] ++ 1 :: [3] ∧
      ∃ doc, Sample.fourPages[1]? = some doc ∧ (without Sample.fourPages [3])[1]? = some doc := by
  intro session positions
  have hpositions : positions.mergeSort.destutter (· ≠ ·) = [] ++ 1 :: [3] := by
    rw [← rejectedIndices_eq]
    decide
  obtain ⟨⟨result, left, stats, wire, hdrops, hinsert⟩, -, hremoved⟩ :=
    Delivery.rejected_dropped Sample.picky session Sample.sending
  refine ⟨⟨stats, wire, ?_⟩, hpositions, (hremoved Sample.fourPages _).2 [] 1 [3] hpositions⟩
  obtain ⟨rfl, hrest⟩ := Prod.mk.inj hinsert
  obtain ⟨-, rfl, rfl, rfl⟩ := Delivery.mk.inj hrest
  exact ⟨hdrops, rfl⟩

end ForestCourier.Writer
