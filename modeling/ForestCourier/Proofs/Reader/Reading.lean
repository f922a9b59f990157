import Mathlib.Data.List.Nodup
import ForestCourier.Proofs.Reader.Resume
import ForestCourier.Proofs.Split.Coverage

/-!
A whole job of reading. Each split is read by a reader of its own, which is asked for the next
record until there is none, over any failures and next to any other clients of the server. For every
forest the records that its splits bring, in the order of their starts, are the records of the
forest, each of them once.
-/

namespace ForestCourier

namespace Reader

variable {σ : Type}

/-- Others may use the server between two requests of a reader, but not its stream. -/
def Undisturbed (stream : σ → Nat → List Record) (r : Reader) (w w' : Wire σ) : Prop :=
  ∀ session, r.session = some session → stream w'.state session.number = stream w.state session.number

/-- The records that a reader hands out up to its end. A reader that fails may be asked again. -/
inductive Reads (srv : Server σ) (stream : σ → Nat → List Record) :
    Reader → Wire σ → List Record → Prop
  | finished {r r' : Reader} {w w' : Wire σ} :
      r.next srv w = (.ok false, r', w') → Reads srv stream r w []
  | record {r r' : Reader} {w w' w'' : Wire σ} {records : List Record} :
      r.next srv w = (.ok true, r', w') → Undisturbed stream r' w' w'' → Reads srv stream r' w'' records →
      Reads srv stream r w (r'.current.toList ++ records)
  | failed {r r' : Reader} {w w' w'' : Wire σ} {cause : TransferError} {records : List Record} :
      r.next srv w = (.error (.failed cause), r', w') → Undisturbed stream r' w' w'' →
      Reads srv stream r' w'' records → Reads srv stream r w records

def Complete (srv : Server σ) (stream : σ → Nat → List Record) (config : Config.Input) (split : Split)
    (records : List Record) : Prop :=
  ∃ (r : Reader) (w : Wire σ) (r' : Reader) (w' w'' : Wire σ), r.config = config ∧
    r.start srv split w = (.ok (), r', w') ∧ Undisturbed stream r' w' w'' ∧
    Reads srv stream r' w'' records

theorem reads_collect {srv : Server σ} (stream : σ → Nat → List Record) {n : Nat} {r : Reader}
    {w : Wire σ} {records : List Record} (h : (r.collect srv n w).1 = (records, .ok false)) :
    Reads srv stream r w records := by
  induction n generalizing r w records with
  | zero => simp [collect] at h
  | succ n ih =>
    unfold collect at h
    match hnext : r.next srv w with
    | (.ok true, r', w') =>
      rw [hnext] at h
      dsimp only at h
      match hcollect : r'.collect srv n w' with
      | ((collected, result), after) =>
        rw [hcollect] at h
        cases h
        exact .record hnext (fun _ _ => rfl) (ih (by rw [hcollect]))
    | (.ok false, r', w') =>
      rw [hnext] at h
      cases h
      exact .finished hnext
    | (.error fault, r', w') =>
      rw [hnext] at h
      cases h

variable {srv : Server σ} {library : String → RangeQuery → List Record}
  {stream : σ → Nat → List Record} {config : Config.Input} {split : Split}
  {records read : List Record} {r : Reader} {w : Wire σ}

theorem Ready.undisturbed (h : Ready stream config split records r w) {w' : Wire σ}
    (hw : Undisturbed stream r w w') :
    Ready stream config split records r w' :=
  ⟨h.toPlaced, fun session hs => (hw session hs).trans (h.stream session hs), h.running⟩

theorem reads_rest (hfeeds : split.Feeds srv stream config records)
    (h : Ready stream config split records r w) (hreads : Reads srv stream r w read) :
    read = records.drop r.read.toNat := by
  induction hreads with
  | finished hnext =>
    have hdelivers := next_delivers hfeeds h
    rw [hnext] at hdelivers
    exact (List.drop_eq_nil_of_le hdelivers.1).symm
  | record hnext hw _ ih =>
    have hdelivers := next_delivers hfeeds h
    rw [hnext] at hdelivers
    obtain ⟨d, hcurrent, hfirst, hread, hready⟩ := hdelivers
    obtain ⟨hlt, hd⟩ := List.getElem?_eq_some_iff.mp hfirst
    rw [ih (hready.undisturbed hw), hcurrent, List.drop_eq_getElem_cons hlt, hd, hread]
    rfl
  | failed hnext hw _ ih =>
    have hdelivers := next_delivers hfeeds h
    rw [hnext] at hdelivers
    obtain ⟨hready, -, hread⟩ := hdelivers
    rw [ih (hready.undisturbed hw), hread]

theorem complete_share (hserves : srv.Serves library stream) (hstart : 0 < split.start.toNat)
    (hrecords : ∀ p ∈ split.places, library p.host (split.wholeQuery config p) = records)
    (h : Complete srv stream config split read) : read = split.share records := by
  obtain ⟨r, w, r', w', w'', hconfig, hstarted, hw, hreads⟩ := h
  have hfeeds := Split.feeds_of_serves hserves hstart hrecords
  have hstarts := start_starts hfeeds hconfig w
  rw [hstarted] at hstarts
  obtain ⟨hready, hread⟩ := hstarts
  rw [reads_rest hfeeds (hready.undisturbed hw) hreads, hread]
  exact List.drop_zero

end Reader

namespace Split

variable {σ : Type} {srv : Server σ} {library : String → RangeQuery → List Record}
  {stream : σ → Nat → List Record} {config : Config.Input}

theorem take_drop_append {α : Type} {m n : Nat} (h : m ≤ n) (xs : List α) :
    (xs.take n).drop m ++ xs.drop n = xs.drop m := by
  have hdrop : xs.drop n = (xs.drop m).drop (n - m) := by
    rw [List.drop_drop]
    congr 1
    omega
  rw [List.drop_take, hdrop, List.take_append_drop]

theorem Tiles.flatten_share {n : Nat} {splits : List Split} (h : Tiles n splits)
    (records : List Record) :
    (splits.map fun s => s.share records).flatten = records.drop n := by
  induction h with
  | @last n s hstart hlast =>
    have hn : s.start.toNat - 1 = n := by omega
    rw [List.map_singleton, List.flatten_singleton, share, hlast, hn]
    rfl
  | @cons n s stop rest hstart hlast hstop hlt _ ih =>
    have hn : s.start.toNat - 1 = n := by omega
    rw [List.map_cons, List.flatten_cons, ih, share, hlast, hstop, hn]
    exact take_drop_append (Nat.le_of_lt hlt) records

end Split

def RecordCount.places (c : RecordCount) : List Replica :=
  if c.replicas = [] then [⟨c.forest, c.host⟩] else c.replicas

namespace Split

variable {σ : Type} {srv : Server σ} {library : String → RangeQuery → List Record}
  {stream : σ → Nat → List Record} {config : Config.Input} {rules : List String} {c : RecordCount}
  {splits : List Split} {records : List Record}

theorem From.places_eq {s : Split} (h : From c s) : s.places = c.places := by
  rw [places, RecordCount.places, h.forest, h.host, h.replicas]

theorem Covers.flatten_reads (h : Covers rules c splits) (hserves : srv.Serves library stream)
    (hrecords : ∀ p ∈ c.places, library p.host ⟨p.forest, 1, none, config.query, rules⟩ = records)
    {reads : List (List Record)}
    (hreads : List.Forall₂ (Reader.Complete srv stream config) splits reads) :
    reads.flatten = records := by
  have hshare : reads = splits.map fun s => s.share records := by
    have heach : ∀ s read, s ∈ splits → Reader.Complete srv stream config s read →
        read = s.share records := by
      intro s read hs hread
      refine Reader.complete_share hserves (h.tiles.lt_start s hs) (fun p hp => ?_) hread
      rw [wholeQuery, h.rules s hs]
      exact hrecords p ((h.source s hs).places_eq ▸ hp)
    clear h
    induction hreads with
    | nil => rfl
    | cons hread _ ih =>
      rw [List.map_cons, heach _ _ List.mem_cons_self hread,
        ih fun s read hs => heach s read (List.mem_cons_of_mem _ hs)]
  rw [hshare, h.tiles.flatten_share, List.drop_zero]

theorem covers_filter {forests : List RecordCount} {groups : List (List Split)}
    (h : List.Forall₂ (Covers rules) forests groups) (forest : ForestId) :
    ∃ kept, List.Forall₂ (Covers rules) (forests.filter fun c => c.forest = forest) kept ∧
      groups.flatten.filter (fun s => s.forest = forest) = kept.flatten := by
  induction h with
  | nil => exact ⟨[], .nil, rfl⟩
  | @cons c g forests groups hcovers _ ih =>
    obtain ⟨kept, hkept, hfilter⟩ := ih
    by_cases hc : c.forest = forest
    · refine ⟨g :: kept, ?_, ?_⟩
      · rw [List.filter_cons, if_pos (by simpa using hc)]
        exact .cons hcovers hkept
      · have hall : g.filter (fun s => s.forest = forest) = g :=
          List.filter_eq_self.mpr fun s hs => by simp [(hcovers.source s hs).forest, hc]
        rw [List.flatten_cons, List.filter_append, hall, hfilter, List.flatten_cons]
    · refine ⟨kept, ?_, ?_⟩
      · rw [List.filter_cons, if_neg (by simpa using hc)]
        exact hkept
      · have hnone : g.filter (fun s => s.forest = forest) = [] :=
          List.filter_eq_nil_iff.mpr fun s hs => by simp [(hcovers.source s hs).forest, hc]
        rw [List.flatten_cons, List.filter_append, hnone, hfilter, List.nil_append]

theorem Tiles.mergeSort_eq {n : Nat} (h : Tiles n splits) {mixed : List Split}
    (hperm : mixed.Perm splits) :
    mixed.mergeSort (fun s t => s.start ≤ t.start) = splits := by
  have hordered := h.ordered
  have hnodup : (splits.map Split.start).Nodup :=
    List.pairwise_map.mpr (hordered.imp fun hlt heq => by simp [heq] at hlt)
  have hle (s t : Split) : decide (s.start ≤ t.start) = true ↔ s.start.toNat ≤ t.start.toNat := by
    rw [decide_eq_true_iff, UInt64.le_iff_toNat_le]
  have hsame := (List.mergeSort_perm mixed (fun s t => decide (s.start ≤ t.start))).trans hperm
  refine hsame.eq_of_pairwise ?_ (List.pairwise_mergeSort ?_ ?_ mixed) ?_
  · intro s t hs ht hst hts
    rw [hle] at hst hts
    refine List.inj_on_of_nodup_map hnodup (hsame.mem_iff.mp hs) ht (UInt64.toNat_inj.mp ?_)
    omega
  · intro s t u hst htu
    rw [hle] at hst htu ⊢
    omega
  · intro s t
    rw [Bool.or_eq_true, hle, hle]
    omega
  · refine hordered.imp fun {s t} hlt => ?_
    rw [UInt64.lt_iff_toNat_lt] at hlt
    rw [hle]
    omega

end Split

/-- Every forest that was counted is read as a whole, its records in their order and each of them
once, whatever its count was, by splits that are each read to their end over any failures: by the
splits of its listing, and by all splits of its name, in the order of their starts, if it is listed
once. -/
theorem records_read_once {σ : Type} {srv : Server σ} {library : String → RangeQuery → List Record}
    {stream : σ → Nat → List Record} (hserves : srv.Serves library stream)
    (forests : List RecordCount) (maxSize : UInt64) (rules : List String) (config : Config.Input)
    (actual : RecordCount → List Record)
    (hactual : ∀ c ∈ forests, ∀ p ∈ c.places,
      library p.host ⟨p.forest, 1, none, config.query, rules⟩ = actual c) :
    ∃ (splits : List Split) (groups : List (List Split)),
      Split.plan forests maxSize rules = (.ok splits : Except (Fault TransferError) (List Split)) ∧
      splits.Perm groups.flatten ∧ List.Forall₂ (Split.Covers rules) forests groups ∧
      List.Forall₂ (fun c group => ∀ reads, List.Forall₂ (Reader.Complete srv stream config) group reads →
        reads.flatten = actual c) forests groups ∧
      ∀ c ∈ forests, (forests.filter fun d => d.forest = c.forest) = [c] →
        ∀ reads, List.Forall₂ (Reader.Complete srv stream config)
          ((splits.filter fun s => s.forest = c.forest).mergeSort fun s t => s.start ≤ t.start) reads →
            reads.flatten = actual c := by
  obtain ⟨splits, groups, hplan, hcovers, hperm⟩ :=
    Split.plan_covers (ε := TransferError) forests maxSize rules
  refine ⟨splits, groups, hplan, hperm, hcovers, ?_, fun c hc honce reads hreads => ?_⟩
  · have hmem : List.Forall₂ (fun c group => c ∈ forests ∧ Split.Covers rules c group) forests groups :=
      (List.forall₂_and_left _ _).mpr ⟨fun c hc => hc, hcovers⟩
    exact hmem.imp fun c group h reads => h.2.flatten_reads hserves (hactual c h.1)
  · obtain ⟨kept, hkept, hfilter⟩ := Split.covers_filter hcovers c.forest
    rw [honce] at hkept
    cases hkept with
    | cons hgroup hnone =>
      cases hnone
      rw [List.flatten_singleton] at hfilter
      have hmixed := hperm.filter fun s => decide (s.forest = c.forest)
      rw [hfilter] at hmixed
      rw [hgroup.tiles.mergeSort_eq hmixed] at hreads
      exact hgroup.flatten_reads hserves (hactual c hc) hreads

namespace Reader.Sample

def record (byte : UInt8) : Record := ⟨⟨"x"⟩, .binary, [byte]⟩

def records : List Record := [record 1, record 2, record 3, record 4, record 5]

abbrev State := (Nat → List Record) × Nat

/-- Serves the records at every place, but fails when as many requests have been made before as `down`
tells. -/
def failing (down : List Nat) : Server State where
  accept _ s := (if s.2 ∈ down then .error (.connection "refused") else .ok (), (s.1, s.2 + 1))
  insert _ _ s := (.ok [], s)
  commit _ s := (.ok (), s)
  rollback _ s := (.ok (), s)
  submit _ _ s := (.ok [], s)
  range session q s := (.ok (), (Function.update s.1 session.number (q.select records), s.2))
  next session s :=
    if s.2 ∈ down then (.error (.connection "reset"), (s.1, s.2 + 1))
    else
      match s.1 session.number with
      | [] => (.ok none, (s.1, s.2 + 1))
      | d :: ds => (.ok (some (.record d)), (Function.update s.1 session.number ds, s.2 + 1))
  close _ s := (.ok (), s)
  wait _ s := s

theorem serves_failing (down : List Nat) : (failing down).Serves (fun _ _ => records) Prod.fst where
  range session q s _ := Function.update_self ..
  item session s item h := by
    simp only [failing] at h ⊢
    by_cases hdown : s.2 ∈ down
    · rw [if_pos hdown] at h
      cases h
    · rw [if_neg hdown] at h ⊢
      cases hstream : s.1 session.number with
      | nil =>
        rw [hstream] at h
        cases h
      | cons d ds =>
        rw [hstream] at h
        cases h
        exact ⟨d, rfl, congrArg (d :: ·) (Function.update_self session.number ds s.1).symm⟩
  finished session s h := by
    simp only [failing] at h
    by_cases hdown : s.2 ∈ down
    · rw [if_pos hdown] at h
      cases h
    · rw [if_neg hdown] at h
      cases hstream : s.1 session.number with
      | nil => rfl
      | cons d ds =>
        rw [hstream] at h
        cases h

def input : Config.Input := ⟨["a"], 8006, 2, false, "", [], .inProcess⟩

def counted : RecordCount := ⟨⟨"1"⟩, "a", 3, [⟨⟨"1"⟩, "a"⟩, ⟨⟨"2"⟩, "b"⟩]⟩

end Reader.Sample

/-- The stream fails behind the first record, and the host that is asked then refuses. -/
theorem records_read_once_failing :
    ∃ splits : List Split,
      Split.plan [Reader.Sample.counted] 2 [] =
        (.ok splits : Except (Fault TransferError) (List Split)) ∧
      splits.map (fun s => (s.start, s.stop, s.isLast)) = [(1, some 2, false), (3, some 3, true)] ∧
      (∀ s ∈ splits, ∃ read,
        Reader.Complete (Reader.Sample.failing [2, 3]) Prod.fst Reader.Sample.input s read) ∧
      ∀ reads, List.Forall₂ (Reader.Complete (Reader.Sample.failing [2, 3]) Prod.fst Reader.Sample.input)
        ((splits.filter fun s => s.forest = ⟨"1"⟩).mergeSort fun s t => s.start ≤ t.start) reads →
          reads.flatten = Reader.Sample.records := by
  obtain ⟨splits, groups, hplan, -, -, -, honce⟩ :=
    records_read_once (Reader.Sample.serves_failing [2, 3])
    [Reader.Sample.counted] 2 [] Reader.Sample.input (fun _ => Reader.Sample.records)
    fun c hc p hp => rfl
  have hranges : Split.plan [Reader.Sample.counted] 2 [] = (.ok [⟨⟨"1"⟩, "a", 1, some 2, false,
      Reader.Sample.counted.replicas, []⟩, ⟨⟨"1"⟩, "a", 3, some 3, true, Reader.Sample.counted.replicas, []⟩] :
        Except (Fault TransferError) (List Split)) := by
    decide +kernel
  cases hplan.symm.trans hranges
  refine ⟨_, hplan, rfl, fun s hs => ?_, honce Reader.Sample.counted (List.mem_singleton_self _)
    (by decide)⟩
  rcases List.mem_cons.mp hs with rfl | hs
  · exact ⟨[Reader.Sample.record 1, Reader.Sample.record 2], .new Reader.Sample.input,
      .new (fun _ => [], 0), _, _, _, rfl, rfl, fun _ _ => rfl, Reader.reads_collect (n := 9) _ (by decide +kernel)⟩
  · rcases List.mem_singleton.mp hs with rfl
    exact ⟨[Reader.Sample.record 3, Reader.Sample.record 4, Reader.Sample.record 5],
      .new Reader.Sample.input, .new (fun _ => [], 0), _, _, _, rfl, rfl, fun _ _ => rfl,
      Reader.reads_collect (n := 9) _ (by decide +kernel)⟩

end ForestCourier
