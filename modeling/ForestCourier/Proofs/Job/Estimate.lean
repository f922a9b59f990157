import Mathlib.Algebra.GroupWithZero.Nat
import ForestCourier.Proofs.Job.Redaction
import ForestCourier.Proofs.Split.Ranges

/-!
The estimate of a job against the splits that it plans. Ranges with an end name as many records as were counted, and
the counts that are known are added up one by one: planning ends with a list of splits and with the sum, unless the
sum is no word. Every count is below `2 ^ 63`, so that it takes three forests for that.
-/

namespace ForestCourier

variable {ε : Type}

theorem Word.foldlM_add (ws : List UInt64) (acc : UInt64) :
    ws.foldlM (add (ε := ε)) acc =
      if acc.toNat + (ws.map UInt64.toNat).sum < 2 ^ 64 then
        .ok (.ofNat (acc.toNat + (ws.map UInt64.toNat).sum))
      else .error (.overflow .addition) := by
  induction ws generalizing acc with
  | nil =>
    rw [List.map_nil, List.sum_nil, Nat.add_zero, if_pos acc.toNat_lt, UInt64.ofNat_toNat]
    rfl
  | cons w ws ih =>
    rw [List.foldlM_cons, List.map_cons, List.sum_cons, ← Nat.add_assoc]
    by_cases hfits : acc.toNat + w.toNat < UInt64.size
    · have hadd : add (ε := ε) acc w = .ok (acc + w) := if_pos hfits
      rw [hadd, ← toNat_of_add hadd]
      exact ih (acc + w)
    · have hadd : add (ε := ε) acc w = .error (.overflow .addition) := if_neg hfits
      have hsize : UInt64.size = 2 ^ 64 := rfl
      rw [hadd, if_neg (by omega)]
      rfl

def RecordCount.known (c : RecordCount) : Nat := c.records.toInt.toNat

namespace Split

def extent (s : Split) : Nat :=
  match s.stop with
  | none => 0
  | some stop => stop.toNat - s.start.toNat + 1

/-- Ranges that name so many records between them, none of which ends before it starts. -/
structure Names (n : Nat) (splits : List Split) : Prop where
  forward : ∀ s ∈ splits, ∀ stop, s.stop = some stop → s.start ≤ stop
  extent : (splits.map extent).sum = n

theorem length_positions {s : Split} (h : ∀ stop, s.stop = some stop → s.start ≤ stop) :
    s.positions.length = s.extent := by
  unfold positions extent
  cases hstop : s.stop with
  | none => rfl
  | some stop =>
    have hforward := UInt64.le_iff_toNat_le.mp (h stop hstop)
    dsimp only
    rw [List.length_range']
    omega

theorem Partitions.names {count size : Nat} {splits : List Split} (h : Partitions count size splits) :
    Names count splits := by
  have hforward : ∀ s ∈ splits, ∀ stop, s.stop = some stop → s.start ≤ stop := by
    intro s hs stop hstop
    obtain ⟨stop', hstop', hle, -⟩ := h.bounded s hs
    cases hstop.symm.trans hstop'
    exact hle
  refine ⟨hforward, ?_⟩
  have hextent : splits.map Split.extent = splits.map fun s => s.positions.length :=
    List.map_congr_left fun s hs => (length_positions (hforward s hs)).symm
  rw [hextent, ← List.length_flatMap, h.positions, List.length_range']

theorem Names.perm {n : Nat} {splits splits' : List Split} (h : Names n splits) (hperm : splits'.Perm splits) :
    Names n splits' :=
  ⟨fun s hs => h.forward s (hperm.mem_iff.mp hs), (hperm.map _).sum_nat.trans h.extent⟩

theorem Names.withRules {n : Nat} {splits : List Split} (h : Names n splits) (rules : List String) :
    Names n (splits.map fun s => { s with redactionRules := rules }) := by
  refine ⟨fun s hs => ?_, ?_⟩
  · obtain ⟨t, ht, rfl⟩ := List.mem_map.mp hs
    exact h.forward t ht
  · rw [List.map_map]
    exact h.extent

theorem Names.flatten {forests : List RecordCount} {groups : List (List Split)}
    (h : List.Forall₂ (fun c splits => Names c.known splits) forests groups) :
    Names (forests.map RecordCount.known).sum groups.flatten := by
  induction h with
  | nil => exact ⟨List.forall_mem_nil _, rfl⟩
  | cons hfirst _ ih =>
    refine ⟨fun s hs => ?_, ?_⟩
    · rcases List.mem_append.mp hs with hs | hs
      · exact hfirst.forward s hs
      · exact ih.forward s hs
    · rw [List.flatten_cons, List.map_append, List.sum_append, List.map_cons, List.sum_cons, hfirst.extent, ih.extent]

theorem cut_names (c : RecordCount) (maxSize : UInt64) :
    ∃ splits, cut (ε := ε) c maxSize = .ok splits ∧ Names c.known splits := by
  obtain ⟨splits, hcut, -, hsplits⟩ := cut_partitions (ε := ε) c maxSize
  refine ⟨splits, hcut, ?_⟩
  split at hsplits
  · next hunknown =>
    have hnone : c.known = 0 := Int.toNat_of_nonpos (Int64.le_iff_toInt_le.mp hunknown)
    rw [hsplits, hnone]
    refine ⟨fun s hs stop hstop => ?_, rfl⟩
    rw [List.mem_singleton.mp hs] at hstop
    cases hstop
  · exact hsplits.names

theorem plan_names (forests : List RecordCount) (maxSize : UInt64) (rules : List String) :
    ∃ splits, plan (ε := ε) forests maxSize rules = .ok splits ∧ Names (forests.map RecordCount.known).sum splits := by
  obtain ⟨perForest, hmap, hnames⟩ := mapM_forall₂ (fun c => cut_names (ε := ε) c maxSize) forests
  have hrules := Names.flatten (List.forall₂_map_right_iff.mpr (hnames.imp fun _ _ h => h.withRules rules))
  refine ⟨_, ?_, hrules.perm (interleave_perm _)⟩
  rw [plan, hmap]
  rfl

end Split

namespace InputJob

theorem known_countedForests (config : Config.Input) (stream : SplitStream) :
    (countedForests config stream).map RecordCount.known = stream.forests.map RecordCount.known := by
  unfold countedForests RecordCount.restrict
  split
  · split
    · rfl
    · refine List.ext_getElem? fun i => ?_
      rw [List.getElem?_map, List.getElem?_mapIdx, Option.map_map, List.getElem?_map]
      rfl
  · rfl

theorem sum_estimates (forests : List RecordCount) :
    ((forests.filterMap RecordCount.estimate?).map UInt64.toNat).sum = (forests.map RecordCount.known).sum := by
  induction forests with
  | nil => rfl
  | cons c forests ih =>
    rw [List.filterMap_cons, List.map_cons, List.sum_cons, ← ih]
    have hlarge := Int64.toInt_lt c.records
    unfold RecordCount.estimate? RecordCount.known
    by_cases hknown : 0 ≤ c.records.toInt
    · rw [if_pos hknown]
      dsimp only
      rw [List.map_cons, List.sum_cons, UInt64.toNat_ofNat_of_lt' (by simp only [UInt64.size]; omega)]
    · rw [if_neg hknown]
      dsimp only
      omega

theorem estimate_eq (forests : List RecordCount) :
    estimate (ε := ε) forests =
      if (forests.map RecordCount.known).sum < 2 ^ 64 then .ok (.ofNat (forests.map RecordCount.known).sum)
      else .error (.overflow .addition) := by
  have hsum := Word.foldlM_add (ε := ε) (forests.filterMap RecordCount.estimate?) 0
  rwa [UInt64.toNat_zero, Nat.zero_add, sum_estimates] at hsum

theorem known_le (forests : List RecordCount) :
    (forests.map RecordCount.known).sum ≤ forests.countP (fun c => 0 < c.records) * (2 ^ 63 - 1) := by
  induction forests with
  | nil => exact Nat.zero_le _
  | cons c forests ih =>
    have hlarge := Int64.toInt_lt c.records
    have hpos : 0 < c.records ↔ 0 < c.records.toInt := Int64.lt_iff_toInt_lt
    rw [List.map_cons, List.sum_cons, List.countP_cons, Nat.add_mul, RecordCount.known]
    simp only [decide_eq_true_eq, hpos]
    split <;> omega

variable {σ : Type}

theorem splits_answered (srv : Server σ) {options : Config.Options} {config : Config.Input} {job : InputJob σ}
    {items : List Item} {stream : SplitStream} (hconfig : Config.Input.ofOptions options = .ok config)
    (hanswer : job.answer srv config = .ok items)
    (hstream : SplitStream.ofItems items (!config.redactionRules.isEmpty) = .ok stream) :
    ∃ wire, job.splits srv options = match estimate (countedForests config stream) with
      | .error fault => (.error fault, { job with wire })
      | .ok estimated =>
        (Split.plan (countedForests config stream) config.maxSplitSize stream.redactionRules,
          { counters := job.counters.addEstimated estimated, wire }) := by
  have hasked := askSplits_answer srv config job
  rw [hanswer] at hasked
  dsimp only [bind, Except.bind] at hasked
  rw [hstream] at hasked
  refine ⟨(Failover.queryFirst srv config.hosts config.port (splitQuery config) job.wire).2, ?_⟩
  unfold splits
  rw [hconfig]
  dsimp only
  rw [hasked]
  rfl

end InputJob

variable {σ : Type}

/-- The estimate of a job is exact: it is what the splits with an end name between them, whatever the counts are that a
server tells. Only a sum that is no word is not estimated. It takes more than two forests with records for that, and
then planning is abandoned and nothing is counted. -/
theorem records_estimated (srv : Server σ) {options : Config.Options} {config : Config.Input} {job : InputJob σ}
    {items : List Item} {stream : SplitStream} (hconfig : Config.Input.ofOptions options = .ok config)
    (hanswer : job.answer srv config = .ok items)
    (hstream : SplitStream.ofItems items (!config.redactionRules.isEmpty) = .ok stream) :
    let total := (stream.forests.map RecordCount.known).sum
    let planned := job.splits srv options
    (total < 2 ^ 64 → ∃ splits, planned.1 = .ok splits ∧ Split.Names total splits ∧
      planned.2.counters = job.counters.addEstimated (.ofNat total)) ∧
    (2 ^ 64 ≤ total → planned.1 = .error (.overflow .addition) ∧ planned.2.counters = job.counters) ∧
    (stream.forests.countP (fun c => 0 < c.records) ≤ 2 → total < 2 ^ 64) := by
  intro total planned
  obtain ⟨wire, hplanned⟩ := InputJob.splits_answered srv hconfig hanswer hstream
  have hestimate := InputJob.estimate_eq (ε := TransferError) (InputJob.countedForests config stream)
  rw [InputJob.known_countedForests] at hestimate
  refine ⟨fun hfits => ?_, fun hlarge => ?_, fun hfew => ?_⟩
  · obtain ⟨splits, hplan, hnames⟩ := Split.plan_names (ε := TransferError)
      (InputJob.countedForests config stream) config.maxSplitSize stream.redactionRules
    rw [InputJob.known_countedForests] at hnames
    rw [if_pos hfits] at hestimate
    rw [hestimate] at hplanned
    refine ⟨splits, (congrArg Prod.fst hplanned).trans hplan, hnames, ?_⟩
    exact congrArg (fun r => r.2.counters) hplanned
  · rw [if_neg (Nat.not_lt.mpr hlarge)] at hestimate
    rw [hestimate] at hplanned
    exact ⟨congrArg Prod.fst hplanned, congrArg (fun r => r.2.counters) hplanned⟩
  · have hbound := InputJob.known_le stream.forests
    have htwo := Nat.mul_le_mul_right (2 ^ 63 - 1) hfew
    exact Nat.lt_of_le_of_lt (Nat.le_trans hbound htwo) (by decide)

namespace Sample

def counting (counts : List Int64) : Server Nat where
  __ := inner
  submit _ _ s := (.ok (counts.flatMap fun n => [.text "1", .int n, .text "inner-1"]), s)

end Sample

/-- Two forests that are as large as can be told, and one of unknown size: their sum is just a word. -/
theorem records_estimated_largest :
    let counts : List Int64 := [9223372036854775807, -1, 9223372036854775807]
    let items : List Item := counts.flatMap fun n => [.text "1", .int n, .text "inner-1"]
    let job := InputJob.new 0
    Config.Input.ofOptions Sample.options = .ok Sample.input ∧
      job.answer (Sample.counting counts) Sample.input = .ok items ∧
      SplitStream.ofItems items false = .ok ⟨[], counts.map fun n => ⟨⟨"1"⟩, "inner-1", n, []⟩⟩ ∧
      ∃ splits, (job.splits (Sample.counting counts) Sample.options).1 = .ok splits ∧
        Split.Names 18446744073709551614 splits ∧
        (job.splits (Sample.counting counts) Sample.options).2.counters = ⟨18446744073709551614, 0, 0⟩ := by
  intro counts items job
  have hconfig : Config.Input.ofOptions Sample.options = .ok Sample.input := by decide +kernel
  have hanswer : job.answer (Sample.counting counts) Sample.input = .ok items := by decide +kernel
  have hstream : SplitStream.ofItems items false =
      .ok ⟨[], counts.map fun n => ⟨⟨"1"⟩, "inner-1", n, []⟩⟩ := by decide +kernel
  obtain ⟨hplanned, -, hfew⟩ := records_estimated (Sample.counting counts) hconfig hanswer hstream
  obtain ⟨splits, hsplits, hnames, hcounted⟩ := hplanned (hfew (by decide))
  have htotal : ((counts.map fun n => (⟨⟨"1"⟩, "inner-1", n, []⟩ : RecordCount)).map RecordCount.known).sum =
      18446744073709551614 := by decide +kernel
  have hcounters : job.counters.addEstimated (.ofNat 18446744073709551614) = ⟨18446744073709551614, 0, 0⟩ := by
    decide +kernel
  rw [htotal] at hnames hcounted
  exact ⟨hconfig, hanswer, hstream, splits, hsplits, hnames, hcounted.trans hcounters⟩

/-- With two more records in a third forest the sum is too large, and planning does not come to an end. -/
theorem records_overflow : ¬∀ (σ : Type) (srv : Server σ) (options : Config.Options) (config : Config.Input)
    (job : InputJob σ) (items : List Item) (stream : SplitStream),
    Config.Input.ofOptions options = .ok config → job.answer srv config = .ok items →
    SplitStream.ofItems items (!config.redactionRules.isEmpty) = .ok stream →
    ∃ splits, (job.splits srv options).1 = .ok splits ∧ (job.splits srv options).2.counters =
      job.counters.addEstimated (.ofNat (splits.map Split.extent).sum) := by
  intro h
  have hoverflow : ((InputJob.new 0).splits (Sample.counting [9223372036854775807, 9223372036854775807, 2])
      Sample.options).1 = .error (.overflow .addition) := by decide +kernel
  obtain ⟨splits, hsplits, -⟩ := h Nat (Sample.counting [9223372036854775807, 9223372036854775807, 2]) Sample.options
    Sample.input (InputJob.new 0) _ _ (by decide +kernel) rfl rfl
  cases hoverflow.symm.trans hsplits

end ForestCourier
