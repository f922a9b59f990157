import ForestCourier.Config.Input
import ForestCourier.Proofs.Session.Forms
import ForestCourier.Proofs.Text.Entries

/-!
What the settings of a job hang on. An option has a value or, where it names several things, entries, and both are
those of its text up to blanks. An accepted configuration has hosts that could stand in a list, and sizes that are
positive.
-/

namespace ForestCourier.Config

namespace Options

def valueOf (text : Option String) : Option String :=
  text.bind fun v => if Text.trim v = "" then none else some (Text.trim v)

def entriesOf (text : Option String) : List String := text.elim [] Text.entries

theorem get?_eq (o : Options) (key : String) : o.get? key = valueOf (o.raw? key) := by
  unfold get? valueOf
  cases o.raw? key with
  | none => rfl
  | some v => rfl

theorem get?_eq_none_iff (o : Options) (key : String) :
    o.get? key = none ↔ ∀ v, o.raw? key = some v → Text.IsBlank v := by
  rw [get?_eq]
  cases o.raw? key with
  | none => exact ⟨nofun, fun _ => rfl⟩
  | some v => simp [valueOf, Text.trim_eq_empty_iff]

theorem list_eq (o : Options) (key : String) : o.list key = entriesOf (o.raw? key) := by
  unfold list
  rw [get?_eq]
  cases o.raw? key with
  | none => rfl
  | some v =>
    change _ = Text.entries v
    rw [← Text.entries_trim v]
    by_cases hblank : Text.trim v = ""
    · simp [valueOf, hblank, Text.entries_of_isBlank Text.isBlank_empty]
    · simp [valueOf, hblank]

theorem isEntry_of_mem_list {o : Options} {key : String} : ∀ x ∈ o.list key, Text.IsEntry x := by
  rw [list_eq]
  cases o.raw? key with
  | none => exact List.forall_mem_nil _
  | some v => exact Text.isEntry_of_mem_entries v

theorem list_set_intercalate (o : Options) (key : String) {xs : List String} (h : ∀ x ∈ xs, Text.IsEntry x) :
    (o.set key (String.intercalate "," xs)).list key = xs := by
  rw [list_eq, raw?_set, if_pos rfl]
  exact Text.entries_intercalate_of_isEntry h

theorem list_set_of_isBlank (o : Options) (key : String) {text : String} (h : Text.IsBlank text) :
    (o.set key text).list key = [] := by
  rw [list_eq, raw?_set, if_pos rfl]
  exact Text.entries_of_isBlank h

/-- The options that name several things. -/
def lists : List String :=
  [Key.outputHost, Key.outputPermission, Key.outputCollection, Key.inputHost, Key.inputRedactionRules]

/-- Options that agree in the values and the entries that settings are read from. -/
structure Agree (c d : Options) : Prop where
  value : ∀ key, key ∉ lists → key ≠ Key.outputTopology → c.get? key = d.get? key
  entries : ∀ key ∈ lists, c.list key = d.list key

theorem Agree.parsed? {c d : Options} (h : c.Agree d) {α : Type} (read : String → Except ValueError α) (key : String)
    (hkey : key ∉ lists) (hsetting : key ≠ Key.outputTopology) : c.parsed? read key = d.parsed? read key := by
  rw [Options.parsed?, Options.parsed?, h.value key hkey hsetting]

end Options

namespace Output

theorem ofOptions_congr {c d : Options} (h : c.Agree d) : ofOptions c = ofOptions d := by
  have hpolicy : policyOf c = policyOf d := by
    rw [policyOf, policyOf, h.value _ (by decide) (by decide)]
  simp (disch := decide) only [ofOptions, requireHosts, positive, createOptions, hpolicy, h.value, h.entries, h.parsed?]

theorem requireHosts_eq_ok {o : Options} {key : String} {hosts : List String} :
    requireHosts o key = .ok hosts ↔ o.list key = hosts ∧ hosts ≠ [] := by
  unfold requireHosts
  dsimp only
  split
  · next hnone => exact ⟨nofun, fun ⟨hlist, hne⟩ => absurd (hlist ▸ List.isEmpty_iff.mp hnone) hne⟩
  · next hsome =>
    refine ⟨fun h => ?_, fun ⟨hlist, _⟩ => congrArg Except.ok hlist⟩
    cases h
    exact ⟨rfl, by simpa using hsome⟩

theorem positive_eq_ok {o : Options} {key : String} {standard size : UInt64} (h : positive o key standard = .ok size) :
    0 < size ∧ (o.get? key = none → size = standard) := by
  obtain ⟨given, hgiven, h⟩ := bind_eq_ok.mp h
  dsimp only at h
  split at h
  · cases h
  · next hsize =>
    cases h
    refine ⟨UInt64.pos_iff_ne_zero.mpr hsize, fun hnone => ?_⟩
    rw [Options.parsed?, hnone] at hgiven
    cases hgiven
    rfl

theorem ofOptions_eq_ok {o : Options} {config : Output} (h : ofOptions o = .ok config) :
    requireHosts o Key.outputHost = .ok config.hosts ∧
      positive o Key.batchSize defaultBatchSize = .ok config.batchSize ∧
      positive o Key.transactionSize (defaultTransactionSize config.batchSize) = .ok config.transactionSize := by
  simp only [ofOptions, bind_eq_ok] at h
  obtain ⟨hosts, hhosts, batchSize, hbatch, transactionSize, htransaction, _, -, _, -, _, -, _, -, _, -, _, -, h⟩ := h
  cases h
  exact ⟨hhosts, hbatch, htransaction⟩

theorem batchSize_pos {o : Options} {config : Output} (h : ofOptions o = .ok config) : 0 < config.batchSize :=
  (positive_eq_ok (ofOptions_eq_ok h).2.1).1

end Output

namespace Input

theorem ofOptions_congr {c d : Options} (h : c.Agree d) : ofOptions c = ofOptions d := by
  simp (disch := decide) only [ofOptions, Output.requireHosts, Output.positive, h.value, h.entries, h.parsed?]

theorem ofOptions_eq_ok {o : Options} {config : Input} (h : ofOptions o = .ok config) :
    Output.requireHosts o Key.inputHost = .ok config.hosts ∧
      Output.positive o Key.inputMaxSplitSize defaultMaxSplitSize = .ok config.maxSplitSize := by
  simp only [ofOptions, bind_eq_ok] at h
  obtain ⟨hosts, hhosts, maxSplitSize, hsize, _, -, _, -, _, -, h⟩ := h
  cases h
  exact ⟨hhosts, hsize⟩

theorem hosts_ne_nil {o : Options} {config : Input} (h : ofOptions o = .ok config) : config.hosts ≠ [] :=
  (Output.requireHosts_eq_ok.mp (ofOptions_eq_ok h).1).2

end Input

end ForestCourier.Config
