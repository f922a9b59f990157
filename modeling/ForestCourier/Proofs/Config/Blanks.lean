import Mathlib.Logic.Relation
import ForestCourier.Proofs.Config.Settings
import ForestCourier.Proofs.Retry.Round
import ForestCourier.Writer.Basic

/-!
Settings are read up to blanks. A value is the same with blanks around it, a blank value is none, and an option that
names several things is the same with blanks around an entry and with blank entries. Whatever is changed in this way,
and wherever, the settings or the complaint stay the same.
-/

namespace ForestCourier.Config

open Text (IsBlank)

namespace Options

variable {c d : Options} {key : String} {s t : Option String}

/-- A text of an option becomes another one by blanks that should make no difference. -/
inductive Pads (key : String) : Option String → Option String → Prop
  | around (value before after : String) : IsBlank before → IsBlank after →
      Pads key (some value) (some (before ++ value ++ after))
  | given (blank : String) : IsBlank blank → Pads key none (some blank)
  | aroundEntry (xs : List String) (x : String) (ys : List String) (before after : String) :
      key ∈ lists → IsBlank before → IsBlank after →
      Pads key (some (String.intercalate "," (xs ++ x :: ys)))
        (some (String.intercalate "," (xs ++ (before ++ x ++ after) :: ys)))
  | blankEntry (xs ys : List String) (blank : String) : key ∈ lists → IsBlank blank →
      Pads key (some (String.intercalate "," (xs ++ ys))) (some (String.intercalate "," (xs ++ blank :: ys)))

theorem Pads.valueOf_eq (h : Pads key s t) (hkey : key ∉ lists) : valueOf s = valueOf t := by
  cases h with
  | around value before after hbefore hafter =>
    rw [valueOf, valueOf, Option.bind_some, Option.bind_some, Text.trim_pad_right hafter, Text.trim_pad_left hbefore]
  | given blank hblank =>
    rw [valueOf, valueOf, Option.bind_none, Option.bind_some, Text.trim_of_isBlank hblank, if_pos rfl]
  | aroundEntry _ _ _ _ _ hlist => exact absurd hlist hkey
  | blankEntry _ _ _ hlist => exact absurd hlist hkey

theorem Pads.entriesOf_eq (h : Pads key s t) : entriesOf s = entriesOf t := by
  cases h with
  | around value before after hbefore hafter =>
    exact ((Text.entries_pad_right hafter _).trans (Text.entries_pad_left hbefore value)).symm
  | given blank hblank => exact (Text.entries_of_isBlank hblank).symm
  | aroundEntry xs x ys before after _ hbefore hafter =>
    have hentry : Text.entries _ = Text.entries x :=
      (Text.entries_pad_right hafter _).trans (Text.entries_pad_left hbefore x)
    change Text.entries _ = Text.entries _
    rw [Text.entries_intercalate, Text.entries_intercalate, List.flatMap_append, List.flatMap_append,
      List.flatMap_cons, List.flatMap_cons, hentry]
  | blankEntry xs ys blank _ hblank =>
    change Text.entries _ = Text.entries _
    rw [Text.entries_intercalate, Text.entries_intercalate, List.flatMap_append, List.flatMap_append,
      List.flatMap_cons, Text.entries_of_isBlank hblank, List.nil_append]

/-- Options that come to one another by such changes to their texts, each made or undone any number of times. -/
def Respaced (c d : Options) : Prop := ∀ key, Relation.EqvGen (Pads key) (c.raw? key) (d.raw? key)

theorem Respaced.trans {e : Options} (h : c.Respaced d) (h' : d.Respaced e) : c.Respaced e :=
  fun key => .trans _ _ _ (h key) (h' key)

theorem Respaced.set (o : Options) (key : String) {value : String}
    (h : Relation.EqvGen (Pads key) (o.raw? key) (some value)) : o.Respaced (o.set key value) := by
  intro k
  rw [raw?_set]
  by_cases hk : k = key
  · rwa [if_pos hk, hk]
  · rw [if_neg hk]
    exact .refl _

theorem congr_of_eqvGen {α : Type} {f : Option String → α} (hpads : ∀ s t, Pads key s t → f s = f t)
    (h : Relation.EqvGen (Pads key) s t) : f s = f t := by
  induction h with
  | rel s t h => exact hpads s t h
  | refl s => rfl
  | symm _ _ _ ih => exact ih.symm
  | trans _ _ _ _ _ ih ih' => exact ih.trans ih'

theorem Respaced.agree (h : c.Respaced d) : c.Agree d where
  value key hkey _ := by
    rw [get?_eq, get?_eq]
    exact congr_of_eqvGen (fun _ _ hpads => hpads.valueOf_eq hkey) (h key)
  entries key _ := by
    rw [list_eq, list_eq]
    exact congr_of_eqvGen (fun _ _ => Pads.entriesOf_eq) (h key)

end Options

theorem Output.exists_writer {config : Output} (h : config.hosts ≠ []) (fastLoad : Bool) (manager : Placement.Manager)
    (task : Nat) : ∃ w, Writer.new config fastLoad manager task = .ok w := by
  cases fastLoad with
  | true => exact ⟨_, rfl⟩
  | false =>
    obtain ⟨rotation, hrotation, -⟩ := HostRotation.new_of_ne_nil h task
    rw [Writer.new, Writer.slotsFor, if_neg Bool.false_ne_true, hrotation]
    exact ⟨_, rfl⟩

structure Output.Usable (o : Options) (config : Output) : Prop where
  hosts : config.hosts ≠ []
  entries : ∀ host ∈ config.hosts, Text.IsEntry host
  batchSize : 0 < config.batchSize
  transactionSize : 0 < config.transactionSize
  standard : (∀ v, o.raw? Key.transactionSize = some v → IsBlank v) →
    config.transactionSize = max 1 (1000 / config.batchSize)
  writable : ∀ fastLoad manager task, ∃ w, Writer.new config fastLoad manager task = .ok w

structure Input.Usable (config : Input) : Prop where
  hosts : config.hosts ≠ []
  entries : ∀ host ∈ config.hosts, Text.IsEntry host
  maxSplitSize : 0 < config.maxSplitSize

theorem Output.usable {o : Options} {config : Output} (h : ofOptions o = .ok config) : config.Usable o := by
  obtain ⟨hhosts, hbatch, htransaction⟩ := ofOptions_eq_ok h
  obtain ⟨hlist, hne⟩ := requireHosts_eq_ok.mp hhosts
  obtain ⟨htransaction, hstandard⟩ := positive_eq_ok htransaction
  exact {
    hosts := hne
    entries := hlist ▸ Options.isEntry_of_mem_list
    batchSize := batchSize_pos h
    transactionSize := htransaction
    standard := fun hnone => hstandard ((o.get?_eq_none_iff _).mpr hnone)
    writable := exists_writer hne }

theorem Input.usable {o : Options} {config : Input} (h : ofOptions o = .ok config) : config.Usable := by
  obtain ⟨hhosts, hsize⟩ := ofOptions_eq_ok h
  obtain ⟨hlist, hne⟩ := Output.requireHosts_eq_ok.mp hhosts
  exact ⟨hne, hlist ▸ Options.isEntry_of_mem_list, (Output.positive_eq_ok hsize).1⟩

/-- Options that differ by blanks only come to the same settings, or to the same complaint, on either side. Accepted
settings name hosts, each of them an entry of its own, and have positive sizes, so that a writer can start. -/
theorem settings_up_to_blanks :
    (∀ c d : Options, c.Respaced d → Output.ofOptions c = Output.ofOptions d ∧ Input.ofOptions c = Input.ofOptions d) ∧
      (∀ o config, Output.ofOptions o = .ok config → config.Usable o) ∧
      ∀ o config, Input.ofOptions o = .ok config → config.Usable :=
  ⟨fun _ _ h => ⟨Output.ofOptions_congr h.agree, Input.ofOptions_congr h.agree⟩, fun _ _ => Output.usable,
    fun _ _ => Input.usable⟩

namespace Sample

def plain : Options :=
  .ofList [(Key.outputHost, "b,c"), (Key.outputPermission, "reader,READ"), (Key.batchSize, "300"), (Key.inputHost, "b")]

/-- The same with blanks in it: around a host, as an entry between role and capability, behind a number, and for an
option that is not given. -/
def spaced : Options :=
  ((((plain.set Key.outputHost "b, c\u00a0").set Key.outputPermission "reader, ,READ").set Key.batchSize "300\n").set
    Key.outputQuality "\t")

def output : Output where
  hosts := ["b", "c"]
  port := defaultPort
  fastLoad := none
  policy := none
  batchSize := 300
  transactionSize := 3
  content := ⟨[⟨"reader", .read⟩], [], 0, "UTF-8", .mixed, none⟩
  uriPrefix := ""
  uriSuffix := ""
  partition := none
  restrictHosts := false
  mode := .inProcess

def input : Input := ⟨["b"], defaultPort, defaultMaxSplitSize, false, defaultInputQuery, [], .inProcess⟩

end Sample

theorem settings_up_to_blanks_spaced :
    Sample.plain.Respaced Sample.spaced ∧ Output.ofOptions Sample.spaced = .ok Sample.output ∧
      Sample.output.Usable Sample.plain ∧ Sample.output.transactionSize = max 1 (1000 / Sample.output.batchSize) ∧
      Input.ofOptions Sample.spaced = .ok Sample.input ∧ Sample.input.Usable := by
  have hblank : IsBlank "" ∧ IsBlank " " ∧ IsBlank "\u00a0" ∧ IsBlank "\n" ∧ IsBlank "\t" := by decide
  obtain ⟨hempty, hspace, hfixed, hline, htab⟩ := hblank
  have hhosts := Options.Respaced.set Sample.plain Key.outputHost
    (.rel _ _ (.aroundEntry ["b"] "c" [] " " "\u00a0" (by decide) hspace hfixed))
  have hpermission := hhosts.trans
    (.set _ Key.outputPermission (.rel _ _ (.blankEntry ["reader"] ["READ"] " " (by decide) hspace)))
  have hbatch := hpermission.trans (.set _ Key.batchSize (.rel _ _ (.around "300" "" "\n" hempty hline)))
  have hrespaced : Sample.plain.Respaced Sample.spaced :=
    hbatch.trans (.set _ Key.outputQuality (.rel _ _ (.given "\t" htab)))
  obtain ⟨hsame, hwriting, hreading⟩ := settings_up_to_blanks
  obtain ⟨houtput, hinput⟩ := hsame _ _ hrespaced
  have hwritten : Output.ofOptions Sample.plain = .ok Sample.output := by decide +kernel
  have hread : Input.ofOptions Sample.plain = .ok Sample.input := by decide +kernel
  have husable := hwriting _ _ hwritten
  have hunset : ∀ v, Sample.plain.raw? Key.transactionSize = some v → IsBlank v := nofun
  exact ⟨hrespaced, houtput ▸ hwritten, husable, husable.standard hunset, hinput ▸ hread, hreading _ _ hread⟩

end ForestCourier.Config
