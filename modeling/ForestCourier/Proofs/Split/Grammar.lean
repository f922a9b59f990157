import ForestCourier.Proofs.Session.Forms
import ForestCourier.Split.Stream

/-!
The grammar of a split answer. The answer is rules up to their marker, if rules were asked for, then triples,
and behind the second marker groups of replicas; what the markers say is no rule and no forest's name. Such an
answer is taken, none other is, and a stream has what the sections tell.
-/

namespace ForestCourier

namespace SplitStream

open Answer (Row)

/-- Rules stand in front of the first marker; where none were asked for, there is neither. -/
def rulesForm (expectRedaction : Bool) : Answer.Form (List String) := fun rules items =>
  if expectRedaction then
    Discovery.redactionMarker ∉ rules ∧ items = rules.map .text ++ [.text Discovery.redactionMarker]
  else rules = [] ∧ items = []

/-- A forest, which the marker does not name, with its count and its host. -/
def tripleForm : Answer.Form RecordCount := fun c items =>
  ∃ name : Item, name.Names c.forest ∧ name ≠ .text Discovery.replicaMarker ∧ c.replicas = [] ∧
    items = [name, .int c.records, .text c.host]

/-- Groups stand behind the marker; there may be neither. -/
def groupsForm : Answer.Form (List (ForestId × List Replica)) := fun groups items =>
  groups = [] ∧ items = [] ∨
    ∃ more, Row Answer.groupForm groups more ∧ items = .text Discovery.replicaMarker :: more

/-- The items tell the stream. Its forests are those of the triples; of several triples for a forest, the first
one has the replicas of the forest's last group. -/
def Tells (expectRedaction : Bool) (items : List Item) (stream : SplitStream) : Prop :=
  ∃ (counts : List RecordCount) (groups : List (ForestId × List Replica)) (rules triples replicas : List Item),
    items = rules ++ triples ++ replicas ∧
    rulesForm expectRedaction stream.redactionRules rules ∧ Row tripleForm counts triples ∧
    groupsForm groups replicas ∧ (∀ group ∈ groups, group.1 ∈ counts.map (·.forest)) ∧
    stream.forests = counts.mapIdx fun i c =>
      { c with replicas := if c.forest ∈ (counts.take i).map (·.forest) then []
                           else (groups.reverse.lookup c.forest).getD [] }

def readRules (expectRedaction : Bool) : Answer.Reads (List String) := fun a =>
  if expectRedaction then
    Answer.readSection (Answer.behind? Discovery.redactionMarker) (Answer.text "redaction rule") a
  else .ok ([], a)

theorem ofItems_eq (expectRedaction : Bool) (items : List Item) :
    ofItems items expectRedaction = (do
      let (rules, a) ← readRules expectRedaction (.ofItems items)
      let (forests, a) ← Answer.readSection forestsEnd recordCount a
      let groups ← Answer.all Answer.replicaGroup a
      let forests ← Answer.attach (·.forest) (fun replicas c => { c with replicas := replicas }) forests groups
      .ok ⟨rules, forests⟩) := by
  cases expectRedaction <;> rfl

theorem exact_readRules (expectRedaction : Bool) :
    Answer.Exact (readRules expectRedaction) (rulesForm expectRedaction) := by
  cases expectRedaction with
  | false => exact Answer.exact_pure []
  | true =>
    intro items position rules a
    simp only [readRules, rulesForm, if_true]
    refine (Answer.readTexts_eq_ok ..).trans ⟨?_, ?_⟩
    · rintro ⟨hmarker, rfl, hposition⟩
      exact ⟨_, ⟨hmarker, rfl⟩, by simp, by simpa [Nat.add_assoc] using hposition⟩
    · rintro ⟨_, ⟨hmarker, rfl⟩, rfl, hposition⟩
      exact ⟨hmarker, by simp, by simpa [Nat.add_assoc] using hposition⟩

theorem exact_recordCount : Answer.Exact recordCount fun c items =>
    ∃ name : Item, name.Names c.forest ∧ c.replicas = [] ∧ items = [name, .int c.records, .text c.host] := by
  refine (Answer.exact_forestId.bind fun forest => (Answer.exact_int "record count").bind fun records =>
    (Answer.exact_text "forest host").bind fun host =>
      Answer.exact_pure (⟨forest, host, records, []⟩ : RecordCount)).congr fun c items => ⟨?_, ?_⟩
  · rintro ⟨forest, _, _, ⟨name, hname, rfl⟩, ⟨records, _, _, rfl, ⟨host, _, _, rfl, ⟨rfl, rfl⟩, rfl⟩, rfl⟩, rfl⟩
    exact ⟨name, hname, rfl, rfl⟩
  · obtain ⟨forest, host, records, replicas⟩ := c
    rintro ⟨name, hname, rfl, rfl⟩
    exact ⟨forest, [name], _, ⟨name, hname, rfl⟩, ⟨records, _, _, rfl, ⟨host, _, _, rfl, ⟨rfl, rfl⟩, rfl⟩, rfl⟩, rfl⟩

theorem readForests_eq_ok (items : List Item) (position : Nat) (counts : List RecordCount) (a : Answer) :
    Answer.readSection forestsEnd recordCount ⟨items, position⟩ = .ok (counts, a) ↔
      ∃ taken left, Row tripleForm counts taken ∧ items = taken ++ left ∧
        forestsEnd ⟨left, position + taken.length⟩ = some a := by
  refine Answer.readSection_eq_ok exact_recordCount (by simp) (fun c taken rest position => ⟨?_, ?_⟩) items position
    counts a
  · rintro ⟨⟨name, hname, hreplicas, rfl⟩, hstop⟩
    refine ⟨name, hname, ?_, hreplicas, rfl⟩
    rintro rfl
    simp [forestsEnd, Answer.behind?] at hstop
  · rintro ⟨name, hname, hmarker, hreplicas, rfl⟩
    refine ⟨⟨name, hname, hreplicas, rfl⟩, ?_⟩
    obtain ⟨forest, host, records, replicas⟩ := c
    cases hname with
    | text s => simpa [forestsEnd, Answer.behind?] using hmarker
    | number => simp [forestsEnd, Answer.behind?]

theorem readGroups_eq_ok (items : List Item) (position : Nat) (groups : List (ForestId × List Replica)) :
    (∃ a, forestsEnd ⟨items, position⟩ = some a ∧ Answer.all Answer.replicaGroup a = .ok groups) ↔
      groupsForm groups items := by
  have hall (items : List Item) (position : Nat) :=
    Answer.all_eq_ok Answer.exact_replicaGroup (by simp [Answer.groupForm]) items position groups
  cases items with
  | nil =>
    have hnil : Row Answer.groupForm groups [] ↔ groups = [] := by
      constructor
      · intro h
        have := (hall [] 0).mpr h
        simpa [Answer.all, Answer.readSection, Answer.entries, Answer.atEnd, Except.map, eq_comm] using this
      · rintro rfl
        exact .nil
    simp [forestsEnd, groupsForm, hall, hnil]
  | cons item items =>
    simp only [forestsEnd, groupsForm, List.isEmpty_cons, Bool.false_eq_true, if_false, Answer.behind?_eq_some,
      reduceCtorEq, and_false, false_or]
    constructor
    · rintro ⟨⟨rest, _⟩, ⟨hitems, -⟩, hgroups⟩
      exact ⟨rest, (hall ..).mp hgroups, hitems⟩
    · rintro ⟨rest, hrow, hitems⟩
      exact ⟨⟨rest, position + 1⟩, ⟨hitems, rfl⟩, (hall ..).mpr hrow⟩

theorem replicas_eq_nil {counts : List RecordCount} {items : List Item} (h : Row tripleForm counts items) :
    ∀ c ∈ counts, c.replicas = [] := by
  induction h with
  | nil => simp
  | cons hc _ ih =>
    obtain ⟨-, -, -, hreplicas, -⟩ := hc
    exact List.forall_mem_cons.mpr ⟨hreplicas, ih⟩

theorem attach_counts_eq_ok {counts : List RecordCount} (hcounts : ∀ c ∈ counts, c.replicas = [])
    (groups : List (ForestId × List Replica)) (forests : List RecordCount) :
    Answer.attach (·.forest) (fun replicas c => { c with replicas := replicas }) counts groups = .ok forests ↔
      (∀ group ∈ groups, group.1 ∈ counts.map (·.forest)) ∧
      forests = counts.mapIdx fun i c =>
        { c with replicas := if c.forest ∈ (counts.take i).map (·.forest) then []
                             else (groups.reverse.lookup c.forest).getD [] } := by
  have hput (replicas : List Replica) (c : RecordCount) : { c with replicas }.forest = c.forest := rfl
  refine (Answer.attach_eq_ok hput (fun _ _ _ => rfl) groups counts forests).trans ?_
  rw [Answer.attached_bare]
  intro c hc
  rw [← hcounts c hc]

theorem ofItems_eq_ok (expectRedaction : Bool) (items : List Item) (stream : SplitStream) :
    ofItems items expectRedaction = .ok stream ↔ Tells expectRedaction items stream := by
  rw [ofItems_eq]
  refine bind_eq_ok.trans ⟨?_, ?_⟩
  · rintro ⟨⟨rules, a⟩, hrules, h⟩
    obtain ⟨⟨counts, b⟩, hcounts, h⟩ := bind_eq_ok.mp h
    obtain ⟨groups, hgroups, h⟩ := bind_eq_ok.mp h
    obtain ⟨forests, hattach, h⟩ := bind_eq_ok.mp h
    cases h
    obtain ⟨first, hfirst, hitems, -⟩ := (exact_readRules ..).mp hrules
    obtain ⟨triples, replicas, hrow, hrest, hend⟩ := (readForests_eq_ok a.rest a.position counts b).mp hcounts
    obtain ⟨hknown, hforests⟩ := (attach_counts_eq_ok (replicas_eq_nil hrow) groups forests).mp hattach
    refine ⟨counts, groups, first, triples, replicas, ?_, hfirst, hrow, ?_, hknown, hforests⟩
    · rw [hitems, hrest, List.append_assoc]
    · exact (readGroups_eq_ok ..).mp ⟨b, hend, hgroups⟩
  · rintro ⟨counts, groups, first, triples, replicas, hitems, hfirst, hrow, hgroups, hknown, hforests⟩
    rw [List.append_assoc] at hitems
    obtain ⟨b, hend, hgroups⟩ := (readGroups_eq_ok replicas (first.length + triples.length) groups).mpr hgroups
    refine ⟨(stream.redactionRules, ⟨triples ++ replicas, first.length⟩), (exact_readRules ..).mpr ?_, ?_⟩
    · exact ⟨first, hfirst, hitems, (Nat.zero_add _).symm⟩
    refine bind_eq_ok.mpr ⟨(counts, b), (readForests_eq_ok ..).mpr ⟨triples, replicas, hrow, rfl, hend⟩, ?_⟩
    refine bind_eq_ok.mpr ⟨groups, hgroups, bind_eq_ok.mpr ⟨stream.forests, ?_, rfl⟩⟩
    exact (attach_counts_eq_ok (replicas_eq_nil hrow) groups stream.forests).mpr ⟨hknown, hforests⟩

end SplitStream

def Answer.announced : Answer.Reads (ForestId × Nat) := fun a => do
  let (forest, a) ← Answer.forestId a
  let (n, a) ← Answer.count "replica count" a
  if 2 * n ≤ a.rest.length then .ok ((forest, n), a) else .error (.tooManyReplicas forest n a.rest.length)

theorem Answer.replicaGroup_eq (a : Answer) :
    Answer.replicaGroup a = Answer.announced a >>= fun ((forest, n), a) =>
      Answer.replicas n a >>= fun (rs, a) => .ok ((forest, rs), a) := by
  unfold Answer.replicaGroup Answer.announced
  cases Answer.forestId a with
  | error e => rfl
  | ok r =>
    obtain ⟨forest, b⟩ := r
    simp only [bind, Except.bind]
    cases Answer.count "replica count" b with
    | error e => rfl
    | ok r =>
      obtain ⟨n, c⟩ := r
      by_cases hfits : 2 * n ≤ c.rest.length
      · simp [hfits, Nat.not_lt.mpr hfits]
      · simp [hfits, Nat.lt_of_not_le hfits]

theorem Answer.announced_fits {a b : Answer} {forest : ForestId} {n : Nat}
    (h : Answer.announced a = .ok ((forest, n), b)) : 2 * n ≤ b.rest.length := by
  obtain ⟨⟨name, c⟩, -, h⟩ := bind_eq_ok.mp h
  obtain ⟨⟨k, d⟩, -, h⟩ := bind_eq_ok.mp h
  simp only at h
  split at h
  · next hfits =>
    cases h
    exact hfits
  · cases h

/-- A split answer is taken if it is of the grammar, and yields what its sections tell; any other one breaks the
protocol. In neither case is room made for more replicas than half the items behind their number. -/
theorem split_answer_parsed (items : List Item) (expectRedaction : Bool) :
    (∀ stream, SplitStream.ofItems items expectRedaction = .ok stream ↔
      SplitStream.Tells expectRedaction items stream) ∧
    ((∃ e : ProtocolError, SplitStream.ofItems items expectRedaction = .error e) ↔
      ∀ stream, ¬ SplitStream.Tells expectRedaction items stream) ∧
    (∀ a, Answer.replicaGroup a = Answer.announced a >>= fun ((forest, n), a) =>
      Answer.replicas n a >>= fun (rs, a) => .ok ((forest, rs), a)) ∧
    ∀ a forest n b, Answer.announced a = .ok ((forest, n), b) → 2 * n ≤ b.rest.length := by
  have htells := SplitStream.ofItems_eq_ok expectRedaction items
  refine ⟨htells, ?_, Answer.replicaGroup_eq, fun _ _ _ _ => Answer.announced_fits⟩
  simp only [← htells]
  cases SplitStream.ofItems items expectRedaction <;> simp

example :
    SplitStream.ofItems [.text "f", .int 1, .text "a", .text "f", .int 2, .text "b", .text "REPLICA",
      .text "f", .int 0, .text "f", .int 1, .text "g", .text "c"] false =
      .ok ⟨[], [⟨⟨"f"⟩, "a", 1, [⟨⟨"g"⟩, "c"⟩]⟩, ⟨⟨"f"⟩, "b", 2, []⟩]⟩ := by rfl

end ForestCourier
