import ForestCourier.Proofs.Job.Confinement
import ForestCourier.Proofs.Reader.Gapless
import ForestCourier.Proofs.Session.Forms

/-!
Redaction rules reach every read. A job that asks for rules takes none but an answer that tells them
first and then marks their end; each split carries the rules that were told, and each query for its
records carries them on, over any number of failovers. An answer without them yields no split.
-/

namespace ForestCourier

namespace SplitStream

/-- The answer begins with the rules, and the first marker in it stands right behind them. -/
def Opens (items : List Item) (rules : List String) : Prop :=
  rules.map Item.text ++ [.text Discovery.redactionMarker] <+: items ∧ Discovery.redactionMarker ∉ rules

instance (items : List Item) (rules : List String) : Decidable (Opens items rules) :=
  inferInstanceAs (Decidable (_ ∧ _))

theorem ofItems_opens {items : List Item} {stream : SplitStream} (h : ofItems items true = .ok stream) :
    Opens items stream.redactionRules := by
  obtain ⟨⟨rules, a⟩, hsection, h⟩ := bind_eq_ok.mp h
  obtain ⟨⟨forests, a₁⟩, -, h⟩ := bind_eq_ok.mp h
  obtain ⟨groups, -, h⟩ := bind_eq_ok.mp h
  obtain ⟨attached, -, h⟩ := bind_eq_ok.mp h
  cases h
  obtain ⟨hmarker, rfl, -⟩ := (Answer.readTexts_eq_ok ..).mp hsection
  exact ⟨⟨a.rest, List.append_assoc ..⟩, hmarker⟩

end SplitStream

/-- A range query carries the rules of the split that is being read. -/
def Event.Carries (split? : Option Split) : Event → Prop
  | .ranged _ query _ => split?.map Split.redactionRules = some query.redactionRules
  | _ => True

theorem Event.Asks.carries {config : Config.Input} {split : Split} {k : Nat} {event : Event}
    (h : event.Asks config split k) : event.Carries (some split) := by
  cases event with
  | ranged session query answer =>
    obtain ⟨place, -, start, -, -, rfl⟩ := h
    rfl
  | _ => trivial

variable {σ : Type}

namespace Reader

structure Settled (config : Config.Input) (r : Reader) : Prop where
  settings : r.config = config
  placed : ∀ split, r.split = some split → Placed config split r

theorem Placed.settled {config : Config.Input} {split : Split} {r : Reader} (h : Placed config split r) :
    r.Settled config := by
  refine ⟨h.settings, fun s hs => ?_⟩
  cases hs.symm.trans h.task
  exact h

variable {config : Config.Input} {r : Reader}

theorem Settled.start (srv : Server σ) (h : r.Settled config) (split : Split) (w : Wire σ) :
    (r.start srv split w).2.1.Settled config ∧ (r.start srv split w).2.1.split = some split ∧
      w.Grows (Event.Carries (some split)) (r.start srv split w).2.2 := by
  obtain ⟨hplaced, hasks⟩ := start_asks h.settings w
  exact ⟨hplaced.settled, hplaced.task, Wire.Grows.imp hasks fun _ => Event.Asks.carries⟩

theorem Settled.next (srv : Server σ) (h : r.Settled config) (w : Wire σ) :
    (r.next srv w).2.1.Settled config ∧ (r.next srv w).2.1.split = r.split ∧
      w.Grows (Event.Carries r.split) (r.next srv w).2.2 := by
  cases htask : r.split with
  | none =>
    have hidle : (r.next srv w).2 = (r, w) := by
      unfold Reader.next
      rw [htask]
      split
      · rfl
      · rfl
    rw [hidle]
    exact ⟨h, htask, .refl w⟩
  | some split =>
    obtain ⟨hplaced, hasks⟩ := next_asks (h.placed split htask) w
    exact ⟨hplaced.settled, hplaced.task, Wire.Grows.imp hasks fun _ => Event.Asks.carries⟩

theorem Settled.close (srv : Server σ) (h : r.Settled config) (w : Wire σ) :
    (r.close srv w).1.Settled config ∧ (r.close srv w).1.split = r.split ∧
      w.Grows (Event.Carries none) (r.close srv w).2 := by
  have hgrows : w.Grows (Event.Carries none) (r.close srv w).2 :=
    release_grows (fun _ _ => trivial) srv r w
  obtain ⟨w', hrelease⟩ := release_eq srv r w
  refine ⟨?_, ?_, hgrows⟩
  · rw [Reader.close, hrelease]
    refine ⟨h.settings, fun split hs => ?_⟩
    obtain ⟨hsettings, htask, hcursor, hfixed⟩ := h.placed split hs
    exact ⟨hsettings, htask, hcursor, hfixed⟩
  · rw [Reader.close, hrelease]

end Reader

/-- Asking one host after the other sends no range query, and an answer that is used was given. -/
theorem Failover.queryAmong_carries (srv : Server σ) (all : List String) (port : UInt16) (query : Query)
    (among : List String) (last : Option RequestError) (w : Wire σ) :
    w.Grows (Event.Carries none) (queryAmong srv all port query among last w).2 ∧
      ∀ items, (queryAmong srv all port query among last w).1 = .ok items →
        ∃ session, .submitted session query (.ok items) ∈ (queryAmong srv all port query among last w).2.trace := by
  induction among generalizing last w with
  | nil => exact ⟨.refl w, nofun⟩
  | cons host among ih =>
    have hopened : w.Grows (Event.Carries none) (w.openSession srv ⟨host, port, none⟩ .auto).2 :=
      .openSession (fun _ => trivial) (fun _ => trivial) srv w
    unfold queryAmong
    split
    · next e w₁ ho =>
      rw [ho] at hopened
      obtain ⟨hgrows, hgiven⟩ := ih (some e) (w₁.note (.hostUnreachable host e))
      exact ⟨hopened.trans hgrows, hgiven⟩
    · next session w₁ ho =>
      rw [ho] at hopened
      have hasked : w₁.Grows (Event.Carries none) (w₁.submit srv session query).2 := .of_cons rfl trivial
      have hsubmitted : .submitted session query (w₁.submit srv session query).1 ∈
          (w₁.submit srv session query).2.trace := List.mem_cons_self
      split
      · next items w₂ hs =>
        rw [hs] at hasked hsubmitted
        have hclosed : w₂.Grows (Event.Carries none) (w₂.close srv session) := .of_cons rfl trivial
        refine ⟨(hopened.trans hasked).trans hclosed, fun _ h => ⟨session, ?_⟩⟩
        cases h
        exact List.mem_cons_of_mem _ hsubmitted
      · next e w₂ hs =>
        rw [hs] at hasked
        have hclosed : w₂.Grows (Event.Carries none) ((w₂.close srv session).note (.queryFailed host e)) :=
          .of_cons rfl trivial
        obtain ⟨hgrows, hgiven⟩ := ih (some e) ((w₂.close srv session).note (.queryFailed host e))
        exact ⟨((hopened.trans hasked).trans hclosed).trans hgrows, hgiven⟩

namespace InputJob

def splitQuery (config : Config.Input) : Query :=
  ⟨Discovery.Queries.splits, [("redaction-rules", String.intercalate "," config.redactionRules)]⟩

def answer (srv : Server σ) (config : Config.Input) (job : InputJob σ) : Except TransferError (List Item) :=
  (Failover.queryFirst srv config.hosts config.port (splitQuery config) job.wire).1

variable {srv : Server σ} {options : Config.Options} {config : Config.Input} {job : InputJob σ}

theorem askSplits_answer (srv : Server σ) (config : Config.Input) (job : InputJob σ) :
    job.askSplits srv config =
      (job.answer srv config >>= fun items =>
          (SplitStream.ofItems items (!config.redactionRules.isEmpty)).mapError .protocol,
        { job with wire := (Failover.queryFirst srv config.hosts config.port (splitQuery config) job.wire).2 }) := by
  unfold askSplits answer splitQuery
  dsimp only
  split
  · next hq =>
    rw [hq]
    rfl
  · next hq =>
    rw [hq]
    rfl

theorem askSplits_eq (srv : Server σ) (hrules : config.redactionRules ≠ []) (job : InputJob σ) :
    job.askSplits srv config =
      (job.answer srv config >>= fun items => (SplitStream.ofItems items true).mapError .protocol,
        { job with wire := (Failover.queryFirst srv config.hosts config.port (splitQuery config) job.wire).2 }) := by
  have hexpect : (!config.redactionRules.isEmpty) = true := by simpa using hrules
  rw [askSplits_answer, hexpect]

theorem splits_eq (srv : Server σ) (hconfig : Config.Input.ofOptions options = .ok config)
    (hrules : config.redactionRules ≠ []) (job : InputJob σ) :
    (job.splits srv options).2.wire =
        (Failover.queryFirst srv config.hosts config.port (splitQuery config) job.wire).2 ∧
      ∀ splits, (job.splits srv options).1 = .ok splits → ∃ items rules, job.answer srv config = .ok items ∧
        SplitStream.Opens items rules ∧ ∀ s ∈ splits, s.redactionRules = rules := by
  unfold splits
  rw [hconfig]
  dsimp only
  rw [askSplits_eq srv hrules]
  split
  · next ha =>
    obtain ⟨-, rfl⟩ := Prod.mk.inj ha
    exact ⟨rfl, nofun⟩
  · next stream _ ha =>
    obtain ⟨hread, rfl⟩ := Prod.mk.inj ha
    obtain ⟨items, hitems, hstream⟩ := bind_eq_ok.mp hread
    split
    · exact ⟨rfl, nofun⟩
    · refine ⟨rfl, fun splits hplan => ⟨items, stream.redactionRules, hitems, ?_, fun s hs => ?_⟩⟩
      · exact SplitStream.ofItems_opens (mapError_eq_ok.mp hstream)
      · obtain ⟨c, -, -, hrules⟩ := Split.plan_mem hplan hs
        exact hrules

theorem splits_unopened (srv : Server σ) (hconfig : Config.Input.ofOptions options = .ok config)
    (hrules : config.redactionRules ≠ []) {items : List Item} (hitems : job.answer srv config = .ok items)
    (hunopened : ∀ rules, ¬SplitStream.Opens items rules) :
    ∃ e, (job.splits srv options).1 = .error (.failed (.protocol e)) := by
  cases hstream : SplitStream.ofItems items true with
  | ok stream => exact absurd (SplitStream.ofItems_opens hstream) (hunopened _)
  | error e =>
    have hread : (job.answer srv config >>= fun items =>
        (SplitStream.ofItems items true).mapError TransferError.protocol) = .error (.protocol e) := by
      rw [hitems]
      change (SplitStream.ofItems items true).mapError TransferError.protocol = .error (.protocol e)
      rw [hstream]
      rfl
    refine ⟨e, ?_⟩
    unfold splits
    rw [hconfig]
    dsimp only
    rw [askSplits_eq srv hrules, hread]

def Told (config : Config.Input) (w : Wire σ) (rules : List String) : Prop :=
  ∃ session items, .submitted session (splitQuery config) (.ok items) ∈ w.trace ∧ SplitStream.Opens items rules

theorem Told.of_grows {P : Event → Prop} {w w' : Wire σ} {rules : List String} (h : Told config w rules)
    (hgrows : w.Grows P w') : Told config w' rules := by
  obtain ⟨session, items, hmem, hopens⟩ := h
  obtain ⟨events, htrace, -⟩ := hgrows
  exact ⟨session, items, htrace ▸ List.mem_append_right _ hmem, hopens⟩

theorem splits_told (srv : Server σ) (hconfig : Config.Input.ofOptions options = .ok config)
    (hrules : config.redactionRules ≠ []) (job : InputJob σ) :
    job.wire.Grows (Event.Carries none) (job.splits srv options).2.wire ∧
      ∀ splits, (job.splits srv options).1 = .ok splits →
        ∀ s ∈ splits, Told config (job.splits srv options).2.wire s.redactionRules := by
  obtain ⟨hwire, hsplits⟩ := splits_eq srv hconfig hrules job
  obtain ⟨hgrows, hgiven⟩ := Failover.queryAmong_carries srv config.hosts config.port (splitQuery config)
    config.hosts none job.wire
  rw [hwire]
  refine ⟨hgrows, fun splits hok s hs => ?_⟩
  obtain ⟨items, rules, hitems, hopens, hall⟩ := hsplits splits hok
  obtain ⟨session, hmem⟩ := hgiven items hitems
  exact ⟨session, items, hmem, hall s hs ▸ hopens⟩

namespace Run

def reads (r : Run σ) : Move → Option Split
  | .start _ n => r.splits[n]?
  | .next k => r.readers[k]?.bind Reader.split
  | _ => none

/-- Every split of the job was given to it or carries rules that it was told, and every reader is at one
of them. -/
structure Redacted (config : Config.Input) (given : List Split) (r : Run σ) : Prop where
  splits : ∀ s ∈ r.splits, s ∈ given ∨ Told config r.job.wire s.redactionRules
  readers : ∀ reader ∈ r.readers, reader.Settled config ∧ ∀ s, reader.split = some s → s ∈ r.splits

variable {given : List Split} {r : Run σ}

theorem Redacted.reads_mem (h : r.Redacted config given) {move : Move} {s : Split}
    (hs : r.reads move = some s) : s ∈ r.splits := by
  cases move with
  | start k n => exact List.mem_of_getElem? hs
  | next k =>
    obtain ⟨reader, hreader, hsplit⟩ := Option.bind_eq_some_iff.mp hs
    exact (h.readers reader (List.mem_of_getElem? hreader)).2 s hsplit
  | _ => cases hs

theorem Redacted.put {P : Event → Prop} (h : r.Redacted config given) (k : Nat) {reader : Reader}
    {wire : Wire σ} (hgrows : r.job.wire.Grows P wire) (hsettled : reader.Settled config)
    (hsplit : ∀ s, reader.split = some s → s ∈ r.splits) : (r.put k reader wire).Redacted config given where
  splits s hs := (h.splits s hs).imp_right fun htold => htold.of_grows hgrows
  readers x hx := by
    rcases List.mem_or_eq_of_mem_set hx with hx | rfl
    · exact h.readers x hx
    · exact ⟨hsettled, hsplit⟩

theorem Redacted.step (h : r.Redacted config given) (srv : Server σ)
    (hconfig : Config.Input.ofOptions options = .ok config) (hrules : config.redactionRules ≠ []) (move : Move) :
    (r.step srv options move).Redacted config given ∧
      r.job.wire.Grows (Event.Carries (r.reads move)) (r.step srv options move).job.wire := by
  cases move with
  | splits =>
    obtain ⟨hgrows, htold⟩ := splits_told srv hconfig hrules r.job
    simp only [Run.step]
    split
    · next splits job hs =>
      rw [hs] at hgrows htold
      refine ⟨⟨fun s hmem => ?_, fun reader hreader => ?_⟩, hgrows⟩
      · rcases List.mem_append.mp hmem with hmem | hmem
        · exact (h.splits s hmem).imp_right fun htold => htold.of_grows hgrows
        · exact .inr (htold splits rfl s hmem)
      · obtain ⟨hsettled, hsplit⟩ := h.readers reader hreader
        exact ⟨hsettled, fun s hs => List.mem_append_left _ (hsplit s hs)⟩
    · next hs =>
      rw [hs] at hgrows
      exact ⟨⟨fun s hmem => (h.splits s hmem).imp_right fun htold => htold.of_grows hgrows, h.readers⟩, hgrows⟩
  | reader =>
    have hreader : InputJob.reader options = .ok (.new config) := by
      rw [InputJob.reader, hconfig]
      rfl
    simp only [Run.step, hreader]
    refine ⟨⟨h.splits, fun x hx => ?_⟩, .refl _⟩
    rcases List.mem_append.mp hx with hx | hx
    · exact h.readers x hx
    · rw [List.mem_singleton.mp hx]
      refine ⟨⟨rfl, fun _ hopen => ?_⟩, fun s hs => ?_⟩
      · cases hopen
      · cases hs
  | start k n =>
    simp only [Run.step, reads]
    split
    · next reader split hreader hsplit =>
      obtain ⟨hsettled, -⟩ := h.readers reader (List.mem_of_getElem? hreader)
      obtain ⟨hsettled, htask, hgrows⟩ := hsettled.start srv split r.job.wire
      refine ⟨h.put k hgrows hsettled fun s hs => ?_, hsplit ▸ hgrows⟩
      cases hs.symm.trans htask
      exact List.mem_of_getElem? hsplit
    · exact ⟨h, .refl _⟩
  | next k =>
    simp only [Run.step, reads]
    split
    · next reader hreader =>
      obtain ⟨hsettled, hmem⟩ := h.readers reader (List.mem_of_getElem? hreader)
      obtain ⟨hsettled, htask, hgrows⟩ := hsettled.next srv r.job.wire
      exact ⟨h.put k hgrows hsettled fun s hs => hmem s (htask ▸ hs), by rwa [hreader]⟩
    · exact ⟨h, .refl _⟩
  | close k =>
    simp only [Run.step, reads]
    split
    · next reader hreader =>
      obtain ⟨hsettled, hmem⟩ := h.readers reader (List.mem_of_getElem? hreader)
      obtain ⟨hsettled, htask, hgrows⟩ := hsettled.close srv r.job.wire
      exact ⟨h.put k hgrows hsettled fun s hs => hmem s (htask ▸ hs), hgrows⟩
    · exact ⟨h, .refl _⟩

theorem Redacted.follow (h : r.Redacted config given) (srv : Server σ)
    (hconfig : Config.Input.ofOptions options = .ok config) (hrules : config.redactionRules ≠ [])
    (moves : List Move) : (r.follow srv options moves).Redacted config given := by
  induction moves generalizing r with
  | nil => exact h
  | cons move moves ih => exact ih (h.step srv hconfig hrules move).1

end Run

end InputJob

/-- Redaction rules that are asked for reach every read. Splits are planned only from an answer that opens
with rules, and carry these; any other answer is an error. However the job goes on, with splits that it
planned or was given, each range query that it sends is for one of them and carries its rules. -/
theorem redaction_reaches_reads (srv : Server σ) {options : Config.Options} {config : Config.Input}
    (hconfig : Config.Input.ofOptions options = .ok config) (hrules : config.redactionRules ≠ [])
    (job : InputJob σ) :
    (∀ splits, (job.splits srv options).1 = .ok splits →
      ∃ items rules, job.answer srv config = .ok items ∧ SplitStream.Opens items rules ∧
        ∀ s ∈ splits, s.redactionRules = rules) ∧
    (∀ items, job.answer srv config = .ok items → (∀ rules, ¬SplitStream.Opens items rules) →
      ∃ e, (job.splits srv options).1 = .error (.failed (.protocol e))) ∧
    ∀ given moves,
      let r := (⟨job, given, []⟩ : InputJob.Run σ).follow srv options moves
      (∀ s ∈ r.splits, s ∈ given ∨ InputJob.Told config r.job.wire s.redactionRules) ∧
      ∀ move, (∀ s, r.reads move = some s → s ∈ r.splits) ∧
        r.job.wire.Grows (Event.Carries (r.reads move)) (r.step srv options move).job.wire := by
  refine ⟨(InputJob.splits_eq srv hconfig hrules job).2, fun items => InputJob.splits_unopened srv hconfig hrules,
    fun given moves => ?_⟩
  have hstart : InputJob.Run.Redacted config given (⟨job, given, []⟩ : InputJob.Run σ) :=
    ⟨fun s hs => .inl hs, List.forall_mem_nil _⟩
  have hrun := hstart.follow srv hconfig hrules moves
  exact ⟨hrun.splits, fun move => ⟨fun s hs => hrun.reads_mem hs, (hrun.step srv hconfig hrules move).2⟩⟩

namespace Sample

def ruled : Server Nat where
  __ := inner
  submit _ _ s :=
    (.ok [.text "/rules/names", .text "/rules/dates", .text Discovery.redactionMarker, .text "1", .int 3,
      .text "inner-1", .text Discovery.replicaMarker, .text "1", .int 2, .text "1", .text "inner-1", .text "2",
      .text "inner-2"], s)

def rulesWanted : Config.Options :=
  .ofList [(Config.Key.inputHost, "lb1"), (Config.Key.inputRedactionRules, "privacy")]

def rulesInput : Config.Input where
  hosts := ["lb1"]
  port := 8000
  maxSplitSize := 50000
  restrictHosts := false
  query := Config.defaultInputQuery
  redactionRules := ["privacy"]
  mode := .inProcess

def readingRuled : InputJob.Run Nat :=
  (⟨.new 0, [], []⟩ : InputJob.Run Nat).follow ruled rulesWanted [.splits, .reader, .start 0 0, .next 0]

end Sample

/-- Reading the second record takes three failovers, and two queries are sent on the way. -/
theorem redaction_reaches_reads_failing :
    Config.Input.ofOptions Sample.rulesWanted = .ok Sample.rulesInput ∧ Sample.rulesInput.redactionRules ≠ [] ∧
      let r := Sample.readingRuled
      let later := r.step Sample.ruled Sample.rulesWanted (.next 0)
      r.splits.map Split.redactionRules = [["/rules/names", "/rules/dates"]] ∧
        (∀ s ∈ r.splits, s ∈ [] ∨ InputJob.Told Sample.rulesInput r.job.wire s.redactionRules) ∧
        r.reads (.next 0) = r.splits[0]? ∧ r.job.wire.Grows (Event.Carries r.splits[0]?) later.job.wire ∧
        later.job.wire.opened = r.job.wire.opened + 2 := by
  have hconfig : Config.Input.ofOptions Sample.rulesWanted = .ok Sample.rulesInput := by decide +kernel
  have hrules : Sample.rulesInput.redactionRules ≠ [] := by decide
  have hreads : Sample.readingRuled.reads (.next 0) = Sample.readingRuled.splits[0]? := by decide +kernel
  have hreading : (⟨.new 0, [], []⟩ : InputJob.Run Nat).follow Sample.ruled Sample.rulesWanted
      [.splits, .reader, .start 0 0, .next 0] = Sample.readingRuled := rfl
  obtain ⟨-, -, hrun⟩ := redaction_reaches_reads Sample.ruled hconfig hrules (.new 0)
  obtain ⟨htold, hmoves⟩ := hrun [] [.splits, .reader, .start 0 0, .next 0]
  obtain ⟨-, hgrows⟩ := hmoves (.next 0)
  rw [hreading] at htold hgrows
  rw [hreads] at hgrows
  exact ⟨hconfig, hrules, by decide +kernel, htold, hreads, hgrows, by decide +kernel⟩

end ForestCourier
