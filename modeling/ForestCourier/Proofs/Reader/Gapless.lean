import Mathlib.Logic.Function.Iterate
import ForestCourier.Proofs.Reader.Reading
import ForestCourier.Proofs.Reader.Steps

/-!
A split is read without a gap. Whatever fails between two records, what a reader has handed out is a
first part of the records of its split, it counts them, and every query that it sends asks for the
records right behind them. A reader that finds its split at an end, or that gives up, stays so.
-/

namespace ForestCourier

def Wire.Grows {σ : Type} (P : Event → Prop) (w w' : Wire σ) : Prop :=
  ∃ events, w'.trace = events ++ w.trace ∧ ∀ event ∈ events, P event

namespace Wire.Grows

variable {σ : Type} {P Q : Event → Prop} {a b c : Wire σ}

theorem refl (a : Wire σ) : a.Grows P a := ⟨[], rfl, nofun⟩

theorem trans (h : a.Grows P b) (h' : b.Grows P c) : a.Grows P c := by
  obtain ⟨events, htrace, hall⟩ := h
  obtain ⟨events', htrace', hall'⟩ := h'
  refine ⟨events' ++ events, by rw [htrace', htrace, List.append_assoc], fun event hmem => ?_⟩
  rcases List.mem_append.mp hmem with hmem | hmem
  · exact hall' event hmem
  · exact hall event hmem

theorem of_cons {event : Event} (htrace : b.trace = event :: a.trace) (h : P event) : a.Grows P b :=
  ⟨[event], htrace, fun _ hmem => List.mem_singleton.mp hmem ▸ h⟩

theorem imp (h : a.Grows P b) (hPQ : ∀ event, P event → Q event) : a.Grows Q b := by
  obtain ⟨events, htrace, hall⟩ := h
  exact ⟨events, htrace, fun event hmem => hPQ event (hall event hmem)⟩

theorem openSession {target : Target} {transaction : Transaction} (hopened : ∀ session, P (.opened session))
    (hrefused : ∀ e, P (.refused target transaction e)) (srv : Server σ) (w : Wire σ) :
    w.Grows P (w.openSession srv target transaction).2 := by
  unfold Wire.openSession
  dsimp only
  split
  · exact of_cons rfl (hopened _)
  · exact of_cons rfl (hrefused _)

end Wire.Grows

def Event.Asks (config : Config.Input) (split : Split) (k : Nat) : Event → Prop
  | .ranged session query _ => ∃ place ∈ split.places, ∃ start : UInt64,
      start.toNat = split.start.toNat + k ∧
      session.target = ⟨place.host, config.port, some place.forest⟩ ∧
      query = split.query config place start
  | _ => True

def Wire.Asks {σ : Type} (config : Config.Input) (split : Split) (k : Nat) (w w' : Wire σ) : Prop :=
  ∃ events, w'.trace = events ++ w.trace ∧ ∀ event ∈ events, event.Asks config split k

namespace Wire.Asks

variable {σ : Type} {srv : Server σ} {config : Config.Input} {split : Split} {k : Nat}
  {a b c : Wire σ}

theorem refl (a : Wire σ) : a.Asks config split k a := Grows.refl a

theorem trans (h : a.Asks config split k b) (h' : b.Asks config split k c) :
    a.Asks config split k c := Grows.trans h h'

theorem of_cons {event : Event} (htrace : b.trace = event :: a.trace)
    (h : event.Asks config split k) : a.Asks config split k b := Grows.of_cons htrace h

theorem openSession (srv : Server σ) (config : Config.Input) (split : Split) (k : Nat) (target : Target)
    (transaction : Transaction) (w : Wire σ) :
    w.Asks config split k (w.openSession srv target transaction).2 :=
  Grows.openSession (fun _ => trivial) (fun _ => trivial) srv w

end Wire.Asks

namespace Reader

variable {σ : Type} {srv : Server σ} {config : Config.Input} {split : Split} {r : Reader}

theorem release_grows {P : Event → Prop} (hclosed : ∀ session answer, P (.closed session answer))
    (srv : Server σ) (r : Reader) (w : Wire σ) : w.Grows P (r.release srv w).2 := by
  obtain ⟨settings, retry, task, cursor, session, rest⟩ := r
  cases session with
  | none => exact .refl w
  | some session => exact .of_cons rfl (hclosed session _)

theorem asks_release (srv : Server σ) (config : Config.Input) (split : Split) (k : Nat) (r : Reader)
    (w : Wire σ) :
    w.Asks config split k (r.release srv w).2 := release_grows (fun _ _ => trivial) srv r w

theorem asks_connect (h : Placed config split r) (w : Wire σ) :
    w.Asks config split r.read.toNat (r.connect srv split w).2.2 := by
  have hopens (target : Target) {answer : Except RequestError Session} {w₁ : Wire σ}
      (hopen : w.openSession srv target .auto = (answer, w₁)) :
      w.Asks config split r.read.toNat w₁ := by
    have hopened := Wire.Asks.openSession srv config split r.read.toNat target .auto w
    rwa [hopen] at hopened
  have hranges {start : UInt64} (hadd : Word.add split.start r.read = (.ok start : Except (Fault RequestError) UInt64))
      {session : Session} {w₁ : Wire σ} (hopen : w.openSession srv
        ⟨(r.place split).host, r.config.port, some (r.place split).forest⟩ .auto = (.ok session, w₁)) :
      w.Asks config split r.read.toNat
        (w₁.range srv session (split.query r.config (r.place split) start)).2 := by
    refine (hopens _ hopen).trans (.of_cons rfl ⟨r.place split, h.place_mem, start, ?_, ?_, ?_⟩)
    · exact Word.toNat_of_add hadd
    · rw [target_openSession hopen, h.settings]
    · rw [h.settings]
  fun_cases connect srv split r w with
  | case1 fault hadd => exact .refl w
  | case2 start hadd place e w₁ hopen => exact hopens _ hopen
  | case3 start hadd place query session w₁ hopen w₂ hrange =>
    have hasks := hranges hadd hopen
    rwa [show split.query r.config (r.place split) start = query from rfl, hrange] at hasks
  | case4 start hadd place query session w₁ hopen e w₂ hrange =>
    have hasks := hranges hadd hopen
    rw [show split.query r.config (r.place split) start = query from rfl, hrange] at hasks
    exact hasks.trans (.of_cons rfl trivial)

theorem asks_fetch (srv : Server σ) (config : Config.Input) (split : Split) (k : Nat) (r : Reader)
    (w : Wire σ) :
    w.Asks config split k (r.fetch srv w).2.2 := by
  unfold fetch
  split
  · exact .of_cons rfl trivial
  · exact .refl w

theorem asks_settle (k : Nat) (r : Reader) (w : Wire σ) (item : Option Item) :
    w.Asks config split k (r.settle srv w item).2.2 := by
  unfold settle
  split
  · split
    · exact .refl w
    · exact .refl w
  · exact .refl w
  · exact asks_release srv config split k _ w

def Seeks (config : Config.Input) (split : Split) (x y : Reader × Wire σ) : Prop :=
  Placed config split x.1 →
    Placed config split y.1 ∧ y.1.read = x.1.read ∧ x.2.Asks config split x.1.read.toNat y.2

theorem steps_seeks (srv : Server σ) : Steps srv split (Seeks config split) where
  refl x h := ⟨h, rfl, .refl x.2⟩
  trans {a b c} hab hbc h := by
    obtain ⟨hb, hread, hasks⟩ := hab h
    obtain ⟨hc, hread', hasks'⟩ := hbc hb
    exact ⟨hc, hread'.trans hread, hasks.trans (hread ▸ hasks')⟩
  note n r w h := ⟨h, rfl, [], rfl, nofun⟩
  wait pause r w h := ⟨h, rfl, .of_cons rfl trivial⟩
  count failures failovers r w h := ⟨⟨h.settings, h.task, h.cursor, h.fixed⟩, rfl, .refl w⟩
  turn cursor r w hcursor h := by
    refine ⟨⟨h.settings, h.task, fun c hc => ?_, nofun⟩, rfl, .refl w⟩
    cases hc
    exact h.cursor cursor hcursor
  release r w h := by
    obtain ⟨w', hw'⟩ := release_eq srv r w
    have hasks := asks_release srv config split r.read.toNat r w
    rw [hw'] at hasks ⊢
    exact ⟨h.release none, rfl, hasks⟩
  connect r w h := by
    obtain ⟨session, hsession⟩ := connect_reader srv split r w
    refine ⟨?_, by rw [hsession], asks_connect h w⟩
    rw [hsession]
    exact h.release session

theorem start_asks (hconfig : r.config = config) (w : Wire σ) :
    Placed config split (r.start srv split w).2.1 ∧ w.Asks config split 0 (r.start srv split w).2.2 := by
  obtain ⟨hcursor, hfixed⟩ := new_cursor split.replicas split.host
  have hreleased := asks_release srv config split 0 r w
  obtain ⟨w₁, hrelease⟩ := release_eq srv r w
  rw [hrelease] at hreleased
  unfold start
  rw [hrelease]
  dsimp only
  generalize hr₁ : ({ r with
    session := none, split := some split, cursor := ReplicaCursor.new split.replicas split.host,
    current := none, read := 0, failures := 0, failovers := 0, done := false } : Reader) = r₁
  have hplaced : Placed config split r₁ := by
    subst hr₁
    exact ⟨hconfig, rfl, hcursor, hfixed⟩
  have hread : r₁.read.toNat = 0 := by
    subst hr₁
    rfl
  have hconnected := (steps_seeks srv).connect r₁ w₁ hplaced
  cases hconnect : r₁.connect srv split w₁ with
  | mk answer after =>
    obtain ⟨r₂, w₂⟩ := after
    rw [hconnect] at hconnected
    obtain ⟨hplaced₂, hread₂, hasks⟩ := hconnected
    rw [hread] at hasks
    cases answer with
    | ok u => exact ⟨hplaced₂, hreleased.trans hasks⟩
    | error fault =>
      cases fault with
      | overflow kind => exact ⟨hplaced₂, hreleased.trans hasks⟩
      | failed e =>
        have hresume (r : Reader) (w : Wire σ) : Seeks config split (r, w)
            ((.ok (), r, w) : Except RequestError Unit × Reader × Wire σ).2 :=
          (steps_seeks srv).refl (r, w)
        have hrecover := (steps_seeks srv).recover hresume r₂.budget e r₂ w₂ hplaced₂
        rw [hread₂, hread] at hrecover
        exact ⟨hrecover.1, (hreleased.trans hasks).trans hrecover.2.2⟩

theorem seeks_fetch (srv : Server σ) (config : Config.Input) (split : Split) (r : Reader) (w : Wire σ) :
    Seeks config split (r, w) (r.fetch srv w).2 := by
  intro h
  have hsame : (r.fetch srv w).2.1 = r := by
    unfold fetch
    split
    · rfl
    · rfl
  exact ⟨hsame.symm ▸ h, congrArg Reader.read hsame, asks_fetch srv config split r.read.toNat r w⟩

theorem placed_settle (h : Placed config split r) (w : Wire σ) (item : Option Item) :
    Placed config split (r.settle srv w item).2.1 := by
  unfold settle
  split
  · split
    · exact ⟨h.settings, h.task, h.cursor, h.fixed⟩
    · exact h
  · exact h
  · obtain ⟨w', hw'⟩ := release_eq srv { r with done := true, current := none } w
    rw [hw']
    exact ⟨h.settings, h.task, h.cursor, h.fixed⟩

theorem next_asks (h : Placed config split r) (w : Wire σ) :
    Placed config split (r.next srv w).2.1 ∧
      w.Asks config split r.read.toNat (r.next srv w).2.2 := by
  fun_cases next srv r w with
  | case1 hdone => exact ⟨h, .refl w⟩
  | case2 _ task session hsession htask item r₁ w₁ hfetch =>
    have hfetched := seeks_fetch srv config split r w h
    rw [hfetch] at hfetched
    exact ⟨placed_settle hfetched.1 w₁ item, hfetched.2.2.trans (asks_settle _ r₁ w₁ item)⟩
  | case3 _ task session hsession htask e r₁ w₁ hfetch item r₂ w₂ hrecover =>
    cases htask.symm.trans h.task
    have hfetched := seeks_fetch srv config split r w
    rw [hfetch] at hfetched
    have hseeks := (steps_seeks srv).trans hfetched
      ((steps_seeks srv).recover (seeks_fetch srv config split) r₁.budget e r₁ w₁) h
    rw [hrecover] at hseeks
    exact ⟨placed_settle hseeks.1 w₂ item, hseeks.2.2.trans (asks_settle _ r₂ w₂ item)⟩
  | case4 _ task session hsession htask e r₁ w₁ hfetch fault r₂ w₂ hrecover =>
    cases htask.symm.trans h.task
    have hfetched := seeks_fetch srv config split r w
    rw [hfetch] at hfetched
    have hseeks := (steps_seeks srv).trans hfetched
      ((steps_seeks srv).recover (seeks_fetch srv config split) r₁.budget e r₁ w₁) h
    rw [hrecover] at hseeks
    exact ⟨hseeks.1, hseeks.2.2⟩
  | case5 => exact ⟨h, .refl w⟩

structure Reading (σ : Type) where
  reader : Reader
  wire : Wire σ
  records : List Record

namespace Reading

def answer (srv : Server σ) (p : Reading σ) : Except (Fault TransferError) Bool :=
  (p.reader.next srv p.wire).1

def next (srv : Server σ) (p : Reading σ) : Reading σ :=
  match p.reader.next srv p.wire with
  | (.ok true, r, w) => ⟨r, w, p.records ++ r.current.toList⟩
  | (_, r, w) => ⟨r, w, p.records⟩

def after (srv : Server σ) (split : Split) (r : Reader) (w : Wire σ) : Nat → Reading σ
  | 0 => ⟨(r.start srv split w).2.1, (r.start srv split w).2.2, []⟩
  | n + 1 => (after srv split r w n).next srv

/-- A reader with the first records of a split handed out, the rest of them still to be read. -/
structure Gapless (stream : σ → Nat → List Record) (config : Config.Input) (split : Split)
    (records : List Record) (p : Reading σ) : Prop where
  first : p.records = records.take p.reader.read.toNat
  within : p.reader.read.toNat ≤ records.length
  stage : Ready stream config split records p.reader p.wire ∨
    p.reader.done = true ∧ p.reader.read.toNat = records.length

/-- However often it is called from here on, every call answers the same and nothing happens. -/
def Rests (srv : Server σ) (answer : Except (Fault TransferError) Bool) (p : Reading σ) : Prop :=
  ∀ n, (Reading.next srv)^[n] p = p ∧ ((Reading.next srv)^[n] p).answer srv = answer

variable {stream : σ → Nat → List Record} {records : List Record} {p : Reading σ} {w : Wire σ}

theorem Gapless.length (h : Gapless stream config split records p) :
    p.records.length = p.reader.read.toNat := by
  rw [h.first, List.length_take, Nat.min_eq_left h.within]

theorem rests_of_next {answer : Except (Fault TransferError) Bool}
    (hnext : p.reader.next srv p.wire = (answer, p.reader, p.wire)) (hanswer : answer ≠ .ok true) :
    p.Rests srv answer := by
  have hsame : p.next srv = p := by
    unfold next
    rw [hnext]
    split
    · next heq => cases heq; exact absurd rfl hanswer
    · next heq => cases heq; rfl
  intro n
  have hstill := Function.iterate_fixed hsame n
  exact ⟨hstill, hstill.symm ▸ congrArg Prod.fst hnext⟩

theorem rests_done (hdone : p.reader.done = true) : p.Rests srv (.ok false) :=
  rests_of_next (if_pos hdone) (by simp)

theorem rests_closed (hrunning : p.reader.done = false) (hsession : p.reader.session = none) :
    p.Rests srv (.error (.failed .closed)) := by
  refine rests_of_next ?_ (by simp)
  unfold Reader.next
  rw [hrunning, hsession]
  cases p.reader.split with
  | none => rfl
  | some task => rfl

def Goes (srv : Server σ) (records : List Record) (p : Reading σ) :
    Except (Fault TransferError) Bool → Prop
  | .ok true => ∃ d, records[p.records.length]? = some d ∧ (p.next srv).reader.current = some d ∧
      (p.next srv).records = p.records ++ [d]
  | .ok false => p.records = records ∧ (p.next srv).records = records ∧
      (p.next srv).Rests srv (.ok false)
  | .error (.failed _) => (p.next srv).records = p.records ∧
      (p.next srv).Rests srv (.error (.failed .closed))
  | .error (.overflow _) => False

theorem Gapless.next (hfeeds : split.Feeds srv stream config records)
    (hsmall : split.start.toNat + records.length < UInt64.size)
    (h : Gapless stream config split records p) :
    Gapless stream config split records (p.next srv) ∧ p.Goes srv records (p.answer srv) := by
  rcases h.stage with hready | ⟨hdone, hall⟩
  · have hdelivers := next_delivers hfeeds hready
    unfold answer Goes Reading.next
    match hnext : p.reader.next srv p.wire with
    | (.ok true, r', w') =>
      rw [hnext] at hdelivers
      obtain ⟨d, hcurrent, hd, hread, hready'⟩ := hdelivers
      obtain ⟨hlt, -⟩ := List.getElem?_eq_some_iff.mp hd
      have hfirst : p.records ++ r'.current.toList = records.take r'.read.toNat := by
        rw [hread, List.take_add_one, hd, ← h.first, hcurrent]
      have hwithin : r'.read.toNat ≤ records.length := by omega
      refine ⟨⟨hfirst, hwithin, .inl hready'⟩, d, by rwa [h.length], hcurrent, ?_⟩
      dsimp only
      rw [hcurrent]
      rfl
    | (.ok false, r', w') =>
      rw [hnext] at hdelivers
      obtain ⟨hall, hdone, hread⟩ := hdelivers
      have hrecords : p.records = records := h.first.trans (List.take_of_length_le hall)
      exact ⟨⟨hread ▸ h.first, hread ▸ h.within, .inr ⟨hdone, hread ▸ Nat.le_antisymm h.within hall⟩⟩,
        hrecords, hrecords, rests_done hdone⟩
    | (.error (.failed cause), r', w') =>
      rw [hnext] at hdelivers
      obtain ⟨hready', hsession, hread⟩ := hdelivers
      exact ⟨⟨hread ▸ h.first, hread ▸ h.within, .inl hready'⟩, rfl,
        rests_closed hready'.running hsession⟩
    | (.error (.overflow kind), r', w') =>
      rw [hnext] at hdelivers
      have hwithin := h.within
      rcases hdelivers with hlarge | ⟨hlt, hlarge⟩
      · omega
      · omega
  · have hrests : p.Rests srv (.ok false) := rests_done hdone
    have hanswer : p.answer srv = .ok false := (hrests 0).2
    have hsame : p.next srv = p := (hrests 1).1
    have hrecords : p.records = records := h.first.trans (List.take_of_length_le (Nat.le_of_eq hall.symm))
    rw [hanswer, Goes, hsame]
    exact ⟨h, hrecords, hrecords, hrests⟩

def Begins (srv : Server σ) (p : Reading σ) : Except (Fault TransferError) Unit → Prop
  | .ok _ => True
  | .error (.failed _) => p.Rests srv (.error (.failed .closed))
  | .error (.overflow _) => False

theorem gapless_start (hfeeds : split.Feeds srv stream config records) (hconfig : r.config = config)
    (w : Wire σ) :
    Gapless stream config split records (after srv split r w 0) ∧
      (after srv split r w 0).Begins srv (r.start srv split w).1 := by
  have hstarts := start_starts hfeeds hconfig w
  have hgapless {r' : Reader} {w' : Wire σ} (hready : Ready stream config split records r' w')
      (hread : r'.read = 0) : Gapless stream config split records ⟨r', w', []⟩ := by
    refine ⟨?_, ?_, .inl hready⟩
    · rw [hread]
      rfl
    · rw [hread]
      exact Nat.zero_le _
  unfold after
  match hstart : r.start srv split w with
  | (.ok _, r', w') =>
    rw [hstart] at hstarts
    exact ⟨hgapless hstarts.1 hstarts.2, trivial⟩
  | (.error (.failed cause), r', w') =>
    rw [hstart] at hstarts
    obtain ⟨hready, hread, hsession⟩ := hstarts
    exact ⟨hgapless hready hread, rests_closed hready.running hsession⟩
  | (.error (.overflow kind), r', w') =>
    rw [hstart] at hstarts
    exact hstarts.elim

theorem Gapless.asks (h : Gapless stream config split records p) :
    p.wire.Asks config split p.records.length (p.next srv).wire := by
  have hwire : (p.next srv).wire = (p.reader.next srv p.wire).2.2 := by
    unfold Reading.next
    split
    · next hnext => rw [hnext]
    · next hnext => rw [hnext]
  rw [hwire, h.length]
  rcases h.stage with hready | ⟨hdone, -⟩
  · exact (next_asks hready.toPlaced p.wire).2
  · rw [Reader.next, if_pos hdone]
    exact .refl p.wire

end Reading

end Reader

/-- A split is read from its first record on without a gap or a repeat, over any failures and whatever
its reader was used for before. After every call the records handed out come first among those of the
split, the reader counts them, and every query since asked for those right behind them at one of the
split's places; a record is the next one, the end is the end of the split, and after the end, or after
an error, every call answers the same and asks for nothing. -/
theorem split_read_gapless {σ : Type} {srv : Server σ} {stream : σ → Nat → List Record} {split : Split}
    {records : List Record} {r : Reader} (hfeeds : split.Feeds srv stream r.config records)
    (hsmall : split.start.toNat + records.length < UInt64.size) (w : Wire σ) :
    let reading := Reader.Reading.after srv split r w
    w.Asks r.config split 0 (reading 0).wire ∧
      (reading 0).Begins srv (r.start srv split w).1 ∧
      ∀ n, (reading n).records <+: records ∧
        (reading n).reader.read.toNat = (reading n).records.length ∧
        (reading n).wire.Asks r.config split (reading n).records.length (reading (n + 1)).wire ∧
        (reading n).Goes srv records ((reading n).answer srv) := by
  have hstart := Reader.Reading.gapless_start hfeeds rfl w
  refine ⟨(Reader.start_asks rfl w).2, hstart.2, fun n => ?_⟩
  have hgapless : Reader.Reading.Gapless stream r.config split records
      (Reader.Reading.after srv split r w n) := by
    induction n with
    | zero => exact hstart.1
    | succ n ih => exact (ih.next hfeeds hsmall).1
  refine ⟨?_, hgapless.length.symm, hgapless.asks, (hgapless.next hfeeds hsmall).2⟩
  rw [hgapless.first]
  exact List.take_prefix _ _

namespace Reader.Sample

def part : Split := ⟨⟨"1"⟩, "a", 1, some 2, false, counted.replicas, []⟩

def reading : Nat → Reading State :=
  Reading.after (failing [2, 3]) part (.new input) (.new (fun _ => [], 0))

end Reader.Sample

/-- The second record comes over another session, of which the records behind the first are asked. -/
theorem split_read_gapless_failing :
    Reader.Sample.part.start.toNat + 2 < UInt64.size ∧
      (Reader.Sample.reading 1).wire.Asks Reader.Sample.input Reader.Sample.part 1
        (Reader.Sample.reading 2).wire ∧
      (Reader.Sample.reading 2).reader.session ≠ (Reader.Sample.reading 1).reader.session ∧
      (Reader.Sample.reading 2).records = [Reader.Sample.record 1, Reader.Sample.record 2] ∧
      (Reader.Sample.reading 2).Goes (Reader.Sample.failing [2, 3])
        [Reader.Sample.record 1, Reader.Sample.record 2] (.ok false) := by
  have hfeeds : Reader.Sample.part.Feeds (Reader.Sample.failing [2, 3]) Prod.fst Reader.Sample.input
      [Reader.Sample.record 1, Reader.Sample.record 2] := by
    have hrecords : ∀ p ∈ Reader.Sample.part.places, (fun _ _ => Reader.Sample.records) p.host
        (Reader.Sample.part.wholeQuery Reader.Sample.input p) = Reader.Sample.records := fun _ _ => rfl
    exact Split.feeds_of_serves (Reader.Sample.serves_failing [2, 3]) (by decide) hrecords
  have hsmall : Reader.Sample.part.start.toNat + 2 < UInt64.size := by decide
  obtain ⟨-, -, hcalls⟩ := split_read_gapless (r := .new Reader.Sample.input) hfeeds hsmall
    (.new (fun _ => [], 0))
  have hone : (Reader.Sample.reading 1).records.length = 1 := by decide +kernel
  have hlast : (Reader.Sample.reading 2).answer (Reader.Sample.failing [2, 3]) = .ok false := by
    decide +kernel
  exact ⟨hsmall, hone ▸ (hcalls 1).2.2.1, by decide +kernel, by decide +kernel,
    hlast ▸ (hcalls 2).2.2.2⟩

end ForestCourier
