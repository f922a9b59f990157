import Mathlib.Data.Int.CardIntervalMod
import ForestCourier.Proofs.Placement.Loads
import ForestCourier.Proofs.Placement.Uses

/-!
Rotations over a whole run. All forests in buckets, or those of a partition, take turns of a batch each. What
moves a rotation on is a document that is placed by it, and nothing else does: not a document that is placed
elsewhere or nowhere, and not a partition that is cached once more. So the n-th document of a rotation goes to
the position that n comes to, and no position is ahead of another one by more than a batch.
-/

namespace ForestCourier.Placement

section Arithmetic

variable {b len j : Nat}

theorem count_turn (x : Nat) {s : Nat} (hs : s ≤ b) :
    Nat.count (fun n => n / b % len = j) (b * x + s) =
      Nat.count (fun n => n / b % len = j) (b * x) + if x % len = j then s else 0 := by
  induction s with
  | zero => simp
  | succ s ih =>
    have hturn : (b * x + s) / b = x := by
      rw [Nat.mul_add_div (by omega), Nat.div_eq_of_lt (by omega), Nat.add_zero]
    rw [← Nat.add_assoc, Nat.count_succ, ih (by omega), hturn]
    split <;> omega

theorem count_turns (x : Nat) :
    Nat.count (fun n => n / b % len = j) (b * x) = b * Nat.count (fun n => n % len = j) x := by
  induction x with
  | zero => simp
  | succ x ih =>
    rw [Nat.mul_succ, count_turn x (Nat.le_refl b), ih, Nat.count_succ, Nat.mul_add]
    split <;> simp

theorem count_rounds (hj : j < len) (q : Nat) :
    Nat.count (fun n => n / b % len = j) (b * (len * q)) = b * q := by
  have hround : Nat.count (fun n => n % len = j) (len * q) = q := by
    have := Nat.count_modEq_card (len * q) (Nat.zero_lt_of_lt hj) j
    simpa [Nat.ModEq, Nat.mod_eq_of_lt hj, Nat.mul_div_cancel_left q (Nat.zero_lt_of_lt hj)] using this
  rw [count_turns, hround]

theorem count_bounds (hb : 0 < b) (hj : j < len) (n : Nat) :
    b * (n / (b * len)) ≤ Nat.count (fun n => n / b % len = j) n ∧
      Nat.count (fun n => n / b % len = j) n ≤ b * (n / (b * len)) + b := by
  have hpos : 0 < b * len := Nat.mul_pos hb (Nat.zero_lt_of_lt hj)
  have hlow : b * (len * (n / (b * len))) ≤ n := by
    rw [← Nat.mul_assoc]
    exact Nat.mul_div_le n _
  have hhigh : n ≤ b * (len * (n / (b * len) + 1)) := by
    rw [← Nat.mul_assoc]
    exact (Nat.lt_mul_div_succ n hpos).le
  constructor
  · rw [← count_rounds hj]
    exact Nat.count_monotone _ hlow
  · rw [← Nat.mul_succ, ← count_rounds hj]
    exact Nat.count_monotone _ hhigh

theorem count_map_range (f : Nat → Nat) (i n : Nat) :
    ((List.range n).map f).count i = Nat.count (fun m => f m = i) n := by
  induction n with
  | zero => rfl
  | succ n ih => simp [List.range_succ, Nat.count_succ, ih, List.count_singleton]

end Arithmetic

namespace Partition

def position (e : Partition) (batch : UInt64) : Nat := turn e.placed batch e.forests.length

def advance (e : Partition) : Partition := { e with placed := e.placed + 1 }

/-- A rotation has placed these documents, each by its position and its forest. -/
structure Follows (e : Partition) (batch : UInt64) (sent : List (Nat × Nat)) : Prop where
  placed : e.placed = UInt64.ofNat sent.length
  turns : ∀ n < sent.length, n < 2 ^ 64 → ∃ i,
    e.forests[n / batch.toNat % e.forests.length]? = some i ∧
      sent[n]? = some (n / batch.toNat % e.forests.length, i)

variable {e : Partition} {batch : UInt64} {sent : List (Nat × Nat)}

theorem Follows.begin (forests : List Nat) : Follows ⟨forests, 0⟩ batch [] where
  placed := rfl
  turns n hn := absurd hn (Nat.not_lt_zero n)

theorem Follows.position (h : e.Follows batch sent) (hlt : sent.length < 2 ^ 64) :
    e.position batch = sent.length / batch.toNat % e.forests.length := by
  rw [Partition.position, turn, h.placed, UInt64.toNat_div, UInt64.toNat_ofNat_of_lt' hlt]

theorem Follows.advance (h : e.Follows batch sent) {i : Nat} (hi : e.forests[e.position batch]? = some i) :
    e.advance.Follows batch (sent ++ [(e.position batch, i)]) where
  placed := by
    rw [Partition.advance, h.placed, List.length_append, List.length_singleton]
    simp
  turns n hn hlt := by
    rw [List.length_append, List.length_singleton] at hn
    by_cases hlast : n = sent.length
    · subst hlast
      refine ⟨i, ?_, ?_⟩
      · rw [Partition.advance, ← h.position hlt]
        exact hi
      · rw [List.getElem?_concat_length, h.position hlt]
        rfl
    · obtain ⟨i', hi', hsent⟩ := h.turns n (by omega) hlt
      exact ⟨i', hi', by rw [List.getElem?_append_left (by omega), hsent]; rfl⟩

theorem Follows.positions (h : e.Follows batch sent) (hle : sent.length ≤ 2 ^ 64) :
    sent.map (·.1) = (List.range sent.length).map fun n => n / batch.toNat % e.forests.length := by
  refine List.ext_getElem (by simp) fun n hn _ => ?_
  rw [List.length_map] at hn
  obtain ⟨i, -, hsent⟩ := h.turns n hn (by omega)
  rw [List.getElem?_eq_getElem hn, Option.some.injEq] at hsent
  simp [hsent]

theorem Follows.mem (h : e.Follows batch sent) (hle : sent.length ≤ 2 ^ 64) :
    ∀ d ∈ sent, e.forests[d.1]? = some d.2 := by
  intro d hd
  obtain ⟨n, hn, rfl⟩ := List.getElem_of_mem hd
  obtain ⟨i, hi, hsent⟩ := h.turns n hn (by omega)
  rw [List.getElem?_eq_getElem hn, Option.some.injEq] at hsent
  rw [hsent]
  exact hi

theorem Follows.fair (h : e.Follows batch sent) (hle : sent.length ≤ 2 ^ 64) (hb : 0 < batch.toNat) {j k : Nat}
    (hj : j < e.forests.length) (hk : k < e.forests.length) :
    (sent.map (·.1)).count j ≤ (sent.map (·.1)).count k + batch.toNat := by
  have hcount (i : Nat) : (sent.map (·.1)).count i =
      Nat.count (fun n => n / batch.toNat % e.forests.length = i) sent.length := by
    rw [h.positions hle]
    exact count_map_range _ i _
  have hhigh := (count_bounds hb hj sent.length).2
  have hlow := (count_bounds hb hk sent.length).1
  rw [hcount, hcount]
  omega

theorem Follows.steady (h : e.Follows batch sent) (hle : sent.length ≤ 2 ^ 64) {n : Nat} (hn : (n + 1) % batch.toNat ≠ 0)
    {d d' : Nat × Nat} (hd : sent[n]? = some d) (hd' : sent[n + 1]? = some d') : d'.2 = d.2 := by
  have hlt : n + 1 < sent.length := (List.getElem?_eq_some_iff.mp hd').1
  have hdiv : (n + 1) / batch.toNat = n / batch.toNat := by
    rw [Nat.succ_div, if_neg fun hdvd => hn (Nat.mod_eq_zero_of_dvd hdvd), Nat.add_zero]
  obtain ⟨i, hi, hsent⟩ := h.turns n (by omega) (by omega)
  obtain ⟨i', hi', hsent'⟩ := h.turns (n + 1) hlt (by omega)
  cases hd.symm.trans hsent
  cases hd'.symm.trans hsent'
  rw [hdiv] at hi'
  exact Option.some.inj (hi'.symm.trans hi)

end Partition

def Use.places : Use → Bool
  | .place .. => true
  | _ => false

namespace Policy

/-- The rotation that a document takes part in, by the name of its partition. Buckets have one for all. -/
def lane (partition : Option String) : Policy → Option String
  | partitioned p => partition.or p.standard
  | _ => none

def rotation? (lane : Option String) : Policy → Option Partition
  | bucket b => if lane = none then some ⟨List.range b.forests, b.placed⟩ else none
  | partitioned p => lane.bind p.cache.get?
  | _ => none

/-- How many documents make a turn. -/
def pace : Policy → UInt64
  | bucket b => b.batch
  | partitioned p => p.batch
  | _ => 1

def rotates (p : Policy) : Bool := p.kind = .bucket || p.cache?.isSome

variable {p : Policy}

theorem rotates_cases (h : p.rotates = true) : (∃ b, p = bucket b) ∨ ∃ q, p = partitioned q := by
  cases p with
  | bucket b => exact .inl ⟨b, rfl⟩
  | partitioned q => exact .inr ⟨q, rfl⟩
  | _ => simp [rotates, kind, cache?] at h

/-- A document moves its own rotation on and no other one, or it is placed nowhere and moves none. -/
def Turns (p p' : Policy) (lane : Option String) (result : Result Nat) : Prop :=
  (∃ e i, p.rotation? lane = some e ∧ e.forests[e.position p.pace]? = some i ∧ result = .ok i ∧
    p'.pace = p.pace ∧ ∀ k, p'.rotation? k = if k = lane then some e.advance else p.rotation? k) ∨
  (∀ e, p.rotation? lane = some e → e.forests[e.position p.pace]? = none) ∧ (∃ fault, result = .error fault) ∧ p' = p

theorem turns_bucket (b : Bucket) : (bucket b).Turns (bucket b.place.2) none b.place.1 := by
  by_cases hnone : b.forests = 0
  · refine .inr ⟨?_, ⟨_, by rw [Bucket.place, if_pos hnone]⟩, by rw [Bucket.place, if_pos hnone]⟩
    simp [rotation?, hnone]
  · have hlt : turn b.placed b.batch b.forests < b.forests := turn_lt (Nat.pos_of_ne_zero hnone)
    refine .inl ⟨⟨List.range b.forests, b.placed⟩, _, rfl, ?_, by rw [Bucket.place, if_neg hnone], ?_, fun k => ?_⟩
    · simp only [Partition.position, pace, List.length_range]
      rw [List.getElem?_range hlt]
    · rw [Bucket.place, if_neg hnone]
      rfl
    · rw [Bucket.place, if_neg hnone]
      cases k <;> rfl

theorem turns_partitioned (q : Partitioned) (partition : Option String) :
    (partitioned q).Turns (partitioned (q.place partition).2) (partition.or q.standard) (q.place partition).1 := by
  unfold Partitioned.place
  cases partition.or q.standard with
  | none => exact .inr ⟨nofun, ⟨_, rfl⟩, rfl⟩
  | some name =>
    dsimp only
    cases hentry : q.cache.get? name with
    | none =>
      refine .inr ⟨fun e he => ?_, ⟨_, rfl⟩, rfl⟩
      cases hentry.symm.trans he
    | some entry =>
      dsimp only
      cases hi : entry.forests[turn entry.placed q.batch entry.forests.length]? with
      | none =>
        refine .inr ⟨fun e he => ?_, ⟨_, rfl⟩, rfl⟩
        cases hentry.symm.trans he
        exact hi
      | some i =>
        refine .inl ⟨entry, i, hentry, hi, rfl, rfl, fun k => ?_⟩
        cases k with
        | none => rfl
        | some k =>
          change (q.cache.advance name).get? k = _
          rw [PartitionCache.get?_advance]
          by_cases hk : k = name
          · simp [hk, hentry, Partition.advance]
          · simp [hk, rotation?]

theorem turns_place (h : p.rotates = true) (uri : Uri) (partition : Option String) :
    p.Turns (p.place uri partition).2 (p.lane partition) (p.place uri partition).1 := by
  obtain ⟨b, rfl⟩ | ⟨q, rfl⟩ := rotates_cases h
  · exact turns_bucket b
  · exact turns_partitioned q partition

theorem rotates_alike {p' : Policy} (h : p.Alike p') : p'.rotates = p.rotates := by
  rw [rotates, rotates, h.kind, h.caches]

theorem lane_alike {p' : Policy} (h : p.rotates = true) (halike : p.Alike p') (partition : Option String) :
    p'.lane partition = p.lane partition := by
  have hcaches := halike.caches
  have hstandard := halike.standard
  obtain ⟨b, rfl⟩ | ⟨q, rfl⟩ := rotates_cases h
  · obtain ⟨b', rfl⟩ | ⟨q', rfl⟩ := rotates_cases ((rotates_alike halike).trans h)
    · rfl
    · cases hcaches
  · obtain ⟨b', rfl⟩ | ⟨q', rfl⟩ := rotates_cases ((rotates_alike halike).trans h)
    · cases hcaches
    · exact congrArg partition.or hstandard

theorem lane_partitioned (h : p.cache?.isSome = true) (partition : Option String) :
    p.lane partition = partition.or p.standardPartition := by
  cases p with
  | partitioned q => rfl
  | _ => cases h

/-- Not to name the standard partition is to name it. -/
theorem place_standard (uri : Uri) {name : String} (h : p.standardPartition = some name) :
    p.place uri none = p.place uri (some name) := by
  cases p with
  | partitioned q =>
    have hplace : q.place none = q.place (some name) := by
      have hname : q.standard = some name := h
      simp only [Partitioned.place, Option.none_or, Option.some_or, hname]
    simp only [place, hplace]
  | _ => cases h

theorem rollback_eq (h : p.rotates = true) (i : Nat) (count : UInt64) : p.rollback i count = p := by
  obtain ⟨b, rfl⟩ | ⟨q, rfl⟩ := rotates_cases h <;> rfl

theorem rotation?_insertPartition (p : Policy) (name : String) (forests : List Nat) (lane : Option String) :
    (p.insertPartition name forests).rotation? lane = p.rotation? lane ∨
      p.rotation? lane = none ∧ (p.insertPartition name forests).rotation? lane = some ⟨forests, 0⟩ := by
  cases p with
  | partitioned q =>
    cases lane with
    | none => exact .inl rfl
    | some k =>
      change (q.cache.insert name forests).get? k = q.cache.get? k ∨
        q.cache.get? k = none ∧ (q.cache.insert name forests).get? k = some ⟨forests, 0⟩
      cases hcached : q.cache.contains name with
      | true => rw [PartitionCache.insert_of_contains forests hcached]; exact .inl rfl
      | false =>
        rw [PartitionCache.get?_insert_of_not_contains forests k hcached]
        by_cases hk : k = name
        · refine .inr ⟨?_, if_pos hk⟩
          rw [hk]
          simpa [PartitionCache.contains] using hcached
        · exact .inl (if_neg hk)
  | _ => exact .inl rfl

theorem pace_insertPartition (name : String) (forests : List Nat) : (p.insertPartition name forests).pace = p.pace := by
  cases p <;> rfl

end Policy

namespace Manager

def sent? (m : Manager) (lane : Option String) : Use → Option (Nat × Nat)
  | .place uri partition =>
    if m.policy.lane partition = lane then
      (m.policy.rotation? lane).bind fun e =>
        (m.place uri partition).1.toOption.map fun i => (e.position m.policy.pace, i)
    else none
  | _ => none

def sent (lane : Option String) : List Use → Manager → List (Nat × Nat)
  | [], _ => []
  | use :: uses, m => (m.sent? lane use).toList ++ sent lane uses (m.use use)

theorem sent_append (lane : Option String) (uses more : List Use) (m : Manager) :
    m.sent lane (uses ++ more) = m.sent lane uses ++ (m.useAll uses).sent lane more := by
  induction uses generalizing m with
  | nil => rfl
  | cons use uses ih =>
    rw [List.cons_append, sent, ih, sent, List.append_assoc]
    rfl

theorem sent_append_single (lane : Option String) (uses : List Use) (use : Use) (m : Manager) :
    m.sent lane (uses ++ [use]) = m.sent lane uses ++ ((m.useAll uses).sent? lane use).toList := by
  rw [sent_append, sent, sent, List.append_nil]

theorem sent_of_placeless (lane : Option String) {uses : List Use} (h : ∀ use ∈ uses, use.places = false)
    (m : Manager) : m.sent lane uses = [] := by
  induction uses generalizing m with
  | nil => rfl
  | cons use uses ih =>
    have huse : m.sent? lane use = none := by
      cases use with
      | place uri partition => exact absurd (h _ List.mem_cons_self) nofun
      | rollback | cache => rfl
    rw [sent, huse, ih fun use hmem => h use (List.mem_cons_of_mem _ hmem)]
    rfl

theorem sent_concat_placeless (lane : Option String) (uses : List Use) {more : List Use}
    (h : ∀ use ∈ more, use.places = false) (m : Manager) : m.sent lane (uses ++ more) = m.sent lane uses := by
  rw [sent_append, sent_of_placeless lane h, List.append_nil]

theorem sent_place {m : Manager} (h : m.policy.rotates = true) (uri : Uri) (partition : Option String) :
    (m.sent (m.policy.lane partition) [.place uri partition]).map (·.2) =
      (m.place uri partition).1.toOption.toList := by
  have hsent : m.sent (m.policy.lane partition) [.place uri partition] =
      (m.sent? (m.policy.lane partition) (.place uri partition)).toList := List.append_nil _
  rw [hsent, sent?, if_pos rfl]
  obtain ⟨e, i, he, -, hok, -⟩ | ⟨-, ⟨fault, herror⟩, -⟩ := Policy.turns_place h uri partition
  · have hplace : (m.place uri partition).1 = .ok i := hok
    rw [he, hplace]
    rfl
  · have hplace : (m.place uri partition).1 = .error fault := herror
    rw [hplace]
    cases m.policy.rotation? (m.policy.lane partition) <;> rfl

/-- Each rotation has come as far as documents were placed in its lane. -/
structure Rotates (m : Manager) (uses : List Use) : Prop where
  rotates : (m.useAll uses).policy.rotates = true
  pace : (m.useAll uses).policy.pace = batchOf m.batchSize
  idle : ∀ lane, (m.useAll uses).policy.rotation? lane = none → m.sent lane uses = []
  follows : ∀ lane e, (m.useAll uses).policy.rotation? lane = some e →
    e.Follows (batchOf m.batchSize) (m.sent lane uses)
  kept : ∀ lane e, m.policy.rotation? lane = some e →
    ∃ e', (m.useAll uses).policy.rotation? lane = some e' ∧ e'.forests = e.forests

namespace Rotates

variable {m : Manager} {uses : List Use}

/-- A request that places nothing leaves every rotation as it is, or begins one. -/
theorem still (h : m.Rotates uses) {use : Use} (hnone : ∀ lane, (m.useAll uses).sent? lane use = none) {p : Policy}
    (hp : ((m.useAll uses).use use).policy = p) (hrotates : p.rotates = true)
    (hpace : p.pace = (m.useAll uses).policy.pace)
    (hlane : ∀ lane, p.rotation? lane = (m.useAll uses).policy.rotation? lane ∨
      (m.useAll uses).policy.rotation? lane = none ∧ ∃ forests, p.rotation? lane = some ⟨forests, 0⟩) :
    m.Rotates (uses ++ [use]) := by
  have hsent (lane : Option String) : m.sent lane (uses ++ [use]) = m.sent lane uses := by
    rw [sent_append_single, hnone lane, Option.toList_none, List.append_nil]
  have hreached : (m.useAll (uses ++ [use])).policy = p := by
    rw [useAll_append]
    exact hp
  refine ⟨by rw [hreached, hrotates], by rw [hreached, hpace, h.pace], fun lane hidle => ?_, fun lane e he => ?_,
    fun lane e he => ?_⟩
  · rw [hreached] at hidle
    rcases hlane lane with hsame | ⟨-, forests, hnew⟩
    · rw [hsent, h.idle lane (hsame ▸ hidle)]
    · cases hidle.symm.trans hnew
  · rw [hreached] at he
    rw [hsent]
    rcases hlane lane with hsame | ⟨hidle, forests, hnew⟩
    · exact h.follows lane e (hsame ▸ he)
    · cases he.symm.trans hnew
      rw [h.idle lane hidle]
      exact .begin forests
  · obtain ⟨e', he', hforests⟩ := h.kept lane e he
    rw [hreached]
    rcases hlane lane with hsame | ⟨hidle, -⟩
    · exact ⟨e', hsame.trans he', hforests⟩
    · cases hidle.symm.trans he'

theorem place (h : m.Rotates uses) (uri : Uri) (partition : Option String) :
    m.Rotates (uses ++ [.place uri partition]) := by
  obtain ⟨e, i, he, hi, hok, hpace, hmoved⟩ | ⟨-, ⟨fault, herror⟩, hsame⟩ :=
    Policy.turns_place h.rotates uri partition
  · have hsent (lane : Option String) : m.sent lane (uses ++ [.place uri partition]) =
        m.sent lane uses ++ if lane = (m.useAll uses).policy.lane partition
          then [(e.position (m.useAll uses).policy.pace, i)] else [] := by
      have hanswer : ((m.useAll uses).place uri partition).1 = .ok i := hok
      rw [sent_append_single, sent?]
      by_cases hlane : lane = (m.useAll uses).policy.lane partition
      · subst hlane
        simp [he, hanswer, Except.toOption]
      · simp [hlane, Ne.symm hlane]
    have hreached : (m.useAll (uses ++ [.place uri partition])).policy =
        ((m.useAll uses).policy.place uri partition).2 := by
      rw [useAll_append]
      rfl
    have hrotates : ((m.useAll uses).policy.place uri partition).2.rotates = true := by
      rw [Policy.rotates_alike ((m.useAll uses).policy.place_alike uri partition).1, h.rotates]
    refine ⟨by rw [hreached, hrotates], by rw [hreached, hpace, h.pace], fun lane hidle => ?_, fun lane e' he' => ?_,
      fun lane first hfirst => ?_⟩
    · rw [hreached, hmoved] at hidle
      split at hidle
      · cases hidle
      · next hlane => rw [hsent, if_neg hlane, h.idle lane hidle, List.append_nil]
    · rw [hreached, hmoved] at he'
      rw [hsent]
      split at he'
      · next hlane =>
        cases he'
        subst hlane
        rw [if_pos rfl, h.pace]
        exact (h.follows _ e he).advance (h.pace ▸ hi)
      · next hlane =>
        rw [if_neg hlane, List.append_nil]
        exact h.follows lane e' he'
    · obtain ⟨e', he', hforests⟩ := h.kept lane first hfirst
      rw [hreached, hmoved]
      split
      · next hlane =>
        rw [hlane] at he'
        cases he.symm.trans he'
        exact ⟨_, rfl, hforests⟩
      · exact ⟨e', he', hforests⟩
  · refine h.still (fun lane => ?_) hsame h.rotates rfl fun _ => .inl rfl
    have hanswer : ((m.useAll uses).place uri partition).1 = .error fault := herror
    simp [sent?, hanswer, Except.toOption]

theorem rollback (h : m.Rotates uses) (i : Nat) (count : UInt64) : m.Rotates (uses ++ [.rollback i count]) :=
  h.still (fun _ => rfl) (Policy.rollback_eq h.rotates i count) h.rotates rfl fun _ => .inl rfl

theorem cache (h : m.Rotates uses) (name : String) (ids : List ForestId) : m.Rotates (uses ++ [.cache name ids]) := by
  obtain hsame | ⟨forests, hnew⟩ := (m.useAll uses).policy_cachePartition name ids
  · exact h.still (fun _ => rfl) hsame h.rotates rfl fun _ => .inl rfl
  · refine h.still (fun _ => rfl) hnew ?_ (Policy.pace_insertPartition name forests) fun lane => ?_
    · rw [Policy.rotates_alike ((m.useAll uses).policy.insertPartition_alike name forests).1, h.rotates]
    · exact ((m.useAll uses).policy.rotation?_insertPartition name forests lane).imp id fun hnew => ⟨hnew.1, _, hnew.2⟩

end Rotates

section New

variable {kind : Kind} {t : Topology} {batch : UInt64} {partition : Option String} {m : Manager}

theorem new_bucket (h : Manager.new .bucket t batch partition = .ok m) :
    m.policy = .bucket (.new m.forestCount batch) ∧ m.batchSize = batch ∧ 0 < m.forestCount := by
  unfold Manager.new at h
  dsimp only at h
  split at h
  · cases h
  · next hsome =>
    cases h
    exact ⟨rfl, rfl, List.length_pos_iff.mpr fun hnone => hsome (List.isEmpty_iff.mpr hnone)⟩

/-- Partitions have none before they are cached; where none is named there is a standard one. -/
theorem new_partitioned (hkind : kind.partitioned = true) (h : Manager.new kind t batch partition = .ok m) :
    ∃ name, m.policy = .partitioned ⟨kind, batchOf batch, some name, .empty⟩ ∧ m.batchSize = batch := by
  unfold Manager.new at h
  dsimp only at h
  split at h
  · cases h
  · cases kind with
    | legacy | bucket | statistical | segment => cases hkind
    | range =>
      cases partition with
      | none => cases h
      | some name =>
        cases h
        exact ⟨name, rfl, rfl⟩
    | query =>
      cases partition <;> cases h <;> exact ⟨_, rfl, rfl⟩

theorem rotates (h : Manager.new kind t batch partition = .ok m) (hkind : kind = .bucket ∨ kind.partitioned = true)
    (uses : List Use) : m.Rotates uses := by
  induction uses using List.reverseRecOn with
  | nil =>
    obtain rfl | hkind := hkind
    · obtain ⟨hpolicy, hbatch, -⟩ := new_bucket h
      refine ⟨?_, ?_, fun _ _ => rfl, fun lane e he => ?_, fun lane e he => ⟨e, he, rfl⟩⟩
      · simp [useAll, hpolicy, Policy.rotates, Policy.kind]
      · simp [useAll, hpolicy, hbatch, Policy.pace, Bucket.new]
      · simp only [useAll, hpolicy, List.foldl_nil, Policy.rotation?, Option.ite_none_right_eq_some] at he
        obtain ⟨-, he⟩ := he
        cases he
        exact .begin _
    · obtain ⟨name, hpolicy, hbatch⟩ := new_partitioned hkind h
      refine ⟨?_, ?_, fun _ _ => rfl, fun lane e he => ?_, fun lane e he => ⟨e, he, rfl⟩⟩
      · simp [useAll, hpolicy, Policy.rotates, Policy.cache?]
      · simp [useAll, hpolicy, hbatch, Policy.pace]
      · simp only [useAll, hpolicy, List.foldl_nil, Policy.rotation?] at he
        cases lane <;> cases he
  | append_singleton uses use ih =>
    cases use with
    | place uri partition => exact ih.place uri partition
    | rollback i count => exact ih.rollback i count
    | cache name ids => exact ih.cache name ids

variable {uses : List Use}

theorem Rotates.place_eq_ok (h : m.Rotates uses) (uri : Uri) (named : Option String) (i : Nat) :
    ((m.useAll uses).place uri named).1 = .ok i ↔
      ∃ e, (m.useAll uses).policy.rotation? ((m.useAll uses).policy.lane named) = some e ∧
        e.forests[e.position (m.useAll uses).policy.pace]? = some i := by
  obtain ⟨e, j, he, hj, hok, -, -⟩ | ⟨hnone, ⟨fault, herror⟩, -⟩ := Policy.turns_place h.rotates uri named
  · have hplace : ((m.useAll uses).place uri named).1 = .ok j := hok
    rw [hplace, he]
    simp [hj]
  · have hplace : ((m.useAll uses).place uri named).1 = .error fault := herror
    rw [hplace]
    refine ⟨nofun, fun ⟨e, he, hi⟩ => ?_⟩
    cases (hnone e he).symm.trans hi

theorem Rotates.follows_of_sent (h : m.Rotates uses) {lane : Option String} {n : Nat}
    {d : Nat × Nat} (hd : (m.sent lane uses)[n]? = some d) :
    ∃ e, (m.useAll uses).policy.rotation? lane = some e ∧ e.Follows (batchOf m.batchSize) (m.sent lane uses) := by
  cases he : (m.useAll uses).policy.rotation? lane with
  | none =>
    rw [h.idle lane he] at hd
    cases hd
  | some e => exact ⟨e, rfl, h.follows lane e he⟩

theorem lane_useAll (h : Manager.new kind t batch partition = .ok m) (hkind : kind = .bucket ∨ kind.partitioned = true)
    (uses : List Use) (named : Option String) : (m.useAll uses).policy.lane named = m.policy.lane named :=
  Policy.lane_alike (rotates h hkind []).rotates (tracks (fresh_new h).unassigned uses).alike named

theorem sent_concat_place (h : Manager.new kind t batch partition = .ok m)
    (hkind : kind = .bucket ∨ kind.partitioned = true) (uses : List Use) (uri : Uri) (named : Option String) :
    (m.sent (m.policy.lane named) (uses ++ [.place uri named])).map (·.2) =
      (m.sent (m.policy.lane named) uses).map (·.2) ++ ((m.useAll uses).place uri named).1.toOption.toList := by
  have hsent := sent_place (rotates h hkind uses).rotates uri named
  rw [lane_useAll h hkind] at hsent
  rw [sent_append, List.map_append, hsent]

theorem place_bucket (h : Manager.new .bucket t batch partition = .ok m) (uses : List Use) (uri : Uri)
    (named : Option String) : (m.useAll uses).policy.lane named = none ∧
      ∃ e, (m.useAll uses).policy.rotation? none = some e ∧ e.forests.length = m.forestCount ∧
        ((m.useAll uses).place uri named).1 = .ok (e.position (m.useAll uses).policy.pace) := by
  have hrotates := rotates h (.inl rfl) uses
  obtain ⟨hpolicy, -, hpos⟩ := new_bucket h
  obtain ⟨e, he, hforests⟩ := hrotates.kept none ⟨List.range m.forestCount, 0⟩ (by rw [hpolicy]; rfl)
  have hlane : (m.useAll uses).policy.lane named = none := by
    obtain ⟨-, -, -, -, hassigned⟩ := new_settings h
    rw [Policy.lane_alike (by simp [hpolicy, Policy.rotates, Policy.kind]) (tracks hassigned uses).alike, hpolicy]
    rfl
  have hlength : e.forests.length = m.forestCount := by simp [hforests]
  have hlt : e.position (m.useAll uses).policy.pace < m.forestCount := by
    rw [Partition.position, hlength]
    exact turn_lt hpos
  refine ⟨hlane, e, he, hlength, (hrotates.place_eq_ok uri named _).mpr ⟨e, hlane ▸ he, ?_⟩⟩
  rw [hforests]
  exact List.getElem?_range hlt

theorem length_sent_bucket (h : Manager.new .bucket t batch partition = .ok m) (uses : List Use) :
    (m.sent none uses).length = uses.countP Use.places := by
  induction uses using List.reverseRecOn with
  | nil => rfl
  | append_singleton uses use ih =>
    rw [sent_append_single, List.length_append, List.countP_append, ih]
    cases use with
    | place uri named =>
      obtain ⟨hlane, e, he, -, hplace⟩ := place_bucket h uses uri named
      simp [sent?, hlane, he, hplace, Except.toOption, Use.places]
    | rollback i count => rfl
    | cache name ids => rfl

end New

theorem rotation?_use {m : Manager} (h : m.policy.rotates = true) {lane : Option String} {e : Partition}
    (he : m.policy.rotation? lane = some e) {use : Use} (hnone : m.sent? lane use = none) :
    (m.use use).policy.rotation? lane = some e := by
  cases use with
  | place uri partition =>
    obtain ⟨e', i, he', hi, hok, -, hmoved⟩ | ⟨-, -, hsame⟩ := Policy.turns_place h uri partition
    · have hlane : lane ≠ m.policy.lane partition := by
        rintro rfl
        have hanswer : (m.place uri partition).1 = .ok i := hok
        simp [sent?, he, hanswer, Except.toOption] at hnone
      have hmoved := hmoved lane
      rw [if_neg hlane] at hmoved
      exact hmoved.trans he
    · exact (congrArg (Policy.rotation? lane) hsame).trans he
  | rollback i count => exact (congrArg (Policy.rotation? lane) (Policy.rollback_eq h i count)).trans he
  | cache name ids =>
    obtain hsame | ⟨forests, hnew⟩ := m.policy_cachePartition name ids
    · exact (congrArg (Policy.rotation? lane) hsame).trans he
    · obtain hkept | ⟨hidle, -⟩ := m.policy.rotation?_insertPartition name forests lane
      · exact (congrArg (Policy.rotation? lane) hnew).trans (hkept.trans he)
      · cases hidle.symm.trans he

/-- A partition's rotation is over the forests that were named for it first. -/
theorem Tracks.rotation? {m : Manager} {uses : List Use} (h : m.Tracks uses) (hcaches : m.policy.cache?.isSome = true)
    (name : String) (forests : List Nat) :
    (∃ e, (m.useAll uses).policy.rotation? (some name) = some e ∧ e.forests = forests) ↔
      ∃ ids, m.firstNamed name uses = some ids ∧ m.partitionIndices ids = .ok forests := by
  have hassigned : ((m.useAll uses).policy.rotation? (some name)).map (·.forests) =
      (m.useAll uses).policy.assigned name := by
    cases hpolicy : (m.useAll uses).policy with
    | bucket b => rfl
    | _ => rfl
  rw [← Option.map_eq_some_iff, hassigned]
  have hrel := h.assigned hcaches name
  generalize (m.useAll uses).policy.assigned name = known at hrel ⊢
  generalize m.firstNamed name uses = first at hrel ⊢
  cases hrel with
  | none => simp
  | some hindices => simp [hindices]

/-- Rotations are exact, and each is one partition's. Buckets have one rotation over all forests, and a
partition one over the forests that were named for it first. A document goes to the place that the number of
documents before it in the rotation comes to; only documents of a rotation move it; the standard partition has
one rotation, named or not; and no place is ahead of another one by more than a batch. -/
theorem rotation_exact {kind : Kind} {t : Topology} {batch : UInt64} {partition : Option String} {m : Manager}
    (h : Manager.new kind t batch partition = .ok m) (hkind : kind = .bucket ∨ kind.partitioned = true)
    (uses : List Use) :
    let b := max 1 batch.toNat
    let now := m.useAll uses
    (kind = .bucket → ∀ uri named, uses.countP Use.places < 2 ^ 64 →
      (now.place uri named).1 = .ok (uses.countP Use.places / b % m.forestCount)) ∧
    (kind.partitioned = true → ∀ uri named name, named.or m.standardPartition = some name →
      let n := (m.sent (some name) uses).length
      n < 2 ^ 64 → ∀ i, (now.place uri named).1 = .ok i ↔
        ∃ ids forests, m.firstNamed name uses = some ids ∧ m.partitionIndices ids = .ok forests ∧
          forests[n / b % forests.length]? = some i) ∧
    (∀ lane e use, now.policy.rotation? lane = some e → now.sent? lane use = none →
      (now.use use).policy.rotation? lane = some e) ∧
    (∀ uri name, m.standardPartition = some name → now.place uri none = now.place uri (some name)) ∧
    ∀ lane e, now.policy.rotation? lane = some e → (m.sent lane uses).length ≤ 2 ^ 64 →
      (∀ d ∈ m.sent lane uses, e.forests[d.1]? = some d.2) ∧
      ∀ j < e.forests.length, ∀ k < e.forests.length,
        ((m.sent lane uses).map (·.1)).count j ≤ ((m.sent lane uses).map (·.1)).count k + b := by
  have hrotates := rotates h hkind uses
  obtain ⟨-, -, hkinds, hcaches, hassigned⟩ := new_settings h
  have htracks := tracks hassigned uses
  have hbatch : (batchOf m.batchSize).toNat = max 1 batch.toNat := by
    rw [(new_prices h).2, toNat_batchOf]
  refine ⟨fun hbucket uri named hlt => ?_, fun hpartitioned uri named name hname hlt i => ?_,
    fun lane e use he hnone => rotation?_use hrotates.rotates he hnone, fun uri name hname => ?_,
    fun lane e he hle => ?_⟩
  · subst hbucket
    obtain ⟨-, e, he, hlength, hplace⟩ := place_bucket h uses uri named
    rw [← length_sent_bucket h] at hlt ⊢
    rw [hplace, hrotates.pace, (hrotates.follows none e he).position hlt, hlength, hbatch]
  · have hcaches := hcaches (hkinds ▸ hpartitioned)
    have hlane : (m.useAll uses).policy.lane named = some name := by
      rw [Policy.lane_partitioned (htracks.alike.caches.trans hcaches), htracks.alike.standard]
      exact hname
    have hposition {e : Partition} (he : (m.useAll uses).policy.rotation? (some name) = some e) :
        e.position (m.useAll uses).policy.pace =
          (m.sent (some name) uses).length / max 1 batch.toNat % e.forests.length := by
      rw [hrotates.pace, (hrotates.follows _ e he).position hlt, hbatch]
    refine (hrotates.place_eq_ok uri named i).trans ?_
    rw [hlane]
    constructor
    · rintro ⟨e, he, hi⟩
      obtain ⟨ids, hids, hforests⟩ := (htracks.rotation? hcaches name e.forests).mp ⟨e, he, rfl⟩
      exact ⟨ids, e.forests, hids, hforests, hposition he ▸ hi⟩
    · rintro ⟨ids, forests, hids, hforests, hi⟩
      obtain ⟨e, he, rfl⟩ := (htracks.rotation? hcaches name forests).mpr ⟨ids, hids, hforests⟩
      exact ⟨e, he, (hposition he).symm ▸ hi⟩
  · have hstandard : (m.useAll uses).policy.standardPartition = some name := htracks.alike.standard.trans hname
    simp only [Manager.place, Policy.place_standard uri hstandard]
  · have hfollows := hrotates.follows lane e he
    refine ⟨hfollows.mem hle, fun j hj k hk => ?_⟩
    rw [← hbatch]
    exact hfollows.fair hle (batchOf_pos _) hj hk

/-- Two of three forests make the partition, with turns of two documents. Neither a partition that nobody knows
nor the request to cache the partition anew comes between the turns. -/
theorem rotation_exact_query :
    let forest (name : String) : Forest := ⟨⟨name⟩, "h", true, [], 0⟩
    let t : Topology := ⟨[forest "a", forest "b", forest "c"]⟩
    let uses := [.cache "default" [⟨"a"⟩, ⟨"c"⟩], .place ⟨"x"⟩ none, .place ⟨"x"⟩ (some "default"),
      .place ⟨"x"⟩ (some "unknown"), .cache "default" [⟨"b"⟩], .place ⟨"x"⟩ none]
    ∃ m, Manager.new .query t 2 none = .ok m ∧ m.sent (some "default") uses = [(0, 0), (0, 0), (1, 2)] ∧
      ((m.useAll uses).place ⟨"x"⟩ none).1 = .ok 2 := by
  intro forest t uses
  obtain ⟨m, hm⟩ : ∃ m, Manager.new .query t 2 none = .ok m := ⟨_, rfl⟩
  refine ⟨m, hm, ?_, ?_⟩
  · cases hm
    decide +kernel
  · obtain ⟨-, hplace, -⟩ := rotation_exact hm (.inr rfl) uses
    cases hm
    refine (hplace rfl ⟨"x"⟩ none "default" rfl (by decide +kernel) 2).mpr ⟨[⟨"a"⟩, ⟨"c"⟩], [0, 2], ?_, ?_, ?_⟩
    · decide +kernel
    · decide +kernel
    · decide +kernel

end Manager

end ForestCourier.Placement
