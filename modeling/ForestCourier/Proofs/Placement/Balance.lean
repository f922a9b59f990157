import Mathlib.Algebra.BigOperators.Group.Finset.Piecewise
import Mathlib.Data.List.Induction
import ForestCourier.Proofs.Placement.Loads

/-!
Placement by load keeps forests level. A placement charges the first forest of those with the least load, so
a forest that is charged had no more than any other one, and runs ahead of it by no more than what it is
charged. What forests were loaded with at first is the only other reason for one to be ahead.
-/

namespace ForestCourier.Placement

namespace Policy

/-- Of the first `n` forests, the first one of those with the least load. -/
structure Lightest (p : Policy) (n i : Nat) : Prop where
  lt : i < n
  least : ∀ j < n, (p.load i).toNat ≤ (p.load j).toNat
  first : ∀ j < i, (p.load i).toNat < (p.load j).toNat

variable {batch : UInt64} {loads : List UInt64}

theorem lightest_of_least {i : Nat} {load : UInt64} (h : Statistical.least 0 loads = some (i, load)) :
    (statistical ⟨batch, loads⟩).Lightest loads.length i ∧ (statistical ⟨batch, loads⟩).load i = load := by
  obtain ⟨-, hget, hmin, hfirst⟩ := Statistical.least_eq_some h
  rw [Nat.sub_zero] at hget hfirst
  have hlt : i < loads.length := (List.getElem?_eq_some_iff.mp hget).1
  have hi : (statistical ⟨batch, loads⟩).load i = load := by
    rw [load_statistical, hget, Option.getD_some]
  refine ⟨⟨hlt, fun j hj => ?_, fun j hj => ?_⟩, hi⟩
  · rw [hi, load_statistical, List.getElem?_eq_getElem hj, Option.getD_some]
    exact UInt64.le_iff_toNat_le.mp (hmin _ (List.getElem_mem hj))
  · have hj' : loads[j]? = some loads[j] := List.getElem?_eq_getElem (hj.trans hlt)
    rw [hi, load_statistical, hj', Option.getD_some]
    exact UInt64.lt_iff_toNat_lt.mp (hfirst j _ hj hj')

theorem exists_least (i : Nat) (h : loads ≠ []) : ∃ j load, Statistical.least i loads = some (j, load) := by
  obtain ⟨x, xs, rfl⟩ := List.exists_cons_of_ne_nil h
  unfold Statistical.least
  split
  · split <;> exact ⟨_, _, rfl⟩
  · exact ⟨_, _, rfl⟩

theorem place_lightest (batch : UInt64) (h : loads ≠ []) (uri : Uri) (partition : Option String) :
    ∃ i loads', (statistical ⟨batch, loads⟩).Lightest loads.length i ∧ loads'.length = loads.length ∧
      ((statistical ⟨batch, loads⟩).place uri partition).2 = statistical ⟨batch, loads'⟩ ∧
      ((statistical ⟨batch, loads⟩).place uri partition).1 =
        if ((statistical ⟨batch, loads⟩).load i).toNat + batch.toNat < 2 ^ 64 then .ok i
        else .error (.overflow .addition) := by
  obtain ⟨i, load, hleast⟩ := exists_least 0 h
  obtain ⟨hlightest, hi⟩ : (statistical ⟨batch, loads⟩).Lightest loads.length i ∧
      (statistical ⟨batch, loads⟩).load i = load := lightest_of_least hleast
  by_cases hfits : load.toNat + batch.toNat < 2 ^ 64
  · have hadd : Word.add (ε := PlacementError) load batch = .ok (load + batch) := if_pos hfits
    have hplace : (⟨batch, loads⟩ : Statistical).place = (.ok i, ⟨batch, loads.set i (load + batch)⟩) := by
      simp only [Statistical.place, hleast, hadd]
    refine ⟨i, loads.set i (load + batch), hlightest, List.length_set, ?_, ?_⟩
    · simp only [place, hplace]
    · simp only [place, hplace, hi, if_pos hfits]
  · have hadd : Word.add (ε := PlacementError) load batch = .error (.overflow .addition) := if_neg hfits
    have hplace : (⟨batch, loads⟩ : Statistical).place = (.error (.overflow .addition), ⟨batch, loads⟩) := by
      simp only [Statistical.place, hleast, hadd]
    refine ⟨i, loads, hlightest, rfl, ?_, ?_⟩
    · simp only [place, hplace]
    · simp only [place, hplace, hi, if_neg hfits]

end Policy

namespace Manager

def placeAll : List (Uri × Option String) → Manager → List (Result Nat) × Manager
  | [], m => ([], m)
  | (uri, partition) :: requests, m =>
    match m.place uri partition with
    | (answer, m) => (answer :: (m.placeAll requests).1, (m.placeAll requests).2)

theorem placeAll_concat (requests : List (Uri × Option String)) (uri : Uri) (partition : Option String)
    (m : Manager) :
    m.placeAll (requests ++ [(uri, partition)]) =
      ((m.placeAll requests).1 ++ [((m.placeAll requests).2.place uri partition).1],
        ((m.placeAll requests).2.place uri partition).2) := by
  induction requests generalizing m with
  | nil => rfl
  | cons request requests ih =>
    rw [List.cons_append, placeAll, placeAll]
    dsimp only
    rw [ih]
    rfl

theorem length_placeAll (requests : List (Uri × Option String)) (m : Manager) :
    (m.placeAll requests).1.length = requests.length := by
  induction requests generalizing m with
  | nil => rfl
  | cons request requests ih => exact congrArg Nat.succ (ih _)

def load (m : Manager) (i : Nat) : Nat := (m.policy.load i).toNat

/-- The lightest of the `n` forests is answered and charged a batch, and no other forest is charged. If the
sum would be too large a word, nothing is charged. -/
structure ChargesLightest (m : Manager) (n batch : Nat) (uri : Uri) (partition : Option String) (i : Nat) :
    Prop where
  lightest : m.policy.Lightest n i
  answer : (m.place uri partition).1 =
    if m.load i + batch < 2 ^ 64 then .ok i else .error (.overflow .addition)
  charge : ∀ j, (m.place uri partition).2.load j =
    m.load j + if j = i ∧ m.load i + batch < 2 ^ 64 then batch else 0

theorem place_charges {m : Manager} {batch : UInt64} {loads : List UInt64}
    (hpolicy : m.policy = .statistical ⟨batch, loads⟩) (hloads : loads ≠ []) (uri : Uri)
    (partition : Option String) :
    ∃ i loads', m.ChargesLightest loads.length batch.toNat uri partition i ∧
      (m.place uri partition).2.policy = .statistical ⟨batch, loads'⟩ ∧ loads'.length = loads.length := by
  obtain ⟨i, loads', hlightest, hlength, hafter, hanswer⟩ :=
    Policy.place_lightest batch hloads uri partition
  rw [← hpolicy] at hlightest hafter hanswer
  refine ⟨i, loads', ⟨hlightest, hanswer, fun j => ?_⟩, hafter, hlength⟩
  have hkind : m.policy.kind = .statistical := by rw [hpolicy]; rfl
  have hprices : m.policy.Prices batch := fun _ => ⟨loads, hpolicy⟩
  have hcharge := Policy.load_place hprices uri partition j
  rw [hanswer] at hcharge
  refine hcharge.trans (congrArg (m.load j + ·) ?_)
  by_cases hfits : m.load i + batch.toNat < 2 ^ 64
  · rw [if_pos (show (m.policy.load i).toNat + batch.toNat < 2 ^ 64 from hfits)]
    simp only [hkind, hfits, Except.toOption, Option.some.injEq, true_and, and_true, eq_comm]
  · rw [if_neg (show ¬ (m.policy.load i).toNat + batch.toNat < 2 ^ 64 from hfits)]
    simp only [hfits, Except.toOption, reduceCtorEq, and_false, if_false]

structure Levels (m : Manager) (batch : UInt64) (n : Nat) (requests : List (Uri × Option String)) : Prop where
  policy : ∃ loads, (m.placeAll requests).2.policy = .statistical ⟨batch, loads⟩ ∧ loads.length = n
  answers : ∀ answer ∈ (m.placeAll requests).1,
    (∃ i < n, answer = .ok i) ∨ answer = .error (.overflow .addition)
  total : ∑ i ∈ Finset.range n, (m.placeAll requests).2.load i =
    ∑ i ∈ Finset.range n, m.load i + (m.placeAll requests).1.countP (·.isOk) * batch.toNat
  grows : ∀ i, m.load i ≤ (m.placeAll requests).2.load i
  ahead : ∀ i < n, ∀ j < n,
    (m.placeAll requests).2.load i ≤ max (m.load i) ((m.placeAll requests).2.load j + batch.toNat)

variable {m : Manager} {batch : UInt64} {n : Nat} {requests : List (Uri × Option String)}

/-- Only the lightest forest is charged, so that afterwards it is ahead of any other one by a batch at most. -/
theorem Levels.place (h : m.Levels batch n requests) (hn : 0 < n) (uri : Uri) (partition : Option String) :
    m.Levels batch n (requests ++ [(uri, partition)]) := by
  obtain ⟨loads, hpolicy, hlength⟩ := h.policy
  have hloads : loads ≠ [] := List.ne_nil_of_length_pos (hlength.symm ▸ hn)
  obtain ⟨i, loads', ⟨hlightest, hanswer, hcharge⟩, hafter, hlength'⟩ :=
    place_charges hpolicy hloads uri partition
  rw [hlength] at hlightest
  have hleast (j : Nat) (hj : j < n) : (m.placeAll requests).2.load i ≤ (m.placeAll requests).2.load j :=
    hlightest.least j hj
  constructor
  · rw [placeAll_concat]
    exact ⟨loads', hafter, hlength'.trans hlength⟩
  · rw [placeAll_concat]
    intro answer hmem
    rcases List.mem_append.mp hmem with hmem | hmem
    · exact h.answers answer hmem
    · rw [List.mem_singleton.mp hmem, hanswer]
      split
      · exact .inl ⟨i, hlightest.lt, rfl⟩
      · exact .inr rfl
  · rw [placeAll_concat]
    simp only [hcharge, hanswer]
    rw [Finset.sum_add_distrib, h.total, List.countP_append, List.countP_singleton, Nat.add_mul, ← Nat.add_assoc]
    congr 1
    by_cases hfits : (m.placeAll requests).2.load i + batch.toNat < 2 ^ 64
    · simp only [hfits, and_true, if_true]
      rw [Finset.sum_ite_eq', if_pos (Finset.mem_range.mpr hlightest.lt)]
      exact (Nat.one_mul _).symm
    · simp only [hfits, and_false, if_false]
      rw [Finset.sum_const_zero]
      exact (Nat.zero_mul _).symm
  · intro j
    rw [placeAll_concat]
    exact (h.grows j).trans ((hcharge j).symm ▸ Nat.le_add_right _ _)
  · intro j hj k hk
    rw [placeAll_concat]
    dsimp only
    rw [hcharge j, hcharge k]
    have hbefore := h.ahead j hj k hk
    have hik := hleast k hk
    by_cases hji : j = i ∧ (m.placeAll requests).2.load i + batch.toNat < 2 ^ 64
    · rw [if_pos hji, hji.1]
      omega
    · rw [if_neg hji]
      omega

theorem levels {loads : List UInt64} (hpolicy : m.policy = .statistical ⟨batch, loads⟩) (hloads : loads ≠ [])
    (requests : List (Uri × Option String)) : m.Levels batch loads.length requests := by
  induction requests using List.reverseRecOn with
  | nil =>
    exact ⟨⟨loads, hpolicy, rfl⟩, nofun, by simp [placeAll], fun _ => Nat.le_refl _,
      fun _ _ _ _ => Nat.le_max_left _ _⟩
  | append_singleton requests request ih => exact ih.place (List.length_pos_of_ne_nil hloads) _ _

/-- Whatever has been placed by load, the next document goes to the first of the forests with the least load
and is charged to it alone. All that was charged is a batch for each document that was placed; no forest is
ahead of another one by more than a batch, unless it has had that load from the start. Writers that share
the policy place one at a time, so this covers what they do side by side, in whatever order they come. -/
theorem placements_level {loads : List UInt64} {size : UInt64} {m : Manager}
    (hpolicy : m.policy = .statistical (.new loads size)) (hloads : loads ≠ [])
    (requests : List (Uri × Option String)) :
    let batch := max 1 size.toNat
    let answers := (m.placeAll requests).1
    let after := (m.placeAll requests).2
    (∀ uri partition, ∃ i, after.ChargesLightest loads.length batch uri partition i) ∧
    ((∀ answer ∈ answers, answer ≠ .error (.overflow .addition)) →
      (∀ answer ∈ answers, ∃ i < loads.length, answer = .ok i) ∧
      ∑ i ∈ Finset.range loads.length, after.load i =
        ∑ i ∈ Finset.range loads.length, m.load i + requests.length * batch) ∧
    (∀ i < loads.length, ∀ j < loads.length, after.load i ≤ max (m.load i) (after.load j + batch)) ∧
    ((∀ i < loads.length, ∀ j < loads.length, m.load i ≤ m.load j + batch) →
      ∀ i < loads.length, ∀ j < loads.length, after.load i ≤ after.load j + batch) := by
  have h := levels hpolicy hloads requests
  dsimp only
  rw [← toNat_batchOf]
  refine ⟨fun uri partition => ?_, fun hfits => ?_, h.ahead, fun hnear i hi j hj => ?_⟩
  · obtain ⟨loads', hpolicy', hlength⟩ := h.policy
    have hloads' : loads' ≠ [] := by
      rw [← List.length_pos_iff_ne_nil, hlength]
      exact List.length_pos_of_ne_nil hloads
    obtain ⟨i, -, hcharges, -⟩ := place_charges hpolicy' hloads' uri partition
    rw [hlength] at hcharges
    exact ⟨i, hcharges⟩
  · have hok (answer) (hmem : answer ∈ (m.placeAll requests).1) : ∃ i < loads.length, answer = .ok i :=
      (h.answers answer hmem).resolve_right (hfits answer hmem)
    have hall : (m.placeAll requests).1.countP (·.isOk) = (m.placeAll requests).1.length := by
      refine List.countP_eq_length.mpr fun answer hmem => ?_
      obtain ⟨i, -, rfl⟩ := hok answer hmem
      rfl
    refine ⟨hok, ?_⟩
    rw [h.total, hall, length_placeAll]
  · have hahead := h.ahead i hi j hj
    have hgrows := h.grows j
    have hnear := hnear i hi j hj
    change _ ≤ _ + (batchOf size).toNat
    change _ ≤ max _ (_ + (batchOf size).toNat) at hahead
    omega

/-- The lighter of two forests catches up, a tie goes to the first one, and then they are a batch apart. -/
theorem placements_level_two :
    let loads : List UInt64 := [10, 0]
    let m : Manager := ⟨⟨[]⟩, [0, 1], .statistical (.new loads 5), 5⟩
    let requests := List.replicate 4 (⟨"/a"⟩, none)
    loads ≠ [] ∧ (m.placeAll requests).1 = [.ok 1, .ok 1, .ok 0, .ok 1] ∧
      ∑ i ∈ Finset.range 2, (m.placeAll requests).2.load i = ∑ i ∈ Finset.range 2, m.load i + 4 * 5 ∧
      (m.placeAll requests).2.load 0 ≤ (m.placeAll requests).2.load 1 + 5 := by
  intro loads m requests
  have hpolicy : m.policy = .statistical (.new loads 5) := rfl
  obtain ⟨-, htotal, hahead, -⟩ := placements_level hpolicy (by decide) requests
  have hanswers : (m.placeAll requests).1 = [.ok 1, .ok 1, .ok 0, .ok 1] := by decide +kernel
  refine ⟨by decide, hanswers, (htotal ?_).2, (hahead 0 (by decide) 1 (by decide)).trans ?_⟩
  · rw [hanswers]
    decide
  · decide +kernel

end Manager

end ForestCourier.Placement
