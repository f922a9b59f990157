import Mathlib.Algebra.Group.Nat.Defs
import ForestCourier.Fault
import ForestCourier.Retry.Backoff

/-!
Pauses double up to a cap. A pause is kept below its cap anyway, so that it is never seen whether the product behind
it was one that no duration can hold; and in words of 32 and 64 bits, by seconds and nanoseconds, it is reckoned without
an operation that leaves its word.
-/

namespace ForestCourier

namespace Word

theorem mul_cases (a b : UInt64) :
    (∃ c, mul (ε := Empty) a b = .ok c ∧ c.toNat = a.toNat * b.toNat) ∨
      ∃ fault, mul (ε := Empty) a b = .error fault ∧ UInt64.size ≤ a.toNat * b.toNat := by
  cases h : mul (ε := Empty) a b with
  | ok c => exact .inl ⟨c, rfl, toNat_of_mul h⟩
  | error fault =>
    refine .inr ⟨fault, rfl, Nat.le_of_not_lt fun hlt => ?_⟩
    rw [mul, if_pos hlt] at h
    cases h

theorem add_cases (a b : UInt64) :
    (∃ c, add (ε := Empty) a b = .ok c ∧ c.toNat = a.toNat + b.toNat) ∨
      ∃ fault, add (ε := Empty) a b = .error fault ∧ UInt64.size ≤ a.toNat + b.toNat := by
  cases h : add (ε := Empty) a b with
  | ok c => exact .inl ⟨c, rfl, toNat_of_add h⟩
  | error fault =>
    refine .inr ⟨fault, rfl, Nat.le_of_not_lt fun hlt => ?_⟩
    rw [add, if_pos hlt] at h
    cases h

end Word

namespace Duration

structure Parts where
  seconds : UInt64
  nanos : UInt32
deriving DecidableEq

def parts (d : Duration) : Parts := ⟨.ofNat d.seconds, .ofNat d.subsecond⟩

theorem nanos_eq (d : Duration) : d.nanos = d.seconds * 1000000000 + d.subsecond := by
  unfold seconds subsecond
  omega

theorem seconds_lt (d : Duration) : d.seconds < UInt64.size := by
  have hlt := d.nanos_lt
  unfold seconds
  omega

theorem subsecond_lt (d : Duration) : d.subsecond < 1000000000 := Nat.mod_lt _ (by decide)

theorem seconds_parts (d : Duration) : d.parts.seconds.toNat = d.seconds :=
  UInt64.toNat_ofNat_of_lt d.seconds_lt

theorem nanos_parts (d : Duration) : d.parts.nanos.toNat = d.subsecond := by
  refine UInt32.toNat_ofNat_of_lt ?_
  have hlt := d.subsecond_lt
  unfold UInt32.size
  omega

theorem parts_eq {d : Duration} {p : Parts} (hnanos : p.nanos.toNat < 1000000000)
    (h : d.nanos = p.seconds.toNat * 1000000000 + p.nanos.toNat) : d.parts = p := by
  have hseconds : d.seconds = p.seconds.toNat := by
    unfold seconds
    omega
  have hsubsecond : d.subsecond = p.nanos.toNat := by
    unfold subsecond
    omega
  rw [parts, hseconds, hsubsecond, UInt64.ofNat_toNat, UInt32.ofNat_toNat]

namespace Parts

def longest : Parts := ⟨18446744073709551615, 999999999⟩

/-- A product part by part, in words of 64 bits. Nothing comes of nanoseconds whose product leaves its word; where
the seconds do, with what is carried over from the nanoseconds, the product is the longest duration. -/
def scale? (d : Parts) (n : UInt32) : Option Parts :=
  match Word.mul (ε := Empty) d.nanos.toUInt64 n.toUInt64 with
  | .error _ => none
  | .ok nanos =>
    match Word.mul (ε := Empty) d.seconds n.toUInt64 with
    | .error _ => some longest
    | .ok seconds =>
      match Word.add (ε := Empty) seconds (nanos / 1000000000) with
      | .error _ => some longest
      | .ok seconds => some ⟨seconds, (nanos % 1000000000).toUInt32⟩

def shorter (a b : Parts) : Parts :=
  if a.seconds < b.seconds ∨ a.seconds = b.seconds ∧ a.nanos ≤ b.nanos then a else b

end Parts

theorem parts_shorter (a b : Duration) : (shorter a b).parts = a.parts.shorter b.parts := by
  have hle : a.nanos ≤ b.nanos ↔ a.parts.seconds < b.parts.seconds ∨
      a.parts.seconds = b.parts.seconds ∧ a.parts.nanos ≤ b.parts.nanos := by
    have ha := a.nanos_eq
    have hb := b.nanos_eq
    have ha' := a.subsecond_lt
    have hb' := b.subsecond_lt
    rw [UInt64.lt_iff_toNat_lt, ← UInt64.toNat_inj, UInt32.le_iff_toNat_le, seconds_parts, seconds_parts,
      nanos_parts, nanos_parts]
    omega
  unfold shorter Parts.shorter
  simp only [hle]
  split
  · rfl
  · rfl

theorem nanos_mul (d : Duration) (n : Nat) :
    d.nanos * n = d.seconds * n * 1000000000 + d.subsecond * n := by
  rw [d.nanos_eq, Nat.add_mul, Nat.mul_right_comm]

theorem parts_scale_longest {d : Duration} {n : Nat} (h : UInt64.size * 1000000000 ≤ d.nanos * n) :
    (d.scale n).parts = .longest := by
  refine parts_eq (by decide) ?_
  rw [nanos_scale, Nat.min_eq_right (by omega)]
  rfl

theorem parts_scale_carried {d : Duration} {n : Nat} {p : Parts}
    (hseconds : p.seconds.toNat = d.seconds * n + d.subsecond * n / 1000000000)
    (hnanos : p.nanos.toNat = d.subsecond * n % 1000000000) : (d.scale n).parts = p := by
  have hfits : p.seconds.toNat < UInt64.size := p.seconds.toNat_lt
  refine parts_eq ?_ ?_
  · rw [hnanos]
    exact Nat.mod_lt _ (by decide)
  · rw [nanos_scale, nanos_mul, hseconds, hnanos]
    omega

theorem mul_nanos_parts (d : Duration) (n : UInt32) :
    ∃ nanos, Word.mul (ε := Empty) d.parts.nanos.toUInt64 n.toUInt64 = .ok nanos ∧
      nanos.toNat = d.subsecond * n.toNat := by
  have hsmall : d.subsecond * n.toNat < 1000000000 * 2 ^ 32 :=
    Nat.mul_lt_mul_of_lt_of_lt d.subsecond_lt n.toNat_lt
  have hcases := Word.mul_cases d.parts.nanos.toUInt64 n.toUInt64
  rw [UInt32.toNat_toUInt64, UInt32.toNat_toUInt64, nanos_parts] at hcases
  refine hcases.resolve_right fun ⟨_, _, hlarge⟩ => ?_
  unfold UInt64.size at hlarge
  omega

theorem parts_scale (d : Duration) (n : UInt32) : d.parts.scale? n = some (d.scale n.toNat).parts := by
  have hproduct := d.nanos_mul n.toNat
  obtain ⟨nanos, hmul, hnanos⟩ := d.mul_nanos_parts n
  unfold Parts.scale?
  rw [hmul]
  dsimp only
  -- The seconds may leave their word, alone or with what is carried over: no duration is as long as that.
  have hseconds := Word.mul_cases d.parts.seconds n.toUInt64
  rw [UInt32.toNat_toUInt64, seconds_parts] at hseconds
  obtain ⟨seconds, hmul, hseconds⟩ | ⟨fault, hmul, hlarge⟩ := hseconds
  · have hsum := Word.add_cases seconds (nanos / 1000000000)
    have hbillion : (1000000000 : UInt64).toNat = 1000000000 := rfl
    rw [UInt64.toNat_div, hseconds, hnanos, hbillion] at hsum
    rw [hmul]
    dsimp only
    obtain ⟨sum, hadd, hsum⟩ | ⟨fault, hadd, hlarge⟩ := hsum
    · have hrest : (nanos % 1000000000).toUInt32.toNat = d.subsecond * n.toNat % 1000000000 := by
        rw [UInt64.toNat_toUInt32, UInt64.toNat_mod, hnanos, hbillion]
        omega
      rw [hadd]
      exact congrArg some (parts_scale_carried hsum hrest).symm
    · rw [hadd]
      exact congrArg some (parts_scale_longest (by omega)).symm
  · rw [hmul]
    exact congrArg some (parts_scale_longest (by omega)).symm

end Duration

namespace RetryPolicy

def earlier (failed : UInt32) : UInt32 := if failed = 0 then 0 else failed - 1

theorem toNat_earlier (failed : UInt32) : (earlier failed).toNat = failed.toNat - 1 := by
  unfold earlier
  split
  · next h => rw [h]; rfl
  · next h =>
    have hpos : 1 ≤ failed.toNat := Nat.one_le_iff_ne_zero.mpr fun hzero => h (UInt32.toNat_inj.mp hzero)
    exact UInt32.toNat_sub_of_le _ _ (UInt32.le_iff_toNat_le.mpr hpos)

def doublings (failed : UInt32) : UInt32 := if earlier failed ≤ 31 then earlier failed else 31

theorem toNat_doublings (failed : UInt32) : (doublings failed).toNat = min (failed.toNat - 1) 31 := by
  have hle : earlier failed ≤ 31 ↔ failed.toNat - 1 ≤ 31 := by
    rw [UInt32.le_iff_toNat_le, toNat_earlier]
    rfl
  unfold doublings
  split
  · next h => rw [toNat_earlier, Nat.min_eq_left (hle.mp h)]
  · next h => rw [Nat.min_eq_right (Nat.le_of_not_le fun hsmall => h (hle.mpr hsmall))]; rfl

/-- The pause in words, or nothing where the shift or a product leaves its word. Only the seconds may: they stop at the
longest duration. -/
def backoffInWords? (p : RetryPolicy) (failed : UInt32) : Option Duration.Parts :=
  if doublings failed < 32 then
    (p.initialBackoff.parts.scale? (1 <<< doublings failed)).map (·.shorter p.maxBackoff.parts)
  else none

theorem toNat_one_shiftLeft {shift : UInt32} (h : shift.toNat < 32) :
    (1 <<< shift : UInt32).toNat = 2 ^ shift.toNat := by
  have hlt : 2 ^ shift.toNat < 2 ^ 32 := Nat.pow_lt_pow_right (by decide) h
  rw [UInt32.toNat_shiftLeft, Nat.mod_eq_of_lt h, UInt32.toNat_one, Nat.one_shiftLeft, Nat.mod_eq_of_lt hlt]

theorem nanos_backoff (p : RetryPolicy) (failed : Nat) :
    (p.backoff failed).nanos = min (p.initialBackoff.nanos * 2 ^ min (failed - 1) 31) p.maxBackoff.nanos := by
  have hcap := p.maxBackoff.nanos_lt
  have hscale := p.initialBackoff.nanos_scale (2 ^ min (failed - 1) 31)
  unfold backoff
  rw [Duration.nanos_shorter, Nat.pow_eq, hscale]
  omega

theorem backoffInWords_eq (p : RetryPolicy) (failed : UInt32) :
    p.backoffInWords? failed = some (p.backoff failed.toNat).parts := by
  have hshift := toNat_doublings failed
  have hlt : doublings failed < 32 := by
    rw [UInt32.lt_iff_toNat_lt, hshift]
    exact Nat.lt_succ_of_le (Nat.min_le_right _ _)
  rw [backoffInWords?, if_pos hlt, Duration.parts_scale, toNat_one_shiftLeft (by omega), hshift, Option.map_some,
    backoff, Duration.parts_shorter, Nat.pow_eq]

/-- The cap commutes with doubling, as long as the pause is doubled. -/
theorem nanos_backoff_succ (p : RetryPolicy) {failed : Nat} (hpos : 1 ≤ failed) (hle : failed ≤ 31) :
    (p.backoff (failed + 1)).nanos = min (2 * (p.backoff failed).nanos) p.maxBackoff.nanos := by
  have hshift : min (failed + 1 - 1) 31 = min (failed - 1) 31 + 1 := by omega
  rw [nanos_backoff, nanos_backoff, hshift, Nat.pow_succ, ← Nat.mul_assoc]
  omega

theorem backoff_of_le (p : RetryPolicy) {failed : Nat} (h : 32 ≤ failed) : p.backoff failed = p.backoff 32 := by
  have hshift : min (failed - 1) 31 = min (32 - 1) 31 := by omega
  unfold backoff
  rw [hshift]

theorem nanos_backoff_mono (p : RetryPolicy) {m n : Nat} (h : m ≤ n) :
    (p.backoff m).nanos ≤ (p.backoff n).nanos := by
  have hpow : 2 ^ min (m - 1) 31 ≤ 2 ^ min (n - 1) 31 := Nat.pow_le_pow_right (by decide) (by omega)
  have hproduct := Nat.mul_le_mul_left p.initialBackoff.nanos hpow
  rw [nanos_backoff, nanos_backoff]
  omega

/-- Pauses double from the first failure on, up to the cap: 31 times and then no more, and so for good if 31 times
are enough to reach the cap. In words they come to the same, and no operation leaves its word. -/
theorem backoff_doubles (p : RetryPolicy) :
    (∀ failed, (p.backoff failed).nanos ≤ p.maxBackoff.nanos ∧
      (p.backoff failed).nanos ≤ (p.backoff (failed + 1)).nanos) ∧
    p.backoff 0 = p.backoff 1 ∧ (p.backoff 1).nanos = min p.initialBackoff.nanos p.maxBackoff.nanos ∧
    (∀ failed, 1 ≤ failed → failed ≤ 31 ∨ p.maxBackoff.nanos ≤ p.initialBackoff.nanos * 2 ^ 31 →
      (p.backoff (failed + 1)).nanos = min (2 * (p.backoff failed).nanos) p.maxBackoff.nanos) ∧
    (∀ failed, 32 ≤ failed → p.backoff failed = p.backoff 32) ∧
    ∀ failed : UInt32, p.backoffInWords? failed = some (p.backoff failed.toNat).parts := by
  refine ⟨fun failed => ⟨?_, p.nanos_backoff_mono (Nat.le_succ failed)⟩, rfl, ?_, fun failed hpos h => ?_,
    fun failed => p.backoff_of_le, p.backoffInWords_eq⟩
  · rw [nanos_backoff]
    exact Nat.min_le_right _ _
  · rw [nanos_backoff, Nat.sub_self, Nat.zero_min, Nat.pow_zero, Nat.mul_one]
  · by_cases hle : failed ≤ 31
    · exact p.nanos_backoff_succ hpos hle
    · -- The cap has been reached, and the double of it is no less.
      have hcap : (p.backoff 32).nanos = p.maxBackoff.nanos := by
        rw [nanos_backoff]
        exact Nat.min_eq_right (h.resolve_left hle)
      have hnow : p.backoff failed = p.backoff 32 := p.backoff_of_le (by omega)
      have hnext : p.backoff (failed + 1) = p.backoff 32 := p.backoff_of_le (by omega)
      rw [hnow, hnext, hcap]
      omega

namespace Sample

def patient : RetryPolicy := ⟨standardAttempts, .ofSeconds (2 ^ 63), .ofSeconds (2 ^ 64)⟩

end Sample

theorem backoff_doubles_saturated :
    let p := Sample.patient
    (p.backoff 2).nanos = min (2 * (p.backoff 1).nanos) p.maxBackoff.nanos ∧
      p.maxBackoff.nanos ≤ p.initialBackoff.nanos * 2 ^ 31 ∧
      (p.backoff 33).nanos = min (2 * (p.backoff 32).nanos) p.maxBackoff.nanos ∧
      p.backoff 33 = p.backoff 32 ∧ p.backoffInWords? 33 = some (p.backoff 33).parts := by
  intro p
  obtain ⟨-, -, -, hdouble, hlate, hwords⟩ := p.backoff_doubles
  have hcap : p.maxBackoff.nanos ≤ p.initialBackoff.nanos * 2 ^ 31 := by decide
  exact ⟨hdouble 1 (by decide) (.inl (by decide)), hcap, hdouble 32 (by decide) (.inr hcap),
    hlate 33 (by decide), hwords 33⟩

end RetryPolicy

end ForestCourier
