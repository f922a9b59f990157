/-!
How an operation ends when it does not end well. Document counts, loads and positions are 64-bit
words, and their sums and products are never allowed to wrap: an operation that would need a larger
word is abandoned on the spot, which is kept apart from a failure that the operation reports.
-/

namespace ForestCourier

inductive Overflow where
  | addition
  | multiplication
deriving DecidableEq

def Overflow.message : Overflow → String
  | .addition => "attempt to add with overflow"
  | .multiplication => "attempt to multiply with overflow"

inductive Fault (ε : Type) where
  | failed (cause : ε)
  | overflow (kind : Overflow)
deriving DecidableEq

namespace Fault

variable {ε δ : Type}

def map (f : ε → δ) : Fault ε → Fault δ
  | failed cause => failed (f cause)
  | overflow kind => overflow kind

end Fault

namespace Word

variable {ε : Type}

def add (a b : UInt64) : Except (Fault ε) UInt64 :=
  if a.toNat + b.toNat < UInt64.size then .ok (a + b) else .error (.overflow .addition)

def mul (a b : UInt64) : Except (Fault ε) UInt64 :=
  if a.toNat * b.toNat < UInt64.size then .ok (a * b) else .error (.overflow .multiplication)

/-- Subtraction that stops at zero. -/
def monus (a b : UInt64) : UInt64 := if b ≤ a then a - b else 0

theorem toNat_of_add {a b c : UInt64} (h : add (ε := ε) a b = .ok c) :
    c.toNat = a.toNat + b.toNat := by
  unfold add at h
  split at h
  · next hlt =>
    cases h
    simpa [UInt64.toNat_add, UInt64.size] using hlt
  · cases h

theorem toNat_of_mul {a b c : UInt64} (h : mul (ε := ε) a b = .ok c) :
    c.toNat = a.toNat * b.toNat := by
  unfold mul at h
  split at h
  · next hlt =>
    cases h
    simpa [UInt64.toNat_mul, UInt64.size] using hlt
  · cases h

theorem mul_of_le {a b c : UInt64} (h : a.toNat * b.toNat ≤ c.toNat) :
    ∃ d, mul (ε := ε) a b = .ok d ∧ d.toNat = a.toNat * b.toNat := by
  have hlt : a.toNat * b.toNat < UInt64.size := Nat.lt_of_le_of_lt h c.toNat_lt
  have hmul : mul (ε := ε) a b = .ok (a * b) := if_pos hlt
  exact ⟨a * b, hmul, toNat_of_mul hmul⟩

theorem toNat_monus (a b : UInt64) : (monus a b).toNat = a.toNat - b.toNat := by
  unfold monus
  split
  · next h => exact UInt64.toNat_sub_of_le a b h
  · next h =>
    have : a.toNat < b.toNat := by simpa [UInt64.le_iff_toNat_le] using h
    simp only [UInt64.toNat_zero]
    omega

end Word

end ForestCourier
