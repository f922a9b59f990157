/-!
Pauses between attempts. A duration is a number of nanoseconds of at most 64 bits of seconds, and
stays at the longest one rather than exceed it; the pause doubles with every failure up to a cap.
-/

namespace ForestCourier

structure Duration where
  nanos : Nat
  nanos_lt : nanos < UInt64.size * 1000000000 := by decide
deriving DecidableEq

namespace Duration

/-- The duration of the given length, or the longest one. -/
def saturate (nanos : Nat) : Duration :=
  ⟨min nanos (UInt64.size * 1000000000 - 1), by unfold UInt64.size; omega⟩

def ofMillis (ms : Nat) : Duration := saturate (ms * 1000000)

def ofSeconds (s : Nat) : Duration := saturate (s * 1000000000)

def seconds (d : Duration) : Nat := d.nanos / 1000000000

def subsecond (d : Duration) : Nat := d.nanos % 1000000000

def millis (d : Duration) : Nat := d.nanos / 1000000

def scale (d : Duration) (n : Nat) : Duration := saturate (d.nanos * n)

def shorter (a b : Duration) : Duration := if a.nanos ≤ b.nanos then a else b

theorem nanos_shorter (a b : Duration) : (shorter a b).nanos = min a.nanos b.nanos := by
  unfold shorter
  split <;> omega

theorem nanos_scale (d : Duration) (n : Nat) :
    (d.scale n).nanos = min (d.nanos * n) (UInt64.size * 1000000000 - 1) := rfl

end Duration

structure RetryPolicy where
  maxAttempts : Nat
  initialBackoff : Duration
  maxBackoff : Duration
deriving DecidableEq

namespace RetryPolicy

def standardAttempts : Nat := 15

/-- A transaction of several batches sends all of them again on every attempt, and so gets fewer. -/
def multiBatchAttempts : Nat := 3

def standardBackoff : Duration := .ofMillis 500

def writerMaxBackoff : Duration := .ofSeconds 120

def readerMaxBackoff : Duration := .ofSeconds 30

def writer : RetryPolicy := ⟨standardAttempts, standardBackoff, writerMaxBackoff⟩

def reader : RetryPolicy := ⟨standardAttempts, standardBackoff, readerMaxBackoff⟩

/-- The pause after failed attempt number `failed`, counted from one. -/
def backoff (p : RetryPolicy) (failed : Nat) : Duration :=
  .shorter (p.initialBackoff.scale (Nat.pow 2 (min (failed - 1) 31))) p.maxBackoff

end RetryPolicy

end ForestCourier
