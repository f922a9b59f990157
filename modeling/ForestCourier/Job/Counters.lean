/-!
Counters of a job. They are words that wrap around.
-/

namespace ForestCourier

structure Counters where
  estimated : UInt64
  committed : UInt64
  failed : UInt64
deriving DecidableEq

namespace Counters

def zero : Counters := ⟨0, 0, 0⟩

def addEstimated (c : Counters) (n : UInt64) : Counters := { c with estimated := c.estimated + n }

def addCommitted (c : Counters) (n : UInt64) : Counters := { c with committed := c.committed + n }

def addFailed (c : Counters) (n : UInt64) : Counters := { c with failed := c.failed + n }

def estimatedName : String := "contentpump_estimated_input_records"

def committedName : String := "contentpump_output_records_committed"

def failedName : String := "contentpump_output_records_failed"

end Counters

end ForestCourier
