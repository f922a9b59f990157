import ForestCourier.Discovery.Queries
import ForestCourier.Session.Answer
import ForestCourier.Split.Basic

/-!
The answer to the split query: redaction rules up to their marker, if rules were asked for; a forest,
its record count and its host, over and over; and behind a marker the replicas of some of them.
-/

namespace ForestCourier

structure SplitStream where
  redactionRules : List String
  forests : List RecordCount
deriving DecidableEq

namespace SplitStream

def recordCount : Answer.Reads RecordCount := fun a => do
  let (forest, a) ← Answer.forestId a
  let (records, a) ← Answer.int "record count" a
  let (host, a) ← Answer.text "forest host" a
  .ok (⟨forest, host, records, []⟩, a)

/-- The forests end with the answer or at the marker. -/
def forestsEnd (a : Answer) : Option Answer :=
  if a.rest.isEmpty then some a else a.behind? Discovery.replicaMarker

def ofItems (items : List Item) (expectRedaction : Bool) : Except ProtocolError SplitStream := do
  let (rules, a) ←
    if expectRedaction then
      Answer.readSection (Answer.behind? Discovery.redactionMarker) (Answer.text "redaction rule")
        (.ofItems items)
    else .ok ([], .ofItems items)
  let (forests, a) ← Answer.readSection forestsEnd recordCount a
  let groups ← Answer.all Answer.replicaGroup a
  let forests ← Answer.attach (·.forest) (fun replicas c => { c with replicas := replicas }) forests
    groups
  .ok ⟨rules, forests⟩

end SplitStream

end ForestCourier
