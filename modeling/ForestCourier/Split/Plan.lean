import ForestCourier.Split.Basic

/-!
Planning of splits. A forest is cut into ranges of the largest size allowed; a forest of unknown size
is one unbounded range. The splits of all forests are then dealt out in rounds, first among the
forests of a host and then among the hosts, so that few readers spread over every host.
-/

namespace ForestCourier.Split

variable {ε : Type}

/-- One unbounded split from `start` on, as a pattern for the others. -/
def whole (c : RecordCount) : Split := ⟨c.forest, c.host, 1, none, true, c.replicas, []⟩

def chunkCount (count size : UInt64) : Except (Fault ε) UInt64 :=
  if count % size = 0 then .ok (count / size) else Word.add (count / size) 1

def chunk (c : RecordCount) (count size chunks i : UInt64) : Except (Fault ε) Split := do
  let start ← Word.add (← Word.mul i size) 1
  let next ← Word.add i 1
  let stop := min (← Word.mul next size) count
  .ok { whole c with start := start, stop := some stop, isLast := next = chunks }

def cut (c : RecordCount) (maxSize : UInt64) : Except (Fault ε) (List Split) :=
  match c.estimate? with
  | none => .ok [whole c]
  | some count =>
    if count = 0 then .ok [whole c]
    else do
      let size := max maxSize 1
      let chunks ← chunkCount count size
      (List.range chunks.toNat).mapM fun i => chunk c count size chunks (UInt64.ofNat i)

/-- The items by key, keys in order of first appearance. -/
def groupBy {α κ : Type} [BEq κ] (key : α → κ) (xs : List α) : List (List α) :=
  (xs.map key).eraseDups.map fun k => xs.filter fun x => key x == k

/-- Takes one item of each list in turn, over and over, until all lists are used up. -/
def deal {α : Type} (groups : List (List α)) : List α :=
  let rounds := (groups.map List.length).foldl max 0
  (List.range rounds).flatMap fun r => groups.filterMap fun g => g[r]?

/-- The order in which splits are read, from the splits of each forest. The host of a forest's splits
is the one of its first. -/
def interleave (perForest : List (List Split)) : List Split :=
  let forests := perForest.filter fun splits => !splits.isEmpty
  deal ((groupBy (fun splits : List Split => splits.head?.map (·.host)) forests).map deal)

def plan (forests : List RecordCount) (maxSize : UInt64) (rules : List String) :
    Except (Fault ε) (List Split) := do
  let perForest ← forests.mapM fun c => cut c maxSize
  .ok (interleave (perForest.map fun splits => splits.map fun s => { s with redactionRules := rules }))

end ForestCourier.Split
