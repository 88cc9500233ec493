import ColorCensus.Bisection

/-!
# Overlapping spans

Whether a half-open span meets one of many. The spans at hand are disjoint and sorted, so the
last one that begins before the end of the span asked about is the only candidate.
-/

namespace ColorCensus

def overlapsAny {α : Type} [LT α] [DecidableLT α] (spans : Array (α × α)) (start stop : α) : Bool :=
  match partitionPoint (fun s => decide (s.1 < stop)) spans with
  | 0 => false
  | k + 1 => spans[k]?.any fun s => decide (start < s.2)

end ColorCensus
