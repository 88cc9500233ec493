/-!
# Leading slices

The first elements of a list, where a negative count says how many to leave out at the end.
-/

namespace ColorCensus

def upTo {α : Type} (count : Int) (xs : List α) : List α :=
  if 0 ≤ count then xs.take count.toNat else xs.take (xs.length - (-count).toNat)

theorem upTo_ofNat {α : Type} (n : Nat) (xs : List α) : upTo (n : Int) xs = xs.take n := by
  simp [upTo]

end ColorCensus
