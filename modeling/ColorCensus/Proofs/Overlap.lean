import ColorCensus.Occurrence.Overlap
import Mathlib.Order.Lattice

/-!
# The overlap test looks at every span

`overlapsAny` looks at one span only, the last one that begins before the end
of the span asked about. If starts and ends do not decrease, that one ends last
among all that begin early enough, so it overlaps if any of them does. Nothing
more is asked of the spans: they may be empty, touch or be equal, and a span
asked about may reach over any number of them.
-/

namespace ColorCensus

variable {α : Type} [LinearOrder α]

theorem overlapsAny_eq_true_iff {spans : List (α × α)}
    (sorted : spans.Pairwise fun p q => p.1 ≤ q.1 ∧ p.2 ≤ q.2) {start stop : α} :
    overlapsAny spans.toArray start stop = true ↔ ∃ s ∈ spans, s.1 < stop ∧ start < s.2 := by
  have early : spans.Pairwise fun p q =>
      decide (q.1 < stop) = true → decide (p.1 < stop) = true := by
    refine sorted.imp fun hpq h => ?_
    rw [decide_eq_true_eq] at h ⊢
    exact lt_of_le_of_lt hpq.1 h
  have counted := getElem_iff_lt_countP early
  rw [overlapsAny, partitionPoint_eq_countP early]
  cases hcount : spans.countP fun s => decide (s.1 < stop) with
  | zero =>
      constructor
      · exact nofun
      · rintro ⟨s, hs, hlt, -⟩
        exact absurd (decide_eq_true hlt) (List.countP_eq_zero.mp hcount s hs)
  | succ k =>
      rw [hcount] at counted
      have hk : k < spans.length := by
        have := List.countP_le_length (p := fun s => decide (s.1 < stop)) (l := spans)
        omega
      dsimp only
      rw [List.getElem?_toArray, List.getElem?_eq_getElem hk, Option.any_some, decide_eq_true_eq]
      constructor
      · intro h
        have hearly := (counted k hk).mpr (Nat.lt_succ_self k)
        exact ⟨spans[k], List.getElem_mem hk, of_decide_eq_true hearly, h⟩
      · rintro ⟨s, hs, hlt, hstart⟩
        obtain ⟨i, hi, rfl⟩ := List.getElem_of_mem hs
        have hik : i < k + 1 := (counted i hi).mp (decide_eq_true hlt)
        have hends : spans[i].2 ≤ spans[k].2 := by
          rcases Nat.lt_or_eq_of_le (Nat.le_of_lt_succ hik) with hlt | rfl
          · exact (List.pairwise_iff_getElem.mp sorted i k hi hk hlt).2
          · exact le_refl _
        exact lt_of_lt_of_le hstart hends

/-- Neither the starts nor the ends of spans decrease. -/
structure Staggered (spans : List (α × α)) : Prop where
  starts : (spans.map (·.1)).Pairwise (· ≤ ·)
  ends : (spans.map (·.2)).Pairwise (· ≤ ·)

theorem Staggered.sorted {spans : List (α × α)} (h : Staggered spans) :
    spans.Pairwise fun p q => p.1 ≤ q.1 ∧ p.2 ≤ q.2 :=
  (List.pairwise_map.mp h.starts).and (List.pairwise_map.mp h.ends)

end ColorCensus
