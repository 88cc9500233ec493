/-!
# Sorting stably and keeping some

Merge sort is stable, so it makes no difference whether elements are dropped
before or after it. The proof inserts one element at a time: on either side the
new element stands behind those that are not above it and before the others,
and that place is the same in the list and in what is kept of it.
-/

namespace ColorCensus

variable {α : Type} {le : α → α → Bool}

theorem takeWhile_append_eq {p : α → Bool} {xs ys : List α}
    (hx : ∀ a ∈ xs, p a = true) (hy : ∀ a ∈ ys, p a = false) :
    (xs ++ ys).takeWhile p = xs := by
  rw [List.takeWhile_append_of_pos hx]
  cases ys with
  | nil => rw [List.takeWhile_nil, List.append_nil]
  | cons y ys =>
      rw [List.takeWhile_cons_of_neg (by simp [hy y List.mem_cons_self]), List.append_nil]

/-- Where merge sort puts a new first element: behind everything that is not
above it, and before everything that is. -/
theorem mergeSort_cons_cut (trans : ∀ a b c, le a b → le b c → le a c)
    (total : ∀ a b, le a b || le b a) (a : α) (l : List α) :
    ∃ below above, (a :: l).mergeSort le = below ++ a :: above ∧
      l.mergeSort le = below ++ above ∧
      (∀ b ∈ below, (!le a b) = true) ∧ ∀ b ∈ above, (!le a b) = false := by
  obtain ⟨below, above, h₁, h₂, hbelow⟩ := List.mergeSort_cons trans total a l
  refine ⟨below, above, h₁, h₂, hbelow, fun b hb => ?_⟩
  have sorted := List.pairwise_mergeSort trans total (a :: l)
  rw [h₁, List.pairwise_append] at sorted
  have hab : le a b = true := List.rel_of_pairwise_cons sorted.2.1 hb
  rw [hab]
  rfl

theorem filter_mergeSort (trans : ∀ a b c, le a b → le b c → le a c)
    (total : ∀ a b, le a b || le b a) (p : α → Bool) (l : List α) :
    (l.mergeSort le).filter p = (l.filter p).mergeSort le := by
  induction l with
  | nil => simp
  | cons a l ih =>
      obtain ⟨below, above, h₁, h₂, hbelow, habove⟩ := mergeSort_cons_cut trans total a l
      rw [h₂, List.filter_append] at ih
      by_cases ha : p a = true
      · obtain ⟨below', above', k₁, k₂, kbelow, kabove⟩ :=
          mergeSort_cons_cut trans total a (l.filter p)
        rw [k₂] at ih
        have hcut := congrArg (List.takeWhile fun b => !le a b) ih
        rw [takeWhile_append_eq (fun b hb => hbelow b (List.mem_filter.mp hb).1)
            (fun b hb => habove b (List.mem_filter.mp hb).1),
          takeWhile_append_eq kbelow kabove] at hcut
        have hrest : above.filter p = above' := by
          rw [hcut] at ih
          exact List.append_cancel_left ih
        rw [h₁, List.filter_append, List.filter_cons_of_pos ha, hcut, hrest,
          List.filter_cons_of_pos ha, k₁]
      · rw [h₁, List.filter_append, List.filter_cons_of_neg ha, ih, List.filter_cons_of_neg ha]

theorem filter_mergeSort_key (key : α → Nat) (p : α → Bool) (l : List α) :
    (l.mergeSort fun a b => decide (key a ≤ key b)).filter p =
      (l.filter p).mergeSort fun a b => decide (key a ≤ key b) := by
  refine filter_mergeSort (fun a b c => ?_) (fun a b => ?_) p l
  · simp only [decide_eq_true_eq]
    exact Nat.le_trans
  · simp only [Bool.or_eq_true, decide_eq_true_eq]
    exact Nat.le_total _ _

theorem mergeSort_key_eq_self {key : α → Nat} {l : List α}
    (h : l.Pairwise fun a b => key a ≤ key b) :
    (l.mergeSort fun a b => decide (key a ≤ key b)) = l :=
  List.mergeSort_of_pairwise (h.imp fun hab => decide_eq_true hab)

theorem mergeSort_key_sorted (key : α → Nat) (l : List α) :
    (l.mergeSort fun a b => decide (key a ≤ key b)).Pairwise fun a b => key a ≤ key b := by
  refine (List.pairwise_mergeSort (fun a b c => ?_) (fun a b => ?_) l).imp of_decide_eq_true
  · simp only [decide_eq_true_eq]
    exact Nat.le_trans
  · simp only [Bool.or_eq_true, decide_eq_true_eq]
    exact Nat.le_total _ _

end ColorCensus
