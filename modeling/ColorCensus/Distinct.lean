/-!
# Distinct elements in order of first appearance

Repetitions of a key are dropped, the first element with each key stays where it is.
-/

namespace ColorCensus

def distinctBy {α β : Type} [DecidableEq β] (key : α → β) : List α → List α
  | [] => []
  | a :: rest => a :: (distinctBy key rest).filter fun b => key b ≠ key a

def distinct {α : Type} [DecidableEq α] (xs : List α) : List α := distinctBy id xs

theorem distinctBy_sublist {α β : Type} [DecidableEq β] (key : α → β) (xs : List α) :
    (distinctBy key xs).Sublist xs := by
  induction xs with
  | nil => exact List.Sublist.refl _
  | cons a rest ih => exact (List.filter_sublist.trans ih).cons_cons a

theorem pairwise_distinctBy {α β : Type} [DecidableEq β] (key : α → β) (xs : List α) :
    (distinctBy key xs).Pairwise fun a b => key a ≠ key b := by
  induction xs with
  | nil => exact List.Pairwise.nil
  | cons a rest ih =>
      rw [distinctBy, List.pairwise_cons]
      refine ⟨fun b hb => ?_, ih.filter _⟩
      exact Ne.symm (of_decide_eq_true (List.mem_filter.mp hb).2)

theorem exists_mem_distinctBy {α β : Type} [DecidableEq β] {key : α → β} {xs : List α} {a : α}
    (h : a ∈ xs) : ∃ b ∈ distinctBy key xs, key b = key a := by
  induction xs with
  | nil => cases h
  | cons c rest ih =>
      by_cases hc : key c = key a
      · exact ⟨c, List.mem_cons_self, hc⟩
      · rcases List.mem_cons.mp h with rfl | h
        · exact absurd rfl hc
        · obtain ⟨b, hb, hk⟩ := ih h
          have hne : key b ≠ key c := fun h => hc (h.symm.trans hk)
          exact ⟨b, List.mem_cons_of_mem _ (List.mem_filter.mpr ⟨hb, decide_eq_true hne⟩), hk⟩

theorem mem_distinct {α : Type} [DecidableEq α] {xs : List α} {a : α} :
    a ∈ distinct xs ↔ a ∈ xs := by
  constructor
  · exact fun h => (distinctBy_sublist id xs).mem h
  · intro h
    have hex : ∃ b ∈ distinctBy id xs, id b = id a := exists_mem_distinctBy h
    obtain ⟨b, hb, rfl⟩ := hex
    exact hb

theorem nodup_distinct {α : Type} [DecidableEq α] (xs : List α) : (distinct xs).Nodup :=
  pairwise_distinctBy id xs

theorem distinct_cons {α : Type} [DecidableEq α] (a : α) (xs : List α) :
    distinct (a :: xs) = a :: (distinct xs).filter (· ≠ a) := rfl

theorem distinct_eq_self {α : Type} [DecidableEq α] {xs : List α} (h : xs.Nodup) :
    distinct xs = xs := by
  induction xs with
  | nil => rfl
  | cons a xs ih =>
      obtain ⟨ha, hxs⟩ := List.nodup_cons.mp h
      rw [distinct_cons, ih hxs, List.filter_eq_self.mpr]
      intro b hb
      exact decide_eq_true fun hba => ha (hba ▸ hb)

theorem distinct_append {α : Type} [DecidableEq α] (xs ys : List α) :
    distinct (xs ++ ys) = distinct xs ++ (distinct ys).filter (· ∉ xs) := by
  induction xs with
  | nil => exact (List.filter_eq_self.mpr fun _ _ => decide_eq_true List.not_mem_nil).symm
  | cons a xs ih =>
      rw [List.cons_append, distinct_cons, ih, distinct_cons, List.filter_append,
        List.filter_filter, List.cons_append]
      simp [not_or]

theorem distinct_append_congr {α : Type} [DecidableEq α] {xs ys : List α}
    (h : distinct xs = distinct ys) (zs : List α) : distinct (xs ++ zs) = distinct (ys ++ zs) := by
  have hmem : ∀ a, a ∈ xs ↔ a ∈ ys := fun a => by
    rw [← mem_distinct, h, mem_distinct]
  rw [distinct_append, distinct_append, h]
  simp only [hmem]

theorem distinct_concat_of_mem {α : Type} [DecidableEq α] {xs : List α} {a : α} (h : a ∈ xs) :
    distinct (xs ++ [a]) = distinct xs := by
  have hnone : (distinct [a]).filter (· ∉ xs) = [] :=
    List.filter_cons_of_neg (by simp [h])
  rw [distinct_append, hnone, List.append_nil]

theorem distinct_append_filter {α : Type} [DecidableEq α] {xs ys : List α} {keep : α → Bool}
    (h : ∀ a ∈ ys, keep a = false → a ∈ xs) :
    distinct (xs ++ ys.filter keep) = distinct (xs ++ ys) := by
  induction ys generalizing xs with
  | nil => rfl
  | cons a ys ih =>
      rw [List.append_cons]
      cases hkeep : keep a with
      | true =>
          rw [List.filter_cons_of_pos hkeep, List.append_cons]
          exact ih fun b hb hdrop =>
            List.mem_append_left _ (h b (List.mem_cons_of_mem _ hb) hdrop)
      | false =>
          have ha : a ∈ xs := h a List.mem_cons_self hkeep
          rw [List.filter_cons_of_neg (by simp [hkeep]),
            distinct_append_congr (distinct_concat_of_mem ha) ys]
          exact ih fun b hb hdrop => h b (List.mem_cons_of_mem _ hb) hdrop

end ColorCensus
