import ColorCensus.Proofs.Groups
import ColorCensus.Proofs.StableSort
import Mathlib.Algebra.Ring.Nat

/-!
# Elements and their places

A list may hold one value several times, so what is said of each of its elements is said of the
elements together with their places. `Parts` says that a list is dealt out into several without
loss or repetition, and `SortedStably` that it is put in order with the elements of one key left
as they were. Labels deal a list out (`parts_byLabel`), and merge sort puts one in order
(`sortedStably_mergeSort`).
-/

namespace ColorCensus

variable {α β κ : Type}

theorem pairwise_zipIdx (xs : List α) : xs.zipIdx.Pairwise fun a b => a.2 < b.2 := by
  have hplaces : (xs.zipIdx.map Prod.snd).Pairwise (· < ·) := by
    rw [List.zipIdx_map_snd]
    exact List.pairwise_lt_range'
  exact List.pairwise_map.mp hplaces

theorem map_fst_filter_zipIdx (p : α → Bool) (xs : List α) :
    (xs.zipIdx.filter fun a => p a.1).map (·.1) = xs.filter p := by
  calc (xs.zipIdx.filter fun a => p a.1).map (·.1)
      = (xs.zipIdx.map Prod.fst).filter p := List.filter_map.symm
    _ = xs.filter p := by rw [List.zipIdx_map_fst]

theorem mem_of_mem_zipIdx {xs : List α} {a : α × Nat} (h : a ∈ xs.zipIdx) : a.1 ∈ xs := by
  have hmem : a.1 ∈ xs.zipIdx.map Prod.fst := List.mem_map_of_mem h
  rwa [List.zipIdx_map_fst] at hmem

theorem exists_mem_zipIdx {xs : List α} {a : α} (h : a ∈ xs) : ∃ b ∈ xs.zipIdx, b.1 = a := by
  rw [← List.zipIdx_map_fst 0 xs] at h
  exact List.mem_map.mp h

/-! ## Parts -/

/-- A list is dealt out: each of its elements is in exactly one part, each part keeps the order
of the list, and none is empty. -/
structure Parts (xs : List α) (parts : List (List (α × Nat))) : Prop where
  covers : parts.flatten.Perm xs.zipIdx
  ordered : ∀ part ∈ parts, part.Pairwise fun a b => a.2 < b.2
  nonempty : ∀ part ∈ parts, part ≠ []

theorem Parts.sum_length {xs : List α} {parts : List (List (α × Nat))} (h : Parts xs parts) :
    (parts.map List.length).sum = xs.length := by
  rw [← List.length_flatten, h.covers.length_eq, List.length_zipIdx]

section

variable [DecidableEq β] {label : α → β} {labels : List β} {xs : List α}

/-- The elements with each of some labels, in their order. -/
def byLabel (label : α → β) (labels : List β) (xs : List α) : List (List (α × Nat)) :=
  labels.map fun k => xs.zipIdx.filter fun a => label a.1 = k

theorem parts_byLabel (nodup : labels.Nodup) (used : ∀ k, k ∈ labels ↔ ∃ a ∈ xs, label a = k) :
    Parts xs (byLabel label labels xs) where
  covers := by
    have hcover : ∀ a ∈ xs.zipIdx, label a.1 ∈ labels :=
      fun a ha => (used _).mpr ⟨a.1, mem_of_mem_zipIdx ha, rfl⟩
    have hperm : (labels.flatMap fun k => xs.zipIdx.filter fun a => label a.1 = k).Perm
        xs.zipIdx := perm_flatMap_filter nodup hcover
    rwa [List.flatMap_def] at hperm
  ordered := by
    intro part hpart
    obtain ⟨k, -, rfl⟩ := List.mem_map.mp hpart
    exact (pairwise_zipIdx xs).filter _
  nonempty := by
    intro part hpart
    obtain ⟨k, hk, rfl⟩ := List.mem_map.mp hpart
    obtain ⟨a, ha, hlabel⟩ := (used k).mp hk
    obtain ⟨b, hb, rfl⟩ := exists_mem_zipIdx ha
    exact List.ne_nil_of_mem (List.mem_filter.mpr ⟨hb, decide_eq_true hlabel⟩)

theorem exists_mem_byLabel_iff (used : ∀ k, k ∈ labels ↔ ∃ a ∈ xs, label a = k) {a b : α × Nat}
    (ha : a ∈ xs.zipIdx) (hb : b ∈ xs.zipIdx) :
    (∃ part ∈ byLabel label labels xs, a ∈ part ∧ b ∈ part) ↔ label a.1 = label b.1 := by
  constructor
  · rintro ⟨part, hpart, hapart, hbpart⟩
    obtain ⟨k, -, rfl⟩ := List.mem_map.mp hpart
    rw [of_decide_eq_true (List.mem_filter.mp hapart).2,
      of_decide_eq_true (List.mem_filter.mp hbpart).2]
  · intro h
    refine ⟨_, List.mem_map_of_mem ((used _).mpr ⟨a.1, mem_of_mem_zipIdx ha, rfl⟩),
      List.mem_filter.mpr ⟨ha, decide_eq_true rfl⟩,
      List.mem_filter.mpr ⟨hb, decide_eq_true h.symm⟩⟩

end

/-! ## Stable order -/

/-- A list is another one put in order: the elements stand in ascending order of their keys, and
those of one key as they stood before. -/
def SortedStably (key : α → κ) (lt : κ → κ → Prop) (xs ys : List α) : Prop :=
  ∃ placed : List (α × Nat), placed.Perm xs.zipIdx ∧ ys = placed.map (·.1) ∧
    placed.Pairwise fun a b => lt (key a.1) (key b.1) ∨ key a.1 = key b.1 ∧ a.2 < b.2

/-- Merge sort is the same as a sort of the elements with their places, where the place decides
between elements that compare alike; so no two elements with their places do. -/
theorem sortedStably_mergeSort {le : α → α → Bool} (trans : ∀ a b c, le a b → le b c → le a c)
    (total : ∀ a b, le a b || le b a) {key : α → κ} {lt : κ → κ → Prop}
    (hle : ∀ a b, le a b = true ↔ lt (key a) (key b) ∨ key a = key b) (xs : List α) :
    SortedStably key lt xs (xs.mergeSort le) := by
  have hperm := List.mergeSort_perm xs.zipIdx (List.zipIdxLE le)
  refine ⟨_, hperm, List.mergeSort_zipIdx.symm, ?_⟩
  have hsorted := List.pairwise_mergeSort (List.zipIdxLE_trans trans)
    (List.zipIdxLE_total total) xs.zipIdx
  have hplaces : (xs.zipIdx.mergeSort (List.zipIdxLE le)).Pairwise fun a b => a.2 ≠ b.2 :=
    (hperm.pairwise_iff fun h => h.symm).mpr ((pairwise_zipIdx xs).imp Nat.ne_of_lt)
  refine (hsorted.and hplaces).imp ?_
  rintro a b ⟨hab, hne⟩
  rw [List.zipIdxLE] at hab
  split at hab
  · next hle' =>
      rcases (hle _ _).mp hle' with hlt | hkey
      · exact .inl hlt
      · rw [if_pos ((hle _ _).mpr (.inr hkey.symm)), decide_eq_true_eq] at hab
        exact .inr ⟨hkey, Nat.lt_of_le_of_ne hab hne⟩
  · cases hab

end ColorCensus
