/-!
# Bisection

One search by halving serves every sorted table of the library: the point at which a test that
holds of an initial segment stops holding. The window `[lo, hi)` shrinks in every round, so the
search ends on any array; on a sorted one its answer is the length of the initial segment.
-/

namespace ColorCensus

/-- Halves the window `[lo, hi)` until it is empty: to the right of a middle that passes the
test, to the left of one that fails it. -/
def partitionPointIn {α : Type} (p : α → Bool) (a : Array α) (lo hi : Nat) (h : hi ≤ a.size) :
    Nat :=
  if hlt : lo < hi then
    if p a[(lo + hi) / 2] then partitionPointIn p a ((lo + hi) / 2 + 1) hi h
    else partitionPointIn p a lo ((lo + hi) / 2) (by omega)
  else lo
termination_by hi - lo

/-- The number of leading elements that pass the test, if none passes after one that fails. -/
def partitionPoint {α : Type} (p : α → Bool) (a : Array α) : Nat :=
  partitionPointIn p a 0 a.size (Nat.le_refl _)

theorem partitionPointIn_le {α : Type} {p : α → Bool} {a : Array α} {lo hi : Nat}
    {h : hi ≤ a.size} (hle : lo ≤ hi) : partitionPointIn p a lo hi h ≤ hi := by
  fun_induction partitionPointIn p a lo hi h with
  | case1 lo hi h hlt hp ih => exact ih (by omega)
  | case2 lo hi h hlt hp ih => exact Nat.le_trans (ih (by omega)) (by omega)
  | case3 => exact hle

theorem partitionPoint_le_size {α : Type} (p : α → Bool) (a : Array α) :
    partitionPoint p a ≤ a.size := partitionPointIn_le (Nat.zero_le _)

/-- Cut at `k`, the array passes the test before and fails it from there on: then `k` is found. -/
theorem partitionPointIn_eq {α : Type} {p : α → Bool} {a : Array α} {lo hi k : Nat}
    {h : hi ≤ a.size} (hlo : lo ≤ k) (hhi : k ≤ hi)
    (hp : ∀ i (hi : i < a.size), p a[i] = true ↔ i < k) : partitionPointIn p a lo hi h = k := by
  fun_induction partitionPointIn p a lo hi h with
  | case1 lo hi h hlt hmid ih =>
      have := (hp _ (by omega)).mp hmid
      exact ih (by omega) hhi
  | case2 lo hi h hlt hmid ih =>
      have := mt (hp _ (by omega)).mpr hmid
      exact ih hlo (by omega)
  | case3 => omega

theorem partitionPoint_eq {α : Type} {p : α → Bool} {a : Array α} {k : Nat} (hk : k ≤ a.size)
    (hp : ∀ i (hi : i < a.size), p a[i] = true ↔ i < k) : partitionPoint p a = k :=
  partitionPointIn_eq (Nat.zero_le _) hk hp

theorem getElem_iff_lt_countP {α : Type} {p : α → Bool} {l : List α}
    (h : l.Pairwise fun a b => p b = true → p a = true) :
    ∀ i (hi : i < l.length), p l[i] = true ↔ i < l.countP p := by
  induction l with
  | nil => exact fun i hi => nomatch hi
  | cons a l ih =>
      obtain ⟨ha, hl⟩ := List.pairwise_cons.mp h
      intro i hi
      cases hp : p a with
      | true =>
          rw [List.countP_cons_of_pos hp]
          cases i with
          | zero => exact ⟨fun _ => Nat.succ_pos _, fun _ => hp⟩
          | succ i =>
              rw [List.getElem_cons_succ, ih hl i (Nat.lt_of_succ_lt_succ hi)]
              omega
      | false =>
          have hnone : ∀ b ∈ a :: l, ¬ p b = true := by
            intro b hb hpass
            rcases List.mem_cons.mp hb with rfl | hb
            · exact Bool.noConfusion (hp.symm.trans hpass)
            · exact Bool.noConfusion (hp.symm.trans (ha b hb hpass))
          rw [List.countP_eq_zero.mpr hnone]
          exact ⟨fun hpass => absurd hpass (hnone _ (List.getElem_mem hi)), nofun⟩

theorem partitionPoint_eq_countP {α : Type} {p : α → Bool} {l : List α}
    (h : l.Pairwise fun a b => p b = true → p a = true) :
    partitionPoint p l.toArray = l.countP p :=
  partitionPoint_eq List.countP_le_length (getElem_iff_lt_countP h)

end ColorCensus
