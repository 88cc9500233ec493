import ColorCensus.Proofs.Places
import ColorCensus.Proofs.Tallies
import Mathlib.Order.Bounds.Basic

/-!
# Groups and entries in their order

A file has a group if it is listed and a color occurs in it; both conditions are needed, since a
file without colors may be listed and an occurrence may be in a file that is not. The groups stand
in the order of the files, which is that of their names but for the root, and leaving some files out
does not disturb it.

Inside a group the entries are sorted by rank. The rank of an entry hangs on its group, since only
the lines of its occurrences there count; but the order of the ranks does not, and as it is a linear
one, comparing part after part, a stable sort by it is determined (`membersOf_sorted`).
-/

namespace ColorCensus

/-! ## Ranks -/

namespace Entry.Rank

variable {a b : Rank}

/-- A rank comes before another one: a later part counts only where the earlier ones are equal. -/
def Before (a b : Rank) : Prop :=
  a.kind < b.kind ∨ a.kind = b.kind ∧ (a.name < b.name ∨ a.name = b.name ∧
    (a.theme < b.theme ∨ a.theme = b.theme ∧ (a.value < b.value ∨ a.value = b.value ∧
      a.line < b.line)))

instance : Std.TransCmp compare :=
  inferInstanceAs (Std.TransCmp (compareLex (compareOn kind) (compareLex (compareOn name)
    (compareLex (compareOn theme) (compareLex (compareOn value) (compareOn line))))))

theorem compare_trans (a b c : Rank) (hab : (a.compare b).isLE = true)
    (hbc : (b.compare c).isLE = true) : (a.compare c).isLE = true :=
  Std.TransCmp.isLE_trans hab hbc

theorem compare_total (a b : Rank) : ((a.compare b).isLE || (b.compare a).isLE) = true := by
  have hswap : b.compare a = (a.compare b).swap := Std.OrientedCmp.eq_swap
  rw [hswap]
  cases a.compare b <;> rfl

theorem string_compare_eq_lt {s t : String} : Ord.compare s t = .lt ↔ s < t :=
  compareOfLessAndEq_eq_lt

theorem compare_isLE_iff : (a.compare b).isLE = true ↔ a.Before b ∨ a = b := by
  obtain ⟨ka, na, ta, va, la⟩ := a
  obtain ⟨kb, nb, tb, vb, lb⟩ := b
  simp only [compare, Before, Ordering.isLE_then_iff_or, Nat.compare_eq_lt, string_compare_eq_lt,
    Std.LawfulEqOrd.compare_eq_iff_eq, Nat.isLE_compare, Nat.le_iff_lt_or_eq, mk.injEq,
    and_or_left, or_assoc]

end Entry.Rank

namespace Entry

theorem firstLine_isLeast {os : List Occurrence} (h : os ≠ []) :
    IsLeast {n | ∃ o ∈ os, o.range.line = n} (firstLine os) := by
  have hne : os.map (·.range.line) ≠ [] := mt List.map_eq_nil_iff.mp h
  obtain ⟨line, hline⟩ := Option.isSome_iff_exists.mp (List.isSome_min?_of_ne_nil hne)
  obtain ⟨hmem, hleast⟩ := List.min?_eq_some_iff.mp hline
  rw [firstLine, hline, Option.getD_some]
  refine ⟨List.mem_map.mp hmem, ?_⟩
  rintro _ ⟨o, ho, rfl⟩
  exact hleast _ (List.mem_map_of_mem ho)

end Entry

namespace Inventory

/-! ## The entries of a group -/

/-- The entries that occur in a file, each with its occurrences there. -/
def occurring (es : List Entry) (file : String) : List (Entry × List Occurrence) :=
  (es.map fun e => (e, e.inFile file)).filter fun m => !m.2.isEmpty

theorem membersOf_eq (es : List Entry) (file : String) :
    membersOf es file = (occurring es file).mergeSort fun m n =>
      ((m.1.rank m.2).compare (n.1.rank n.2)).isLE := by
  unfold membersOf
  dsimp only
  rw [List.map_mergeSort (s := fun m n => ((m.1.rank m.2).compare (n.1.rank n.2)).isLE),
    List.map_map]
  · congr 1
    exact List.map_id _
  · intro a ha b hb
    obtain ⟨m, -, rfl⟩ := List.mem_map.mp ha
    obtain ⟨n, -, rfl⟩ := List.mem_map.mp hb
    rfl

/-- The entries of a group are sorted by rank, and those of one rank stand in the order of all
entries. -/
theorem membersOf_sorted (es : List Entry) (file : String) :
    SortedStably (fun m => m.1.rank m.2) Entry.Rank.Before (occurring es file)
      (membersOf es file) := by
  rw [membersOf_eq]
  refine sortedStably_mergeSort (fun m n k => ?_) (fun m n => ?_) (fun m n => ?_) _
  · exact Entry.Rank.compare_trans (m.1.rank m.2) (n.1.rank n.2) (k.1.rank k.2)
  · exact Entry.Rank.compare_total (m.1.rank m.2) (n.1.rank n.2)
  · exact Entry.Rank.compare_isLE_iff

theorem mem_membersOf {es : List Entry} {file : String} {m : Entry × List Occurrence} :
    m ∈ membersOf es file ↔ ∃ e ∈ es, (e, e.inFile file) = m ∧ m.2 ≠ [] := by
  rw [membersOf_eq, List.mem_mergeSort, occurring, List.mem_filter, List.mem_map]
  simp only [Bool.not_eq_true', List.isEmpty_eq_false_iff, ← exists_and_right, and_assoc]

variable {perFile : Bool} {os : List Occurrence}

theorem membersOf_ne_nil_iff {file : String} :
    membersOf (Entry.ofOccurrences perFile os) file ≠ [] ↔ ∃ o ∈ os, o.file = file := by
  have hperm := (membersOf_perm (Entry.ofOccurrences perFile os) file).trans
    ((Entry.ofOccurrences_perm perFile os).filter _)
  constructor
  · intro h
    obtain ⟨m, hm⟩ := List.exists_mem_of_ne_nil _ h
    obtain ⟨-, -, -, hne⟩ := mem_membersOf.mp hm
    obtain ⟨o, ho⟩ := List.exists_mem_of_ne_nil _ hne
    have hmem := hperm.mem_iff.mp (List.mem_flatMap.mpr ⟨m, hm, ho⟩)
    exact ⟨o, (List.mem_filter.mp hmem).1, of_decide_eq_true (List.mem_filter.mp hmem).2⟩
  · rintro ⟨o, ho, hfile⟩ hnone
    rw [hnone] at hperm
    have hmem : o ∈ os.filter fun o => o.file = file :=
      List.mem_filter.mpr ⟨ho, decide_eq_true hfile⟩
    exact absurd (hperm.mem_iff.mpr hmem) List.not_mem_nil

/-! ## The order of the files -/

theorem orderFiles_others (files : List String) (root : Option String) :
    (orderFiles files root).filter (some · ≠ root) =
      ((distinct files).filter (some · ≠ root)).mergeSort fun f g => decide (f ≤ g) := by
  unfold orderFiles
  dsimp only
  rw [List.filter_append, List.filter_eq_nil_iff.mpr, List.nil_append, List.filter_eq_self.mpr]
  · intro f hf
    rw [List.mem_mergeSort] at hf
    exact (List.mem_filter.mp hf).2
  · intro f hf
    simp only [Option.mem_toList, Option.filter_eq_some_iff] at hf
    simp [hf.1]

theorem orderFiles_others_pairwise (files : List String) (root : Option String) :
    ((orderFiles files root).filter (some · ≠ root)).Pairwise (· < ·) := by
  have hnodup : ((orderFiles files root).filter (some · ≠ root)).Nodup :=
    ((orderFiles_perm files root).nodup_iff.mpr (nodup_distinct files)).filter _
  rw [orderFiles_others] at hnodup ⊢
  have hsorted : (((distinct files).filter (some · ≠ root)).mergeSort fun f g =>
      decide (f ≤ g)).Pairwise fun f g => decide (f ≤ g) = true :=
    List.pairwise_mergeSort (fun f g h => by simpa using String.le_trans)
      (fun f g => by simpa using String.le_total f g) _
  refine (hsorted.and hnodup).imp ?_
  rintro f g ⟨hle, hne⟩
  by_contra hlt
  exact hne (String.le_antisymm (of_decide_eq_true hle) (String.not_lt.mp hlt))

/-! ## Groups -/

/-- The files of the groups: those that are listed and have an occurrence, each once, first the root
and then the others by name. -/
structure FilesArranged (os : List Occurrence) (files : List String) (root : Option String)
    (grouped : List String) : Prop where
  mem_iff : ∀ file, file ∈ grouped ↔ file ∈ files ∧ ∃ o ∈ os, o.file = file
  nodup : grouped.Nodup
  root_first : ∀ r ∈ root, r ∈ grouped → grouped.head? = some r
  others : (grouped.filter (some · ≠ root)).Pairwise (· < ·)

theorem groupsOf_filesArranged (files : List String) (root : Option String)
    (coverage : List (String × Theme.Coverage)) :
    FilesArranged os files root
      ((groupsOf (Entry.ofOccurrences perFile os) files root coverage).map (·.file)) := by
  have horder := orderFiles_perm files root
  rw [groupsOf_files]
  constructor
  case mem_iff =>
    intro file
    rw [List.mem_filter, horder.mem_iff, mem_distinct, Bool.not_eq_true',
      List.isEmpty_eq_false_iff]
    exact and_congr_right' membersOf_ne_nil_iff
  case nodup => exact (horder.nodup_iff.mpr (nodup_distinct files)).filter _
  case root_first =>
    intro r hr hmem
    obtain ⟨hlisted, hcolors⟩ := List.mem_filter.mp hmem
    have hroot : root.filter (· ∈ distinct files) = some r := by
      rw [hr, Option.filter_some_pos]
      exact decide_eq_true (horder.mem_iff.mp hlisted)
    rw [orderFiles, hroot, Option.toList_some, List.cons_append, List.filter_cons, if_pos hcolors,
      List.head?_cons]
  case others =>
    rw [List.filter_comm]
    exact (orderFiles_others_pairwise files root).filter _

end Inventory

/-- A group holds the occurrences of its file, each once, and no entry without any. -/
structure Group.Complete (os : List Occurrence) (g : Group) : Prop where
  all : (g.entries.flatMap (·.2)).Perm (os.filter fun o => o.file = g.file)
  nonempty : ∀ m ∈ g.entries, m.2 ≠ []
  restricted : ∀ m ∈ g.entries, m.2 = m.1.inFile g.file

/-- The entries of a group are sorted by rank, where the line of a rank is the first one of the
entry in the file. Entries of one rank keep the order of all entries. -/
structure Group.Ordered (es : List Entry) (g : Group) : Prop where
  sorted : SortedStably (fun m => m.1.rank m.2) Entry.Rank.Before (Inventory.occurring es g.file)
    g.entries
  line : ∀ m ∈ g.entries, IsLeast {n | ∃ o ∈ m.2, o.range.line = n} (m.1.rank m.2).line

namespace Inventory

variable {perFile : Bool} {os : List Occurrence} {files : List String} {root : Option String}
  {coverage : List (String × Theme.Coverage)} {g : Group}

theorem complete_of_mem_groupsOf
    (h : g ∈ groupsOf (Entry.ofOccurrences perFile os) files root coverage) : g.Complete os := by
  obtain ⟨-, hmembers⟩ := mem_groupsOf h
  constructor
  case all =>
    rw [hmembers]
    exact (membersOf_perm _ _).trans ((Entry.ofOccurrences_perm perFile os).filter _)
  case nonempty =>
    intro m hm
    rw [hmembers] at hm
    obtain ⟨-, -, -, hne⟩ := mem_membersOf.mp hm
    exact hne
  case restricted =>
    intro m hm
    rw [hmembers] at hm
    obtain ⟨e, -, rfl, -⟩ := mem_membersOf.mp hm
    rfl

theorem ordered_of_mem_groupsOf {es : List Entry} (h : g ∈ groupsOf es files root coverage) :
    g.Ordered es := by
  obtain ⟨-, hmembers⟩ := mem_groupsOf h
  constructor
  case sorted =>
    rw [hmembers]
    exact membersOf_sorted es g.file
  case line =>
    intro m hm
    rw [hmembers] at hm
    obtain ⟨-, -, -, hne⟩ := mem_membersOf.mp hm
    exact Entry.firstLine_isLeast hne

/-- There is a group for each listed file with an occurrence, the root's first and the others by
name. Each holds all occurrences of its file, and its entries are in order. -/
theorem groupsOf_arranged (perFile : Bool) (os : List Occurrence) (files : List String)
    (root : Option String) (coverage : List (String × Theme.Coverage)) :
    let es := Entry.ofOccurrences perFile os
    let gs := groupsOf es files root coverage
    FilesArranged os files root (gs.map (·.file)) ∧ ∀ g ∈ gs, g.Complete os ∧ g.Ordered es := by
  intro es gs
  exact ⟨groupsOf_filesArranged files root coverage,
    fun g hg => ⟨complete_of_mem_groupsOf hg, ordered_of_mem_groupsOf hg⟩⟩

end Inventory

end ColorCensus
