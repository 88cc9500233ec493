import ColorCensus.Inventory.Basic
import Mathlib.Data.List.Perm.Basic

/-!
# Entries and groups part the occurrences

An inventory is made in two cuts. The occurrences are parted by key, one entry
for each key that occurs, and the occurrences of all entries are parted by file,
one group for each file that has any. Both cuts are the same one: a list of
distinct labels that covers a list of elements parts it (`perm_flatMap_filter`).
What is done on the way only moves elements about. Sorting permutes them, and an
entry or a group that is left out for being empty held none.

`groupsOf_perm` puts the cuts together: over all groups, every occurrence is
found once, under its own file.
-/

namespace ColorCensus

/-- Distinct labels that cover a list part it. The induction takes the labels
one by one and leaves the elements of the first to the first. -/
theorem perm_flatMap_filter {α β : Type} [DecidableEq β] {key : α → β} :
    ∀ {labels : List β} {xs : List α}, labels.Nodup → (∀ a ∈ xs, key a ∈ labels) →
      (labels.flatMap fun k => xs.filter fun a => key a = k).Perm xs := by
  intro labels
  induction labels with
  | nil =>
      intro xs _ hcover
      cases xs with
      | nil => exact .refl _
      | cons a xs => exact absurd (hcover a List.mem_cons_self) List.not_mem_nil
  | cons k labels ih =>
      intro xs hnodup hcover
      obtain ⟨hk, hlabels⟩ := List.nodup_cons.mp hnodup
      have hothers : (labels.flatMap fun j => xs.filter fun a => key a = j) =
          labels.flatMap fun j =>
            (xs.filter fun a => !decide (key a = k)).filter fun a => key a = j := by
        refine List.flatMap_congr fun j hj => ?_
        rw [List.filter_filter]
        refine List.filter_congr fun a _ => ?_
        by_cases ha : key a = j
        · have hne : key a ≠ k := fun hak => hk (hak ▸ ha ▸ hj)
          simp [ha, ha ▸ hne]
        · simp [ha]
      have hrest : ∀ a ∈ xs.filter fun a => !decide (key a = k), key a ∈ labels := by
        intro a ha
        obtain ⟨hmem, hne⟩ := List.mem_filter.mp ha
        refine (List.mem_cons.mp (hcover a hmem)).resolve_left fun hak => ?_
        simp [hak] at hne
      rw [List.flatMap_cons, hothers]
      exact ((ih hlabels hrest).append_left _).trans (List.filter_append_perm _ xs)

/-! ## Distinct keys -/

theorem nodup_map_distinctBy {α β : Type} [DecidableEq β] (key : α → β) (xs : List α) :
    ((distinctBy key xs).map key).Nodup :=
  List.pairwise_map.mpr (pairwise_distinctBy key xs)

theorem mem_map_distinctBy {α β : Type} [DecidableEq β] {key : α → β} {xs : List α} {k : β} :
    k ∈ (distinctBy key xs).map key ↔ k ∈ xs.map key := by
  constructor
  · intro h
    exact ((distinctBy_sublist key xs).map key).mem h
  · intro h
    obtain ⟨a, ha, rfl⟩ := List.mem_map.mp h
    obtain ⟨b, hb, hkey⟩ : ∃ b ∈ distinctBy key xs, key b = key a := exists_mem_distinctBy ha
    exact List.mem_map.mpr ⟨b, hb, hkey⟩

theorem distinctBy_map {α β γ : Type} [DecidableEq γ] (key : β → γ) (f : α → β)
    (xs : List α) :
    distinctBy key (xs.map f) = (distinctBy (fun a => key (f a)) xs).map f := by
  induction xs with
  | nil => rfl
  | cons a xs ih =>
      rw [List.map_cons, distinctBy, distinctBy, ih, List.filter_map, List.map_cons]
      rfl

theorem distinctBy_concat {α β : Type} [DecidableEq β] (key : α → β) (xs : List α) (a : α) :
    distinctBy key (xs ++ [a]) =
      distinctBy key xs ++ if key a ∈ xs.map key then [] else [a] := by
  induction xs with
  | nil => rfl
  | cons b xs ih =>
      rw [List.cons_append, distinctBy, ih, distinctBy, List.filter_append, List.map_cons,
        List.cons_append]
      by_cases ha : key a ∈ xs.map key
      · rw [if_pos ha, if_pos (List.mem_cons_of_mem _ ha), List.filter_nil]
      · by_cases hb : key a = key b
        · simp [hb]
        · simp [ha, hb]

theorem find?_of_mem_distinctBy {α β : Type} [DecidableEq β] {key : α → β} {xs : List α} {a : α}
    (h : a ∈ distinctBy key xs) : xs.find? (fun b => key b = key a) = some a := by
  induction xs with
  | nil => cases h
  | cons b xs ih =>
      rw [distinctBy, List.mem_cons, List.mem_filter] at h
      obtain rfl | ⟨h, hkey⟩ := h
      · exact List.find?_cons_of_pos (decide_eq_true rfl)
      · rw [List.find?_cons_of_neg, ih h]
        simpa using Ne.symm (of_decide_eq_true hkey)

/-! ## The cut by key -/

namespace Entry

/-- An entry takes its name, value and theme from the first occurrence with its
key, and all occurrences with the key. -/
theorem ofOccurrences_eq (perFile : Bool) (os : List Occurrence) :
    ofOccurrences perFile os =
      (distinctBy (Key.ofOccurrence perFile) os).map fun o =>
        { kind := o.kind
          value := o.value
          key := Key.ofOccurrence perFile o
          name := o.name
          theme := if o.isVariable then o.theme else none
          occurrences := os.filter fun p =>
            Key.ofOccurrence perFile p = Key.ofOccurrence perFile o } := by
  unfold ofOccurrences
  dsimp only
  rw [distinctBy_map, List.map_map]
  refine List.map_congr_left fun o _ => ?_
  simp only [Function.comp_apply, ofFirst, List.filter_map, List.map_map, Entry.mk.injEq,
    true_and]
  exact List.map_id _

theorem ofOccurrences_perm (perFile : Bool) (os : List Occurrence) :
    ((ofOccurrences perFile os).flatMap (·.occurrences)).Perm os := by
  rw [ofOccurrences_eq, List.flatMap_map]
  have h : ∀ o ∈ os, Key.ofOccurrence perFile o ∈
      (distinctBy (Key.ofOccurrence perFile) os).map (Key.ofOccurrence perFile) :=
    fun o ho => mem_map_distinctBy.mpr (List.mem_map_of_mem ho)
  have hperm := perm_flatMap_filter (nodup_map_distinctBy _ os) h
  rw [List.flatMap_map] at hperm
  exact hperm

end Entry

/-! ## The cut by file -/

namespace Inventory

theorem orderFiles_perm (files : List String) (root : Option String) :
    (orderFiles files root).Perm (distinct files) := by
  have hsort : ∀ l : List String, (l.mergeSort fun a b => decide (a ≤ b)).Perm l :=
    fun l => List.mergeSort_perm l _
  unfold orderFiles
  dsimp only
  cases root with
  | none =>
      rw [List.filter_eq_self.mpr (by simp)]
      exact hsort _
  | some r =>
      by_cases hr : r ∈ distinct files
      · have hothers : (distinct files).filter (fun f => some f ≠ some r) =
            (distinct files).erase r := by
          rw [(nodup_distinct files).erase_eq_filter]
          refine List.filter_congr fun f _ => ?_
          by_cases hf : f = r
          · simp [hf]
          · simp [hf]
        rw [hothers, Option.filter_some_pos (by simpa using hr)]
        exact ((hsort _).cons r).trans (List.perm_cons_erase hr).symm
      · have hothers : (distinct files).filter (fun f => some f ≠ some r) =
            distinct files := by
          refine List.filter_eq_self.mpr fun f hf => ?_
          have hne : f ≠ r := fun h => hr (h ▸ hf)
          simp [hne]
        rw [hothers, Option.filter_some_neg (by simpa using hr)]
        exact hsort _

theorem membersOf_perm (entries : List Entry) (file : String) :
    ((membersOf entries file).flatMap (·.2)).Perm
      ((entries.flatMap (·.occurrences)).filter fun o => o.file = file) := by
  unfold membersOf
  dsimp only
  rw [List.flatMap_map]
  refine ((List.mergeSort_perm _ _).flatMap_right _).trans (.of_eq ?_)
  rw [List.flatMap_map]
  induction entries with
  | nil => rfl
  | cons e entries ih =>
      rw [List.map_cons, List.flatMap_cons, List.filter_append, ← ih]
      cases hin : e.inFile file with
      | nil =>
          rw [List.filter_cons_of_neg (by simp)]
          change _ = e.inFile file ++ _
          rw [hin]
          rfl
      | cons o os =>
          rw [List.filter_cons_of_pos (by simp), List.flatMap_cons]
          change _ = e.inFile file ++ _
          rw [hin]

theorem groupsOf_eq (entries : List Entry) (files : List String) (root : Option String)
    (coverage : List (String × Theme.Coverage)) :
    groupsOf entries files root coverage =
      ((orderFiles files root).filter fun file => !(membersOf entries file).isEmpty).map
        fun file => ⟨file, membersOf entries file, (coverage.lookup file).getD {}⟩ := by
  rw [groupsOf, ← List.filterMap_eq_map', List.filterMap_filter]
  refine List.filterMap_congr fun file _ => ?_
  cases membersOf entries file with
  | nil => rfl
  | cons m ms => rfl

theorem groupsOf_flatMap {β : Type} (entries : List Entry) (files : List String)
    (root : Option String) (coverage : List (String × Theme.Coverage))
    (f : String → Occurrence → β) :
    ((groupsOf entries files root coverage).flatMap fun g =>
        g.entries.flatMap fun m => m.2.map (f g.file)) =
      (orderFiles files root).flatMap fun file =>
        ((membersOf entries file).flatMap (·.2)).map (f file) := by
  unfold groupsOf
  induction orderFiles files root with
  | nil => rfl
  | cons file rest ih =>
      rw [List.filterMap_cons, List.flatMap_cons, ← ih]
      cases membersOf entries file with
      | nil => rfl
      | cons m ms => rw [List.flatMap_cons, List.map_flatMap]

/-- Over all groups, every occurrence is found once, under its own file. -/
theorem groupsOf_perm (perFile : Bool) {os : List Occurrence} {files : List String}
    (root : Option String) (coverage : List (String × Theme.Coverage))
    (hfiles : ∀ o ∈ os, o.file ∈ files) :
    ((groupsOf (Entry.ofOccurrences perFile os) files root coverage).flatMap fun g =>
        g.entries.flatMap fun m => m.2.map fun o => (g.file, o)).Perm
      (os.map fun o => (o.file, o)) := by
  have horder := orderFiles_perm files root
  have hnodup : (orderFiles files root).Nodup := horder.nodup_iff.mpr (nodup_distinct files)
  have hcover : ∀ o ∈ os, o.file ∈ orderFiles files root :=
    fun o ho => horder.mem_iff.mpr (mem_distinct.mpr (hfiles o ho))
  have hfile : ∀ file, (((membersOf (Entry.ofOccurrences perFile os) file).flatMap
      (·.2)).map fun o => (file, o)).Perm
        ((os.filter fun o => o.file = file).map fun o => (o.file, o)) := by
    intro file
    have hmembers := (membersOf_perm (Entry.ofOccurrences perFile os) file).trans
      ((Entry.ofOccurrences_perm perFile os).filter _)
    refine (hmembers.map _).trans (.of_eq (List.map_congr_left fun o ho => ?_))
    have ho' : o.file = file := by simpa using (List.mem_filter.mp ho).2
    rw [ho']
  rw [groupsOf_flatMap _ _ _ _ fun file o => (file, o)]
  refine (List.Perm.flatMap_left _ fun file _ => hfile file).trans ?_
  rw [← List.map_flatMap]
  exact (perm_flatMap_filter hnodup hcover).map _

end Inventory

end ColorCensus
