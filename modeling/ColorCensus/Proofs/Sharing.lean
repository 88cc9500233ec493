import ColorCensus.Proofs.Groups

/-!
# Files that share their entries

Two occurrences of one file have the same key among the entries of their file
exactly if they have the same key among the entries of all files: the first key
is the second one with the file added. So both ways of aggregating part the
occurrences of a file into the same classes (`classesBy_congr`), and a group is
made of these classes, with nothing else in it but their order
(`membersOf_lists_perm`).

The order is where the two ways do differ. A shared entry is named as its first
occurrence anywhere, and it is by that name that it stands in every group.
-/

namespace ColorCensus

variable {α β γ : Type} [DecidableEq β] [DecidableEq γ]

/-! ## Classes -/

/-- The elements with each key that occurs, in the order of the first of them. -/
def classesBy (key : α → β) (xs : List α) : List (List α) :=
  (distinctBy key xs).map fun a => xs.filter fun b => key b = key a

theorem distinctBy_congr {key : α → β} {key' : α → γ} {xs : List α}
    (h : ∀ a ∈ xs, ∀ b ∈ xs, key a = key b ↔ key' a = key' b) :
    distinctBy key xs = distinctBy key' xs := by
  induction xs with
  | nil => rfl
  | cons a xs ih =>
      rw [distinctBy, distinctBy,
        ih fun b hb c hc => h b (List.mem_cons_of_mem _ hb) c (List.mem_cons_of_mem _ hc)]
      congr 1
      refine List.filter_congr fun b hb => ?_
      have hmem : b ∈ xs := (distinctBy_sublist key' xs).mem hb
      simp [h b (List.mem_cons_of_mem _ hmem) a List.mem_cons_self]

theorem classesBy_congr {key : α → β} {key' : α → γ} {xs : List α}
    (h : ∀ a ∈ xs, ∀ b ∈ xs, key a = key b ↔ key' a = key' b) :
    classesBy key xs = classesBy key' xs := by
  rw [classesBy, classesBy, distinctBy_congr h]
  refine List.map_congr_left fun a ha => List.filter_congr fun b hb => ?_
  simp [h b hb a ((distinctBy_sublist key' xs).mem ha)]

theorem classesBy_eq (key : α → β) (xs : List α) :
    classesBy key xs =
      ((distinctBy key xs).map key).map fun k => xs.filter fun b => key b = k := by
  rw [classesBy, List.map_map]
  rfl

/-- What is kept of the classes of a list are the classes of what is kept of it,
apart from the order: a class may now start with a later element. -/
theorem classesBy_filter_perm (key : α → β) (p : α → Bool) (xs : List α) :
    (((classesBy key xs).map fun c => c.filter p).filter fun c => !c.isEmpty).Perm
      (classesBy key (xs.filter p)) := by
  have hkeys : (((distinctBy key xs).map key).filter fun k =>
        !((xs.filter p).filter fun b => key b = k).isEmpty).Perm
      ((distinctBy key (xs.filter p)).map key) := by
    rw [List.perm_ext_iff_of_nodup ((nodup_map_distinctBy key xs).filter _)
      (nodup_map_distinctBy key _)]
    intro k
    rw [List.mem_filter, mem_map_distinctBy, mem_map_distinctBy]
    simp only [Bool.not_eq_true', List.isEmpty_eq_false_iff, ne_eq, List.filter_eq_nil_iff,
      List.mem_filter, decide_eq_true_eq, List.mem_map]
    constructor
    · intro h
      by_contra hnone
      exact h.2 fun a ha hkey => hnone ⟨a, ha, hkey⟩
    · rintro ⟨a, ha, rfl⟩
      exact ⟨⟨a, ha.1, rfl⟩, fun h => h a ha rfl⟩
  rw [classesBy_eq, classesBy_eq, List.map_map, List.filter_map]
  refine .trans (.of_eq ?_) (hkeys.map _)
  simp only [Function.comp_def, List.filter_filter, Bool.and_comm]

/-! ## Entries -/

namespace Entry

theorem Key.ofOccurrence_shared {o p : Occurrence} (h : o.file = p.file) :
    Key.ofOccurrence true o = Key.ofOccurrence true p ↔
      Key.ofOccurrence false o = Key.ofOccurrence false p := by
  unfold ofOccurrence
  cases o.isVariable <;> cases p.isVariable <;> simp [h]

theorem ofOccurrences_lists (perFile : Bool) (os : List Occurrence) :
    (ofOccurrences perFile os).map (·.occurrences) =
      classesBy (Key.ofOccurrence perFile) os := by
  rw [ofOccurrences_eq, List.map_map, classesBy]
  rfl

end Entry

namespace Inventory

/-- The lists of occurrences in a group are the classes of those in its file. -/
theorem membersOf_lists_perm (perFile : Bool) (os : List Occurrence) (file : String) :
    ((membersOf (Entry.ofOccurrences perFile os) file).map (·.2)).Perm
      (classesBy (Entry.Key.ofOccurrence perFile) (os.filter fun o => o.file = file)) := by
  refine .trans ?_ (classesBy_filter_perm _ _ _)
  rw [← Entry.ofOccurrences_lists, List.map_map]
  unfold membersOf
  dsimp only
  rw [List.map_map]
  refine ((List.mergeSort_perm _ _).map _).trans (.of_eq ?_)
  rw [List.map_map, List.filter_map, List.filter_map, List.map_map]
  rfl

theorem membersOf_shared (os : List Occurrence) (file : String) :
    ((membersOf (Entry.ofOccurrences true os) file).map (·.2)).Perm
      ((membersOf (Entry.ofOccurrences false os) file).map (·.2)) := by
  have hclasses : classesBy (Entry.Key.ofOccurrence true) (os.filter fun o => o.file = file) =
      classesBy (Entry.Key.ofOccurrence false) (os.filter fun o => o.file = file) := by
    refine classesBy_congr fun o ho p hp => Entry.Key.ofOccurrence_shared ?_
    simp only [List.mem_filter, decide_eq_true_eq] at ho hp
    rw [ho.2, hp.2]
  have h := membersOf_lists_perm true os file
  rw [hclasses] at h
  exact h.trans (membersOf_lists_perm false os file).symm

end Inventory

/-! ## Groups -/

/-- Two groups are of the same file and hold its occurrences in the same lists. -/
structure Group.Alike (g h : Group) : Prop where
  file : g.file = h.file
  count : g.count = h.count
  coverage : g.coverage = h.coverage
  lists : (g.entries.map (·.2)).Perm (h.entries.map (·.2))

namespace Inventory

theorem groupsOf_forall₂ {es es' : List Entry} (files : List String) (root : Option String)
    (coverage : List (String × Theme.Coverage))
    (h : ∀ file, ((membersOf es file).map (·.2)).Perm ((membersOf es' file).map (·.2))) :
    List.Forall₂ Group.Alike (groupsOf es files root coverage)
      (groupsOf es' files root coverage) := by
  unfold groupsOf
  induction orderFiles files root with
  | nil => exact .nil
  | cons file rest ih =>
      rw [List.filterMap_cons, List.filterMap_cons]
      have hperm := h file
      have hlength := hperm.length_eq
      rw [List.length_map, List.length_map] at hlength
      cases hm : membersOf es file with
      | nil =>
          rw [hm, List.length_nil] at hlength
          rw [List.length_eq_zero_iff.mp hlength.symm]
          exact ih
      | cons m ms =>
          cases hm' : membersOf es' file with
          | nil => simp [hm, hm'] at hlength
          | cons m' ms' =>
              rw [hm, hm'] at hperm hlength
              exact .cons ⟨rfl, hlength, rfl, hperm⟩ ih

theorem importsOf_congr {gs gs' : List Group} (h : List.Forall₂ Group.Alike gs gs')
    (files : List String) (root : Option String) :
    importsOf gs files root = importsOf gs' files root := by
  have hcount : ∀ file, (gs.find? (·.file = file)).map Group.count =
      (gs'.find? (·.file = file)).map Group.count := by
    intro file
    induction h with
    | nil => rfl
    | cons hg _ ih =>
        rw [List.find?_cons, List.find?_cons, ← hg.file]
        split
        · exact congrArg some hg.count
        · exact ih
  unfold importsOf
  refine List.map_congr_left fun file _ => ?_
  rw [hcount]

/-- Whether or not files share their entries, there are the same groups in the
same order with the same counts and the same coverage, and the imports are
summed up alike. Each group holds the occurrences of its file in the same lists,
and only the order of these may differ. -/
theorem groupsOf_shared (os : List Occurrence) (files : List String) (root : Option String)
    (coverage : List (String × Theme.Coverage)) :
    let apart := groupsOf (Entry.ofOccurrences true os) files root coverage
    let shared := groupsOf (Entry.ofOccurrences false os) files root coverage
    List.Forall₂ Group.Alike apart shared ∧
      importsOf apart files root = importsOf shared files root := by
  intro apart shared
  have hgroups : List.Forall₂ Group.Alike apart shared :=
    groupsOf_forall₂ files root coverage (membersOf_shared os)
  exact ⟨hgroups, importsOf_congr hgroups files root⟩

end Inventory

end ColorCensus
