import ColorCensus.Proofs.Sharing
import ColorCensus.Proofs.Visits
import Mathlib.Algebra.Ring.Nat

/-!
# The numbers of an inventory

An inventory counts in three places: the files, the colors of each group, and
the colors of all. The counts are of different things, and `Tallies` says how
they go together.

A group counts the keys of the occurrences in its file, and the total counts the
keys of all occurrences (`length_membersOf`, `length_ofOccurrences`). A key that
names its file occurs in that file alone, so where entries are kept per file the
groups part the keys; otherwise a key may be in several groups, and the total
falls short of their sum. Everything else hangs on labels that are distinct: then
each import finds the one group of its file.
-/

namespace ColorCensus

namespace Entry

/-- The keys that occur, without repetition. -/
def keys (perFile : Bool) (os : List Occurrence) : List Key :=
  distinct (os.map (Key.ofOccurrence perFile))

variable {perFile : Bool} {os : List Occurrence}

theorem mem_keys {k : Key} :
    k ∈ keys perFile os ↔ ∃ o ∈ os, Key.ofOccurrence perFile o = k := by
  rw [keys, mem_distinct, List.mem_map]

theorem nodup_keys (perFile : Bool) (os : List Occurrence) : (keys perFile os).Nodup :=
  nodup_distinct _

theorem length_keys (perFile : Bool) (os : List Occurrence) :
    (keys perFile os).length = (classesBy (Key.ofOccurrence perFile) os).length := by
  rw [keys, distinct, distinctBy_map, List.length_map, classesBy, List.length_map]
  rfl

theorem length_ofOccurrences (perFile : Bool) (os : List Occurrence) :
    (ofOccurrences perFile os).length = (keys perFile os).length := by
  rw [length_keys, ← ofOccurrences_lists, List.length_map]

theorem keys_subset {os' : List Occurrence} (h : os ⊆ os') :
    keys perFile os ⊆ keys perFile os' := by
  intro k hk
  obtain ⟨o, ho, rfl⟩ := mem_keys.mp hk
  exact mem_keys.mpr ⟨o, h ho, rfl⟩

theorem Key.file_eq {o p : Occurrence}
    (h : ofOccurrence true o = ofOccurrence true p) : o.file = p.file := by
  unfold ofOccurrence at h
  cases ho : o.isVariable <;> cases hp : p.isVariable <;> simp_all

theorem mem_flatMap_keys {files : List String} (hfiles : ∀ o ∈ os, o.file ∈ files) {k : Key} :
    (k ∈ files.flatMap fun file => keys perFile (os.filter fun o => o.file = file)) ↔
      k ∈ keys perFile os := by
  simp only [List.mem_flatMap, mem_keys, List.mem_filter, decide_eq_true_eq]
  constructor
  · rintro ⟨file, -, o, ⟨ho, -⟩, hkey⟩
    exact ⟨o, ho, hkey⟩
  · rintro ⟨o, ho, hkey⟩
    exact ⟨o.file, hfiles o ho, o, ⟨ho, rfl⟩, hkey⟩

theorem nodup_flatMap_keys {files : List String} (hnodup : files.Nodup) :
    (files.flatMap fun file => keys true (os.filter fun o => o.file = file)).Nodup := by
  refine List.nodup_flatMap.mpr ⟨fun file _ => nodup_keys true _, hnodup.imp fun {f g} hne => ?_⟩
  intro k hf hg
  obtain ⟨o, ho, hkey⟩ := mem_keys.mp hf
  obtain ⟨p, hp, hkey'⟩ := mem_keys.mp hg
  simp only [List.mem_filter, decide_eq_true_eq] at ho hp
  refine hne ?_
  rw [← ho.2, ← hp.2]
  exact Key.file_eq (hkey.trans hkey'.symm)

end Entry

open Entry (keys)

namespace Inventory

theorem length_membersOf (perFile : Bool) (os : List Occurrence) (file : String) :
    (membersOf (Entry.ofOccurrences perFile os) file).length =
      (keys perFile (os.filter fun o => o.file = file)).length := by
  rw [Entry.length_keys, ← (membersOf_lists_perm perFile os file).length_eq, List.length_map]

/-! ## Groups -/

section

variable {es : List Entry} {files : List String} {root : Option String}
  {coverage : List (String × Theme.Coverage)}

theorem mem_groupsOf {g : Group} (h : g ∈ groupsOf es files root coverage) :
    g.file ∈ orderFiles files root ∧ g.entries = membersOf es g.file := by
  rw [groupsOf_eq] at h
  obtain ⟨file, hfile, rfl⟩ := List.mem_map.mp h
  exact ⟨(List.mem_filter.mp hfile).1, rfl⟩

theorem groupsOf_files :
    (groupsOf es files root coverage).map (·.file) =
      (orderFiles files root).filter fun file => !(membersOf es file).isEmpty := by
  rw [groupsOf_eq, List.map_map]
  exact List.map_id _

theorem groupsOf_files_sublist :
    ((groupsOf es files root coverage).map (·.file)).Sublist (orderFiles files root) := by
  rw [groupsOf_files]
  exact List.filter_sublist

theorem groupsOf_files_nodup : ((groupsOf es files root coverage).map (·.file)).Nodup :=
  groupsOf_files_sublist.nodup
    ((orderFiles_perm files root).nodup_iff.mpr (nodup_distinct files))

theorem sum_groupsOf :
    ((groupsOf es files root coverage).map Group.count).sum =
      ((orderFiles files root).map fun file => (membersOf es file).length).sum := by
  unfold groupsOf
  induction orderFiles files root with
  | nil => rfl
  | cons file rest ih =>
      rw [List.filterMap_cons, List.map_cons, List.sum_cons, ← ih]
      cases membersOf es file with
      | nil => exact (Nat.zero_add _).symm
      | cons m ms => rw [List.map_cons, List.sum_cons, Group.count]

end

theorem find?_eq_of_nodup {gs : List Group} (hnodup : (gs.map (·.file)).Nodup) {g : Group}
    (hg : g ∈ gs) : gs.find? (·.file = g.file) = some g := by
  induction gs with
  | nil => cases hg
  | cons h gs ih =>
      obtain ⟨hfresh, hnodup⟩ := List.nodup_cons.mp hnodup
      rcases List.mem_cons.mp hg with rfl | hg
      · exact List.find?_cons_of_pos (decide_eq_true rfl)
      · have hne : h.file ≠ g.file :=
          fun heq => hfresh (List.mem_map.mpr ⟨g, hg, heq.symm⟩)
        rw [List.find?_cons_of_neg (by simpa using hne)]
        exact ih hnodup hg

/-! ## Imports -/

theorem others_eq_tail {files : List String} (hnodup : files.Nodup) (rootLabel : String) :
    (distinct files).filter (some · ≠ some (files.head?.getD rootLabel)) = files.tail := by
  rw [distinct_eq_self hnodup]
  cases files with
  | nil => rfl
  | cons first rest =>
      obtain ⟨hfresh, -⟩ := List.nodup_cons.mp hnodup
      rw [List.head?_cons, Option.getD_some, List.tail_cons,
        List.filter_cons_of_neg (by simp), List.filter_eq_self.mpr]
      intro file hfile
      have hne : file ≠ first := fun heq => hfresh (heq ▸ hfile)
      simpa using hne

/-! ## Tallies -/

/-- The numbers of an inventory match its lists. -/
structure Tallies (perFile : Bool) (i : Inventory) : Prop where
  files_nodup : i.files.Nodup
  importCount : i.importCount = i.imports.length
  /-- The imports are the files after the first, in the order of their visits. -/
  imported : i.imports.map (·.file) = i.files.tail
  groups_nodup : (i.groups.map (·.file)).Nodup
  colors : ∀ m ∈ i.imports, ∀ g ∈ i.groups, g.file = m.file → m.colors = g.entries.length
  colorless : ∀ m ∈ i.imports, (∀ g ∈ i.groups, g.file ≠ m.file) → m.colors = 0
  total_of_perFile : perFile = true → i.totalColors = (i.groups.map (·.entries.length)).sum
  total_le : i.totalColors ≤ (i.groups.map (·.entries.length)).sum
  le_total : ∀ g ∈ i.groups, g.entries.length ≤ i.totalColors

variable {perFile : Bool} {os : List Occurrence} {files : List String}

/-- The groups count the keys of the occurrences file by file. -/
theorem sum_groupsOf_keys (root : Option String) (coverage : List (String × Theme.Coverage)) :
    ((groupsOf (Entry.ofOccurrences perFile os) files root coverage).map
        (·.entries.length)).sum =
      ((orderFiles files root).flatMap fun file =>
        keys perFile (os.filter fun o => o.file = file)).length := by
  rw [List.length_flatMap]
  refine sum_groupsOf.trans ?_
  simp only [length_membersOf]

theorem ofOccurrences_tallies (hnodup : files.Nodup) (hfiles : ∀ o ∈ os, o.file ∈ files)
    (rootLabel : String) (coverage : List (String × Theme.Coverage)) (truncated : Bool) :
    (ofOccurrences perFile os files (some (files.head?.getD rootLabel)) coverage
      truncated).Tallies perFile := by
  have himported : (importsOf (groupsOf (Entry.ofOccurrences perFile os) files
      (some (files.head?.getD rootLabel)) coverage) files
        (some (files.head?.getD rootLabel))).map (·.file) = files.tail := by
    rw [importsOf, List.map_map, ← others_eq_tail hnodup rootLabel]
    exact List.map_id _
  have horder := orderFiles_perm files (some (files.head?.getD rootLabel))
  have hcover : ∀ o ∈ os, o.file ∈ orderFiles files (some (files.head?.getD rootLabel)) :=
    fun o ho => horder.mem_iff.mpr (mem_distinct.mpr (hfiles o ho))
  constructor
  case files_nodup => exact hnodup
  case importCount =>
    have hlength := congrArg List.length himported
    rw [List.length_map, List.length_tail] at hlength
    exact hlength.symm
  case imported => exact himported
  case groups_nodup => exact groupsOf_files_nodup
  case colors =>
    intro m hm g hg hfile
    obtain ⟨file, -, rfl⟩ := List.mem_map.mp hm
    dsimp only at hfile ⊢
    rw [← hfile, find?_eq_of_nodup groupsOf_files_nodup hg]
    rfl
  case colorless =>
    intro m hm hnone
    obtain ⟨file, -, rfl⟩ := List.mem_map.mp hm
    dsimp only at hnone ⊢
    rw [List.find?_eq_none.mpr fun g hg => by simpa using hnone g hg]
    rfl
  case total_of_perFile =>
    rintro rfl
    refine (Entry.length_ofOccurrences true os).trans ?_
    refine .trans ?_ (sum_groupsOf_keys _ coverage).symm
    refine List.Perm.length_eq ?_
    rw [List.perm_ext_iff_of_nodup (Entry.nodup_keys true os)
      (Entry.nodup_flatMap_keys (horder.nodup_iff.mpr (nodup_distinct files)))]
    exact fun k => (Entry.mem_flatMap_keys hcover).symm
  case total_le =>
    refine (Entry.length_ofOccurrences perFile os).trans_le ?_
    refine .trans ?_ (sum_groupsOf_keys _ coverage).ge
    refine ((Entry.nodup_keys perFile os).subperm fun k hk => ?_).length_le
    exact (Entry.mem_flatMap_keys hcover).mpr hk
  case le_total =>
    intro g hg
    rw [(mem_groupsOf hg).2, length_membersOf]
    refine .trans ?_ (Entry.length_ofOccurrences perFile os).ge
    refine ((Entry.nodup_keys perFile _).subperm ?_).length_le
    exact Entry.keys_subset (List.filter_subset_self _)

end Inventory

namespace Census

variable {σ : Type} {host : Host (StateM σ)} {settings : Settings}
  {workspace root base : Path} {cap : Option Int}

/-- In every pass whose host labels a path by where it is, the labels of the
files visited are distinct, and the numbers of the inventory match its lists. -/
theorem take_tallies {s : σ} {inventory : Inventory}
    (hlabel : ∀ p, host.label workspace p = Path.label base p)
    (hworkspace : workspace.isAbsolute = true) (hroot : root.isAbsolute = true)
    (h : ((take host settings workspace root cap).run s).1.1 = .ok inventory) :
    inventory.files = (graphFrom host settings workspace root cap s).files.map (·.label) ∧
      inventory.Tallies settings.aggregate.perFile := by
  obtain ⟨scanned, hscanned, rfl⟩ := take_result_eq_ok h
  obtain ⟨precedence, -, -, rfl⟩ := (scannedOver_eq_some_iff graphFrom_agree).mp hscanned
  refine ⟨rfl, ?_⟩
  refine Inventory.ofOccurrences_tallies (graphFrom_labels hlabel hworkspace hroot s) ?_ _ _ _
  intro o ho
  obtain ⟨r, hr, ho⟩ := List.mem_flatMap.mp ho
  rw [reportsOf_labels r hr o ho]
  obtain ⟨f, hf, rfl⟩ := mem_reportsOf.mp hr
  exact List.mem_map_of_mem hf

theorem keys_sheets : (Entry.keys true (reportsOfTwo.flatMap (·.2))).length = 2 := by
  decide +kernel

/-- One color in each of two sheets makes a total of two. -/
theorem take_tallies_sheets :
    ∃ inventory,
      ((take sheets.steady {} folder firstSheet (some 2)).run ()).1.1 = .ok inventory ∧
      inventory.files = ["a.css", "b.css"] ∧ inventory.totalColors = 2 ∧
      inventory.Tallies true := by
  obtain ⟨inventory, h⟩ := exists_take_sheets (some 2)
  have hsteady : ((take sheets.steady {} folder firstSheet (some 2)).run ()).1.1 =
      .ok inventory := take_steady.trans h
  have hlabel : ∀ p, (sheets.steady : Host (StateM Unit)).label folder p = Path.label folder p :=
    fun _ => rfl
  obtain ⟨hfiles, htallies⟩ :=
    take_tallies hlabel (by decide +kernel) (by decide +kernel) hsteady
  obtain ⟨-, scanned, hscanned, rfl⟩ := take_eq_ok_iff.mp h
  cases scannedIn_sheets_two.symm.trans hscanned
  refine ⟨_, hsteady, ?_, ?_, htallies⟩
  · rw [hfiles, graphFrom_steady, graphIn_sheets_two]
    decide +kernel
  · exact (Entry.length_ofOccurrences true _).trans keys_sheets

end Census

end ColorCensus
