import ColorCensus.Proofs.Groups
import ColorCensus.Proofs.Resolution
import Mathlib.Data.List.Perm.Subperm

/-!
# Raising the cap only adds

Two passes that differ in their cap alone take the same turns until the lower
cap is used up, so the files of one are the first files of the other
(`closureOf_prefix`). Under the precedence `first` the definitions of later
files change no answer that the table had (`Table.Within`). What a file reports
depends on the answers alone, and a further answer only adds the references
that had none (`found_within`). Then every key of an occurrence is still there,
and the entries, one for each key, are not fewer (`length_ofOccurrences_le`).
-/

namespace ColorCensus

/-! ## The walk -/

namespace Import

variable {host : Host Id} {settings : Settings} {workspace root : Path}

theorem prefix_walk (room : Nat) (queue : List Path) (files : List Source)
    (told : List Log.Event) :
    files <+: (walk host settings workspace room queue files told).run.1.files := by
  have keep : ∀ m m' : Moment, m.Turn host settings workspace m' →
      files <+: m.files → files <+: m'.files := by
    intro m m' turn h
    cases turn with
    | pass _ => exact h
    | visit _ => exact h.trans (List.prefix_append _ _)
  have start : files <+: (⟨room, queue, files⟩ : Moment).files := List.prefix_refl _
  obtain ⟨m, h, -, hfiles, -⟩ : ∃ m : Moment, files <+: m.files ∧ _ ∧
      m.files = (walk host settings workspace room queue files told).run.1.files ∧ _ :=
    walk_invariant keep start
  rw [← hfiles]
  exact h

theorem walk_prefix {room room' : Nat} (hroom : room ≤ room') (queue : List Path)
    (files : List Source) (told told' : List Log.Event) :
    (walk host settings workspace room queue files told).run.1.files <+:
      (walk host settings workspace room' queue files told').run.1.files := by
  induction room generalizing room' queue files told told' with
  | zero =>
      have hstop : (walk host settings workspace 0 queue files told).run.1.files = files := by
        cases queue with
        | nil => rw [walk]; rfl
        | cons p queue => rw [walk.eq_def]; rfl
      rw [hstop]
      exact prefix_walk room' queue files told'
  | succ room ihRoom =>
      obtain ⟨more, rfl⟩ : ∃ more, room' = more + 1 := ⟨room' - 1, by omega⟩
      induction queue generalizing files told told' with
      | nil =>
          rw [walk, walk]
          exact List.prefix_refl _
      | cons p queue ihQueue =>
          by_cases hp : p ∈ files.map (·.path)
          · rw [walk_visited hp, walk_visited hp]
            exact ihQueue files told told'
          · obtain ⟨after, h⟩ : ∃ after, walk host settings workspace _ _ _ told = _ :=
              walk_fresh room queue told hp
            obtain ⟨after', h'⟩ : ∃ after, walk host settings workspace _ _ _ told' = _ :=
              walk_fresh more queue told' hp
            rw [h, h']
            exact ihRoom (by omega) _ _ _ _

theorem closureOf_prefix {n m : Int} (h : n ≤ m) :
    (closureOf host settings workspace root n).files <+:
      (closureOf host settings workspace root m).files :=
  walk_prefix (Int.toNat_le_toNat h) [root] [] [] []

end Import

/-! ## The table -/

namespace Variable

/-- Whatever one table answers, the other one answers too. -/
def Table.Within (t t' : Table) : Prop :=
  ∀ name d, t.resolve? name = some d → t'.resolve? name = some d

/-- Under `first`, the definitions of further files change no answer. -/
theorem collect_within (attributes : List (List Char)) {files files' : List Source}
    (h : files <+: files') :
    (collect .first attributes files).1.Within (collect .first attributes files').1 := by
  obtain ⟨more, rfl⟩ := h
  intro name d hd
  rw [resolve?_collect, Precedence.choose?] at hd ⊢
  rw [List.flatMap_append, List.filter_append, List.head?_append, hd]
  rfl

end Variable

/-! ## One file -/

namespace Occurrence

variable {t t' : Variable.Table} {attributes : List (List Char)}
  {settings : Context.Settings} {s : Source}

/-- A reference to a name that a table does not know. -/
def Spot.isDangling (t : Variable.Table) (a : Spot) : Bool :=
  a.isUsage && a.name.all fun name => !t.contains name

theorem referenceSpots_within (h : t.Within t') (text : List Char) :
    referenceSpots t text = (referenceSpots t' text).filter fun a => !a.isDangling t := by
  unfold referenceSpots
  rw [List.filter_filterMap]
  congr 1
  funext r
  unfold referenceSpot?
  cases hr : t.resolve? (String.ofList r.name) with
  | some d =>
      have hknown : t.contains (String.ofList r.name) = true := by
        rw [Variable.Table.contains, hr]
        rfl
      rw [h _ _ hr, Option.map_some, Option.filter_some_pos]
      simp [Spot.isDangling, hknown]
  | none =>
      have hunknown : t.contains (String.ofList r.name) = false := by
        rw [Variable.Table.contains, hr]
        rfl
      cases t'.resolve? (String.ofList r.name) with
      | some d =>
          rw [Option.map_some, Option.filter_some_neg]
          · rfl
          · simp [Spot.isDangling, Spot.isUsage, hunknown]
      | none => rfl

theorem spots_within (h : t.Within t') :
    spots t attributes s = (spots t' attributes s).filter fun a => !a.isDangling t := by
  cases htext : s.text with
  | none =>
      rw [spots, spots, htext]
      rfl
  | some text =>
      have hdefined : (definitionSpots attributes s).filter (fun a => !a.isDangling t) =
          definitionSpots attributes s :=
        List.filter_eq_self.mpr fun _ ha => by
          simp [Spot.isDangling, (isUsage_of_mem_definitionSpots ha).1]
      have hliteral : (literalSpots (definedSpans attributes s) text).filter
          (fun a => !a.isDangling t) = literalSpots (definedSpans attributes s) text :=
        List.filter_eq_self.mpr fun _ ha => by
          simp [Spot.isDangling, (isUsage_of_mem_literalSpots ha).1]
      rw [spots_filter t' attributes htext, hdefined, hliteral, ← referenceSpots_within h,
        ← spots_eq t attributes htext]

/-- A table that answers more lets a file report more references, and changes
nothing of what the file reports with the other table. -/
theorem found_within (h : t.Within t') :
    found t attributes settings s =
      (found t' attributes settings s).filter fun o =>
        !(o.isUsage && o.name.all fun name => !t.contains name) := by
  rw [found, found, List.filter_map, spots_within h]
  rfl

theorem windowed_within (h : t.Within t') (hwindowed : windowed t' attributes settings s = true) :
    windowed t attributes settings s = true := by
  rw [windowed, List.all_eq_true] at hwindowed ⊢
  intro a ha
  rw [spots_within h] at ha
  exact hwindowed a (List.mem_filter.mp ha).1

end Occurrence

/-! ## The entries -/

theorem length_ofOccurrences_le (perFile : Bool) {os os' : List Occurrence} (h : os ⊆ os') :
    (Entry.ofOccurrences perFile os).length ≤ (Entry.ofOccurrences perFile os').length := by
  have hkeys : ∀ xs : List Occurrence, (Entry.ofOccurrences perFile xs).length =
      ((distinctBy (Entry.Key.ofOccurrence perFile) xs).map
        (Entry.Key.ofOccurrence perFile)).length := by
    intro xs
    rw [Entry.ofOccurrences_eq, List.length_map, List.length_map]
  rw [hkeys, hkeys]
  refine ((nodup_map_distinctBy _ os).subperm fun key hkey => ?_).length_le
  rw [mem_map_distinctBy] at hkey ⊢
  exact List.map_subset _ h hkey

/-! ## The pass -/

namespace Census

open Occurrence (definitionsOf)

variable {host : Host Id} {settings : Settings} {workspace root : Path}

/-- A reference to a name that none of some occurrences defines. -/
def dangles (os : List Occurrence) (o : Occurrence) : Bool :=
  o.isUsage && o.name.all fun name => (definitionsOf name os).isEmpty

/-- The reports of one pass are where those of another begin: its files are the
first ones there, and each reports there what it reports here, in the same order
and with nothing else but references that dangle here. -/
structure Begins (scanned scanned' : List (Source × List Occurrence)) : Prop where
  files : scanned.map (·.1) <+: scanned'.map (·.1)
  found : ∀ f ∈ scanned, ∃ f' ∈ scanned', f'.1 = f.1 ∧ f.2.Sublist f'.2 ∧
    f.2 = f'.2.filter fun o => !dangles (scanned.flatMap (·.2)) o

theorem Begins.subset {scanned scanned' : List (Source × List Occurrence)}
    (h : Begins scanned scanned') : scanned.flatMap (·.2) ⊆ scanned'.flatMap (·.2) := by
  intro o ho
  obtain ⟨f, hf, ho⟩ := List.mem_flatMap.mp ho
  obtain ⟨f', hf', -, hsublist, -⟩ := h.found f hf
  exact List.mem_flatMap.mpr ⟨f', hf', hsublist.mem ho⟩

theorem begins_reportsOf (settings : Settings) {files files' : List Source}
    (h : files <+: files') :
    Begins (reportsOf settings .first files) (reportsOf settings .first files') := by
  have hwithin : (tableOf settings .first files).Within (tableOf settings .first files') :=
    Variable.collect_within _ h
  constructor
  · rw [reportsOf_files, reportsOf_files]
    exact h
  · intro f hf
    obtain ⟨s, hs, rfl⟩ := mem_reportsOf.mp hf
    have hfound : foundIn settings .first files s =
        (foundIn settings .first files' s).filter fun o =>
          !dangles ((reportsOf settings .first files).flatMap (·.2)) o := by
      rw [foundIn, Occurrence.found_within hwithin]
      refine List.filter_congr fun o _ => ?_
      rw [dangles, reportsOf_found]
      congr 3
      funext name
      exact not_contains_tableOf
    refine ⟨_, mem_reportsOf.mpr ⟨s, h.mem hs, rfl⟩, rfl, ?_, hfound⟩
    dsimp only
    rw [hfound]
    exact List.filter_sublist

theorem scannable_of_within {t t' : Variable.Table} {attributes : List (List Char)}
    {settings : Context.Settings} {s : Source} (h : t.Within t')
    (hscannable : scannable t' attributes settings s = true) :
    scannable t attributes settings s = true := by
  rw [scannable, Bool.or_eq_true] at hscannable ⊢
  exact hscannable.imp_right (Occurrence.windowed_within h)

/-- Under the precedence `first`, a pass with a lower cap visits the first files
of a pass with a higher one. If that comes to an inventory, so does it, and its
reports are where those of the other begin; and it counts no more colors. -/
theorem take_grows {n m : Option Int}
    (hfirst : settings.declarations.precedence = "first")
    (hcaps : n.getD settings.imports.maxFiles ≤ m.getD settings.imports.maxFiles) :
    (graphIn host settings workspace root n).files <+:
        (graphIn host settings workspace root m).files ∧
      ∀ later, (take host settings workspace root m).run.1 = .ok later →
        ∃ earlier scanned scanned',
          (take host settings workspace root n).run.1 = .ok earlier ∧
          scannedIn host settings workspace root n = some scanned ∧
          scannedIn host settings workspace root m = some scanned' ∧
          Begins scanned scanned' ∧
          earlier.totalColors ≤ later.totalColors := by
  have hfiles : (graphIn host settings workspace root n).files <+:
      (graphIn host settings workspace root m).files := Import.closureOf_prefix hcaps
  refine ⟨hfiles, fun later hlater => ?_⟩
  obtain ⟨hroot, scanned', hscanned', rfl⟩ := take_eq_ok_iff.mp hlater
  obtain ⟨precedence, hprecedence, hscannable, rfl⟩ := scannedIn_eq_some_iff.mp hscanned'
  obtain rfl : Variable.Precedence.first = precedence := by
    rw [hfirst] at hprecedence
    exact Option.some.inj hprecedence
  have hscanned := scannedIn_eq_some_iff.mpr ⟨_, hprecedence, fun s hs =>
    scannable_of_within (Variable.collect_within _ hfiles) (hscannable s (hfiles.mem hs)), rfl⟩
  have hbegins := begins_reportsOf settings hfiles
  exact ⟨_, _, _, take_eq_ok_iff.mpr ⟨hroot, _, hscanned, rfl⟩, hscanned, hscanned', hbegins,
    length_ofOccurrences_le settings.aggregate.perFile hbegins.subset⟩

/-- With room for one file, the use in the first of two sheets is not reported;
with room for both it is. -/
theorem take_grows_sheets :
    ∃ earlier later,
      (take sheets {} folder firstSheet (some 1)).run.1 = .ok earlier ∧
      (take sheets {} folder firstSheet (some 2)).run.1 = .ok later ∧
      reportsOfOne.map (·.2) = [[]] ∧
      (reportsOfTwo.map fun r => r.2.map fun o => (o.name, o.value, o.isDefinition)) =
        [[(some "--x", "#fff", false)], [(some "--x", "#fff", true)]] ∧
      Begins reportsOfOne reportsOfTwo ∧
      earlier.totalColors ≤ later.totalColors := by
  obtain ⟨later, hlater⟩ := exists_take_sheets (some 2)
  have hcaps : (some 1 : Option Int).getD ({} : Settings).imports.maxFiles ≤
      (some 2 : Option Int).getD ({} : Settings).imports.maxFiles := by decide
  obtain ⟨earlier, scanned, scanned', hearlier, hscanned, hscanned', hbegins, hcolors⟩ :=
    (take_grows rfl hcaps).2 later hlater
  cases scannedIn_sheets_one.symm.trans hscanned
  cases scannedIn_sheets_two.symm.trans hscanned'
  exact ⟨earlier, later, hearlier, hlater, reportsOfOne_found, reportsOfTwo_found, hbegins,
    hcolors⟩

end Census

end ColorCensus
