import ColorCensus.Census
import ColorCensus.Proofs.Memory
import ColorCensus.Proofs.Walk
import Mathlib.Data.List.Permutation

/-!
# What a pass is made of

A pass over a fixed host comes to an inventory in one way only: its root is a
file, its precedence is known, and every file visited can be scanned. This
file takes the pass apart once, into the files it visits (`graphIn`), what the
scanner reports for each of them (`scannedIn`), and the inventory made of that
(`take_eq_ok_iff`).

The scanner's memory goes from file to file, but the files of a closure have
distinct paths, so every file is scanned as if it were the only one
(`scannedIn_eq_some_iff`).
-/

namespace ColorCensus.Census

/-- The import graph of a pass. -/
def graphIn (host : Host Id) (settings : Settings) (workspace root : Path)
    (cap : Option Int) : Import.Closure :=
  Import.closureOf host settings.imports workspace root (cap.getD settings.imports.maxFiles)

/-- The variable table of some files. -/
def tableOf (settings : Settings) (precedence : Variable.Precedence)
    (files : List Source) : Variable.Table :=
  (Variable.collect precedence (Theme.attributes settings.themes.attributes) files).1

/-- What the scanner reports over some files, one by one; nothing if the
precedence is unknown or a window falls outside its file. -/
def scannedOver (settings : Settings) (files : List Source) :
    Option (List (Source × List Occurrence)) :=
  (Variable.Precedence.ofName? settings.declarations.precedence).bind fun precedence =>
    scanAll (tableOf settings precedence files)
      (Theme.attributes settings.themes.attributes) settings.context {} files

/-- What the scanner reports in a pass, in the order of the visits. -/
def scannedIn (host : Host Id) (settings : Settings) (workspace root : Path)
    (cap : Option Int) : Option (List (Source × List Occurrence)) :=
  scannedOver settings (graphIn host settings workspace root cap).files

/-- The inventory of a graph whose files were scanned. -/
def inventoryOf (settings : Settings) (rootLabel : String) (graph : Import.Closure)
    (scanned : List (Source × List Occurrence)) : Inventory :=
  let labels := graph.files.map (·.label)
  Inventory.ofOccurrences settings.aggregate.perFile (scanned.flatMap (·.2)) labels
    (some (labels.head?.getD rootLabel))
    (coverages (Theme.attributes settings.themes.attributes) scanned) graph.truncated

variable {host : Host Id} {settings : Settings} {workspace root : Path} {cap : Option Int}

/-! ## From the scanner's reports to the inventory -/

theorem ofClosure_eq_ok_iff {rootLabel : String} {graph : Import.Closure}
    {inventory : Inventory} :
    (∃ told, ofClosure settings rootLabel graph = .ok (inventory, told)) ↔
      ∃ scanned, scannedOver settings graph.files = some scanned ∧
        inventory = inventoryOf settings rootLabel graph scanned := by
  unfold ofClosure scannedOver
  cases Variable.Precedence.ofName? settings.declarations.precedence with
  | none =>
      constructor
      · rintro ⟨told, h⟩
        cases h
      · rintro ⟨scanned, h, -⟩
        cases h
  | some precedence =>
      rw [Option.bind_some, tableOf]
      dsimp only
      cases scanAll (Variable.collect precedence
            (Theme.attributes settings.themes.attributes) graph.files).1
          (Theme.attributes settings.themes.attributes) settings.context {} graph.files with
      | none =>
          constructor
          · rintro ⟨told, h⟩
            cases h
          · rintro ⟨scanned, h, -⟩
            cases h
      | some scanned =>
          constructor
          · rintro ⟨told, h⟩
            cases h
            exact ⟨scanned, rfl, rfl⟩
          · rintro ⟨scanned', h, rfl⟩
            cases h
            exact ⟨_, rfl⟩

/-- From a root that is a file, the result of a pass is that of its graph. -/
theorem take_run :
    (take host settings workspace root cap).run.1 =
      if (host.isFile root).run then
        (ofClosure settings (host.label workspace root)
          (graphIn host settings workspace root cap)).map (·.1)
      else .error (.rootMissing root) := by
  have hgraph : graphIn host settings workspace root cap =
      (Import.closure host settings.imports workspace root
        (cap.getD settings.imports.maxFiles)).run.1 := rfl
  rw [hgraph]
  unfold take
  cases hroot : (host.isFile root).run with
  | false =>
      change host.isFile root = false at hroot
      simp only [bind, hroot]
      rfl
  | true =>
      change host.isFile root = true at hroot
      simp only [bind, hroot]
      rw [if_pos trivial, if_pos trivial]
      obtain ⟨graph, told⟩ := Import.closure host settings.imports workspace root
        (cap.getD settings.imports.maxFiles)
      change _ = (ofClosure settings (host.label workspace root) graph).map (·.1)
      dsimp only
      cases ofClosure settings (host.label workspace root) graph with
      | error fault => rfl
      | ok result => rfl

theorem take_eq_ok_iff {inventory : Inventory} :
    (take host settings workspace root cap).run.1 = .ok inventory ↔
      (host.isFile root).run = true ∧ ∃ scanned,
        scannedIn host settings workspace root cap = some scanned ∧
        inventory = inventoryOf settings (host.label workspace root)
          (graphIn host settings workspace root cap) scanned := by
  rw [scannedIn, ← ofClosure_eq_ok_iff, take_run]
  cases (host.isFile root).run with
  | false =>
      rw [if_neg Bool.false_ne_true]
      exact ⟨nofun, nofun⟩
  | true =>
      rw [if_pos rfl]
      cases ofClosure settings (host.label workspace root)
          (graphIn host settings workspace root cap) with
      | error fault =>
          constructor
          · intro h
            cases h
          · rintro ⟨-, told, h⟩
            cases h
      | ok result =>
          constructor
          · intro h
            cases h
            exact ⟨rfl, _, rfl⟩
          · rintro ⟨-, told, h⟩
            cases h
            rfl

/-! ## Every file as if it were the only one -/

/-- What the scanner reports for a file among others, told without memory. -/
def foundIn (settings : Settings) (precedence : Variable.Precedence)
    (files : List Source) (s : Source) : List Occurrence :=
  Occurrence.found (tableOf settings precedence files)
    (Theme.attributes settings.themes.attributes) settings.context s

/-- What the scanner reports for some files, with the table of them all. -/
def reportsOf (settings : Settings) (precedence : Variable.Precedence)
    (files : List Source) : List (Source × List Occurrence) :=
  files.map fun s => (s, foundIn settings precedence files s)

theorem reportsOf_files (settings : Settings) (precedence : Variable.Precedence)
    (files : List Source) : (reportsOf settings precedence files).map (·.1) = files := by
  rw [reportsOf, List.map_map]
  exact List.map_id _

theorem reportsOf_found (settings : Settings) (precedence : Variable.Precedence)
    (files : List Source) :
    (reportsOf settings precedence files).flatMap (·.2) =
      files.flatMap (foundIn settings precedence files) := List.flatMap_map ..

theorem mem_reportsOf {precedence : Variable.Precedence} {files : List Source}
    {f : Source × List Occurrence} :
    f ∈ reportsOf settings precedence files ↔
      ∃ s ∈ files, (s, foundIn settings precedence files s) = f := List.mem_map

theorem reportsOf_labels {precedence : Variable.Precedence} {files : List Source} :
    ∀ r ∈ reportsOf settings precedence files, ∀ o ∈ r.2, o.file = r.1.label := by
  intro r hr o ho
  obtain ⟨s, -, rfl⟩ := mem_reportsOf.mp hr
  obtain ⟨spot, -, rfl⟩ := List.mem_map.mp ho
  rfl

/-- Whether a file can be scanned: only a negative window of style sheets may
keep it from that. -/
def scannable (table : Variable.Table) (attributes : List (List Char))
    (settings : Context.Settings) (s : Source) : Bool :=
  decide (0 ≤ settings.stylesheetWindow) ||
    Occurrence.windowed table attributes settings s

theorem scanAll_eq {table : Variable.Table} {attributes : List (List Char)}
    {settings : Context.Settings} :
    ∀ {files : List Source} {m : Context.Memory},
      (∀ s ∈ files, m.Serves s) → (∀ s ∈ files, ∀ t ∈ files, s.Agree t) →
      scanAll table attributes settings m files =
        if files.all (scannable table attributes settings) = true then
          some (files.map fun s => (s, Occurrence.found table attributes settings s))
        else none := by
  intro files
  induction files with
  | nil => intro m _ _; rfl
  | cons s files ih =>
      intro m hserves hagree
      have hs : m.Serves s := hserves s List.mem_cons_self
      have hrest : scanAll table attributes settings
          (Occurrence.scan table attributes settings m s).2 files = _ :=
        ih (fun t ht => Occurrence.scan_serves
            (hagree s List.mem_cons_self t (List.mem_cons_of_mem _ ht))
            (hserves t (List.mem_cons_of_mem _ ht)))
          (fun t ht u hu => hagree t (List.mem_cons_of_mem _ ht) u (List.mem_cons_of_mem _ hu))
      rw [scanAll, Occurrence.hasWindows_eq hs]
      dsimp only
      rw [hrest, Occurrence.scan_fst hs, List.all_cons]
      cases hcan : scannable table attributes settings s with
      | false =>
          rw [scannable] at hcan
          rw [if_neg (by simp [hcan]), if_neg (by simp)]
      | true =>
          rw [scannable] at hcan
          rw [if_pos hcan, Bool.true_and]
          split
          · rfl
          · rfl

/-- Files are scanned with their common table, and that fails only if one of
them cannot be scanned. -/
theorem scannedOver_eq_some_iff {files : List Source}
    (hagree : ∀ s ∈ files, ∀ t ∈ files, s.Agree t)
    {scanned : List (Source × List Occurrence)} :
    scannedOver settings files = some scanned ↔
      ∃ precedence,
        Variable.Precedence.ofName? settings.declarations.precedence = some precedence ∧
        (∀ s ∈ files,
          scannable (tableOf settings precedence files)
            (Theme.attributes settings.themes.attributes) settings.context s = true) ∧
        scanned = reportsOf settings precedence files := by
  rw [scannedOver, Option.bind_eq_some_iff]
  refine exists_congr fun precedence => and_congr_right fun _ => ?_
  rw [scanAll_eq (fun s _ => .empty s) hagree]
  rw [Option.ite_none_right_eq_some, List.all_eq_true, Option.some.injEq]
  exact and_congr_right fun _ => eq_comm

theorem graphIn_agree {s t : Source}
    (hs : s ∈ (graphIn host settings workspace root cap).files)
    (ht : t ∈ (graphIn host settings workspace root cap).files) : s.Agree t := by
  intro hpath
  have order := Import.closureOf_inOrder host settings.imports workspace root
    (cap.getD settings.imports.maxFiles)
  rw [order.eq_visit hs, order.eq_visit ht, hpath]

/-- A pass scans its files with their common table, and fails only if one of
them cannot be scanned. -/
theorem scannedIn_eq_some_iff {scanned : List (Source × List Occurrence)} :
    scannedIn host settings workspace root cap = some scanned ↔
      ∃ precedence,
        Variable.Precedence.ofName? settings.declarations.precedence = some precedence ∧
        (∀ s ∈ (graphIn host settings workspace root cap).files,
          scannable
            (tableOf settings precedence (graphIn host settings workspace root cap).files)
            (Theme.attributes settings.themes.attributes) settings.context s = true) ∧
        scanned = reportsOf settings precedence
          (graphIn host settings workspace root cap).files :=
  scannedOver_eq_some_iff fun _ hs _ ht => graphIn_agree hs ht

theorem scannedIn_files {scanned : List (Source × List Occurrence)}
    (h : scannedIn host settings workspace root cap = some scanned) :
    scanned.map (·.1) = (graphIn host settings workspace root cap).files := by
  obtain ⟨precedence, -, -, rfl⟩ := scannedIn_eq_some_iff.mp h
  exact reportsOf_files settings precedence _

theorem scannedIn_eq_reportsOf {precedence : Variable.Precedence}
    (hprecedence :
      Variable.Precedence.ofName? settings.declarations.precedence = some precedence)
    (hwindow : 0 ≤ settings.context.stylesheetWindow) :
    scannedIn host settings workspace root cap =
      some (reportsOf settings precedence
        (graphIn host settings workspace root cap).files) := by
  refine scannedIn_eq_some_iff.mpr ⟨precedence, hprecedence, fun s _ => ?_, rfl⟩
  rw [scannable, decide_eq_true hwindow, Bool.true_or]

/-- With a known precedence and a window that is not negative, a pass from a
file always comes to an inventory. -/
theorem exists_take_eq_ok {precedence : Variable.Precedence}
    (hroot : (host.isFile root).run = true)
    (hprecedence :
      Variable.Precedence.ofName? settings.declarations.precedence = some precedence)
    (hwindow : 0 ≤ settings.context.stylesheetWindow) :
    ∃ inventory, (take host settings workspace root cap).run.1 = .ok inventory :=
  ⟨_, take_eq_ok_iff.mpr ⟨hroot, _, scannedIn_eq_reportsOf hprecedence hwindow, rfl⟩⟩

/-! ## Two style sheets

A pass small enough to be followed by hand: the first sheet imports the second
one and uses the color that it defines. -/

open Import (visit imported walk)

/-- The host that holds some texts. -/
def holding (texts : List (String × String)) : Host Id where
  isFile p := texts.any fun t => Path.ofString t.1 = p
  read p :=
    match texts.find? fun t => Path.ofString t.1 = p with
    | none => .error (.unavailable "not held")
    | some t => .ok t.2.toList

def folder : Path := .ofString "/w"

def firstSheet : Path := .ofString "/w/a.css"

def secondSheet : Path := .ofString "/w/b.css"

def sheets : Host Id :=
  holding [("/w/a.css", "@import \"b.css\";.a\x7bcolor:var(--x)\x7d"),
    ("/w/b.css", ".b\x7b--x:#fff;\x7d")]

theorem imported_firstSheet : imported sheets {} folder firstSheet = [secondSheet] := by
  decide +kernel

theorem imported_secondSheet : imported sheets {} folder secondSheet = [] := by
  decide +kernel

theorem secondSheet_ne : secondSheet ≠ firstSheet := by decide +kernel

theorem walk_sheets (room : Nat) :
    ∃ told, walk sheets {} folder (room + 1) [firstSheet] [] [] =
      walk sheets {} folder room [secondSheet] [visit sheets folder firstSheet] told := by
  have hfresh : firstSheet ∉ ([] : List Source).map (·.path) := List.not_mem_nil
  obtain ⟨told, h⟩ : ∃ told, walk sheets {} folder _ _ _ [] = _ :=
    Import.walk_fresh room [] [] hfresh
  refine ⟨told, h.trans ?_⟩
  rw [imported_firstSheet]
  simp [visit, secondSheet_ne]

theorem graphIn_sheets_one :
    (graphIn sheets {} folder firstSheet (some 1)).files =
      [visit sheets folder firstSheet] := by
  obtain ⟨told, h⟩ := walk_sheets 0
  change (walk sheets {} folder (0 + 1) [firstSheet] [] []).run.1.files = _
  rw [h, walk.eq_def]
  rfl

theorem graphIn_sheets_two :
    (graphIn sheets {} folder firstSheet (some 2)).files =
      [visit sheets folder firstSheet, visit sheets folder secondSheet] := by
  obtain ⟨told, h⟩ := walk_sheets 1
  have hfresh : secondSheet ∉ [visit sheets folder firstSheet].map (·.path) := by
    simp [visit, secondSheet_ne]
  obtain ⟨told', h'⟩ : ∃ told', walk sheets {} folder _ _ _ told = _ :=
    Import.walk_fresh 0 [] told hfresh
  change (walk sheets {} folder (1 + 1) [firstSheet] [] []).run.1.files = _
  rw [h, h', imported_secondSheet, List.filter_nil, List.append_nil, walk]
  rfl

/-- What is reported for the first sheet alone. -/
def reportsOfOne : List (Source × List Occurrence) :=
  reportsOf {} .first [visit sheets folder firstSheet]

/-- What is reported for both sheets. -/
def reportsOfTwo : List (Source × List Occurrence) :=
  reportsOf {} .first [visit sheets folder firstSheet, visit sheets folder secondSheet]

theorem scannedIn_sheets_one :
    scannedIn sheets {} folder firstSheet (some 1) = some reportsOfOne := by
  rw [scannedIn_eq_reportsOf rfl (by decide), graphIn_sheets_one, reportsOfOne]

theorem scannedIn_sheets_two :
    scannedIn sheets {} folder firstSheet (some 2) = some reportsOfTwo := by
  rw [scannedIn_eq_reportsOf rfl (by decide), graphIn_sheets_two, reportsOfTwo]

set_option maxRecDepth 100000 in
theorem reportsOfOne_found : reportsOfOne.map (·.2) = [[]] := by
  cbv

set_option maxRecDepth 100000 in
theorem reportsOfTwo_found :
    (reportsOfTwo.map fun r => r.2.map fun o => (o.name, o.value, o.isDefinition)) =
      [[(some "--x", "#fff", false)], [(some "--x", "#fff", true)]] := by
  cbv

theorem exists_take_sheets (cap : Option Int) :
    ∃ inventory, (take sheets {} folder firstSheet cap).run.1 = .ok inventory :=
  exists_take_eq_ok (by decide +kernel) rfl (by decide)

end ColorCensus.Census
