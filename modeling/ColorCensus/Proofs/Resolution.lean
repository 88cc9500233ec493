import ColorCensus.Proofs.Pass
import ColorCensus.Proofs.Spots
import ColorCensus.Proofs.Table

/-!
# References and definitions of a pass

A pass goes over the definitions of its files twice: once to fill the variable
table, and once to report them as occurrences. Since both times it finds the
same (`definitions_shown`), what the table answers for a name can be told from
the report alone: it is the first or the last of the reported definitions of
the name (`choose?_definitionsOf`). So a reference is reported exactly if the
report holds a definition of its name.
-/

namespace ColorCensus

namespace Occurrence

/-- The definitions of a name among some occurrences. -/
def definitionsOf (name : String) (os : List Occurrence) : List Occurrence :=
  os.filter fun o => o.isDefinition && o.name == some name

/-- An occurrence reports a reference of a file: a variable of that name is used
where the reference stands. -/
structure Reports (o : Occurrence) (s : Source) (r : Variable.Referred) : Prop where
  kind : o.kind = .var
  usage : o.isDefinition = false
  file : o.file = s.label
  name : o.name = some (String.ofList r.name)
  range : o.range = s.index.rangeOf r.start r.stop

theorem mem_definitionsOf {name : String} {os : List Occurrence} {o : Occurrence} :
    o ∈ definitionsOf name os ↔ o ∈ os ∧ o.isDefinition = true ∧ o.name = some name := by
  rw [definitionsOf, List.mem_filter, Bool.and_eq_true, beq_iff_eq]

theorem definition?_eq_some {o : Occurrence} {d : Variable.Definition}
    (h : o.definition? = some d) :
    o.name = some d.name ∧ o.value = d.value ∧ o.theme = some d.theme := by
  obtain ⟨name, hname, h⟩ := Option.bind_eq_some_iff.mp h
  obtain ⟨theme, htheme, h⟩ := Option.bind_eq_some_iff.mp h
  cases h
  exact ⟨hname, rfl, htheme⟩

theorem definitionsOf_map {os : List Occurrence} {ds : List Variable.Definition}
    (h : (os.filter (·.isDefinition)).map definition? = ds.map some) (name : String) :
    (definitionsOf name os).map definition? = (ds.filter (·.name == name)).map some := by
  let named : Option Variable.Definition → Bool := fun d => d.any (·.name == name)
  have hds : (ds.filter (·.name == name)).map some = (ds.map some).filter named := by
    rw [List.filter_map]
    rfl
  have hos : definitionsOf name os =
      (os.filter (·.isDefinition)).filter fun o => named o.definition? := by
    rw [definitionsOf, List.filter_filter]
    refine List.filter_congr fun o ho => ?_
    cases hdef : o.isDefinition with
    | false => rw [Bool.false_and, Bool.and_false]
    | true =>
        have hmem : o.definition? ∈ ds.map some := by
          rw [← h]
          exact List.mem_map_of_mem (List.mem_filter.mpr ⟨ho, hdef⟩)
        obtain ⟨d, -, hd⟩ := List.mem_map.mp hmem
        rw [Bool.true_and, Bool.and_true, ← hd, (definition?_eq_some hd.symm).1]
        rfl
  rw [hds, ← h, List.filter_map, hos]
  rfl

/-! ## One file -/

variable {table : Variable.Table} {attributes : List (List Char)}
  {settings : Context.Settings} {s : Source} {text : List Char} {r : Variable.Referred}

theorem exists_reports (htext : s.text = some text) (hr : r ∈ Variable.references text)
    {d : Variable.Definition} (hd : table.resolve? (String.ofList r.name) = some d) :
    ∃ o ∈ found table attributes settings s, o.Reports s r := by
  have hspot := mem_referenceSpots.mpr ⟨r, hr, d, hd, rfl⟩
  have hmem := List.mem_map_of_mem (f := describeIn settings s) hspot
  rw [← found_usages table attributes settings htext] at hmem
  exact ⟨_, (List.mem_filter.mp hmem).1, ⟨rfl, rfl, rfl, rfl, rfl⟩⟩

/-- A reported reference has the value and the theme of the definition that the
table answers with. -/
theorem Reports.resolved {o : Occurrence} (h : o.Reports s r) (htext : s.text = some text)
    (ho : o ∈ found table attributes settings s) :
    ∃ d, table.resolve? (String.ofList r.name) = some d ∧
      o.value = d.value ∧ o.theme = some d.theme := by
  have husage : o.isUsage = true := by rw [isUsage, isVariable, h.kind, h.usage]; rfl
  have hmem : o ∈ (found table attributes settings s).filter isUsage :=
    List.mem_filter.mpr ⟨ho, husage⟩
  rw [found_usages _ _ _ htext] at hmem
  obtain ⟨spot, hspot, rfl⟩ := List.mem_map.mp hmem
  obtain ⟨q, -, d, hd, rfl⟩ := mem_referenceSpots.mp hspot
  have hname : String.ofList q.name = String.ofList r.name := Option.some.inj h.name
  exact ⟨d, hname ▸ hd, rfl, rfl⟩

end Occurrence

namespace Census

open Occurrence (definitionsOf definition?)

variable {host : Host Id} {settings : Settings} {workspace root : Path} {cap : Option Int}

/-! ## All files -/

theorem definitions_shown (settings : Settings) (precedence : Variable.Precedence)
    (files : List Source) :
    ((files.flatMap (foundIn settings precedence files)).filter (·.isDefinition)).map
        definition? =
      (files.flatMap
        (Variable.definitionsIn (Theme.attributes settings.themes.attributes))).map some := by
  rw [List.filter_flatMap, List.map_flatMap, List.map_flatMap]
  congr 1
  funext s
  exact Occurrence.found_definitions _ _ _ s

theorem choose?_definitionsOf (settings : Settings) (precedence : Variable.Precedence)
    (files : List Source) (name : String) :
    (precedence.choose?
        (definitionsOf name (files.flatMap (foundIn settings precedence files)))).map
          definition? =
      ((tableOf settings precedence files).resolve? name).map some := by
  rw [← Variable.Precedence.choose?_map,
    Occurrence.definitionsOf_map (definitions_shown settings precedence files),
    Variable.Precedence.choose?_map, tableOf, Variable.resolve?_collect]

theorem resolve?_eq_none_iff {precedence : Variable.Precedence} {files : List Source}
    {name : String} :
    (tableOf settings precedence files).resolve? name = none ↔
      definitionsOf name (files.flatMap (foundIn settings precedence files)) = [] := by
  have hanswer := choose?_definitionsOf settings precedence files name
  constructor
  · intro h
    rw [h, Option.map_none, Option.map_eq_none_iff] at hanswer
    exact Variable.Precedence.choose?_eq_none_iff.mp hanswer
  · intro h
    rw [Variable.Precedence.choose?_eq_none_iff.mpr h, Option.map_none] at hanswer
    exact Option.map_eq_none_iff.mp hanswer.symm

theorem not_contains_tableOf {precedence : Variable.Precedence} {files : List Source}
    {name : String} :
    (!(tableOf settings precedence files).contains name) =
      (definitionsOf name (files.flatMap (foundIn settings precedence files))).isEmpty := by
  rw [Bool.eq_iff_iff, List.isEmpty_iff, ← resolve?_eq_none_iff, Variable.Table.contains,
    Option.not_isSome, Option.isNone_iff_eq_none]

/-- The references of a pass agree with its definitions. -/
structure Resolves (precedence : Variable.Precedence)
    (scanned : List (Source × List Occurrence)) : Prop where
  /-- The definitions of a file are reported in the order of their places. -/
  ordered : ∀ f ∈ scanned,
    (f.2.filter (·.isDefinition)).Pairwise fun d e => d.range.StartsBefore e.range
  /-- A reference is reported exactly if some file defines its name. -/
  reported : ∀ f ∈ scanned, ∀ text, f.1.text = some text →
    ∀ r ∈ Variable.references text,
      (∃ o ∈ f.2, o.Reports f.1 r) ↔
        ∃ g ∈ scanned, ∃ d ∈ g.2,
          d.isDefinition = true ∧ d.name = some (String.ofList r.name)
  /-- What is reported has the value and the theme of the definition that counts
  of all those of its name. -/
  carried : ∀ f ∈ scanned, ∀ text, f.1.text = some text →
    ∀ r ∈ Variable.references text, ∀ o ∈ f.2, o.Reports f.1 r →
      ∃ d, precedence.choose?
          (definitionsOf (String.ofList r.name) (scanned.flatMap (·.2))) = some d ∧
        o.value = d.value ∧ o.theme = d.theme

theorem resolves_reportsOf (settings : Settings) (precedence : Variable.Precedence)
    (files : List Source) :
    Resolves precedence (reportsOf settings precedence files) := by
  have hall := reportsOf_found settings precedence files
  constructor
  · intro f hf
    obtain ⟨s, -, rfl⟩ := mem_reportsOf.mp hf
    exact Occurrence.found_definitions_pairwise _ _ _ s
  · intro f hf text htext r hr
    obtain ⟨s, -, rfl⟩ := mem_reportsOf.mp hf
    constructor
    · rintro ⟨o, ho, hreports⟩
      obtain ⟨d, hd, -, -⟩ := hreports.resolved htext ho
      have hdefined := mt resolve?_eq_none_iff.mpr (Option.ne_none_iff_exists'.mpr ⟨d, hd⟩)
      obtain ⟨e, he⟩ := List.exists_mem_of_ne_nil _ hdefined
      rw [← hall, Occurrence.mem_definitionsOf] at he
      obtain ⟨g, hg, heg⟩ := List.mem_flatMap.mp he.1
      exact ⟨g, hg, e, heg, he.2⟩
    · rintro ⟨g, hg, e, heg, he⟩
      have hmem : e ∈ definitionsOf (String.ofList r.name)
          (files.flatMap (foundIn settings precedence files)) := by
        rw [← hall]
        exact Occurrence.mem_definitionsOf.mpr ⟨List.mem_flatMap.mpr ⟨g, hg, heg⟩, he⟩
      have hresolved := mt resolve?_eq_none_iff.mp (List.ne_nil_of_mem hmem)
      obtain ⟨d, hd⟩ := Option.ne_none_iff_exists'.mp hresolved
      exact Occurrence.exists_reports htext hr hd
  · intro f hf text htext r _ o ho hreports
    obtain ⟨s, -, rfl⟩ := mem_reportsOf.mp hf
    obtain ⟨d, hd, hvalue, htheme⟩ := hreports.resolved htext ho
    have hchosen := choose?_definitionsOf settings precedence files (String.ofList r.name)
    rw [hd, Option.map_some] at hchosen
    obtain ⟨e, he, hed⟩ := Option.map_eq_some_iff.mp hchosen
    obtain ⟨-, hvalue', htheme'⟩ := Occurrence.definition?_eq_some hed
    exact ⟨e, hall ▸ he, hvalue.trans hvalue'.symm, htheme.trans htheme'.symm⟩

/-- In every pass, a reference in a file that could be read is reported exactly
if a definition of its name is, and then with the value and the theme of the
first or the last of them, in the order of the visits and of the text. -/
theorem take_resolves {inventory : Inventory}
    (h : (take host settings workspace root cap).run.1 = .ok inventory) :
    ∃ precedence scanned,
      Variable.Precedence.ofName? settings.declarations.precedence = some precedence ∧
      scannedIn host settings workspace root cap = some scanned ∧
      scanned.map (·.1) = (graphIn host settings workspace root cap).files ∧
      inventory = inventoryOf settings (host.label workspace root)
        (graphIn host settings workspace root cap) scanned ∧
      Resolves precedence scanned := by
  obtain ⟨-, scanned, hscanned, hinventory⟩ := take_eq_ok_iff.mp h
  obtain ⟨precedence, hprecedence, -, rfl⟩ := scannedIn_eq_some_iff.mp hscanned
  exact ⟨precedence, _, hprecedence, hscanned, scannedIn_files hscanned, hinventory,
    resolves_reportsOf settings precedence _⟩

/-- The use in the first of two sheets has the value defined in the second. -/
theorem take_resolves_sheets :
    ∃ inventory, (take sheets {} folder firstSheet (some 2)).run.1 = .ok inventory ∧
      (reportsOfTwo.map fun r => r.2.map fun o => (o.name, o.value, o.isDefinition)) =
        [[(some "--x", "#fff", false)], [(some "--x", "#fff", true)]] ∧
      Resolves .first reportsOfTwo := by
  obtain ⟨inventory, h⟩ := exists_take_sheets (some 2)
  obtain ⟨precedence, scanned, hprecedence, hscanned, -, -, hresolves⟩ := take_resolves h
  cases hprecedence
  cases scannedIn_sheets_two.symm.trans hscanned
  exact ⟨inventory, h, reportsOfTwo_found, hresolves⟩

end Census

end ColorCensus
