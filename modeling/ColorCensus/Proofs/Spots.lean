import ColorCensus.Proofs.Lines
import ColorCensus.Proofs.Memory
import ColorCensus.Proofs.StableSort
import ColorCensus.Proofs.Variables
import Mathlib.Data.List.Forall2

/-!
# Where the occurrences of a file come from

The spots of a file are sorted together, whatever they are. The sort is stable
and each of the three sources gives its spots in order, so what is kept of the
sorted spots by a test that takes whole sources is those sources again
(`spots_filter`).

Two answers are read off from that. The definitions among the occurrences of a
file are those that the variable table is filled with, one for one and in the
same order (`found_definitions`). Its other variables are the references that
the table resolves (`found_usages`).
-/

namespace ColorCensus

namespace Occurrence

variable {table : Variable.Table} {attributes : List (List Char)}
  {settings : Context.Settings} {s : Source}

/-! ## The sources of the spots -/

theorem definitionSpots_pairwise (attributes : List (List Char)) (s : Source) :
    (definitionSpots attributes s).Pairwise fun a b => a.start < b.start :=
  List.pairwise_map.mpr (Variable.definitions_pairwise _)

/-- A reference rather than a definition or a literal. -/
def Spot.isUsage (a : Spot) : Bool := a.kind == .var && !a.isDefinition

theorem isUsage_of_mem_definitionSpots {a : Spot} (h : a ∈ definitionSpots attributes s) :
    a.isUsage = false ∧ a.isDefinition = true := by
  obtain ⟨d, -, rfl⟩ := List.mem_map.mp h
  exact ⟨rfl, rfl⟩

/-- The spots of the references of a text that a table resolves. -/
def referenceSpots (table : Variable.Table) (text : List Char) : List Spot :=
  (Variable.references text).filterMap (referenceSpot? table)

theorem mem_referenceSpots {text : List Char} {a : Spot} :
    a ∈ referenceSpots table text ↔
      ∃ r ∈ Variable.references text, ∃ d, table.resolve? (String.ofList r.name) = some d ∧
        { start := r.start, stop := r.stop, kind := .var, value := d.value,
          name := some (String.ofList r.name), theme := some d.theme } = a := by
  simp only [referenceSpots, List.mem_filterMap, referenceSpot?, Option.map_eq_some_iff]

theorem referenceSpots_pairwise (table : Variable.Table) (text : List Char) :
    (referenceSpots table text).Pairwise fun a b => a.start < b.start := by
  refine List.pairwise_filterMap.mpr ((Variable.references_pairwise text).imp ?_)
  intro q r hqr a ha b hb
  obtain ⟨_, -, rfl⟩ := Option.map_eq_some_iff.mp ha
  obtain ⟨_, -, rfl⟩ := Option.map_eq_some_iff.mp hb
  exact hqr

theorem isUsage_of_mem_referenceSpots {text : List Char} {a : Spot}
    (h : a ∈ referenceSpots table text) : a.isUsage = true ∧ a.isDefinition = false := by
  obtain ⟨r, -, d, -, rfl⟩ := mem_referenceSpots.mp h
  exact ⟨rfl, rfl⟩

theorem isUsage_of_mem_literalSpots {spans : Array (Nat × Nat)} {text : List Char} {a : Spot}
    (h : a ∈ literalSpots spans text) : a.isUsage = false ∧ a.isDefinition = false := by
  obtain ⟨t, -, rfl⟩ := List.mem_map.mp h
  exact ⟨rfl, rfl⟩

def definedSpans (attributes : List (List Char)) (s : Source) : Array (Nat × Nat) :=
  ((definitionSpots attributes s).map fun a => (a.start, a.stop)).toArray

theorem spots_eq (table : Variable.Table) (attributes : List (List Char))
    {text : List Char} (htext : s.text = some text) :
    spots table attributes s =
      (definitionSpots attributes s ++ referenceSpots table text ++
        literalSpots (definedSpans attributes s) text).mergeSort fun a b =>
          decide (a.start ≤ b.start) := by
  rw [spots, htext]
  rfl

theorem mem_spots {text : List Char} (htext : s.text = some text) {a : Spot} :
    a ∈ spots table attributes s ↔ a ∈ definitionSpots attributes s ∨
      a ∈ referenceSpots table text ∨ a ∈ literalSpots (definedSpans attributes s) text := by
  rw [spots_eq table attributes htext, List.mem_mergeSort, List.mem_append, List.mem_append,
    or_assoc]

/-- Keeping some of the spots of a file is keeping some of each source. -/
theorem spots_filter (table : Variable.Table) (attributes : List (List Char))
    {text : List Char} (htext : s.text = some text) (p : Spot → Bool) :
    (spots table attributes s).filter p =
      ((definitionSpots attributes s).filter p ++ (referenceSpots table text).filter p ++
        (literalSpots (definedSpans attributes s) text).filter p).mergeSort fun a b =>
          decide (a.start ≤ b.start) := by
  rw [spots_eq table attributes htext, filter_mergeSort_key Spot.start, List.filter_append,
    List.filter_append]

theorem spots_definitions (table : Variable.Table) (attributes : List (List Char))
    (s : Source) :
    (spots table attributes s).filter (·.isDefinition) = definitionSpots attributes s := by
  cases htext : s.text with
  | none =>
      rw [spots, definitionSpots, htext]
      rfl
  | some text =>
      have hdefined : (definitionSpots attributes s).filter (·.isDefinition) =
          definitionSpots attributes s :=
        List.filter_eq_self.mpr fun _ h => (isUsage_of_mem_definitionSpots h).2
      have hreferred : (referenceSpots table text).filter (·.isDefinition) = [] :=
        List.filter_eq_nil_iff.mpr fun _ h => by simp [(isUsage_of_mem_referenceSpots h).2]
      have hliteral : (literalSpots (definedSpans attributes s) text).filter (·.isDefinition) =
          [] :=
        List.filter_eq_nil_iff.mpr fun _ h => by simp [(isUsage_of_mem_literalSpots h).2]
      rw [spots_filter table attributes htext, hdefined, hreferred, hliteral, List.append_nil,
        List.append_nil]
      exact mergeSort_key_eq_self
        ((definitionSpots_pairwise attributes s).imp fun h => Nat.le_of_lt h)

theorem spots_usages (table : Variable.Table) (attributes : List (List Char))
    {text : List Char} (htext : s.text = some text) :
    (spots table attributes s).filter Spot.isUsage = referenceSpots table text := by
  have hdefined : (definitionSpots attributes s).filter Spot.isUsage = [] :=
    List.filter_eq_nil_iff.mpr fun _ h => by simp [(isUsage_of_mem_definitionSpots h).1]
  have hreferred : (referenceSpots table text).filter Spot.isUsage =
      referenceSpots table text :=
    List.filter_eq_self.mpr fun _ h => (isUsage_of_mem_referenceSpots h).1
  have hliteral : (literalSpots (definedSpans attributes s) text).filter Spot.isUsage = [] :=
    List.filter_eq_nil_iff.mpr fun _ h => by simp [(isUsage_of_mem_literalSpots h).1]
  rw [spots_filter table attributes htext, hdefined, hreferred, hliteral, List.nil_append,
    List.append_nil]
  exact mergeSort_key_eq_self
    ((referenceSpots_pairwise table text).imp fun h => Nat.le_of_lt h)

/-! ## The definitions and the usages of a file -/

/-- The definition that an occurrence shows. -/
def definition? (o : Occurrence) : Option Variable.Definition := do
  let name ← o.name
  let theme ← o.theme
  pure { name, value := o.value, file := o.file, theme, range := some o.range }

/-- A variable that is not defined but used. -/
def isUsage (o : Occurrence) : Bool := o.isVariable && !o.isDefinition

theorem found_filter_definitions (table : Variable.Table) (attributes : List (List Char))
    (settings : Context.Settings) (s : Source) :
    (found table attributes settings s).filter (·.isDefinition) =
      (definitionSpots attributes s).map (describeIn settings s) := by
  rw [found, List.filter_map, ← spots_definitions table]
  rfl

theorem found_definitions (table : Variable.Table) (attributes : List (List Char))
    (settings : Context.Settings) (s : Source) :
    ((found table attributes settings s).filter (·.isDefinition)).map definition? =
      (Variable.definitionsIn attributes s).map some := by
  rw [found_filter_definitions, definitionSpots, Variable.definitionsIn]
  simp only [List.map_map]
  rfl

theorem found_definitions_pairwise (table : Variable.Table) (attributes : List (List Char))
    (settings : Context.Settings) (s : Source) :
    ((found table attributes settings s).filter (·.isDefinition)).Pairwise fun d e =>
      d.range.StartsBefore e.range := by
  rw [found_filter_definitions]
  refine List.pairwise_map.mpr ((definitionSpots_pairwise attributes s).imp ?_)
  intro a b hab
  exact s.index.rangeOf_startsBefore a.stop b.stop hab

theorem found_usages (table : Variable.Table) (attributes : List (List Char))
    (settings : Context.Settings) {text : List Char} (htext : s.text = some text) :
    (found table attributes settings s).filter isUsage =
      (referenceSpots table text).map (describeIn settings s) := by
  rw [found, List.filter_map, ← spots_usages table attributes htext]
  rfl

/-! ## Definitions and the themes of their lines -/

theorem describeAll_forall₂ (settings : Context.Settings) (s : Source) (memory : Context.Memory)
    (ss : List Spot) :
    List.Forall₂ (fun a o => ∃ hint, o = describe settings.sampleLength s hint a) ss
      (describeAll settings s memory ss).1 := by
  induction ss generalizing memory with
  | nil => exact .nil
  | cons a ss ih => exact .cons ⟨_, rfl⟩ (ih _)

/-- An occurrence shows a definition as the table has it. -/
structure Mirrors (o : Occurrence) (d : Variable.Definition) : Prop where
  kind : o.kind = .var
  name : o.name = some d.name
  value : o.value = d.value
  theme : o.theme = some d.theme
  file : o.file = d.file
  range : d.range = some o.range

theorem lineOf_lt_ofLines (attributes : List (List Char)) (s : Source) (offset : Nat) :
    s.index.lineOf offset < (Theme.ofLines attributes (s.text.getD [])).length := by
  rw [s.index_eq, Text.LineIndex.lineOf_eq_count, Theme.length_ofLines]
  exact Nat.lt_succ_of_le ((List.take_sublist offset (s.text.getD [])).count_le '\n')

theorem getElem?_ofLines (attributes : List (List Char)) (s : Source) (offset : Nat) :
    (Theme.ofLines attributes (s.text.getD []))[s.index.lineOf offset]? =
      some (Variable.themeAt (Theme.ofLines attributes (s.text.getD [])) s.index offset) := by
  rw [Variable.themeAt, List.getElem?_eq_getElem (lineOf_lt_ofLines attributes s offset)]
  rfl

/-- The definitions among the occurrences of a file are those that the table is filled with, one
for one and in the same order, whatever the table holds and whatever is remembered. The theme of
either is that of the line it is on: there is a theme for every line, and none is made up. -/
theorem scan_definitions (table : Variable.Table) (attributes : List (List Char))
    (settings : Context.Settings) (memory : Context.Memory) (s : Source) :
    let themes := Theme.ofLines attributes (s.text.getD [])
    List.Forall₂ (fun o d => Mirrors o d ∧ themes[o.range.line - 1]? = some d.theme)
        ((scan table attributes settings memory s).1.filter (·.isDefinition))
        (Variable.definitionsIn attributes s) ∧
      ∀ offset, s.index.lineOf offset < themes.length := by
  refine ⟨?_, lineOf_lt_ofLines attributes s⟩
  have hkept := List.rel_filter (p := fun a : Spot => a.isDefinition)
    (q := fun o : Occurrence => o.isDefinition) ?_
    (describeAll_forall₂ settings s memory (spots table attributes s))
  · rw [spots_definitions, definitionSpots, List.forall₂_map_left_iff] at hkept
    rw [Variable.definitionsIn, List.forall₂_map_right_iff]
    refine hkept.flip.imp fun o d hspot => ?_
    obtain ⟨hint, rfl⟩ := hspot
    exact ⟨⟨rfl, rfl, rfl, rfl, rfl, rfl⟩, getElem?_ofLines attributes s d.start⟩
  · rintro a o ⟨hint, rfl⟩
    exact Iff.rfl

end Occurrence

end ColorCensus
