import ColorCensus.Proofs.LineEnds.Colors
import ColorCensus.Proofs.LineEnds.Contexts
import ColorCensus.Proofs.LineEnds.Themes
import ColorCensus.Proofs.Pass
import ColorCensus.Proofs.Spans
import ColorCensus.Proofs.Table

/-!
# A scan does not depend on line ends

Files are scanned twice: as they are, and with a carriage return before every
newline. The second scan reports what the first one does, occurrence by
occurrence (`scannedOver_crlf`). All that changes is the text of a value that
goes over lines, and in its normal form that is the same value
(`Color.normalForm_crlf`).

Stage by stage: the definitions of a file are the same with other values, so the
table answers the same for every name; the spots are the same at shifted offsets;
and what is told about a spot is told in lines, columns and contexts, none of
which show the shift.
-/

namespace ColorCensus

open Text

namespace Variable

/-! ## Definitions and the table -/

def Definition.crlf (d : Definition) : Definition :=
  { d with value := String.ofList (Text.crlf d.value.toList) }

theorem themeAt_crlf (attributes : List (List Char)) (text : List Char) (offset : Nat) :
    themeAt (Theme.ofLines attributes (crlf text)) (.ofText (crlf text)) (shifted text offset) =
      themeAt (Theme.ofLines attributes text) (.ofText text) offset := by
  rw [themeAt, themeAt, Theme.ofLines_crlf, LineIndex.lineOf_crlf]

theorem definitionsIn_crlf (attributes : List (List Char)) (s : Source) :
    definitionsIn attributes s.crlf = (definitionsIn attributes s).map Definition.crlf := by
  simp only [definitionsIn, Source.crlf_text, Source.crlf_index, definitions_crlf, s.index_eq,
    List.map_map]
  refine List.map_congr_left fun d hd => ?_
  have hstop := (stands_of_mem_definitions hd).stop_widen
  simp only [Function.comp_apply, hstop]
  simp only [Defined.widen, Definition.crlf, themeAt_crlf, LineIndex.rangeOf_crlf,
    String.toList_ofList]
  rfl

theorem resolve?_collect_crlf (precedence : Precedence) (attributes : List (List Char))
    (files : List Source) (name : String) :
    (collect precedence attributes (files.map Source.crlf)).1.resolve? name =
      ((collect precedence attributes files).1.resolve? name).map Definition.crlf := by
  have hdefinitions : (files.map Source.crlf).flatMap (definitionsIn attributes) =
      (files.flatMap (definitionsIn attributes)).map Definition.crlf := by
    rw [List.flatMap_map, List.map_flatMap]
    exact List.flatMap_congr fun s _ => definitionsIn_crlf attributes s
  rw [resolve?_collect, resolve?_collect, hdefinitions, List.filter_map, Precedence.choose?_map]
  rfl

end Variable

namespace Occurrence

/-! ## Spots -/

/-- Where a spot of a text has moved to. -/
def Spot.crlf (text : List Char) (a : Spot) : Spot :=
  { a with
    start := shifted text a.start
    stop := shifted text a.stop
    value := String.ofList (Text.crlf a.value.toList) }

theorem definitionSpots_crlf (attributes : List (List Char)) (s : Source) :
    definitionSpots attributes s.crlf =
      (definitionSpots attributes s).map (Spot.crlf (s.text.getD [])) := by
  simp only [definitionSpots, Source.crlf_text, Source.crlf_index, Variable.definitions_crlf,
    s.index_eq, List.map_map]
  refine List.map_congr_left fun d hd => ?_
  have hstop := (Variable.stands_of_mem_definitions hd).stop_widen
  simp only [Function.comp_apply, hstop]
  simp only [Variable.Defined.widen, Spot.crlf, Variable.themeAt_crlf, String.toList_ofList]

theorem overlapsAny_shifted {spans : List (Nat × Nat)}
    (sorted : spans.Pairwise fun p q => p.1 ≤ q.1 ∧ p.2 ≤ q.2) (text : List Char)
    (start stop : Nat) :
    overlapsAny (spans.map (shiftedSpan text)).toArray (shifted text start) (shifted text stop) =
      overlapsAny spans.toArray start stop := by
  have sorted' : (spans.map (shiftedSpan text)).Pairwise fun p q => p.1 ≤ q.1 ∧ p.2 ≤ q.2 := by
    refine List.pairwise_map.mpr (sorted.imp fun h => ?_)
    exact ⟨shifted_le_iff.mpr h.1, shifted_le_iff.mpr h.2⟩
  rw [Bool.eq_iff_iff, overlapsAny_eq_true_iff sorted, overlapsAny_eq_true_iff sorted']
  simp only [List.mem_map, exists_exists_and_eq_and, shiftedSpan, shifted_lt_iff]

theorem literalSpots_crlf {spans : List (Nat × Nat)}
    (sorted : spans.Pairwise fun p q => p.1 ≤ q.1 ∧ p.2 ≤ q.2) (text : List Char) :
    literalSpots (spans.map (shiftedSpan text)).toArray (crlf text) =
      (literalSpots spans.toArray text).map (Spot.crlf text) := by
  have hstop : ∀ t ∈ Color.literals text, (t.moved text).stop = shifted text t.stop :=
    fun t ht => Token.stop_moved (Color.standsAt_of_mem_literals ht).1
  have hkept : (Color.literals text).filter
        ((fun t => !overlapsAny (spans.map (shiftedSpan text)).toArray t.start t.stop) ∘
          Token.moved text) =
      (Color.literals text).filter fun t => !overlapsAny spans.toArray t.start t.stop := by
    refine List.filter_congr fun t ht => ?_
    rw [Function.comp_apply, hstop t ht]
    exact congrArg (!·) (overlapsAny_shifted sorted text t.start t.stop)
  rw [literalSpots, literalSpots, Color.literals_crlf, List.filter_map, hkept, List.map_map,
    List.map_map]
  refine List.map_congr_left fun t ht => ?_
  simp only [Function.comp_apply, hstop t (List.mem_of_mem_filter ht)]
  simp only [Token.widen, Spot.crlf, String.toList_ofList]

theorem definedSpans_crlf (attributes : List (List Char)) (s : Source) :
    definedSpans attributes s.crlf =
      (((definitionSpots attributes s).map Spot.span).map
        (shiftedSpan (s.text.getD []))).toArray := by
  rw [definedSpans, definitionSpots_crlf, List.map_map, List.map_map]
  rfl

/-! ## Occurrences -/

def crlf (o : Occurrence) : Occurrence :=
  { o with value := String.ofList (Text.crlf o.value.toList) }

theorem describeIn_crlf (settings : Context.Settings) (s : Source) (a : Spot) :
    describeIn settings s.crlf (a.crlf (s.text.getD [])) = (describeIn settings s a).crlf := by
  have hhint := Context.hintAt_crlf s a.start settings
  have hsample : sampleAt settings.sampleLength s.crlf.index (shifted (s.text.getD []) a.start) =
      sampleAt settings.sampleLength s.index a.start := by
    rw [sampleAt, sampleAt, Source.crlf_index, s.index_eq, LineIndex.lineOf_crlf,
      LineIndex.lineText_crlf]
  have hrange : s.crlf.index.rangeOf (shifted (s.text.getD []) a.start)
      (shifted (s.text.getD []) a.stop) = s.index.rangeOf a.start a.stop := by
    rw [Source.crlf_index, s.index_eq, LineIndex.rangeOf_crlf]
  simp only [describeIn, describe, Spot.crlf, hhint, hsample, hrange]
  rfl

section

variable {table table' : Variable.Table} {attributes : List (List Char)}
  {settings : Context.Settings}
  (htable : ∀ name, table'.resolve? name = (table.resolve? name).map Variable.Definition.crlf)

include htable

theorem referenceSpots_crlf (text : List Char) :
    referenceSpots table' (Text.crlf text) =
      (referenceSpots table text).map (Spot.crlf text) := by
  rw [referenceSpots, referenceSpots, Variable.references_crlf, List.filterMap_map,
    List.map_filterMap]
  refine List.filterMap_congr fun r hr => ?_
  have hstop := (Variable.stands_of_mem_references hr).stop_widen
  simp only [Function.comp_apply, referenceSpot?, hstop]
  simp only [Variable.Referred.widen, htable, Option.map_map]
  rfl

theorem spots_crlf (s : Source) :
    spots table' attributes s.crlf =
      (spots table attributes s).map (Spot.crlf (s.text.getD [])) := by
  cases htext : s.text with
  | none =>
      have htext' : s.crlf.text = none := congrArg (Option.map Text.crlf) htext
      rw [spots, spots, htext, htext']
      rfl
  | some text =>
      have htext' : s.crlf.text = some (Text.crlf text) :=
        congrArg (Option.map Text.crlf) htext
      have hliteral : literalSpots (definedSpans attributes s.crlf) (Text.crlf text) =
          (literalSpots (definedSpans attributes s) text).map (Spot.crlf text) := by
        rw [definedSpans_crlf, htext]
        exact literalSpots_crlf (definedSpans_sorted attributes s) text
      rw [spots_eq table' attributes htext', spots_eq table attributes htext, hliteral,
        definitionSpots_crlf, htext, Option.getD_some, referenceSpots_crlf htable,
        ← List.map_append, ← List.map_append]
      refine (List.map_mergeSort fun a _ b _ => ?_).symm
      exact decide_eq_decide.mpr shifted_le_iff.symm

theorem found_crlf (s : Source) :
    found table' attributes settings s.crlf = (found table attributes settings s).map crlf := by
  rw [found, found, spots_crlf htable, List.map_map, List.map_map]
  exact List.map_congr_left fun a _ => describeIn_crlf settings s a

theorem windowed_crlf (s : Source) :
    windowed table' attributes settings s.crlf = windowed table attributes settings s := by
  rw [windowed, windowed, spots_crlf htable, List.all_map]
  congr 1
  funext a
  simp only [Function.comp_apply, Spot.crlf, Context.strategyAt_crlf, Context.hasWindow_crlf]

end

theorem coverage_crlf {attributes : List (List Char)} (h : ∀ a ∈ attributes, Plain a)
    (s : Source) (os : List Occurrence) :
    coverage attributes s.crlf (os.map crlf) = coverage attributes s os := by
  have hthemes : ∀ p : Occurrence → Bool, (∀ o, p o.crlf = p o) →
      ((os.map crlf).filter p).map (fun o => o.theme.getD .base) =
        (os.filter p).map fun o => o.theme.getD .base := by
    intro p hp
    rw [List.filter_map, List.map_map]
    exact congrArg (List.map _) (List.filter_congr fun o _ => hp o)
  rw [coverage, coverage, hthemes _ fun o => rfl, Source.crlf_text, Theme.Coverage.ofFile,
    Theme.followsSystem_crlf h]
  rfl

/-- The occurrence with its value in normal form. -/
def normalised (o : Occurrence) : Occurrence :=
  { o with value := String.ofList (Color.normalForm o.value.toList) }

theorem normalised_crlf (o : Occurrence) : o.crlf.normalised = o.normalised := by
  rw [normalised, crlf, String.toList_ofList, Color.normalForm_crlf]
  rfl

end Occurrence

theorem Source.Agree.crlf {s t : Source} (h : s.Agree t) : s.crlf.Agree t.crlf :=
  fun hpath => congrArg (Option.map Text.crlf) (h hpath)

namespace Census

/-! ## All files of a pass -/

theorem scannedOver_crlf {settings : Settings} {files : List Source}
    (hagree : ∀ s ∈ files, ∀ t ∈ files, s.Agree t) :
    scannedOver settings (files.map Source.crlf) =
      (scannedOver settings files).map fun scanned =>
        scanned.map fun r => (r.1.crlf, r.2.map Occurrence.crlf) := by
  have hagree' : ∀ s ∈ files.map Source.crlf, ∀ t ∈ files.map Source.crlf, s.Agree t := by
    intro s hs t ht
    obtain ⟨s', hs', rfl⟩ := List.mem_map.mp hs
    obtain ⟨t', ht', rfl⟩ := List.mem_map.mp ht
    exact (hagree s' hs' t' ht').crlf
  unfold scannedOver
  cases Variable.Precedence.ofName? settings.declarations.precedence with
  | none => rfl
  | some precedence =>
      have htable := Variable.resolve?_collect_crlf precedence
        (Theme.attributes settings.themes.attributes) files
      have hcan : ∀ s : Source,
          scannable (tableOf settings precedence (files.map Source.crlf))
              (Theme.attributes settings.themes.attributes) settings.context s.crlf =
            scannable (tableOf settings precedence files)
              (Theme.attributes settings.themes.attributes) settings.context s := fun s => by
        rw [scannable, scannable, tableOf, tableOf, Occurrence.windowed_crlf htable]
      rw [Option.bind_some, Option.bind_some, scanAll_eq (fun s _ => .empty s) hagree',
        scanAll_eq (fun s _ => .empty s) hagree, List.all_map]
      simp only [Function.comp_def, hcan, apply_ite (Option.map _), Option.map_some,
        Option.map_none, List.map_map]
      congr 2
      refine List.map_congr_left fun s _ => ?_
      rw [tableOf, Occurrence.found_crlf htable]
      rfl

/-- What is shown of some files, one by one: their occurrences with the values in
normal form, and the themes that they cover. -/
def shownOver (settings : Settings) (files : List Source) :
    Option (List (List Occurrence × Theme.Coverage)) :=
  (scannedOver settings files).map fun scanned => scanned.map fun r =>
    (r.2.map Occurrence.normalised,
      Occurrence.coverage (Theme.attributes settings.themes.attributes) r.1 r.2)

/-- Over files with one text for each path, and with attribute names that hold
no line end, a scan shows the same whether lines end with a newline or with two
characters; and unless the precedence is unknown or a window negative, there is
something to show for every file. -/
theorem shownOver_crlf {settings : Settings} {files : List Source}
    (hagree : ∀ s ∈ files, ∀ t ∈ files, s.Agree t)
    (hplain : ∀ name ∈ settings.themes.attributes, Plain name.toList) :
    shownOver settings (files.map Source.crlf) = shownOver settings files ∧
      ∀ precedence,
        Variable.Precedence.ofName? settings.declarations.precedence = some precedence →
        0 ≤ settings.context.stylesheetWindow →
          scannedOver settings files = some (reportsOf settings precedence files) := by
  constructor
  · have hattributes : ∀ a ∈ Theme.attributes settings.themes.attributes, Plain a := by
      intro a ha
      obtain ⟨name, hname, rfl⟩ := List.mem_map.mp ha
      exact plain_lower (hplain name (List.mem_of_mem_filter hname))
    rw [shownOver, shownOver, scannedOver_crlf hagree, Option.map_map]
    refine Option.map_congr fun scanned _ => ?_
    rw [Function.comp_apply, List.map_map]
    refine List.map_congr_left fun r _ => ?_
    rw [Function.comp_apply, Occurrence.coverage_crlf hattributes, List.map_map]
    exact congrArg (·, _) (List.map_congr_left fun o _ => o.normalised_crlf)
  · intro precedence hprecedence hwindow
    refine (scannedOver_eq_some_iff hagree).mpr ⟨precedence, hprecedence, fun s _ => ?_, rfl⟩
    rw [scannable, decide_eq_true hwindow, Bool.true_or]

/-- A sheet of the given name and text. -/
def sheet (name text : String) : Source where
  path := .ofString name
  label := name
  text := some text.toList

/-- Two sheets with a selector, a color, a comment and a declaration that go over
lines. -/
def spread : List Source :=
  [sheet "a.css" ".a,\n.b\x7b--x:rgb(1,\n2,3);\x7d",
    sheet "b.css" "/*\n*/.c\x7bfill:\nvar(--x)\x7d"]

theorem spread_agree : ∀ s ∈ spread, ∀ t ∈ spread, s.Agree t := by
  unfold Source.Agree
  decide +kernel

set_option maxRecDepth 100000 in
/-- The value of the definition is shown in one line, the selector as well. -/
theorem shownOver_crlf_spread :
    scannedOver {} spread = some (reportsOf {} .first spread) ∧
      (shownOver {} (spread.map Source.crlf)).map (·.map fun shown =>
          shown.1.map fun o => (o.value, o.range, o.scope, o.property)) =
        some [[("rgb(1,2,3)", ⟨2, 7, 4⟩, some ".a, .b", some "--x")],
          [("rgb(1,2,3)", ⟨3, 4, 7⟩, some ".c", none)]] := by
  have hplain : ∀ name ∈ ({} : Settings).themes.attributes, Plain name.toList := by
    decide +kernel
  obtain ⟨hsame, hscanned⟩ := shownOver_crlf spread_agree hplain
  refine ⟨hscanned .first rfl (by decide), ?_⟩
  rw [hsame]
  cbv

/-! ## Where line ends show -/

/-- A scan of these files, of which none has a carriage return, shows something
else once their lines end with two characters. -/
def ShowsLineEnds (settings : Settings) (files : List Source) : Prop :=
  (∀ s ∈ files, '\r' ∉ s.text.getD []) ∧
    shownOver settings (files.map Source.crlf) ≠ shownOver settings files

instance (settings : Settings) (files : List Source) : Decidable (ShowsLineEnds settings files) :=
  inferInstanceAs (Decidable (_ ∧ _))

/-- Settings with one attribute name. -/
def keyedBy (name : String) : Settings where
  themes := ⟨[name]⟩

set_option maxRecDepth 100000 in
/-- An attribute name is looked for with its line ends as they are; and a file is
searched for selectors in the text that its path had first. -/
theorem line_ends_show :
    ShowsLineEnds (keyedBy "a\nb") [sheet "a.css" "a\nb='system'"] ∧
      ShowsLineEnds (keyedBy "a\r") [sheet "a.css" "a\n='system'"] ∧
      ShowsLineEnds {} [sheet "a.css" ".x\x7b#fff", sheet "a.css" "\n\n#fff"] := by
  decide_cbv

end Census

end ColorCensus
