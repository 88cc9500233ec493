import ColorCensus.Color.Literal
import ColorCensus.Context.Extractor
import ColorCensus.Occurrence.Basic
import ColorCensus.Occurrence.Overlap
import ColorCensus.Slice
import ColorCensus.Theme.Coverage
import ColorCensus.Variable.Collect

/-!
# Scanning a file

The occurrences of a file are its color definitions, its references to names that the variable
table knows, and its color literals apart from those inside the value of a definition. They are
spotted first, in the order in which they start, and then described where they stand.
-/

namespace ColorCensus.Occurrence

open Text

/-- A color spotted in a text, before its surroundings are looked at. -/
structure Spot where
  start : Nat
  stop : Nat
  kind : Kind
  value : String
  name : Option String := none
  theme : Option Theme := none
  isDefinition : Bool := false
deriving DecidableEq, Repr

def definitionSpots (attributes : List (List Char)) (source : Source) : List Spot :=
  let text := source.text.getD []
  let themes := Theme.ofLines attributes text
  (Variable.definitions text).map fun d =>
    { start := d.start
      stop := d.stop
      kind := .var
      value := String.ofList d.value
      name := some (String.ofList d.name)
      theme := some (Variable.themeAt themes source.index d.start)
      isDefinition := true }

/-- The spot of a reference, if its name is defined. -/
def referenceSpot? (table : Variable.Table) (r : Variable.Referred) : Option Spot :=
  (table.resolve? (String.ofList r.name)).map fun d =>
    { start := r.start
      stop := r.stop
      kind := .var
      value := d.value
      name := some (String.ofList r.name)
      theme := some d.theme }

/-- The literals of a text that overlap none of the given spans. -/
def literalSpots (spans : Array (Nat × Nat)) (text : List Char) : List Spot :=
  ((Color.literals text).filter fun t => !overlapsAny spans t.start t.stop).map fun t =>
    { start := t.start, stop := t.stop, kind := .literal, value := String.ofList t.text }

/-- The colors spotted in a file, in the order in which they start. -/
def spots (table : Variable.Table) (attributes : List (List Char)) (source : Source) : List Spot :=
  match source.text with
  | none => []
  | some text =>
      let defined := definitionSpots attributes source
      let referred := (Variable.references text).filterMap (referenceSpot? table)
      let spans := (defined.map fun s => (s.start, s.stop)).toArray
      (defined ++ referred ++ literalSpots spans text).mergeSort fun s t =>
        decide (s.start ≤ t.start)

/-- The number of references in a file to names that are not defined. -/
def danglingReferences (table : Variable.Table) (source : Source) : Nat :=
  (Variable.references (source.text.getD [])).countP fun r =>
    !table.contains (String.ofList r.name)

/-- The line that a spot starts on, trimmed and cut to a length. -/
def sampleAt (length : Int) (ix : LineIndex) (start : Nat) : String :=
  String.ofList (upTo length (trim (ix.lineText (ix.lineOf start))))

/-- A spot with its surroundings. -/
def describe (sampleLength : Int) (source : Source) (hint : Context.Hint) (s : Spot) :
    Occurrence where
  kind := s.kind
  value := s.value
  file := source.label
  range := source.index.rangeOf s.start s.stop
  name := s.name
  theme := s.theme
  scope := hint.scope.map String.ofList
  property := hint.property.map String.ofList
  isDefinition := s.isDefinition
  sample := sampleAt sampleLength source.index s.start

/-- Describes spots one after the other with the same memory. -/
def describeAll (settings : Context.Settings) (source : Source) :
    Context.Memory → List Spot → List Occurrence × Context.Memory
  | memory, [] => ([], memory)
  | memory, s :: rest =>
      let (hint, memory) := memory.hintAt settings source s.start
      let (occurrences, memory) := describeAll settings source memory rest
      (describe settings.sampleLength source hint s :: occurrences, memory)

/-- The occurrences of a file. -/
def scan (table : Variable.Table) (attributes : List (List Char)) (settings : Context.Settings)
    (memory : Context.Memory) (source : Source) : List Occurrence × Context.Memory :=
  describeAll settings source memory (spots table attributes source)

/-- Whether every spot of a file has the window that its context is searched in. -/
def hasWindows (table : Variable.Table) (attributes : List (List Char))
    (settings : Context.Settings) (memory : Context.Memory) (source : Source) : Bool :=
  (spots table attributes source).all fun s =>
    (memory.strategyAt source s.start).1.1.hasWindow settings source s.start

/-- The themes of a file, told from the definitions among its occurrences. -/
def coverage (attributes : List (List Char)) (source : Source) (occurrences : List Occurrence) :
    Theme.Coverage :=
  .ofFile attributes (source.text.getD []) <|
    (occurrences.filter fun o => o.isVariable && o.isDefinition && o.file == source.label).map
      fun o => o.theme.getD .base

end ColorCensus.Occurrence
