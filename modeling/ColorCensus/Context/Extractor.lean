import ColorCensus.Color.Leading
import ColorCensus.Context.Markup
import ColorCensus.Host

/-!
# Choosing the context

A style sheet is read as a style sheet throughout. Any other file is read as markup, except
inside its `<style>` blocks, where the rules of style sheets hold and nothing before the block
is looked at. The text without comments and the style blocks of a file are worked out when they
are first asked for and kept by path.
-/

namespace ColorCensus.Context

open Text

/-- How far contexts look back, in lines, and how much of a line is shown. -/
structure Settings where
  markupWindow : Int := 15
  componentWindow : Int := 60
  stylesheetWindow : Int := 40
  sampleLength : Int := 220
deriving DecidableEq, Repr

def isStylesheet (source : Source) : Bool :=
  [".css", ".scss", ".sass", ".less"].any fun s => s.toList == source.suffix

/-- The text of a file without its comments; plain CSS has no line comments. -/
def maskedText (source : Source) : List Char :=
  maskComments (source.suffix != ".css".toList) (source.text.getD [])

/-- The first `</style>`: how much text is before it, and what follows it. -/
def toClosingTag? : List Char → Option (Nat × List Char)
  | [] => none
  | c :: rest =>
      match (Color.dropLetters? "</style".toList (c :: rest)).bind fun cs =>
          dropLiteral? ['>'] (trimLeft cs) with
      | some after => some (0, after)
      | none => (toClosingTag? rest).map fun (n, after) => (n + 1, after)

/-- A `<style>` block, with the number of characters before and inside its content. -/
def styleBlock : Recognizer (Nat × Nat) := fun _ cs => do
  let attributes ← Color.dropLetters? "<style".toList cs
  if !endsWord attributes then none
  else do
    let content ← dropLiteral? ['>'] (attributes.dropWhile (· != '>'))
    let (inside, after) ← toClosingTag? content
    pure ((consumed cs content, inside), after)

/-- The contents of the style blocks of a text, as half-open spans. -/
def styleBlocks (text : List Char) : List (Nat × Nat) :=
  (tokens styleBlock text).map fun t =>
    (t.start + t.value.1, t.start + t.value.1 + t.value.2)

inductive Strategy where
  | stylesheet
  | markup
deriving DecidableEq, Repr

def Strategy.label : Strategy → String
  | stylesheet => "stylesheet"
  | markup => "markup"

/-- The strategy at an offset and the floor of its search, for a file with the given blocks. -/
def strategyAmong (blocks : List (Nat × Nat)) (offset : Nat) : Strategy × Nat :=
  match blocks.find? fun b => b.1 ≤ offset && offset < b.2 with
  | some b => (.stylesheet, b.1)
  | none => (.markup, 0)

/-! ## Without memory -/

def strategyAt (source : Source) (offset : Nat) : Strategy × Nat :=
  if isStylesheet source then (.stylesheet, 0)
  else strategyAmong (styleBlocks (source.text.getD [])) offset

def hintAt (settings : Settings) (source : Source) (offset : Nat) : Hint :=
  match strategyAt source offset with
  | (.stylesheet, floor) =>
      Stylesheet.hintAt source.index (maskedText source) settings.stylesheetWindow floor offset
  | (.markup, _) =>
      Markup.hintAt source.index settings.markupWindow settings.componentWindow offset

/-! ## With memory -/

/-- What an extractor remembers about files. -/
structure Memory where
  masked : List (Path × List Char) := []
  blocks : List (Path × List (Nat × Nat)) := []

namespace Memory

/-- A remembered value; a new one is remembered. -/
def remember {α : Type} (known : List (Path × α)) (path : Path) (new : α) :
    α × List (Path × α) :=
  match known.find? fun k => k.1 = path with
  | some k => (k.2, known)
  | none => (new, (path, new) :: known)

def maskedText (m : Memory) (source : Source) : List Char × Memory :=
  let (text, masked) := remember m.masked source.path (Context.maskedText source)
  (text, { m with masked })

def strategyAt (m : Memory) (source : Source) (offset : Nat) : (Strategy × Nat) × Memory :=
  if isStylesheet source then ((.stylesheet, 0), m)
  else
    let (spans, blocks) := remember m.blocks source.path (styleBlocks (source.text.getD []))
    (strategyAmong spans offset, { m with blocks })

/-- The hint of a given strategy and floor. -/
def hintBy (m : Memory) (settings : Settings) (source : Source) (offset : Nat) :
    Strategy × Nat → Hint × Memory
  | (.stylesheet, floor) =>
      let (text, m) := m.maskedText source
      (Stylesheet.hintAt source.index text settings.stylesheetWindow floor offset, m)
  | (.markup, _) =>
      (Markup.hintAt source.index settings.markupWindow settings.componentWindow offset, m)

def hintAt (m : Memory) (settings : Settings) (source : Source) (offset : Nat) : Hint × Memory :=
  let (strategy, m) := m.strategyAt source offset
  m.hintBy settings source offset strategy

end Memory

/-- Whether the window of a strategy starts on a line of the file; only a negative window of
style sheets may not. -/
def Strategy.hasWindow (strategy : Strategy) (settings : Settings) (source : Source)
    (offset : Nat) : Bool :=
  match strategy with
  | stylesheet => Stylesheet.hasWindow source.index settings.stylesheetWindow offset
  | markup => true

end ColorCensus.Context
