import ColorCensus.Distinct
import ColorCensus.Text.Blank
import ColorCensus.Text.Token

/-!
# Import statements

The statements by which a file names another: `import … from "x"`, `import "x"`, `require("x")`
in code and `@import "x"` in style sheets. Each form is a recogniser of its own and walks the
text on its own; the statements found are then put in order of their start, and of several for
one file and kind the first stays.

The clause of `import … from` may hold anything but a semicolon, quotes and newlines included,
and ends at the first `from "x"` with a blank before it. An empty clause counts only if nothing
longer does.
-/

namespace ColorCensus.Import

open Text

inductive Kind where
  | code
  | stylesheet
deriving DecidableEq, Repr

def Kind.label : Kind → String
  | code => "code"
  | stylesheet => "stylesheet"

def Kind.ofLabel? (label : String) : Option Kind :=
  if label = "code" then some .code else if label = "stylesheet" then some .stylesheet else none

/-- The word `import` may start here: it continues no word and no `@`. -/
def startsImport (before : Option Char) : Bool := !before.any fun c => isWord c || c == '@'

/-- `from "x"`: the specifier and what is left. -/
def takeFrom? (cs : List Char) : Option (List Char × List Char) := do
  let cs ← dropLiteral? "from".toList cs
  let cs ← dropRun? isBlank cs
  takeQuoted? cs

/-- The first `from "x"` with a blank before it and no semicolon on the way. -/
def takeClause? : List Char → Option (List Char × List Char)
  | [] => none
  | c :: rest =>
      ((dropRun? isBlank (c :: rest)).bind takeFrom?).or
        (if c == ';' then none else takeClause? rest)

def importFrom : Recognizer (List Char) := fun before cs =>
  if startsImport before then do
    let cs ← dropLiteral? "import".toList cs
    let (gap, cs) ← takeRun? isBlank cs
    (takeClause? cs).or (if gap.length ≥ 2 then takeFrom? cs else none)
  else none

def importBare : Recognizer (List Char) := fun before cs =>
  if startsImport before then do
    let cs ← dropLiteral? "import".toList cs
    let cs ← dropRun? isBlank cs
    takeQuoted? cs
  else none

def requireCall : Recognizer (List Char) := fun before cs =>
  if startsWord before then do
    let cs ← dropLiteral? "require(".toList cs
    let (specifier, cs) ← takeQuoted? (trimLeft cs)
    let cs ← dropLiteral? [')'] (trimLeft cs)
    pure (specifier, cs)
  else none

def importRule : Recognizer (List Char) := fun _ cs => do
  let cs ← dropLiteral? "@import".toList cs
  let cs ← dropRun? isBlank cs
  let cs := ((dropLiteral? "url(".toList cs).map trimLeft).getD cs
  takeQuoted? cs

/-- A file named by a statement, with the offset of the statement. -/
structure Edge where
  specifier : List Char
  kind : Kind
  offset : Nat
deriving DecidableEq, Repr

def edgesOf (kind : Kind) (r : Recognizer (List Char)) (text : List Char) : List Edge :=
  (tokens r text).map fun t => ⟨trim t.value, kind, t.start⟩

/-- Every statement of every form, form by form. -/
def statements (text : List Char) : List Edge :=
  edgesOf .code importFrom text ++ edgesOf .code importBare text ++
    edgesOf .code requireCall text ++ edgesOf .stylesheet importRule text

/-- The files that a text imports, in order of their statements, each once per kind. -/
def edges (text : List Char) : List Edge :=
  distinctBy (fun e => (e.kind, e.specifier))
    (((statements text).mergeSort fun e f => decide (e.offset ≤ f.offset)).filter
      fun e => e.specifier ≠ [])

end ColorCensus.Import
