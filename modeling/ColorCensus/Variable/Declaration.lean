import ColorCensus.Color.Leading
import ColorCensus.Text.Token

/-!
# Custom properties in text

A declaration is `--name: …;` and counts as a color definition when its value begins with a
color. Its value runs up to the next semicolon, wherever that is, and must hold a character. A
reference is `var(--name` followed by a comma or a parenthesis.
-/

namespace ColorCensus.Variable

open Text

def isNameChar (c : Char) : Bool := isAsciiAlnum c || c == '_' || c == '-'

/-- `--` and at least one name character: the name with its dashes, and what is left. -/
def takeName? (cs : List Char) : Option (List Char × List Char) := do
  let cs ← dropLiteral? ['-', '-'] cs
  let (name, cs) ← takeRun? isNameChar cs
  pure ('-' :: '-' :: name, cs)

/-- A declaration of any value: its name, and its value without leading blanks. -/
structure Declared where
  name : List Char
  value : List Char
  /-- Characters between the start of the declaration and its value. -/
  lead : Nat

def declaration : Recognizer Declared := fun before cs =>
  if before.any fun c => isWord c || c == '-' then none
  else do
    let (name, afterName) ← takeName? cs
    let afterColon ← dropLiteral? [':'] (trimLeft afterName)
    let (value, semicolon) ← takeRun? (· != ';') afterColon
    let left ← dropLiteral? [';'] semicolon
    pure (⟨name, trimLeft value, consumed cs (trimLeft afterColon)⟩, left)

/-- A color definition found in a text; the offsets cover the color. -/
structure Defined where
  name : List Char
  value : List Char
  start : Nat
deriving DecidableEq, Repr

def Defined.stop (d : Defined) : Nat := d.start + d.value.length

/-- The color definition that a declaration makes, if it makes one. -/
def Defined.ofToken? (t : Token Declared) : Option Defined := do
  let color ← Color.leading? t.value.value
  pure ⟨t.value.name, color, t.start + t.value.lead⟩

/-- The color definitions of a text, in order of appearance. -/
def definitions (text : List Char) : List Defined :=
  (tokens declaration text).filterMap Defined.ofToken?

/-- A `var(--name)` reference found in a text; the offsets cover the name. -/
structure Referred where
  name : List Char
  start : Nat
deriving DecidableEq, Repr

def Referred.stop (r : Referred) : Nat := r.start + r.name.length

/-- The name referred to, with the number of characters before it. -/
def reference : Recognizer (List Char × Nat) := fun _ cs => do
  let args ← dropLiteral? "var(".toList cs
  let (name, afterName) ← takeName? (trimLeft args)
  let left ← dropOne? (fun c => c == ',' || c == ')') (trimLeft afterName)
  pure ((name, consumed cs (trimLeft args)), left)

/-- The references of a text, in order of appearance. -/
def references (text : List Char) : List Referred :=
  (tokens reference text).map fun t => ⟨t.value.1, t.start + t.value.2⟩

end ColorCensus.Variable
