import ColorCensus.Context.Stylesheet

/-!
# Context in markup and scripts

A color in markup or script stands under a trail of crumbs: the component declared around it,
the component's tag, and the class or else the element at hand. Tags and classes are searched
from the color's line upwards, and the search ends at a line with a declaration, of which only
the part after the declaration still counts. The name of the component is searched upwards on
its own. The property is the object key that stands last before the color on its line.
-/

namespace ColorCensus.Context.Markup

open Text

/-! ## What a line may hold -/

/-- A capitalised name of the given characters that ends at a word boundary. -/
def takeCapitalised? (p : Char → Bool) (cs : List Char) : Option (List Char × List Char) := do
  let _ ← dropOne? isAsciiUpper cs
  let (name, cs) ← takeRun? p cs
  if endsWord cs then pure (name, cs) else none

def isNameChar (c : Char) : Bool := isAsciiAlnum c || c == '_'

/-- A declaring keyword and the capitalised name it declares. -/
def takeDeclared? (cs : List Char) : Option (List Char × List Char) := do
  let cs ← dropOneOf? ["function", "const", "let", "var", "class"] cs
  let cs ← dropRun? isBlank cs
  takeCapitalised? isNameChar cs

/-- A declaration at the start of a line or after a blank. -/
def declaration : Recognizer (List Char) := fun before cs =>
  (if before.isNone then takeDeclared? cs else none).or
    ((dropOne? isBlank cs).bind takeDeclared?)

/-- A word and the blanks after it, if the text starts with them; otherwise the text itself. -/
def dropWord (word : String) (cs : List Char) : List Char :=
  ((dropLiteral? word.toList cs).bind (dropRun? isBlank)).getD cs

def exportedDeclaration : Recognizer (List Char) := fun _ cs => do
  let cs ← dropLiteral? "export".toList cs
  let cs ← dropRun? isBlank cs
  takeCapitalised? isNameChar (dropWord "function" (dropWord "default" cs))

/-- The first declaration of a line; an export counts only where there is none of the others. -/
def declarationIn? (line : List Char) : Option (Token (List Char)) :=
  (firstToken? declaration line).or (firstToken? exportedDeclaration line)

def classAttribute : Recognizer (List Char) := fun before cs =>
  if startsWord before then do
    let cs ← dropOneOf? ["className", "class"] cs
    let cs ← dropLiteral? ['='] (trimLeft cs)
    takeQuoted? (trimLeft cs)
  else none

def componentTag : Recognizer (List Char) := fun _ cs => do
  let cs ← dropLiteral? ['<'] cs
  takeCapitalised? isAsciiAlnum cs

/-- The longest part of `name`, given in reverse, that ends at a word boundary before `left`. -/
def backToBoundary : List Char → List Char → Option (List Char × List Char)
  | [], _ => none
  | c :: reversed, left =>
      if isWord c != left.head?.any isWord then some ((c :: reversed).reverse, left)
      else backToBoundary reversed (c :: left)

def elementTag : Recognizer (List Char) := fun _ cs => do
  let cs ← dropLiteral? ['<'] cs
  let _ ← dropOne? isAsciiLower cs
  let (name, left) ← takeRun? (fun c => isAsciiAlnum c || c == '-') cs
  backToBoundary name.reverse left

/-! ## The property -/

/-- A quoted key: quotes of one kind around text without quotes and newlines. -/
def takeQuotedKey? : List Char → Option (List Char × List Char)
  | [] => none
  | quote :: cs =>
      if isQuote quote then do
        let (key, cs) ← takeRun? (fun c => !isQuote c && c != '\n') cs
        let cs ← dropLiteral? [quote] cs
        pure (key, cs)
      else none

/-- A bare key, with or without two dashes in front. -/
def takeBareKey? (cs : List Char) : Option (List Char × List Char) := do
  let afterDashes := (dropLiteral? ['-', '-'] cs).getD cs
  let _ ← dropOne? (fun c => isAsciiLetter c || c == '_' || c == '$') afterDashes
  let left := afterDashes.dropWhile fun c => isWord c || c == '$' || c == '-'
  pure (cs.take (consumed cs left), left)

/-- A key and its colon, which starts neither `::` nor `://`. -/
def takeKey? (cs : List Char) : Option (List Char × List Char) := do
  let cs := trimLeft cs
  let (key, cs) ← (takeQuotedKey? cs).or (takeBareKey? cs)
  let cs ← dropLiteral? [':'] (trimLeft cs)
  if ":".toList.isPrefixOf cs || "//".toList.isPrefixOf cs then none else pure (key, cs)

def opensKey (c : Char) : Bool := c == '{' || c == ',' || c == '(' || c == ';' || isQuote c

def objectKey : Recognizer (List Char) := fun before cs =>
  (if before.isNone then takeKey? cs else none).or ((dropOne? opensKey cs).bind takeKey?)

def propertyAt (ix : LineIndex) (offset : Nat) : Option (List Char) :=
  (lastToken? objectKey (beforeOffset ix offset)).map (·.value)

/-! ## The scope -/

/-- The lines from that of an offset upwards, over a window of lines; the first one ends at the
offset. A negative window holds no line. -/
def linesAbove (ix : LineIndex) (window : Int) (offset : Nat) : List (List Char) :=
  if window < 0 then []
  else
    let line := ix.lineOf offset
    beforeOffset ix offset ::
      (List.range (min line window.toNat)).map fun k => ix.lineText (line - 1 - k)

/-- What the element walk has found. -/
structure Found where
  className : Option (List Char) := none
  component : Option (List Char) := none
  element : Option (List Char) := none
deriving DecidableEq, Repr

def Found.or (a b : Found) : Found :=
  ⟨a.className.or b.className, a.component.or b.component, a.element.or b.element⟩

/-- A class as a selector: the first class of an attribute, with a dot in front. -/
def classSelector? (classes : List Char) : Option (List Char) :=
  (firstWord? classes).map fun c => if c.head? == some '.' then c else '.' :: c

/-- The last class, component tag and element tag of a line. -/
def Found.inLine (line : List Char) : Found where
  className := (lastToken? classAttribute line).bind fun t => classSelector? t.value
  component := (lastToken? componentTag line).map (·.value)
  element := (lastToken? elementTag line).map (·.value)

/-- The nearest class, component tag and element tag above, up to the nearest declaration. -/
def elementContext : List (List Char) → Found
  | [] => {}
  | line :: above =>
      match declarationIn? line with
      | some d => Found.inLine (line.drop d.stop)
      | none => (Found.inLine line).or (elementContext above)

/-- The component that the nearest declaration above declares. -/
def enclosingComponent? (lines : List (List Char)) : Option (List Char) :=
  lines.findSome? fun line => (declarationIn? line).map (·.value)

/-- The crumbs of a trail, outermost first. -/
def crumbs (component : Option (List Char)) (found : Found) : List (List Char) :=
  component.toList ++ (if found.component = component then [] else found.component.toList) ++
    (found.className.or found.element).toList

def scopeAt? (ix : LineIndex) (window componentWindow : Int) (offset : Nat) : Option (List Char) :=
  match crumbs (enclosingComponent? (linesAbove ix componentWindow offset))
      (elementContext (linesAbove ix window offset)) with
  | [] => none
  | crumb :: rest => some (crumb ++ rest.flatMap fun c => " > ".toList ++ c)

def hintAt (ix : LineIndex) (window componentWindow : Int) (offset : Nat) : Hint :=
  ⟨scopeAt? ix window componentWindow offset, propertyAt ix offset⟩

end ColorCensus.Context.Markup
