import ColorCensus.Text.Comment
import ColorCensus.Text.Lines

/-!
# Context in style sheets

A color in a style sheet stands in a declaration inside nested blocks. Its property is the name
that opens the declaration on its line. Its scope is the selector of the innermost block that is
open at the color and has one: rules that start with `@` are passed over. The search runs
backwards from the color over text without comments, down to a floor and over a window of lines,
and never sees what lies before.
-/

namespace ColorCensus.Context

open Text

/-- Where and how a color is used; nothing where it could not be told. -/
structure Hint where
  scope : Option (List Char)
  property : Option (List Char)
deriving DecidableEq, Repr

/-- The text of a line up to a column of it. -/
def beforeOffset (ix : LineIndex) (offset : Nat) : List Char :=
  (ix.lineText (ix.lineOf offset)).take (ix.columnOf offset)

namespace Stylesheet

/-- The part of a text after the last character of a class. -/
def afterLast (p : Char → Bool) (cs : List Char) : List Char :=
  (cs.reverse.takeWhile (!p ·)).reverse

/-- The property name that opens a declaration. -/
def takeProperty? (cs : List Char) : Option (List Char) := do
  let cs := trimLeft cs
  let _ ← dropOne? (fun c => isAsciiLetter c || c == '_' || c == '-') cs
  let (name, cs) ← takeRun? (fun c => isWord c || c == '-') cs
  let _ ← dropLiteral? [':'] (trimLeft cs)
  pure name

def propertyAt (ix : LineIndex) (offset : Nat) : Option (List Char) :=
  takeProperty? (afterLast (fun c => c == '{' || c == ';') (beforeOffset ix offset))

/-- The selector that ends where the reversed text starts: back to the nearest brace or
semicolon, in one line and trimmed. -/
def selectorBefore (reversed : List Char) : List Char :=
  trim (collapse (reversed.takeWhile fun c => !(c == '{' || c == '}' || c == ';')).reverse)

/-- The scope seen from the start of a reversed text, where `depth` closed blocks are open
backwards. -/
def enclosing? : Nat → List Char → Option (List Char)
  | _, [] => none
  | depth, c :: rest =>
      if c == '}' then enclosing? (depth + 1) rest
      else if c == '{' then
        match depth with
        | depth + 1 => enclosing? depth rest
        | 0 =>
            let selector := selectorBefore rest
            if selector.isEmpty || selector.head? == some '@' then enclosing? 0 rest
            else some selector
      else enclosing? depth rest

/-- The first line of the window above an offset. A negative window starts below it. -/
def windowLine (ix : LineIndex) (window : Int) (offset : Nat) : Nat :=
  (ix.lineOf offset - window).toNat

/-- The window above an offset starts on a line of the text. -/
def hasWindow (ix : LineIndex) (window : Int) (offset : Nat) : Bool :=
  windowLine ix window offset < ix.lineCount

/-- The scope around an offset, in the text `masked` whose comments are blank. -/
def scopeAt? (ix : LineIndex) (masked : List Char) (window : Int) (floor offset : Nat) :
    Option (List Char) := do
  let start ← ix.starts[windowLine ix window offset]?
  enclosing? 0 ((masked.take offset).drop (max floor start)).reverse

def hintAt (ix : LineIndex) (masked : List Char) (window : Int) (floor offset : Nat) : Hint :=
  ⟨scopeAt? ix masked window floor offset, propertyAt ix offset⟩

end Stylesheet

end ColorCensus.Context
