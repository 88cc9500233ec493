import ColorCensus.Text.Blank
import ColorCensus.Text.Digit
import ColorCensus.Text.Token

/-!
# Color literals

The color tokens that count wherever they stand: hexadecimal colors and the functions `rgb`,
`rgba`, `hsl` and `hsla` with literal arguments. Each grammar is a recogniser of its own and is
case-sensitive in its function name. A hexadecimal color is a `#` with the whole run of word
characters after it; it is none if the run has another length or another character, or if a
word character or `&` stands in front.
-/

namespace ColorCensus.Color

open Text

/-- The digit counts of a hexadecimal color. -/
def isHexLength (n : Nat) : Bool := n == 3 || n == 4 || n == 6 || n == 8

/-- The run of word characters after `#`, if it spells a hexadecimal color. -/
def dropHex? (cs : List Char) : Option (List Char) := do
  let cs ← dropLiteral? ['#'] cs
  let run := cs.takeWhile isWord
  if run.all isHexDigit && isHexLength run.length then pure (cs.dropWhile isWord) else none

def hex : Recognizer Unit := fun before cs =>
  if before.any fun c => isWord c || c == '&' then none
  else (dropHex? cs).map ((), ·)

/-- One to three decimal digits, and no fourth. -/
def dropNumber? (cs : List Char) : Option (List Char) := do
  let (run, cs) ← takeRun? isDigit cs
  if run.length ≤ 3 then pure cs else none

/-- A comma with blanks around it. -/
def dropComma? (cs : List Char) : Option (List Char) := do
  let cs ← dropLiteral? [','] (trimLeft cs)
  pure (trimLeft cs)

/-- An opacity: `0`, `1`, or a fraction with at most one zero before its point. -/
def dropAlpha? : List Char → Option (List Char)
  | '0' :: '.' :: cs => dropRun? isDigit cs
  | '.' :: cs => dropRun? isDigit cs
  | '0' :: cs => some cs
  | '1' :: cs => some cs
  | _ => none

/-- The optional opacity and the closing parenthesis. -/
def dropTail? (cs : List Char) : Option (List Char) := do
  let cs ← match dropComma? cs with
    | some cs => dropAlpha? cs
    | none => some cs
  dropLiteral? [')'] (trimLeft cs)

/-- The name of a color function, with or without its `a`, up to the first argument. -/
def dropName? (name : String) (cs : List Char) : Option (List Char) := do
  let cs ← dropLiteral? name.toList cs
  let cs := (dropLiteral? ['a'] cs).getD cs
  let cs ← dropLiteral? ['('] cs
  pure (trimLeft cs)

def rgb : Recognizer Unit := fun before cs =>
  if startsWord before then do
    let cs ← dropName? "rgb" cs
    let cs ← dropNumber? cs
    let cs ← dropComma? cs
    let cs ← dropNumber? cs
    let cs ← dropComma? cs
    let cs ← dropNumber? cs
    let cs ← dropTail? cs
    pure ((), cs)
  else none

def dropPercentage? (cs : List Char) : Option (List Char) := do
  let cs ← dropNumber? cs
  dropLiteral? ['%'] cs

def hsl : Recognizer Unit := fun before cs =>
  if startsWord before then do
    let cs ← dropName? "hsl" cs
    let cs ← dropNumber? cs
    let cs := (dropOneOf? ["deg", "rad", "turn"] cs).getD cs
    let cs ← dropComma? cs
    let cs ← dropPercentage? cs
    let cs ← dropComma? cs
    let cs ← dropPercentage? cs
    let cs ← dropTail? cs
    pure ((), cs)
  else none

/-- The color literals of a text in order of appearance. -/
def literals (text : List Char) : List (Token Unit) :=
  (tokens hex text ++ tokens rgb text ++ tokens hsl text).mergeSort fun s t =>
    decide (s.start < t.start) || (s.start == t.start && decide (s.stop ≤ t.stop))

end ColorCensus.Color
