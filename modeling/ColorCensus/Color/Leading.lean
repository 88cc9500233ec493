import ColorCensus.Color.Literal

/-!
# The color at the start of a value

A custom property holds a color when its value begins with one. This grammar is the loose one:
letters match in either case, and a color function may hold anything but parentheses.
-/

namespace ColorCensus.Color

open Text

/-- Whether a character is the given small ASCII letter in either case. The long `ſ` is a
spelling of `s`. -/
def isLetter (small c : Char) : Bool :=
  c == small || (isAsciiUpper c && c.toNat + 32 == small.toNat) || (small == 's' && c == 'ſ')

def dropLetters? : List Char → List Char → Option (List Char)
  | [], cs => some cs
  | _ :: _, [] => none
  | l :: ls, c :: cs => if isLetter l c then dropLetters? ls cs else none

/-- A color function with any arguments that hold no parenthesis. -/
def dropFunction? (cs : List Char) : Option (List Char) := do
  let cs ← (dropLetters? ['r', 'g', 'b'] cs).or (dropLetters? ['h', 's', 'l'] cs)
  let cs := (dropOne? (isLetter 'a') cs).getD cs
  let cs ← dropLiteral? ['('] cs
  dropLiteral? [')'] (cs.dropWhile fun c => !(c == '(' || c == ')'))

/-- The color that the text starts with. -/
def leading? (text : List Char) : Option (List Char) := do
  let rest ← (dropHex? text).or (dropFunction? text)
  pure (text.take (consumed text rest))

end ColorCensus.Color
