import ColorCensus.Text.Comment
import ColorCensus.Text.Lines
import ColorCensus.Theme.Trigger

/-!
# The theme of every line

Blocks are followed by their braces, line by line and without comments. A line's closing braces
are taken after all its opening ones; the first brace that a triggering line opens carries the
trigger's theme, every other block inherits. The theme of a line is that of the innermost themed
block among those open when the line begins.
-/

namespace ColorCensus.Theme

open Text

/-- The open blocks, innermost first, each with the theme it sets. -/
abbrev Blocks := List (Option Theme)

def Blocks.theme (blocks : Blocks) : Theme := (blocks.findSome? id).getD base

/-- The blocks open after a line. -/
def Blocks.after (attributes : List (List Char)) (blocks : Blocks) (rawLine : List Char) : Blocks :=
  let line := stripComments (dropEndWhile (· == '\r') rawLine)
  let opened := match line.count '{' with
    | 0 => blocks
    | n + 1 => List.replicate n none ++ trigger? attributes line :: blocks
  opened.drop (line.count '}')

def ofLinesFrom (attributes : List (List Char)) (blocks : Blocks) : List (List Char) → List Theme
  | [] => []
  | line :: lines => blocks.theme :: ofLinesFrom attributes (blocks.after attributes line) lines

/-- The theme of every line of a text. -/
def ofLines (attributes : List (List Char)) (text : List Char) : List Theme :=
  ofLinesFrom attributes [] (splitLines text)

theorem length_ofLinesFrom (attributes : List (List Char)) (blocks : Blocks)
    (lines : List (List Char)) : (ofLinesFrom attributes blocks lines).length = lines.length := by
  induction lines generalizing blocks with
  | nil => rfl
  | cons line lines ih => simp [ofLinesFrom, ih]

theorem length_ofLines (attributes : List (List Char)) (text : List Char) :
    (ofLines attributes text).length = text.count '\n' + 1 := by
  rw [ofLines, length_ofLinesFrom, length_splitLines]

end ColorCensus.Theme
