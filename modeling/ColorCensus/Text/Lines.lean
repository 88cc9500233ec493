import ColorCensus.Bisection
import ColorCensus.Text.Blank
import ColorCensus.Text.Split

/-!
# Lines

A text is cut into lines at its newlines. `LineIndex` keeps the offset at which every line
starts, so that an offset becomes a line and a column by bisection; `splitLines` is the plain
view of the same cut. Offsets count characters. An offset past the end belongs to the last line.
-/

namespace ColorCensus.Text

def splitLines (text : List Char) : List (List Char) := splitOn '\n' text

/-- The offsets after the newlines of a text that itself starts at `pos`. -/
def startsAfter (pos : Nat) : List Char → List Nat
  | [] => []
  | c :: rest =>
      if c == '\n' then (pos + 1) :: startsAfter (pos + 1) rest else startsAfter (pos + 1) rest

def lineStarts (text : List Char) : List Nat := 0 :: startsAfter 0 text

/-- Drops the line terminators at the end of a piece of text. -/
def dropTerminator (cs : List Char) : List Char := dropEndWhile (fun c => c == '\r' || c == '\n') cs

/-- A text with the table of its line starts, built once. -/
structure LineIndex where
  text : List Char
  starts : Array Nat
  starts_eq : starts = (lineStarts text).toArray

/-- A position inside a text: the line counts from 1, the columns from 0. -/
structure Range where
  line : Nat
  startCol : Nat
  endCol : Nat
deriving DecidableEq, Repr

namespace LineIndex

def ofText (text : List Char) : LineIndex := ⟨text, (lineStarts text).toArray, rfl⟩

theorem size_pos (ix : LineIndex) : 0 < ix.starts.size := by
  rw [ix.starts_eq]; simp [lineStarts]

def lineCount (ix : LineIndex) : Nat := ix.starts.size

/-- The line, counted from 0, that contains an offset. -/
def lineOf (ix : LineIndex) (offset : Nat) : Nat :=
  partitionPoint (fun start => decide (start ≤ offset)) ix.starts - 1

theorem lineOf_lt (ix : LineIndex) (offset : Nat) : ix.lineOf offset < ix.starts.size := by
  have := partitionPoint_le_size (fun start => decide (start ≤ offset)) ix.starts
  have := ix.size_pos
  simp only [lineOf]
  omega

/-- The offset at which an existing line starts. -/
def lineStart (ix : LineIndex) (line : Nat) (h : line < ix.starts.size) : Nat := ix.starts[line]

def columnOf (ix : LineIndex) (offset : Nat) : Nat :=
  offset - ix.lineStart (ix.lineOf offset) (ix.lineOf_lt offset)

/-- The text from one offset up to another, without its terminator. -/
def cut (ix : LineIndex) (start stop : Nat) : List Char :=
  dropTerminator ((ix.text.drop start).take (stop - start))

/-- The text of a line counted from 0, without its terminator; empty past the last line. -/
def lineText (ix : LineIndex) (line : Nat) : List Char :=
  match ix.starts[line]? with
  | none => []
  | some start => ix.cut start (ix.starts[line + 1]?.getD ix.text.length)

/-- The text of a line counted from 0 or, when negative, from the end. A count from the end
runs up to the start of the line that follows it in the count, and what follows the last line
is line 0: so `-1` is always empty. -/
def lineTextAt? (ix : LineIndex) (line : Int) : Option (List Char) :=
  if 0 ≤ line then
    if line.toNat < ix.starts.size then some (ix.lineText line.toNat) else none
  else
    let back := (-line).toNat
    if back = 1 then some []
    else if back ≤ ix.starts.size then some (ix.lineText (ix.starts.size - back))
    else none

def lines (ix : LineIndex) : List (List Char) := (List.range ix.lineCount).map ix.lineText

def rangeOf (ix : LineIndex) (start stop : Nat) : Range :=
  ⟨ix.lineOf start + 1, ix.columnOf start, ix.columnOf stop⟩

end LineIndex

theorem length_splitLines (text : List Char) :
    (splitLines text).length = text.count '\n' + 1 := length_splitOn '\n' text

theorem length_startsAfter (pos : Nat) (text : List Char) :
    (startsAfter pos text).length = text.count '\n' := by
  induction text generalizing pos with
  | nil => rfl
  | cons c rest ih =>
      by_cases hc : c = '\n'
      · simp [startsAfter, hc, ih]
      · simp [startsAfter, hc, ih]

end ColorCensus.Text
