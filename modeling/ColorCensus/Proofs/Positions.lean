import ColorCensus.Proofs.Lines
import ColorCensus.Theme.Lines
import Mathlib.Data.Set.Function

/-!
# Offsets and positions are one to one

A position is a line and a column on it. The table of line starts takes every
offset of a text to a position, and the pieces between the newlines say which
positions there are: on each line the columns from its start up to its end,
which is the place of its newline or the end of the text. The two agree
(`placeOf_bijOn`), so nothing is lost when a span is reported by its lines and
columns. The themes of the lines are told along the same pieces, so there is one
for every line.
-/

namespace ColorCensus.Text

/-- A line of a text, counted from 0, and a column on it. The end of a line is a column too. -/
def IsPlace (text : List Char) (p : Nat × Nat) : Prop :=
  ∃ line, (splitLines text)[p.1]? = some line ∧ p.2 ≤ line.length

namespace LineIndex

variable (ix : LineIndex)

def placeOf (offset : Nat) : Nat × Nat := (ix.lineOf offset, ix.columnOf offset)

theorem lineStart_add_columnOf (offset : Nat) :
    ix.lineStart (ix.lineOf offset) (ix.lineOf_lt offset) + ix.columnOf offset = offset :=
  Nat.add_sub_cancel' (ix.lineStart_lineOf_le offset)

theorem newline_not_mem_before (text : List Char) (offset : Nat) :
    let start := (ofText text).lineStart ((ofText text).lineOf offset)
      ((ofText text).lineOf_lt offset)
    '\n' ∉ (text.drop start).take (offset - start) := by
  intro start
  have hstart : (ofText text).starts[(ofText text).lineOf offset]? = some start :=
    Array.getElem?_eq_getElem ((ofText text).lineOf_lt offset)
  exact newline_not_mem_between ((ofText text).lineStart_lineOf_le offset) (lineOf_start hstart)

/-! ## The positions of a text -/

theorem placeOf_injective (text : List Char) : Function.Injective (ofText text).placeOf := by
  intro a b h
  obtain ⟨hline, hcolumn⟩ := Prod.mk.inj h
  obtain ⟨start, ha, hle⟩ := exists_start text a
  obtain ⟨start', hb, hle'⟩ := exists_start text b
  rw [columnOf_eq ha, columnOf_eq hb] at hcolumn
  rw [hline, hb] at ha
  cases ha
  omega

theorem isPlace_placeOf {text : List Char} {offset : Nat} (h : offset ≤ text.length) :
    IsPlace text ((ofText text).placeOf offset) := by
  obtain ⟨above, last, hsplit⟩ := exists_lastLine (text.take offset)
  obtain ⟨first, more, -, hlines⟩ := splitLines_lastLine hsplit
  refine ⟨last ++ first, ?_, ?_⟩
  · rw [placeOf, ← length_above hsplit, hlines, List.getElem?_append_right (Nat.le_refl _),
      Nat.sub_self, List.getElem?_cons_zero]
  · rw [placeOf, columnOf_eq_length h hsplit, List.length_append]
    exact Nat.le_add_right _ _

theorem exists_offset_of_isPlace {text : List Char} {p : Nat × Nat} (h : IsPlace text p) :
    ∃ offset ≤ text.length, (ofText text).placeOf offset = p := by
  obtain ⟨line, hline, hcolumn⟩ := h
  have hsize : p.1 < (lineStarts text).length := by
    have := (List.getElem?_eq_some_iff.mp hline).1
    rwa [length_splitLines, ← length_startsAfter 0] at this
  obtain ⟨done, line', hdone, hline', hbehind⟩ :=
    exists_line_of_start (List.getElem?_eq_getElem hsize)
  rw [hline] at hline'
  cases hline'
  have hstart : (ofText text).starts[p.1]? = some done.length := by
    rw [starts_getElem?, List.getElem?_eq_getElem hsize, hdone]
  have hinside : done.length + p.2 ≤ text.length := by
    rcases hbehind with ⟨htext, -⟩ | ⟨rest, htext, -⟩
    · simp only [htext, List.length_append]
      omega
    · simp only [htext, List.length_append]
      omega
  have hlineOf : (ofText text).lineOf (done.length + p.2) = p.1 := by
    refine lineOf_eq_of_start hstart (Nat.le_add_right _ _) fun next hnext => ?_
    rw [starts_getElem?] at hnext
    rcases hbehind with ⟨-, hnone⟩ | ⟨-, -, hsome⟩
    · rw [hnone] at hnext
      cases hnext
    · rw [hsome] at hnext
      cases hnext
      omega
  refine ⟨done.length + p.2, hinside, Prod.ext hlineOf ?_⟩
  rw [placeOf, columnOf_eq (hlineOf.symm ▸ hstart), Nat.add_sub_cancel_left]

theorem placeOf_bijOn (text : List Char) :
    Set.BijOn (ofText text).placeOf {offset | offset ≤ text.length} {p | IsPlace text p} :=
  ⟨fun _ h => isPlace_placeOf h, (placeOf_injective text).injOn,
    fun _ h => exists_offset_of_isPlace h⟩

/-! ## The lines of a text -/

theorem size_starts (text : List Char) : (ofText text).starts.size = text.count '\n' + 1 :=
  congrArg Nat.succ (length_startsAfter 0 text)

theorem lines_eq (text : List Char) :
    (ofText text).lines = (splitLines text).map dropTerminator := by
  have hcount : (ofText text).lineCount = (splitLines text).length := by
    rw [lineCount, size_starts, length_splitLines]
  rw [lines, hcount]
  refine List.ext_getElem (by simp) fun k hk hk' => ?_
  rw [List.length_map] at hk'
  rw [List.getElem_map, List.getElem_range, lineText_eq, List.getElem?_eq_getElem hk',
    Option.getD_some, List.getElem_map]

/-- The line of an offset is the number of newlines before it, its column counts from the start of
that line, and no newline is in between. Offsets and positions are one to one. There is one start
more than there are newlines, in increasing order, and the lines are the pieces between the
newlines, without what ends them; each has a theme. -/
theorem ofText_locates (text : List Char) :
    let ix := ofText text
    (∀ offset,
      let start := ix.lineStart (ix.lineOf offset) (ix.lineOf_lt offset)
      ix.lineOf offset = (text.take offset).count '\n' ∧ start + ix.columnOf offset = offset ∧
        '\n' ∉ (text.drop start).take (offset - start)) ∧
    Set.BijOn ix.placeOf {offset | offset ≤ text.length} {p | IsPlace text p} ∧
    ix.starts.toList.Pairwise (· < ·) ∧ ix.starts.size = text.count '\n' + 1 ∧
    ix.lines = (splitLines text).map dropTerminator ∧
    ∀ attributes, ix.lines.length = (Theme.ofLines attributes text).length := by
  intro ix
  refine ⟨fun offset => ⟨lineOf_eq_count text offset, ix.lineStart_add_columnOf offset,
    newline_not_mem_before text offset⟩, placeOf_bijOn text, lineStarts_sorted text,
    size_starts text, lines_eq text, fun attributes => ?_⟩
  rw [lines_eq, List.length_map, length_splitLines, Theme.length_ofLines]

/-- A text that ends with a newline has an empty last line, and the offset at its end is there. -/
example : (ofText "a\r\n\nb\n".toList).placeOf 6 = (3, 0) ∧
    (ofText "a\r\n\nb\n".toList).lines = [['a'], [], ['b'], []] := by decide +kernel

end LineIndex

end ColorCensus.Text
