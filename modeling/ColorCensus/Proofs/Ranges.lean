import ColorCensus.Proofs.Accounts

/-!
# Ranges and the text they stand for

A range names one line and two columns, so it can stand for a piece of one line only. If the token
of an occurrence is such a piece, cutting its line at the columns gives it (`rangeOf_shows`).
References and hexadecimal colors always are. The arguments of a color function may go on over
several lines, though. Then the line and the first column are those of the first part of the token,
and the other column is counted on the line of its last part (`rangeOf_straddles`), so it may well
come before the first.

Both are read off from the lines of the text in front of the token, of the token and of the text
behind it, which join where one text ends and the next one begins.
-/

namespace ColorCensus

namespace Text

/-- Cutting the line of a range at its columns gives a piece. -/
def Range.Shows (r : Range) (text piece : List Char) : Prop :=
  ∃ k line, r.line = k + 1 ∧ (splitLines text)[k]? = some line ∧
    slice line (r.startCol, r.endCol) = piece

/-- A piece goes on over several lines: the line of a range ends, from its first column on, with the
first part of the piece, and the other column is where the last part ends on its own line. -/
def Range.Straddles (r : Range) (text piece : List Char) : Prop :=
  ∃ k line first inner last, r.line = k + 1 ∧ (splitLines text)[k]? = some line ∧
    splitLines piece = first :: (inner ++ [last]) ∧ line.drop r.startCol = first ∧
    r.endCol = last.length

variable {text : List Char} {a b : Nat}

namespace LineIndex

/-- The lines of a text around a span: those in front of it, where the last one goes on with the
first part of the span, and those behind it, where the last part of the span goes on. -/
theorem exists_lines_around (text : List Char) (a b : Nat) :
    ∃ above last rest more, splitLines (text.take a) = above ++ [last] ∧
      splitLines (text.drop b) = rest :: more ∧ above.length = (ofText text).lineOf a := by
  obtain ⟨above, last, hfront⟩ := exists_lastLine (text.take a)
  obtain ⟨rest, more, hrest⟩ := List.exists_cons_of_ne_nil (splitOn_ne_nil '\n' (text.drop b))
  exact ⟨above, last, rest, more, hfront, hrest, length_above hfront⟩

theorem rangeOf_shows (hab : a ≤ b) (hb : b ≤ text.length) (h : '\n' ∉ slice text (a, b)) :
    ((ofText text).rangeOf a b).Shows text (slice text (a, b)) ∧
      (ofText text).columnOf b = (ofText text).columnOf a + (b - a) := by
  obtain ⟨above, last, rest, more, hfront, hrest, hlines⟩ := exists_lines_around text a b
  have hpiece : splitLines (slice text (a, b)) = [slice text (a, b)] := splitOn_of_not_mem h
  have hstop : splitLines (text.take b) = above ++ [last ++ slice text (a, b)] := by
    rw [← take_append_slice text hab]
    exact splitOn_append_pieces hfront hpiece
  have htext : splitLines (text.take b ++ text.drop b) =
      above ++ (last ++ slice text (a, b) ++ rest) :: more := splitOn_append_pieces hstop hrest
  rw [List.take_append_drop] at htext
  have hcolumn := columnOf_eq_length (Nat.le_trans hab hb) hfront
  have hcolumn' := columnOf_eq_length hb hstop
  rw [List.length_append, length_slice hb, ← hcolumn] at hcolumn'
  refine ⟨⟨above.length, last ++ slice text (a, b) ++ rest, ?_, ?_, ?_⟩, hcolumn'⟩
  · rw [rangeOf, hlines]
  · rw [htext, List.getElem?_append_right (Nat.le_refl _), Nat.sub_self, List.getElem?_cons_zero]
  · rw [rangeOf, hcolumn', slice, hcolumn, Nat.add_sub_cancel_left, List.append_assoc,
      List.drop_left, ← length_slice hb, List.take_left]

theorem rangeOf_straddles (hab : a ≤ b) (hb : b ≤ text.length) (h : '\n' ∈ slice text (a, b)) :
    ((ofText text).rangeOf a b).Straddles text (slice text (a, b)) := by
  obtain ⟨above, last, rest, more, hfront, hrest, hlines⟩ := exists_lines_around text a b
  obtain ⟨first, inner, final, hpiece⟩ : ∃ first inner final,
      splitLines (slice text (a, b)) = first :: (inner ++ [final]) := by
    obtain ⟨first, parts, hparts⟩ :=
      List.exists_cons_of_ne_nil (splitOn_ne_nil '\n' (slice text (a, b)))
    have hne : parts ≠ [] := by
      rintro rfl
      have hlength := congrArg List.length hparts
      rw [length_splitOn] at hlength
      exact absurd (List.count_pos_iff.mpr h) (by simp at hlength; omega)
    obtain ⟨inner, final, rfl⟩ := (List.eq_nil_or_concat parts).resolve_left hne
    exact ⟨first, inner, final, by rw [splitLines, hparts, List.concat_eq_append]⟩
  have hstop : splitLines (text.take b) = (above ++ (last ++ first) :: inner) ++ [final] := by
    rw [← take_append_slice text hab, List.append_assoc, List.cons_append]
    exact splitOn_append_pieces hfront hpiece
  have htext : splitLines (text.take b ++ text.drop b) =
      (above ++ (last ++ first) :: inner) ++ (final ++ rest) :: more :=
    splitOn_append_pieces hstop hrest
  rw [List.take_append_drop] at htext
  refine ⟨above.length, last ++ first, first, inner, final, ?_, ?_, hpiece, ?_, ?_⟩
  · rw [rangeOf, hlines]
  · rw [htext, List.append_assoc, List.getElem?_append_right (Nat.le_refl _), Nat.sub_self,
      List.cons_append, List.getElem?_cons_zero]
  · rw [rangeOf, columnOf_eq_length (Nat.le_trans hab hb) hfront, List.drop_left]
  · exact columnOf_eq_length hb hstop

end LineIndex

theorem Range.Shows.newline_not_mem {r : Range} {piece : List Char} (h : r.Shows text piece) :
    '\n' ∉ piece := by
  obtain ⟨k, line, -, hline, rfl⟩ := h
  intro hmem
  have hline' : '\n' ∉ line := not_mem_of_mem_splitOn (List.mem_of_getElem? hline)
  exact hline' (List.mem_of_mem_drop (List.mem_of_mem_take hmem))

end Text

namespace Occurrence

open Text

variable {table : Variable.Table} {attributes : List (List Char)} {settings : Context.Settings}
  {memory : Context.Memory} {s : Source}

/-- Only a color function goes on over several lines. -/
theorem FoundAt.of_newline {text : List Char} {o : Occurrence} {span : Nat × Nat}
    (h : o.FoundAt text span) (hnewline : '\n' ∈ slice text span) :
    o.isUsage = false ∧ ∃ fn, Color.IsCall fn (slice text span) := by
  cases h with
  | @definition d token kind defined =>
      have hslice : slice text (d.start, d.stop) = d.value :=
        (Variable.stands_of_mem_definitions token).standsAt.slice_eq
      rw [hslice] at hnewline ⊢
      obtain ⟨rest, -, hvalue⟩ := Variable.leadingOf_of_mem_definitions token
      refine ⟨by rw [isUsage, defined, Bool.not_true, Bool.and_false], ?_⟩
      rcases hvalue with ⟨hhex, -⟩ | ⟨first, -, more, hcall⟩
      · exact absurd hnewline (hhex.not_mem (by decide) (by decide))
      · exact ⟨first :: more, hcall⟩
  | @reference r token kind used =>
      have hstands := Variable.stands_of_mem_references token
      have hslice : slice text (r.start, r.stop) = r.name := hstands.standsAt.slice_eq
      rw [hslice] at hnewline
      exact absurd (hstands.chars _ hnewline) (by decide)
  | @literal t token kind used =>
      obtain ⟨hstands, hliteral⟩ := Color.standsAt_of_mem_literals token
      have hslice : slice text t.span = t.text := hstands.slice_eq
      rw [hslice] at hnewline ⊢
      refine ⟨by rw [isUsage, isVariable, kind]; rfl, ?_⟩
      rcases hliteral.isCall with hhex | ⟨-, first, -, more, -, hcall⟩
      · exact absurd hnewline (hhex.not_mem (by decide) (by decide))
      · exact ⟨first :: more, hcall⟩

theorem exists_covers_of_mem_scan {o : Occurrence}
    (h : o ∈ (scan table attributes settings memory s).1) : ∃ span, Covers s span o := by
  obtain ⟨a, ha, hint, rfl⟩ := mem_describeAll h
  exact ⟨a.span, covers_of_mem_spots ha settings.sampleLength hint⟩

/-- An occurrence comes from a token, the name of a variable for a reference and the value
otherwise. If the token is on one line, its range shows it, and no column is missing. If it is not,
it is a color function, no range shows it, and the range tells the start of its first part and the
end of its last one. -/
theorem scan_ranges (table : Variable.Table) (attributes : List (List Char))
    (settings : Context.Settings) (memory : Context.Memory) (s : Source) (o : Occurrence)
    (ho : o ∈ (scan table attributes settings memory s).1) :
    ∃ span token, Covers s span o ∧ token = slice (s.text.getD []) span ∧
      o.spelling = some (String.ofList token) ∧
      ('\n' ∉ token → o.range.Shows (s.text.getD []) token ∧
        o.range.endCol = o.range.startCol + token.length ∧ o.range.startCol < o.range.endCol) ∧
      ('\n' ∈ token → (∀ r : Range, ¬ r.Shows (s.text.getD []) token) ∧
        o.range.Straddles (s.text.getD []) token ∧
        o.isUsage = false ∧ ∃ fn, Color.IsCall fn token) := by
  obtain ⟨span, hcovers⟩ := exists_covers_of_mem_scan ho
  have hrange : o.range = (LineIndex.ofText (s.text.getD [])).rangeOf span.1 span.2 := by
    rw [hcovers.range, s.index_eq]
  have hle := Nat.le_of_lt hcovers.nonempty
  refine ⟨span, _, hcovers, rfl, hcovers.spelled, fun hline => ?_, fun hnewline => ?_⟩
  · obtain ⟨hshows, hcolumn⟩ := LineIndex.rangeOf_shows hle hcovers.inside hline
    have hlength : (slice (s.text.getD []) span).length = span.2 - span.1 :=
      length_slice hcovers.inside
    have hcolumns : o.range.endCol =
        o.range.startCol + (slice (s.text.getD []) span).length := by
      rw [hrange, hlength]
      exact hcolumn
    have hpos := hcovers.nonempty
    refine ⟨by rw [hrange]; exact hshows, hcolumns, by omega⟩
  · refine ⟨fun r hr => hr.newline_not_mem hnewline, ?_, hcovers.found.of_newline hnewline⟩
    rw [hrange]
    exact LineIndex.rangeOf_straddles hle hcovers.inside hnewline

/-- A style sheet with one rule. -/
def ruled (color : String) : Source where
  path := .ofString "a.css"
  label := "a.css"
  text := some (".a\x7bcolor:".toList ++ color.toList ++ "\x7d".toList)

theorem scan_ranges_hex :
    ∃ o ∈ (scan (.empty .first) [] {} {} (ruled "#fff")).1, o.value = "#fff" ∧
      o.range.Shows ((ruled "#fff").text.getD []) "#fff".toList ∧
      o.range.startCol < o.range.endCol := by
  obtain ⟨o, ho, hspelling⟩ : ∃ o ∈ (scan (.empty .first) [] {} {} (ruled "#fff")).1,
      (o.value, o.spelling) = ("#fff", some "#fff") := by
    have hall : (scan (.empty .first) [] {} {} (ruled "#fff")).1.map
        (fun o => (o.value, o.spelling)) = [("#fff", some "#fff")] := by decide +kernel
    exact List.mem_map.mp (hall ▸ List.mem_cons_self)
  obtain ⟨hvalue, hspelling⟩ := Prod.mk.inj hspelling
  obtain ⟨-, token, -, -, htoken, hline, -⟩ := scan_ranges _ _ _ _ _ o ho
  obtain rfl : token = "#fff".toList := by
    rw [← String.toList_ofList (l := token), ← Option.some.inj (hspelling.symm.trans htoken)]
  obtain ⟨hshows, -, hlt⟩ := hline (by decide)
  exact ⟨o, ho, hvalue, hshows, hlt⟩

/-- A color function on two lines. The range tells the first line, and the second column is one of
the second line. -/
theorem range_of_two_lines :
    ∃ o ∈ (scan (.empty .first) [] {} {} (ruled "rgb(1,\n2,3)")).1,
      o.value = "rgb(1,\n2,3)" ∧ o.range = ⟨1, 9, 4⟩ ∧
      ¬ o.range.Shows ((ruled "rgb(1,\n2,3)").text.getD []) o.value.toList ∧
      ¬ o.range.startCol < o.range.endCol := by
  obtain ⟨o, ho, hfound⟩ : ∃ o ∈ (scan (.empty .first) [] {} {} (ruled "rgb(1,\n2,3)")).1,
      (o.value, o.range) = ("rgb(1,\n2,3)", ⟨1, 9, 4⟩) := by
    have hall : (scan (.empty .first) [] {} {} (ruled "rgb(1,\n2,3)")).1.map
        (fun o => (o.value, o.range)) = [("rgb(1,\n2,3)", ⟨1, 9, 4⟩)] := by decide +kernel
    exact List.mem_map.mp (hall ▸ List.mem_cons_self)
  obtain ⟨hvalue, hrange⟩ := Prod.mk.inj hfound
  refine ⟨o, ho, hvalue, hrange, fun hshows => ?_, by rw [hrange]; decide⟩
  rw [hvalue] at hshows
  exact hshows.newline_not_mem (by decide)

end Occurrence

end ColorCensus
