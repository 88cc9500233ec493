import ColorCensus.Proofs.Lines

/-!
# Line ends of two characters

On some machines a line ends with a carriage return and a newline. `crlf` writes
the line ends of a text that way. Every offset then moves on by one for each
newline before it (`shifted`), and what stands from one offset to another is the
same text with its line ends written anew (`take_crlf`, `drop_crlf`).

Lines and columns do not move. A line starts at the shifted offset, and between
the start of a line and an offset on it there is no newline, so the column is
counted over the same characters. The text of a line is told without its
terminator, and so it does not show which one it was (`lineText_crlf`).
-/

namespace ColorCensus.Text

/-- A text with a carriage return before every newline. -/
def crlf : List Char → List Char
  | [] => []
  | c :: cs => if c = '\n' then '\r' :: '\n' :: crlf cs else c :: crlf cs

@[simp] theorem crlf_nil : crlf [] = [] := rfl

@[simp] theorem crlf_newline (cs : List Char) : crlf ('\n' :: cs) = '\r' :: '\n' :: crlf cs := rfl

theorem crlf_cons {c : Char} (h : c ≠ '\n') (cs : List Char) : crlf (c :: cs) = c :: crlf cs :=
  if_neg h

theorem crlf_append (xs ys : List Char) : crlf (xs ++ ys) = crlf xs ++ crlf ys := by
  induction xs with
  | nil => rfl
  | cons c xs ih =>
      by_cases hc : c = '\n'
      · subst hc
        rw [List.cons_append, crlf_newline, ih, crlf_newline]
        rfl
      · rw [List.cons_append, crlf_cons hc, ih, crlf_cons hc]
        rfl

theorem crlf_eq_self {cs : List Char} (h : '\n' ∉ cs) : crlf cs = cs := by
  induction cs with
  | nil => rfl
  | cons c cs ih =>
      rw [List.mem_cons, not_or] at h
      rw [crlf_cons (Ne.symm h.1), ih h.2]

theorem crlf_ne_nil {cs : List Char} (h : cs ≠ []) : crlf cs ≠ [] := by
  obtain ⟨c, cs, rfl⟩ := List.exists_cons_of_ne_nil h
  rw [crlf]
  split
  · exact List.cons_ne_nil _ _
  · exact List.cons_ne_nil _ _

theorem length_crlf (cs : List Char) : (crlf cs).length = cs.length + cs.count '\n' := by
  induction cs with
  | nil => rfl
  | cons c cs ih =>
      by_cases hc : c = '\n'
      · subst hc
        rw [crlf_newline, List.count_cons_self]
        simp only [List.length_cons, ih]
        omega
      · rw [crlf_cons hc, List.count_cons_of_ne hc]
        simp only [List.length_cons, ih]
        omega

theorem count_crlf (cs : List Char) : (crlf cs).count '\n' = cs.count '\n' := by
  induction cs with
  | nil => rfl
  | cons c cs ih =>
      by_cases hc : c = '\n'
      · subst hc
        rw [crlf_newline, List.count_cons_of_ne (by decide), List.count_cons_self, ih,
          List.count_cons_self]
      · rw [crlf_cons hc, List.count_cons_of_ne hc, List.count_cons_of_ne hc, ih]

/-! ## Offsets -/

/-- Where an offset of a text has moved to. -/
def shifted (text : List Char) (offset : Nat) : Nat := offset + (text.take offset).count '\n'

theorem shifted_cons {c : Char} (h : c ≠ '\n') (cs : List Char) (n : Nat) :
    shifted (c :: cs) (n + 1) = shifted cs n + 1 := by
  rw [shifted, shifted, List.take_succ_cons, List.count_cons_of_ne h]
  omega

theorem shifted_newline (cs : List Char) (n : Nat) :
    shifted ('\n' :: cs) (n + 1) = shifted cs n + 2 := by
  rw [shifted, shifted, List.take_succ_cons, List.count_cons_self]
  omega

theorem shifted_add (text : List Char) (a b : Nat) :
    shifted text (a + b) = shifted text a + shifted (text.drop a) b := by
  rw [shifted, shifted, shifted, List.take_add, List.count_append]
  omega

theorem shifted_le_iff {text : List Char} {a b : Nat} :
    shifted text a ≤ shifted text b ↔ a ≤ b := by
  have mono : ∀ {m n : Nat}, m ≤ n → (text.take m).count '\n' ≤ (text.take n).count '\n' :=
    fun h => (List.take_sublist_take_left h).count_le '\n'
  unfold shifted
  constructor
  · intro h
    refine Nat.le_of_not_lt fun hlt => ?_
    have := mono (Nat.le_of_lt hlt)
    omega
  · intro h
    have := mono h
    omega

theorem shifted_lt_iff {text : List Char} {a b : Nat} :
    shifted text a < shifted text b ↔ a < b := by
  rw [← Nat.not_le, ← Nat.not_le, shifted_le_iff]

theorem shifted_max (text : List Char) (a b : Nat) :
    shifted text (max a b) = max (shifted text a) (shifted text b) := by
  rcases Nat.le_total a b with h | h
  · rw [Nat.max_eq_right h, Nat.max_eq_right (shifted_le_iff.mpr h)]
  · rw [Nat.max_eq_left h, Nat.max_eq_left (shifted_le_iff.mpr h)]

theorem shifted_sub (text : List Char) (a b : Nat) :
    shifted text b - shifted text a = shifted (text.drop a) (b - a) := by
  rcases Nat.le_total a b with h | h
  · obtain ⟨k, rfl⟩ := Nat.exists_eq_add_of_le h
    rw [shifted_add]
    simp
  · rw [Nat.sub_eq_zero_of_le h, Nat.sub_eq_zero_of_le (shifted_le_iff.mpr h)]
    rfl

/-- Where a span of a text has moved to. -/
def shiftedSpan (text : List Char) (span : Nat × Nat) : Nat × Nat :=
  (shifted text span.1, shifted text span.2)

theorem take_crlf (text : List Char) (n : Nat) :
    (crlf text).take (shifted text n) = crlf (text.take n) := by
  induction text generalizing n with
  | nil => rw [crlf_nil, List.take_nil, List.take_nil, crlf_nil]
  | cons c cs ih =>
      cases n with
      | zero => rfl
      | succ n =>
          by_cases hc : c = '\n'
          · subst hc
            rw [shifted_newline, crlf_newline, List.take_succ_cons, List.take_succ_cons,
              List.take_succ_cons, ih, crlf_newline]
          · rw [shifted_cons hc, crlf_cons hc, List.take_succ_cons, List.take_succ_cons, ih,
              crlf_cons hc]

theorem drop_crlf (text : List Char) (n : Nat) :
    (crlf text).drop (shifted text n) = crlf (text.drop n) := by
  have h : crlf (text.take n) ++ (crlf text).drop (shifted text n) =
      crlf (text.take n) ++ crlf (text.drop n) := by
    rw [← take_crlf, List.take_append_drop, take_crlf, ← crlf_append, List.take_append_drop]
  exact List.append_cancel_left h

theorem shifted_length (text : List Char) : shifted text text.length = (crlf text).length := by
  rw [shifted, List.take_length, length_crlf]

theorem shifted_append_length (done rest : List Char) :
    shifted (done ++ rest) done.length = (crlf done).length := by
  rw [shifted, List.take_left, length_crlf]

/-! ## Starts of lines -/

theorem startsAfter_crlf (text : List Char) :
    startsAfter 0 (crlf text) = (startsAfter 0 text).map (shifted text) := by
  induction text with
  | nil => rfl
  | cons c cs ih =>
      by_cases hc : c = '\n'
      · subst hc
        have hrest : (startsAfter 0 (crlf cs)).map (· + 2) =
            ((startsAfter 0 cs).map (· + 1)).map (shifted ('\n' :: cs)) := by
          rw [ih, List.map_map, List.map_map]
          exact List.map_congr_left fun n _ => (shifted_newline cs n).symm
        rw [crlf_newline, startsAfter, if_neg (by decide), startsAfter,
          if_pos (beq_self_eq_true _), startsAfter_eq_map, hrest, startsAfter,
          if_pos (beq_self_eq_true _), startsAfter_eq_map (0 + 1)]
        rfl
      · have hne : ¬ (c == '\n') = true := by simpa using hc
        rw [crlf_cons hc, startsAfter, if_neg hne, startsAfter, if_neg hne, startsAfter_eq_map,
          startsAfter_eq_map (0 + 1), ih, List.map_map, List.map_map]
        exact List.map_congr_left fun n _ => (shifted_cons hc cs n).symm

theorem lineStarts_crlf (text : List Char) :
    lineStarts (crlf text) = (lineStarts text).map (shifted text) := by
  rw [lineStarts, lineStarts, startsAfter_crlf]
  rfl

namespace LineIndex

theorem starts_crlf (text : List Char) (k : Nat) :
    (ofText (crlf text)).starts[k]? = ((ofText text).starts[k]?).map (shifted text) := by
  rw [starts_getElem?, starts_getElem?, lineStarts_crlf, List.getElem?_map]

theorem lineCount_crlf (text : List Char) :
    (ofText (crlf text)).lineCount = (ofText text).lineCount := by
  change (lineStarts (crlf text)).toArray.size = (lineStarts text).toArray.size
  rw [lineStarts_crlf, List.size_toArray, List.size_toArray, List.length_map]

theorem lineOf_crlf (text : List Char) (offset : Nat) :
    (ofText (crlf text)).lineOf (shifted text offset) = (ofText text).lineOf offset := by
  rw [lineOf_eq_count, lineOf_eq_count, take_crlf, count_crlf]

theorem columnOf_crlf (text : List Char) (offset : Nat) :
    (ofText (crlf text)).columnOf (shifted text offset) = (ofText text).columnOf offset := by
  obtain ⟨start, hstart, hle⟩ := exists_start text offset
  have hstart' : (ofText (crlf text)).starts[(ofText (crlf text)).lineOf (shifted text offset)]? =
      some (shifted text start) := by
    rw [lineOf_crlf, starts_crlf, hstart]
    rfl
  rw [columnOf_eq hstart, columnOf_eq hstart', shifted_sub]
  have hnone := newline_not_mem_between hle (lineOf_start hstart)
  rw [shifted, List.count_eq_zero.mpr hnone, Nat.add_zero]

theorem rangeOf_crlf (text : List Char) (start stop : Nat) :
    (ofText (crlf text)).rangeOf (shifted text start) (shifted text stop) =
      (ofText text).rangeOf start stop := by
  rw [rangeOf, rangeOf, lineOf_crlf, columnOf_crlf, columnOf_crlf]

/-! ## Texts of lines -/

theorem cut_crlf (text : List Char) (a b : Nat) :
    (ofText (crlf text)).cut (shifted text a) (shifted text b) =
      dropTerminator (crlf ((text.drop a).take (b - a))) := by
  change dropTerminator (((crlf text).drop _).take _) = _
  rw [drop_crlf, shifted_sub, take_crlf]

theorem dropTerminator_crlf {cs : List Char} (h : '\n' ∉ cs.dropLast) :
    dropTerminator (crlf cs) = dropTerminator cs := by
  rcases List.eq_nil_or_concat cs with rfl | ⟨body, c, rfl⟩
  · rfl
  · rw [List.concat_eq_append, List.dropLast_concat] at h
    rw [List.concat_eq_append, crlf_append, crlf_eq_self h]
    by_cases hc : c = '\n'
    · subst hc
      have hends : dropTerminator (body ++ ['\r'] ++ ['\n']) = dropTerminator body :=
        (dropEndWhile_concat (by rfl) _).trans (dropEndWhile_concat (by rfl) _)
      rw [List.append_assoc] at hends
      exact hends.trans (dropEndWhile_concat (by rfl) _).symm
    · rw [crlf_cons hc, crlf_nil]

theorem lineText_crlf (text : List Char) (k : Nat) :
    (ofText (crlf text)).lineText k = (ofText text).lineText k := by
  have hlength : (ofText (crlf text)).text.length = shifted text (ofText text).text.length :=
    (shifted_length text).symm
  rw [lineText, lineText, starts_crlf, starts_crlf, hlength]
  cases hstart : (ofText text).starts[k]? with
  | none => rfl
  | some start =>
      rw [Option.map_some, Option.getD_map]
      dsimp only
      rw [cut_crlf]
      refine dropTerminator_crlf (newline_not_mem_line hstart fun next hnext => ?_)
      rw [hnext, Option.getD_some]

end LineIndex

end ColorCensus.Text
