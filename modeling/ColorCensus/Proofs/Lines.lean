import ColorCensus.Text.Lines

/-!
# Positions are in the order of offsets

The table of line starts is strictly increasing, so bisection finds the line of
an offset: a line starts at or before an offset exactly if it is not below the
line of the offset (`lineStart_le_iff`). Whatever else there is to know about
lines and offsets is read off from that.
-/

namespace ColorCensus.Text

theorem startsAfter_sorted (pos : Nat) (text : List Char) :
    (∀ start ∈ startsAfter pos text, pos < start) ∧
      (startsAfter pos text).Pairwise (· < ·) := by
  induction text generalizing pos with
  | nil => exact ⟨fun _ h => (List.not_mem_nil h).elim, List.Pairwise.nil⟩
  | cons c rest ih =>
      obtain ⟨hpos, hrest⟩ := ih (pos + 1)
      have hbehind : ∀ start ∈ startsAfter (pos + 1) rest, pos < start :=
        fun start h => Nat.lt_of_succ_lt (hpos start h)
      rw [startsAfter]
      split
      · refine ⟨fun start h => ?_, List.pairwise_cons.mpr ⟨hpos, hrest⟩⟩
        rcases List.mem_cons.mp h with rfl | h
        · exact Nat.lt_succ_self pos
        · exact hbehind start h
      · exact ⟨hbehind, hrest⟩

theorem lineStarts_sorted (text : List Char) : (lineStarts text).Pairwise (· < ·) :=
  List.pairwise_cons.mpr (startsAfter_sorted 0 text)

theorem lineStarts_counted (text : List Char) (offset : Nat) :
    (lineStarts text).Pairwise fun a b =>
      decide (b ≤ offset) = true → decide (a ≤ offset) = true := by
  refine (lineStarts_sorted text).imp fun hab h => ?_
  rw [decide_eq_true_eq] at h ⊢
  omega

theorem countP_startsAfter (pos : Nat) (text : List Char) (offset : Nat) :
    (startsAfter pos text).countP (fun start => decide (start ≤ offset)) =
      (text.take (offset - pos)).count '\n' := by
  induction text generalizing pos with
  | nil =>
      rw [List.take_nil]
      rfl
  | cons c cs ih =>
      rcases Nat.lt_or_ge pos offset with hpos | hpos
      · obtain ⟨k, hk⟩ : ∃ k, offset - pos = k + 1 := ⟨offset - (pos + 1), by omega⟩
        have hrest := ih (pos + 1)
        rw [show offset - (pos + 1) = k by omega] at hrest
        rw [startsAfter, hk, List.take_succ_cons]
        by_cases hc : c = '\n'
        · subst hc
          rw [if_pos (beq_self_eq_true _), List.countP_cons_of_pos (by simp; omega), hrest,
            List.count_cons_self]
        · rw [if_neg (by simpa using hc), hrest, List.count_cons_of_ne hc]
      · rw [Nat.sub_eq_zero_of_le hpos, List.take_zero, List.count_nil, List.countP_eq_zero]
        intro start hstart
        have := (startsAfter_sorted pos (c :: cs)).1 start hstart
        simp only [decide_eq_true_eq]
        omega

theorem startsAfter_congr {xs ys : List Char} (h : xs.map (· == '\n') = ys.map (· == '\n'))
    (pos : Nat) : startsAfter pos xs = startsAfter pos ys := by
  induction xs generalizing ys pos with
  | nil =>
      rw [List.map_nil, eq_comm, List.map_eq_nil_iff] at h
      rw [h]
  | cons c xs ih =>
      cases ys with
      | nil => cases h
      | cons d ys =>
          obtain ⟨hhead, htail⟩ := List.cons.inj h
          dsimp only at hhead
          rw [startsAfter, startsAfter, hhead, ih htail]

theorem startsAfter_eq_map (pos : Nat) (text : List Char) :
    startsAfter pos text = (startsAfter 0 text).map (· + pos) := by
  induction text generalizing pos with
  | nil => rfl
  | cons c cs ih =>
      rw [startsAfter, startsAfter, ih (pos + 1), ih (0 + 1)]
      have hmap : ((startsAfter 0 cs).map (· + (0 + 1))).map (· + pos) =
          (startsAfter 0 cs).map (· + (pos + 1)) := by
        rw [List.map_map]
        refine List.map_congr_left fun n _ => ?_
        simp only [Function.comp_apply]
        omega
      split
      · rw [List.map_cons, hmap, Nat.add_comm (0 + 1) pos]
      · rw [hmap]

/-! ## Lines as pieces of the text -/

theorem splitLines_newline (text : List Char) :
    splitLines ('\n' :: text) = [] :: splitLines text := rfl

theorem splitLines_cons {c : Char} (h : c ≠ '\n') (text : List Char) :
    ∃ first more, splitLines text = first :: more ∧
      splitLines (c :: text) = (c :: first) :: more := by
  obtain ⟨first, more, hsplit⟩ := List.exists_cons_of_ne_nil (splitOn_ne_nil '\n' text)
  refine ⟨first, more, hsplit, ?_⟩
  rw [splitLines, splitOn, if_neg (by simpa using h), hsplit]

theorem exists_lastLine (text : List Char) : ∃ above last, splitLines text = above ++ [last] := by
  obtain ⟨above, last, h⟩ :=
    (List.eq_nil_or_concat (splitLines text)).resolve_left (splitOn_ne_nil '\n' text)
  exact ⟨above, last, h.trans List.concat_eq_append⟩

theorem lineStarts_newline (text : List Char) :
    lineStarts ('\n' :: text) = 0 :: (lineStarts text).map (· + 1) := by
  rw [lineStarts, startsAfter, if_pos (beq_self_eq_true _), startsAfter_eq_map, lineStarts,
    List.map_cons]

theorem lineStarts_cons {c : Char} (h : c ≠ '\n') (text : List Char) :
    lineStarts (c :: text) = 0 :: (lineStarts text).tail.map (· + 1) := by
  rw [lineStarts, startsAfter, if_neg (by simpa using h), startsAfter_eq_map, lineStarts,
    List.tail_cons]

theorem lineStarts_append (xs ys : List Char) :
    lineStarts (xs ++ ys) = lineStarts xs ++ startsAfter xs.length ys := by
  have happend : ∀ pos, startsAfter pos (xs ++ ys) =
      startsAfter pos xs ++ startsAfter (pos + xs.length) ys := by
    induction xs with
    | nil => exact fun _ => rfl
    | cons c xs ih =>
        intro pos
        rw [List.cons_append, startsAfter, startsAfter, ih, List.length_cons, Nat.add_assoc,
          Nat.add_comm 1]
        split
        · rfl
        · rfl
  rw [lineStarts, lineStarts, happend, Nat.zero_add, List.cons_append]

/-- Behind `done` a line stands in a text, up to the newline before the start of the next one or,
if there is none, up to the end. -/
def LineBehind (text done line : List Char) (next : Option Nat) : Prop :=
  text = done ++ line ∧ next = none ∨
    ∃ rest, text = done ++ line ++ '\n' :: rest ∧ next = some (done.length + line.length + 1)

theorem LineBehind.cons {text done line : List Char} {next : Option Nat}
    (h : LineBehind text done line next) (c : Char) :
    LineBehind (c :: text) (c :: done) line (next.map (· + 1)) := by
  rcases h with ⟨rfl, rfl⟩ | ⟨rest, rfl, rfl⟩
  · exact .inl ⟨rfl, rfl⟩
  · refine .inr ⟨rest, rfl, ?_⟩
    rw [Option.map_some, List.length_cons, Nat.add_right_comm done.length 1]

theorem LineBehind.cons_line {text line : List Char} {next : Option Nat}
    (h : LineBehind text [] line next) (c : Char) :
    LineBehind (c :: text) [] (c :: line) (next.map (· + 1)) := by
  rcases h with ⟨rfl, rfl⟩ | ⟨rest, rfl, rfl⟩
  · exact .inl ⟨rfl, rfl⟩
  · refine .inr ⟨rest, rfl, ?_⟩
    rw [Option.map_some, List.length_cons, ← Nat.add_assoc]

/-- The lines of a text stand behind their starts. The induction is on the text, whose first
character is a line of its own or belongs to the first line behind it. -/
theorem exists_line_of_start {text : List Char} {k start : Nat}
    (h : (lineStarts text)[k]? = some start) :
    ∃ done line, done.length = start ∧ (splitLines text)[k]? = some line ∧
      LineBehind text done line (lineStarts text)[k + 1]? := by
  induction text generalizing k start with
  | nil =>
      cases k with
      | zero =>
          cases h
          exact ⟨[], [], rfl, rfl, .inl ⟨rfl, rfl⟩⟩
      | succ k => cases h
  | cons c text ih =>
      by_cases hc : c = '\n'
      · subst hc
        rw [lineStarts_newline, splitLines_newline]
        rw [lineStarts_newline] at h
        cases k with
        | zero =>
            cases h
            exact ⟨[], [], rfl, rfl, .inr ⟨text, rfl, rfl⟩⟩
        | succ k =>
            rw [List.getElem?_cons_succ, List.getElem?_map] at h
            obtain ⟨start, hstart, rfl⟩ := Option.map_eq_some_iff.mp h
            obtain ⟨done, line, rfl, hline, hbehind⟩ := ih hstart
            refine ⟨'\n' :: done, line, rfl, hline, ?_⟩
            rw [List.getElem?_cons_succ, List.getElem?_map]
            exact hbehind.cons '\n'
      · obtain ⟨first, more, hfirst, hsplit⟩ := splitLines_cons hc text
        rw [lineStarts_cons hc, hsplit]
        rw [lineStarts_cons hc] at h
        cases k with
        | zero =>
            cases h
            obtain ⟨done, line, hdone, hline, hbehind⟩ := ih (k := 0) rfl
            obtain rfl := List.length_eq_zero_iff.mp hdone
            rw [hfirst] at hline
            cases hline
            refine ⟨[], c :: first, rfl, rfl, ?_⟩
            rw [List.getElem?_cons_succ, List.getElem?_map, List.getElem?_tail]
            exact hbehind.cons_line c
        | succ k =>
            rw [List.getElem?_cons_succ, List.getElem?_map, List.getElem?_tail] at h
            obtain ⟨start, hstart, rfl⟩ := Option.map_eq_some_iff.mp h
            obtain ⟨done, line, rfl, hline, hbehind⟩ := ih hstart
            rw [hfirst] at hline
            refine ⟨c :: done, line, rfl, hline, ?_⟩
            rw [List.getElem?_cons_succ, List.getElem?_map, List.getElem?_tail]
            exact hbehind.cons c

theorem take_start {text : List Char} {k start : Nat} (h : (lineStarts text)[k + 1]? = some start) :
    ∃ front, text.take start = front ++ ['\n'] := by
  have hbefore : k < (lineStarts text).length :=
    Nat.lt_of_succ_lt (List.getElem?_eq_some_iff.mp h).1
  obtain ⟨done, line, -, -, hbehind⟩ := exists_line_of_start (List.getElem?_eq_getElem hbefore)
  rw [h] at hbehind
  rcases hbehind with ⟨-, hnext⟩ | ⟨rest, htext, hnext⟩
  · cases hnext
  · refine ⟨done ++ line, ?_⟩
    have hfront : text = (done ++ line ++ ['\n']) ++ rest := by
      rw [htext, List.append_assoc (done ++ line), List.singleton_append]
    have hlength : start = (done ++ line ++ ['\n']).length := by
      rw [Option.some.inj hnext, List.length_append, List.length_append, List.length_singleton]
    rw [hfront, hlength, List.take_left]

namespace LineIndex

variable (ix : LineIndex)

theorem lineOf_eq (offset : Nat) :
    ix.lineOf offset = (lineStarts ix.text).countP (fun start => decide (start ≤ offset)) - 1 := by
  obtain ⟨text, starts, rfl⟩ := ix
  rw [lineOf, partitionPoint_eq_countP (lineStarts_counted text offset)]

theorem lineStart_le_iff {line : Nat} (h : line < ix.starts.size) (offset : Nat) :
    ix.lineStart line h ≤ offset ↔ line ≤ ix.lineOf offset := by
  rw [lineOf_eq]
  obtain ⟨text, starts, rfl⟩ := ix
  have hfirst : 0 < (lineStarts text).countP fun start => decide (start ≤ offset) := by
    rw [lineStarts, List.countP_cons_of_pos (by simp)]
    exact Nat.succ_pos _
  have hline := getElem_iff_lt_countP (lineStarts_counted text offset) line h
  rw [decide_eq_true_eq] at hline
  rw [lineStart, List.getElem_toArray, hline]
  dsimp only
  omega

theorem lineStart_lineOf_le (offset : Nat) :
    ix.lineStart (ix.lineOf offset) (ix.lineOf_lt offset) ≤ offset :=
  (ix.lineStart_le_iff _ offset).mpr (Nat.le_refl _)

theorem lineOf_mono {a b : Nat} (h : a ≤ b) : ix.lineOf a ≤ ix.lineOf b :=
  (ix.lineStart_le_iff (ix.lineOf_lt a) b).mp (Nat.le_trans (ix.lineStart_lineOf_le a) h)

/-! ## Lines of a text -/

/-- The line of an offset is the number of newlines before it. -/
theorem lineOf_eq_count (text : List Char) (offset : Nat) :
    (ofText text).lineOf offset = (text.take offset).count '\n' := by
  rw [lineOf_eq, lineStarts, List.countP_cons_of_pos (by simp)]
  exact countP_startsAfter 0 text offset

theorem newline_not_mem_between {text : List Char} {a b : Nat} (hab : a ≤ b)
    (h : (ofText text).lineOf a = (ofText text).lineOf b) :
    '\n' ∉ (text.drop a).take (b - a) := by
  obtain ⟨k, rfl⟩ := Nat.exists_eq_add_of_le hab
  rw [lineOf_eq_count, lineOf_eq_count, List.take_add, List.count_append] at h
  rw [Nat.add_sub_cancel_left, ← List.count_eq_zero]
  omega

theorem starts_getElem? (text : List Char) (k : Nat) :
    (ofText text).starts[k]? = (lineStarts text)[k]? := List.getElem?_toArray

theorem lineOf_eq_of_start {text : List Char} {k start offset : Nat}
    (h : (ofText text).starts[k]? = some start) (hle : start ≤ offset)
    (hnext : ∀ next, (ofText text).starts[k + 1]? = some next → offset < next) :
    (ofText text).lineOf offset = k := by
  obtain ⟨hk, hstart⟩ := Array.getElem?_eq_some_iff.mp h
  have hge : k ≤ (ofText text).lineOf offset :=
    ((ofText text).lineStart_le_iff hk offset).mp (Nat.le_trans (Nat.le_of_eq hstart) hle)
  refine Nat.le_antisymm (Nat.le_of_not_lt fun hlt => ?_) hge
  have hsize : k + 1 < (ofText text).starts.size :=
    Nat.lt_of_le_of_lt hlt ((ofText text).lineOf_lt offset)
  have hbefore := ((ofText text).lineStart_le_iff hsize offset).mpr hlt
  exact absurd (hnext _ (Array.getElem?_eq_getElem hsize)) (Nat.not_lt.mpr hbefore)

theorem start_lt_next {text : List Char} {k start next : Nat}
    (h : (ofText text).starts[k]? = some start) (h' : (ofText text).starts[k + 1]? = some next) :
    start < next := by
  rw [starts_getElem?] at h h'
  obtain ⟨hk, rfl⟩ := List.getElem?_eq_some_iff.mp h
  obtain ⟨hk', rfl⟩ := List.getElem?_eq_some_iff.mp h'
  exact List.pairwise_iff_getElem.mp (lineStarts_sorted text) k (k + 1) hk hk' (Nat.lt_succ_self k)

theorem lineOf_start {text : List Char} {k start : Nat}
    (h : (ofText text).starts[k]? = some start) : (ofText text).lineOf start = k :=
  lineOf_eq_of_start h (Nat.le_refl _) fun _ hnext => start_lt_next h hnext

theorem columnOf_eq {text : List Char} {offset start : Nat}
    (h : (ofText text).starts[(ofText text).lineOf offset]? = some start) :
    (ofText text).columnOf offset = offset - start := by
  obtain ⟨_, hstart⟩ := Array.getElem?_eq_some_iff.mp h
  rw [columnOf, lineStart, hstart]

theorem exists_start (text : List Char) (offset : Nat) :
    ∃ start, (ofText text).starts[(ofText text).lineOf offset]? = some start ∧ start ≤ offset :=
  ⟨_, Array.getElem?_eq_getElem ((ofText text).lineOf_lt offset),
    (ofText text).lineStart_lineOf_le offset⟩

theorem newline_not_mem_line {text : List Char} {k start stop : Nat}
    (h : (ofText text).starts[k]? = some start)
    (hstop : ∀ next, (ofText text).starts[k + 1]? = some next → stop = next) :
    '\n' ∉ ((text.drop start).take (stop - start)).dropLast := by
  rcases Nat.lt_or_ge start stop with hlt | hge
  · have hline : (ofText text).lineOf (stop - 1) = k := by
      refine lineOf_eq_of_start h (by omega) fun next hnext => ?_
      have := hstop next hnext
      omega
    have hnone := newline_not_mem_between (a := start) (b := stop - 1) (by omega)
      ((lineOf_start h).trans hline.symm)
    intro hmem
    rw [List.dropLast_eq_take, List.take_take, List.length_take] at hmem
    exact hnone ((List.take_sublist_take_left (by omega)).mem hmem)
  · rw [Nat.sub_eq_zero_of_le hge]
    exact List.not_mem_nil

theorem starts_eq_none {text : List Char} {k : Nat} (h : (lineStarts text)[k]? = none) :
    (splitLines text)[k]? = none := by
  rw [List.getElem?_eq_none_iff] at h ⊢
  rw [length_splitLines, ← length_startsAfter 0]
  exact h

/-- The text of a line is told without the newline at its end, and without carriage returns
before it. -/
theorem lineText_eq (text : List Char) (k : Nat) :
    (ofText text).lineText k = dropTerminator ((splitLines text)[k]?.getD []) := by
  rw [lineText, starts_getElem?, starts_getElem?]
  cases hstart : (lineStarts text)[k]? with
  | none => rw [starts_eq_none hstart]; rfl
  | some start =>
      obtain ⟨done, line, rfl, hline, hbehind⟩ := exists_line_of_start hstart
      rw [hline]
      dsimp only [Option.getD_some, cut]
      change dropTerminator ((text.drop done.length).take
        ((lineStarts text)[k + 1]?.getD text.length - done.length)) = _
      rcases hbehind with ⟨htext, hnext⟩ | ⟨rest, htext, hnext⟩
      · have hdrop : text.drop done.length = line := by rw [htext, List.drop_left]
        have hlength : text.length - done.length = line.length := by
          rw [htext, List.length_append, Nat.add_sub_cancel_left]
        rw [hnext, Option.getD_none, hdrop, hlength, List.take_length]
      · have hdrop : text.drop done.length = (line ++ ['\n']) ++ rest := by
          rw [htext, List.append_assoc, List.drop_left, List.append_assoc, List.singleton_append]
        have hlength : done.length + line.length + 1 - done.length = (line ++ ['\n']).length := by
          rw [List.length_append, Nat.add_assoc, Nat.add_sub_cancel_left, List.length_singleton]
        rw [hnext, Option.getD_some, hdrop, hlength, List.take_left]
        exact dropEndWhile_concat rfl line

/-! ## The text in front of an offset -/

/-- In front of an offset there is one line for each line above that of the offset, and last a part
of the line of the offset. -/
theorem length_above {text : List Char} {offset : Nat} {above : List (List Char)} {last : List Char}
    (h : splitLines (text.take offset) = above ++ [last]) :
    above.length = (ofText text).lineOf offset := by
  have hlength := congrArg List.length h
  rw [length_splitLines, List.length_append, List.length_singleton] at hlength
  rw [lineOf_eq_count]
  omega

theorem splitLines_lastLine {text : List Char} {offset : Nat} {above : List (List Char)}
    {last : List Char} (h : splitLines (text.take offset) = above ++ [last]) :
    ∃ first more, splitLines (text.drop offset) = first :: more ∧
      splitLines text = above ++ (last ++ first) :: more := by
  obtain ⟨first, more, hfirst⟩ :=
    List.exists_cons_of_ne_nil (splitOn_ne_nil '\n' (text.drop offset))
  refine ⟨first, more, hfirst, ?_⟩
  rw [splitLines, ← List.take_append_drop offset text]
  exact splitOn_append_pieces h hfirst

theorem columnOf_lastLine {text : List Char} {offset : Nat} {above : List (List Char)}
    {last : List Char} (h : splitLines (text.take offset) = above ++ [last]) :
    ∃ done, text.take offset = done ++ last ∧
      (ofText text).columnOf offset = offset - done.length := by
  have hlines := length_above h
  have hstarts : (lineStarts (text.take offset)).length = above.length + 1 := by
    rw [lineStarts, List.length_cons, length_startsAfter, ← lineOf_eq_count, hlines]
  have hlast : above.length < (lineStarts (text.take offset)).length := by omega
  obtain ⟨done, line, hdone, hline, hbehind⟩ :=
    exists_line_of_start (List.getElem?_eq_getElem hlast)
  rw [h, List.getElem?_concat_length] at hline
  obtain rfl := Option.some.inj hline
  refine ⟨done, ?_, ?_⟩
  · rcases hbehind with ⟨htext, -⟩ | ⟨-, -, hnext⟩
    · exact htext
    · have := (List.getElem?_eq_some_iff.mp hnext).1
      omega
  · refine columnOf_eq ?_
    have hsplit : lineStarts text = lineStarts (text.take offset ++ text.drop offset) := by
      rw [List.take_append_drop]
    rw [starts_getElem?, ← hlines, hsplit, lineStarts_append, List.getElem?_append_left hlast,
      List.getElem?_eq_getElem hlast, hdone]

theorem columnOf_eq_length {text : List Char} {offset : Nat} (hoffset : offset ≤ text.length)
    {above : List (List Char)} {last : List Char}
    (h : splitLines (text.take offset) = above ++ [last]) :
    (ofText text).columnOf offset = last.length := by
  obtain ⟨done, htake, hcolumn⟩ := columnOf_lastLine h
  have hlength := congrArg List.length htake
  rw [List.length_take_of_le hoffset, List.length_append] at hlength
  omega

/-- Where the line of an offset ends. -/
def lineStop (ix : LineIndex) (offset : Nat) : Nat :=
  ix.starts[ix.lineOf offset + 1]?.getD ix.text.length

theorem lt_lineStop {text : List Char} {i offset : Nat} (hi : i < text.length) (h : i < offset) :
    i < (ofText text).lineStop offset := by
  rw [lineStop]
  cases hnext : (ofText text).starts[(ofText text).lineOf offset + 1]? with
  | none => exact hi
  | some next =>
      obtain ⟨hsize, hstart⟩ := Array.getElem?_eq_some_iff.mp hnext
      have hle := (ofText text).lineStart_le_iff hsize offset
      rw [lineStart, hstart] at hle
      exact Nat.lt_trans h (Nat.lt_of_not_le fun h => Nat.not_succ_le_self _ (hle.mp h))

/-! ## Texts with the same lines -/

theorem starts_congr {xs ys : List Char} (h : xs.map (· == '\n') = ys.map (· == '\n')) :
    (ofText xs).starts = (ofText ys).starts :=
  congrArg (fun starts => (0 :: starts).toArray) (startsAfter_congr h 0)

theorem lineOf_congr {ix jx : LineIndex} (h : ix.starts = jx.starts) (offset : Nat) :
    ix.lineOf offset = jx.lineOf offset := by
  rw [lineOf, lineOf, h]

theorem lineStop_congr {xs ys : List Char} (h : xs.map (· == '\n') = ys.map (· == '\n'))
    (offset : Nat) : (ofText xs).lineStop offset = (ofText ys).lineStop offset := by
  have hlength : xs.length = ys.length := by
    rw [← List.length_map (· == '\n'), h, List.length_map]
  change (ofText xs).starts[_]?.getD xs.length = (ofText ys).starts[_]?.getD ys.length
  rw [starts_congr h, lineOf_congr (starts_congr h), hlength]

end LineIndex

/-- A range starts before another one in the text of both. -/
def Range.StartsBefore (r s : Range) : Prop :=
  r.line < s.line ∨ r.line = s.line ∧ r.startCol < s.startCol

theorem LineIndex.rangeOf_startsBefore (ix : LineIndex) {a b : Nat} (stop stop' : Nat)
    (h : a < b) : (ix.rangeOf a stop).StartsBefore (ix.rangeOf b stop') := by
  have hlines := ix.lineOf_mono (Nat.le_of_lt h)
  rcases Nat.lt_or_eq_of_le hlines with hlt | heq
  · exact .inl (Nat.succ_lt_succ hlt)
  · refine .inr ⟨congrArg Nat.succ heq, ?_⟩
    have hstart := ix.lineStart_lineOf_le a
    have hsame : ix.lineStart (ix.lineOf b) (ix.lineOf_lt b) =
        ix.lineStart (ix.lineOf a) (ix.lineOf_lt a) := by
      simp only [heq]
    simp only [rangeOf, columnOf, hsame]
    omega

end ColorCensus.Text
