import ColorCensus.Proofs.BlockThemes

/-!
# Runs of lines that leave the themes alone

A run of lines may open blocks and close them again. If after no line of it more blocks are closed
than were opened, and after its last line all of them are closed, then the lines behind the run have
the themes that they would have without it.

The argument is a frame around the stack. What a run opens lies on top of what was open before, and
a line closes its blocks only after it has opened its own: so as long as the count stays at zero or
above, the run works on its own part of the stack, and the part below could as well be taken off
before the run and put back behind it (`afterLines_append`). The height of the own part is the
count, so it is empty in the end. A line inside the run finds its theme in the own part, where only
the triggers of the run are, or else below, where the first line of the run found its own.
-/

namespace ColorCensus.Theme

open Text

/-- A line as the classifier reads it: without the carriage returns at its end, and without its
comments. -/
def bare (rawLine : List Char) : List Char := stripComments (dropEndWhile (· == '\r') rawLine)

/-- The blocks that some lines open, less those that they close. -/
def rise : List (List Char) → Int
  | [] => 0
  | line :: lines => ((bare line).count '{' - (bare line).count '}' : Int) + rise lines

/-- Lines that close no block from before and leave none of their own open. The blocks are counted
where a line ends. -/
structure BalancedRun (lines : List (List Char)) : Prop where
  nonneg : ∀ n, 0 ≤ rise (lines.take n)
  zero : rise lines = 0

/-- The blocks open after some lines. -/
def Blocks.afterLines (attributes : List (List Char)) (blocks : Blocks)
    (lines : List (List Char)) : Blocks :=
  lines.foldl (Blocks.after attributes) blocks

variable {attributes : List (List Char)} {blocks own : Blocks} {line : List Char}
  {lines : List (List Char)}

/-! ## One line -/

/-- What a line puts on the stack, before it closes anything. -/
def pushed (attributes : List (List Char)) (line : List Char) : Blocks :=
  (Brace.tags (Brace.ofLine attributes line)).reverse

theorem after_eq_drop :
    blocks.after attributes line =
      (pushed attributes line ++ blocks).drop ((bare line).count '}') := by
  rw [Brace.after_eq, Brace.ofLine, Brace.count_closing_ofLineFrom]
  rfl

theorem length_pushed : (pushed attributes line).length = (bare line).count '{' := by
  rw [pushed, List.length_reverse, Brace.ofLine, Brace.tags_ofLineFrom]
  split
  · next hcount => exact hcount.symm
  · next n hcount =>
      rw [List.length_cons, List.length_replicate]
      exact hcount.symm

theorem trigger_of_mem_pushed {theme : Theme} (h : some theme ∈ pushed attributes line) :
    trigger? attributes (bare line) = some theme := by
  rw [pushed, List.mem_reverse, Brace.ofLine, Brace.tags_ofLineFrom] at h
  split at h
  · cases h
  · obtain heq | h := List.mem_cons.mp h
    · exact heq.symm
    · cases List.eq_of_mem_replicate h

theorem length_after (attributes : List (List Char)) (own : Blocks) (line : List Char) :
    (own.after attributes line).length =
      own.length + (bare line).count '{' - (bare line).count '}' := by
  rw [after_eq_drop, List.length_drop, List.length_append, length_pushed, Nat.add_comm own.length]

theorem after_append (h : (bare line).count '}' ≤ own.length + (bare line).count '{') :
    Blocks.after attributes (own ++ blocks) line = own.after attributes line ++ blocks := by
  have hheight : (bare line).count '}' ≤ (pushed attributes line ++ own).length := by
    rw [List.length_append, length_pushed]
    omega
  rw [after_eq_drop, after_eq_drop, ← List.append_assoc, List.drop_append_of_le_length hheight]

theorem mem_of_mem_after {theme : Theme} (h : some theme ∈ own.after attributes line) :
    some theme ∈ own ∨ trigger? attributes (bare line) = some theme := by
  rw [after_eq_drop] at h
  obtain h | h := List.mem_append.mp (List.mem_of_mem_drop h)
  · exact .inr (trigger_of_mem_pushed h)
  · exact .inl h

/-! ## A run of lines -/

theorem afterLines_concat (first rest : List (List Char)) :
    blocks.afterLines attributes (first ++ rest) =
      (blocks.afterLines attributes first).afterLines attributes rest := List.foldl_append

/-- As long as the count stays at zero or above, what lies below is left as it was, and the count
is the height of what lies on it. The induction is on the lines, from any height to start with. -/
theorem afterLines_append (attributes : List (List Char)) (blocks : Blocks)
    (h : ∀ n, 0 ≤ own.length + rise (lines.take n)) :
    Blocks.afterLines attributes (own ++ blocks) lines =
        own.afterLines attributes lines ++ blocks ∧
      ((own.afterLines attributes lines).length : Int) = own.length + rise lines := by
  induction lines generalizing own with
  | nil => exact ⟨rfl, by simp [Blocks.afterLines, rise]⟩
  | cons line lines ih =>
      have hfirst := h 1
      simp only [List.take_succ_cons, List.take_zero, rise] at hfirst
      have hheight := length_after attributes own line
      have hrest : ∀ n, 0 ≤ (own.after attributes line).length + rise (lines.take n) := by
        intro n
        have hn := h (n + 1)
        simp only [List.take_succ_cons, rise] at hn
        omega
      obtain ⟨hframe, hlength⟩ := ih hrest
      have hline : (bare line).count '}' ≤ own.length + (bare line).count '{' := by omega
      constructor
      · calc Blocks.afterLines attributes (own ++ blocks) (line :: lines)
            = Blocks.afterLines attributes (Blocks.after attributes (own ++ blocks) line) lines :=
              rfl
          _ = Blocks.afterLines attributes (own.after attributes line ++ blocks) lines := by
              rw [after_append hline]
          _ = own.afterLines attributes (line :: lines) ++ blocks := hframe
      · change (((own.after attributes line).afterLines attributes lines).length : Int) = _
        rw [hlength, rise]
        omega

theorem mem_of_mem_afterLines {theme : Theme}
    (h : some theme ∈ own.afterLines attributes lines) :
    some theme ∈ own ∨ ∃ line ∈ lines, trigger? attributes (bare line) = some theme := by
  induction lines generalizing own with
  | nil => exact .inl h
  | cons line lines ih =>
      obtain hown | ⟨later, hlater, htrigger⟩ := ih h
      · obtain hown | htrigger := mem_of_mem_after hown
        · exact .inl hown
        · exact .inr ⟨line, List.mem_cons_self, htrigger⟩
      · exact .inr ⟨later, List.mem_cons_of_mem _ hlater, htrigger⟩

/-- The theme of a stack stands in its upper part or is that of its lower part. -/
theorem theme_append (own blocks : Blocks) :
    Blocks.theme (own ++ blocks) = blocks.theme ∨ some (Blocks.theme (own ++ blocks)) ∈ own := by
  rw [Blocks.theme, List.findSome?_append]
  cases hown : own.findSome? id with
  | none => exact .inl rfl
  | some theme =>
      obtain ⟨tag, htag, rfl⟩ := List.exists_of_findSome?_eq_some hown
      exact .inr htag

namespace BalancedRun

theorem afterLines_eq (h : BalancedRun lines) : blocks.afterLines attributes lines = blocks := by
  have hstart : ∀ n, 0 ≤ (([] : Blocks).length : Int) + rise (lines.take n) := by
    intro n
    have hn := h.nonneg n
    rwa [List.length_nil, Int.natCast_zero, Int.zero_add]
  obtain ⟨hframe, hlength⟩ := afterLines_append attributes blocks hstart
  rw [h.zero, List.length_nil, Int.natCast_zero, Int.add_zero] at hlength
  have hempty : Blocks.afterLines attributes [] lines = [] :=
    List.eq_nil_of_length_eq_zero (Int.natCast_eq_zero.mp hlength)
  rw [List.nil_append, hempty, List.nil_append] at hframe
  exact hframe

/-- Inside the run the theme is the one at its start or that of a trigger of the run before. -/
theorem theme_afterLines (h : BalancedRun lines) (attributes : List (List Char)) (blocks : Blocks)
    (n : Nat) :
    (blocks.afterLines attributes (lines.take n)).theme = blocks.theme ∨
      ∃ line ∈ lines.take n, trigger? attributes (bare line) =
        some (blocks.afterLines attributes (lines.take n)).theme := by
  have hstart : ∀ m, 0 ≤ (([] : Blocks).length : Int) + rise ((lines.take n).take m) := by
    intro m
    have hm := h.nonneg (min m n)
    rwa [List.take_take, List.length_nil, Int.natCast_zero, Int.zero_add]
  obtain ⟨hframe, -⟩ := afterLines_append attributes blocks hstart
  rw [List.nil_append] at hframe
  rw [hframe]
  obtain hbelow | hown := theme_append (Blocks.afterLines attributes [] (lines.take n)) blocks
  · exact .inl hbelow
  · exact .inr ((mem_of_mem_afterLines hown).resolve_left List.not_mem_nil)

end BalancedRun

/-! ## The themes of a text -/

theorem ofLinesFrom_getElem?_of_lt {n : Nat} (h : n < lines.length) :
    (ofLinesFrom attributes blocks lines)[n]? =
      some (blocks.afterLines attributes (lines.take n)).theme := by
  induction lines generalizing blocks n with
  | nil => cases h
  | cons line lines ih =>
      cases n with
      | zero => rfl
      | succ n => exact ih (Nat.lt_of_succ_lt_succ h)

theorem ofLines_joinWith_getElem? (hlines : ∀ line ∈ lines, '\n' ∉ line) {n : Nat}
    (h : n < lines.length) :
    (ofLines attributes (joinWith '\n' lines))[n]? =
      some (Blocks.afterLines attributes [] (lines.take n)).theme := by
  have hne : lines ≠ [] := List.ne_nil_of_length_pos (Nat.zero_lt_of_lt h)
  rw [ofLines, splitLines, splitOn_joinWith hne hlines, ofLinesFrom_getElem?_of_lt h]

section

variable {first rest : List (List Char)} {n : Nat}

theorem ofLines_getElem?_front (hlines : ∀ line ∈ first ++ rest, '\n' ∉ line)
    (h : n < first.length) :
    (ofLines attributes (joinWith '\n' (first ++ rest)))[n]? =
      some (Blocks.afterLines attributes [] (first.take n)).theme := by
  have hn : n < (first ++ rest).length := by
    rw [List.length_append]
    omega
  rw [ofLines_joinWith_getElem? hlines hn, List.take_append_of_le_length (Nat.le_of_lt h)]

theorem ofLines_getElem?_behind (hlines : ∀ line ∈ first ++ rest, '\n' ∉ line)
    (h : n < rest.length) :
    (ofLines attributes (joinWith '\n' (first ++ rest)))[first.length + n]? =
      some ((Blocks.afterLines attributes [] first).afterLines attributes (rest.take n)).theme := by
  have hn : first.length + n < (first ++ rest).length := by
    rw [List.length_append]
    omega
  rw [ofLines_joinWith_getElem? hlines hn, List.take_length_add_append, afterLines_concat]

end

/-- A balanced run of lines between others makes no difference to the themes of those, and each of
its own lines has the theme of its first line or one that a line of it before triggers. -/
theorem ofLines_balancedRun (attributes : List (List Char)) {before run after : List (List Char)}
    (hlines : ∀ line ∈ before ++ run ++ after, '\n' ∉ line) (hrun : BalancedRun run) :
    let whole := ofLines attributes (joinWith '\n' (before ++ run ++ after))
    let short := ofLines attributes (joinWith '\n' (before ++ after))
    (∀ n < before.length, ∃ theme, whole[n]? = some theme ∧ short[n]? = some theme) ∧
      (∀ n < after.length, ∃ theme, whole[before.length + run.length + n]? = some theme ∧
        short[before.length + n]? = some theme) ∧
      ∀ n < run.length, ∃ theme, whole[before.length + n]? = some theme ∧
        (whole[before.length]? = some theme ∨
          ∃ line ∈ run.take n, trigger? attributes (bare line) = some theme) := by
  have hshort : ∀ line ∈ before ++ after, '\n' ∉ line := by
    intro line hline
    refine hlines line ?_
    rw [List.append_assoc]
    exact (List.sublist_append_right run after).append_left before |>.mem hline
  have hassoc : ∀ line ∈ before ++ (run ++ after), '\n' ∉ line := by
    rwa [← List.append_assoc]
  intro whole short
  have hinside : ∀ n < run.length, whole[before.length + n]? =
      some ((Blocks.afterLines attributes [] before).afterLines attributes (run.take n)).theme := by
    intro n hn
    have hn' : n < (run ++ after).length := by
      rw [List.length_append]
      omega
    simp only [whole]
    rw [List.append_assoc, ofLines_getElem?_behind hassoc hn',
      List.take_append_of_le_length (Nat.le_of_lt hn)]
  refine ⟨fun n hn => ⟨_, ?_, ofLines_getElem?_front hshort hn⟩,
    fun n hn => ⟨_, ?_, ofLines_getElem?_behind hshort hn⟩, fun n hn => ⟨_, hinside n hn, ?_⟩⟩
  · -- Nothing of the run stands in front of the lines before it.
    simp only [whole]
    rw [List.append_assoc, ofLines_getElem?_front hassoc hn]
  · have hstack : Blocks.afterLines attributes [] (before ++ run) =
        Blocks.afterLines attributes [] before := by
      rw [afterLines_concat, hrun.afterLines_eq]
    simp only [whole]
    rw [← List.length_append, ofLines_getElem?_behind hlines hn, hstack]
  · have hstart := hinside 0 (Nat.zero_lt_of_lt hn)
    rw [Nat.add_zero, List.take_zero] at hstart
    rw [hstart]
    obtain hbelow | htrigger := hrun.theme_afterLines attributes
      (Blocks.afterLines attributes [] before) n
    · exact .inl (congrArg some hbelow.symm)
    · exact .inr htrigger

/-- The line that opens a dark block. -/
def darkLine : List Char := "@media (prefers-color-scheme: dark) \x7b".toList

/-- A light block within it; the rule in there closes on the line that closes the light block. -/
def lightBlock : List (List Char) :=
  ["@media (prefers-color-scheme: light) \x7b".toList, "a \x7b".toList, "\x7d \x7d // \x7b".toList]

/-- The line behind the light block is dark, with the light block and without it. -/
theorem ofLines_balancedRun_lightBlock :
    (∀ line ∈ [darkLine] ++ lightBlock ++ [[]], '\n' ∉ line) ∧ BalancedRun lightBlock ∧
      ∃ theme, (ofLines [] (joinWith '\n' ([darkLine] ++ lightBlock ++ [[]])))[4]? = some theme ∧
        (ofLines [] (joinWith '\n' ([darkLine] ++ [[]])))[1]? = some theme ∧ theme = .dark := by
  have hlines : ∀ line ∈ [darkLine] ++ lightBlock ++ [[]], '\n' ∉ line := by decide +kernel
  have hrun : BalancedRun lightBlock := by
    refine ⟨fun n => ?_, by decide +kernel⟩
    obtain hn | hn := Nat.lt_or_ge n 3
    · have hsmall : ∀ n < 3, 0 ≤ rise (lightBlock.take n) := by decide +kernel
      exact hsmall n hn
    · rw [List.take_of_length_le hn]
      decide +kernel
  obtain ⟨theme, hwhole, hshort⟩ := (ofLines_balancedRun [] hlines hrun).2.1 0 (by decide)
  have hdark : (ofLines [] (joinWith '\n' ([darkLine] ++ [[]])))[1]? = some .dark := by
    decide +kernel
  exact ⟨hlines, hrun, theme, hwhole, hshort, Option.some.inj (hshort.symm.trans hdark)⟩

end ColorCensus.Theme
