import ColorCensus.Proofs.Braces

/-!
# The themes of lines and the blocks around them

The classifier counts the braces of a line: all opening ones first, then all closing ones. So for
every text its themes are those in force where the braces of each line are grouped that way.

For the braces as they are written this is the same as long as every line is tidy. A line that
closes a block and opens one that stays open (`} @media … {`) is not: the count lets the new
block go and keeps the old one.
-/

namespace ColorCensus.Theme

open Text

variable {attributes : List (List Char)} {blocks : Blocks}

namespace Brace

/-- The braces of a line; the first opening one sets the theme. -/
def ofLineFrom (theme : Option Theme) : List Char → List Brace
  | [] => []
  | c :: rest =>
      if c == '{' then opening theme :: ofLineFrom none rest
      else if c == '}' then closing :: ofLineFrom theme rest
      else ofLineFrom theme rest

/-- The braces of a line without its comments. -/
def ofLine (attributes : List (List Char)) (rawLine : List Char) : List Brace :=
  let line := stripComments (dropEndWhile (· == '\r') rawLine)
  ofLineFrom (trigger? attributes line) line

/-- What the blocks that open among some braces set. -/
def tags : List Brace → List (Option Theme)
  | [] => []
  | opening tag :: w => tag :: tags w
  | closing :: w => tags w

/-- The opening braces before the closing ones. -/
def grouped (w : List Brace) : List Brace :=
  (tags w).map opening ++ List.replicate (w.count closing) closing

/-- Either no block of the line is open at its end, or the line closes no block from before, and
the block that sets a theme does not close if it is the first thing of the line. -/
def Tidy (w : List Brace) : Prop :=
  (∀ before tag later, w = before ++ opening tag :: later → Closes later) ∨
    ¬ Closes w ∧ ∀ theme later, w = opening (some theme) :: later → ¬ Closes later

variable {theme : Option Theme} {w : List Brace}

theorem not_closes_of_not_mem (h : closing ∉ w) : ¬ Closes w := by
  rintro ⟨inner, rest, rfl, -⟩
  exact h (by simp)

theorem tidy_of_not_mem (h : closing ∉ w) : Tidy w := by
  refine .inr ⟨not_closes_of_not_mem h, ?_⟩
  rintro theme later rfl
  exact not_closes_of_not_mem fun hlater => h (List.mem_cons_of_mem _ hlater)

/-! ## The count of the braces of a line -/

theorem count_closing_ofLineFrom (theme : Option Theme) (line : List Char) :
    (ofLineFrom theme line).count closing = line.count '}' := by
  fun_induction ofLineFrom theme line with
  | case1 => rfl
  | case2 theme c rest hc ih => simp [beq_iff_eq.mp hc, ih]
  | case3 theme c rest _ hc ih => simp [beq_iff_eq.mp hc, ih]
  | case4 theme c rest _ hc ih => rw [ih, List.count_cons_of_ne (by simpa using hc)]

theorem tags_ofLineFrom (theme : Option Theme) (line : List Char) :
    tags (ofLineFrom theme line) =
      match line.count '{' with
      | 0 => []
      | n + 1 => theme :: List.replicate n none := by
  fun_induction ofLineFrom theme line with
  | case1 => rfl
  | case2 theme c rest hc ih =>
      rw [tags, ih, beq_iff_eq.mp hc, List.count_cons_self]
      cases rest.count '{' <;> rfl
  | case3 theme c rest hc _ ih => rw [tags, ih, List.count_cons_of_ne (by simpa using hc)]
  | case4 theme c rest hc _ ih => rw [ih, List.count_cons_of_ne (by simpa using hc)]

/-- A line leaves on the stack what its own tags, closed from the end, do not use up. -/
theorem after_eq (rawLine : List Char) :
    blocks.after attributes rawLine =
      ((tags (ofLine attributes rawLine)).reverse ++ blocks).drop
        ((ofLine attributes rawLine).count closing) := by
  simp only [ofLine, Blocks.after, count_closing_ofLineFrom, tags_ofLineFrom]
  congr 1
  split <;> simp [*]

theorem read_map_opening (tags : List (Option Theme)) :
    read blocks (tags.map opening) = tags.reverse ++ blocks := by
  induction tags generalizing blocks with
  | nil => rfl
  | cons tag tags ih =>
      rw [List.reverse_cons, List.append_assoc]
      exact ih

theorem read_replicate_closing (n : Nat) :
    read blocks (List.replicate n closing) = blocks.drop n := by
  induction n generalizing blocks with
  | zero => rfl
  | succ n ih =>
      calc read blocks (List.replicate (n + 1) closing) = (blocks.drop 1).drop n := ih
        _ = blocks.drop (n + 1) := by rw [List.drop_drop, Nat.add_comm]

theorem after_eq_read_grouped (rawLine : List Char) :
    blocks.after attributes rawLine = read blocks (grouped (ofLine attributes rawLine)) := by
  rw [after_eq, grouped, read_append, read_map_opening, read_replicate_closing]

/-! ## Tidy lines -/

theorem length_tags_add_count (w : List Brace) : (tags w).length + w.count closing = w.length := by
  induction w with
  | nil => rfl
  | cons brace w ih =>
      cases brace with
      | opening => simp [tags]; omega
      | closing => simp [tags]; omega

theorem mem_tags {tag : Option Theme} (h : opening tag ∈ w) : tag ∈ tags w := by
  induction w with
  | nil => cases h
  | cons brace w ih =>
      cases brace with
      | opening other =>
          obtain heq | h := List.mem_cons.mp h
          · cases heq
            exact List.mem_cons_self
          · exact List.mem_cons_of_mem _ (ih h)
      | closing =>
          obtain heq | h := List.mem_cons.mp h
          · cases heq
          · exact ih h

theorem read_of_closed
    (h : ∀ before tag later, w = before ++ opening tag :: later → Closes later) :
    read blocks w = ((tags w).reverse ++ blocks).drop (w.count closing) := by
  obtain ⟨k, left, hw⟩ := exists_leaves w
  cases left with
  | nil =>
      have hcount : w.count closing = (tags w).reverse.length + k := by
        have hlength : w.length + k = 2 * w.count closing + 0 := hw.length_eq
        have htags := length_tags_add_count w
        rw [List.length_reverse]
        omega
      rw [hw.read_eq, hcount, ← List.drop_drop, List.drop_left, List.nil_append]
  | cons =>
      cases hw with
      | unclosed _ hrest => exact absurd (h _ _ _ rfl) hrest.not_closes

/-- Where no block closes that was open before and none sets a theme, only their number counts. -/
theorem read_of_not_closes (h : ¬ Closes w) (hnone : ∀ tag ∈ tags w, tag = none) :
    read blocks w = ((tags w).reverse ++ blocks).drop (w.count closing) := by
  obtain ⟨k, left, hw⟩ := exists_leaves w
  obtain rfl : k = 0 := Decidable.byContradiction fun hk => h (hw.closes hk)
  have hleft : left = List.replicate left.length none :=
    List.eq_replicate_of_mem fun tag htag => hnone tag (mem_tags (hw.mem htag))
  have htags : tags w = List.replicate (w.count closing + left.length) none := by
    have hlength := hw.length_eq
    have hsum := length_tags_add_count w
    rw [List.eq_replicate_of_mem hnone]
    congr 1
    omega
  rw [hw.read_eq, htags, List.reverse_replicate, List.replicate_append_replicate.symm,
    List.append_assoc, List.drop_left' List.length_replicate, ← hleft, List.drop_zero]

theorem Tidy.read_eq {tag : Option Theme} {later : List Brace}
    (h : Tidy (opening tag :: later)) (hnone : ∀ tag ∈ tags later, tag = none) :
    read blocks (opening tag :: later) =
      ((tags (opening tag :: later)).reverse ++ blocks).drop
        ((opening tag :: later).count closing) := by
  obtain hclosed | ⟨hopen, htag⟩ := h
  · exact read_of_closed hclosed
  by_cases hlater : Closes later
  · -- The first block closes in the line, so it sets no theme, and no other block of a line does.
    refine read_of_not_closes hopen ?_
    cases tag with
    | none => exact List.forall_mem_cons.mpr ⟨rfl, hnone⟩
    | some theme => exact absurd hlater (htag _ _ rfl)
  · calc read blocks (opening tag :: later) = read (tag :: blocks) later := rfl
      _ = ((tags later).reverse ++ tag :: blocks).drop (later.count closing) :=
        read_of_not_closes hlater hnone
      _ = _ := by simp [tags]

theorem tags_later {line : List Char} {tag : Option Theme} {later : List Brace}
    (h : ofLineFrom theme line = opening tag :: later) : ∀ other ∈ tags later, other = none := by
  have htags := tags_ofLineFrom theme line
  rw [h, tags] at htags
  split at htags
  · cases htags
  · obtain ⟨-, hlater⟩ := List.cons.inj htags
    rw [hlater]
    exact fun _ hother => List.eq_of_mem_replicate hother

theorem read_ofLine {rawLine : List Char} (h : Tidy (ofLine attributes rawLine)) :
    read blocks (ofLine attributes rawLine) = blocks.after attributes rawLine := by
  rw [after_eq]
  cases hw : ofLine attributes rawLine with
  | nil => rfl
  | cons brace later =>
      rw [hw] at h
      cases brace with
      | opening tag => exact h.read_eq (tags_later hw)
      | closing =>
          -- A line that starts with a closing brace closes a block from before.
          obtain hclosed | ⟨hopen, -⟩ := h
          · exact read_of_closed hclosed
          · exact absurd ⟨[], later, rfl, .nil⟩ hopen

end Brace

/-! ## The themes of a text -/

theorem ofLinesFrom_getElem? (braces : List Char → List Brace) {lines : List (List Char)} {n : Nat}
    (h : ∀ line ∈ lines.take n, ∀ blocks : Blocks,
      blocks.after attributes line = Brace.read blocks (braces line)) :
    (ofLinesFrom attributes blocks lines)[n]? =
      if n < lines.length then
        some (Brace.read blocks ((lines.take n).flatMap braces)).theme
      else none := by
  induction lines generalizing blocks n with
  | nil => rfl
  | cons line lines ih =>
      cases n with
      | zero => rfl
      | succ n =>
          obtain ⟨hline, hlines⟩ := List.forall_mem_cons.mp h
          rw [ofLinesFrom, List.getElem?_cons_succ, ih hlines, hline, ← Brace.read_append]
          simp

theorem ofLines_eq_some_iff (braces : List Char → List Brace) {text : List Char} {n : Nat}
    (h : ∀ line ∈ (splitLines text).take n, ∀ blocks : Blocks,
      blocks.after attributes line = Brace.read blocks (braces line)) {theme : Theme} :
    (ofLines attributes text)[n]? = some theme ↔
      n ≤ text.count '\n' ∧
        Brace.InForce (((splitLines text).take n).flatMap braces) theme := by
  have hforce := Brace.inForce_read (((splitLines text).take n).flatMap braces)
  rw [ofLines, ofLinesFrom_getElem? braces h, length_splitLines]
  constructor
  · intro htheme
    split at htheme
    · cases htheme
      exact ⟨by omega, hforce⟩
    · cases htheme
  · rintro ⟨hn, htheme⟩
    rw [if_pos (by omega), hforce.unique htheme]

/-- The theme of a line is the one in force where it begins, with the braces of every line before
it grouped. -/
theorem ofLines_grouped (attributes : List (List Char)) (text : List Char) (n : Nat)
    (theme : Theme) :
    (ofLines attributes text)[n]? = some theme ↔
      n ≤ text.count '\n' ∧
        Brace.InForce (((splitLines text).take n).flatMap
          fun line => Brace.grouped (Brace.ofLine attributes line)) theme :=
  ofLines_eq_some_iff _ fun line _ _ => Brace.after_eq_read_grouped line

/-- Where the lines before a line are tidy, its theme is that of the innermost block open where it
begins, by the braces as they are written, that sets one. -/
theorem ofLines_tidy (attributes : List (List Char)) (text : List Char) (n : Nat) (theme : Theme)
    (h : ∀ line ∈ (splitLines text).take n, Brace.Tidy (Brace.ofLine attributes line)) :
    (ofLines attributes text)[n]? = some theme ↔
      n ≤ text.count '\n' ∧
        Brace.InForce (((splitLines text).take n).flatMap (Brace.ofLine attributes)) theme :=
  ofLines_eq_some_iff _ fun line hline _ => (Brace.read_ofLine (h line hline)).symm

/-- A dark block with a rule in it. -/
def nested : List Char := "@media (prefers-color-scheme: dark) \x7b\na \x7b\nx".toList

theorem ofLines_tidy_nested :
    (∀ line ∈ (splitLines nested).take 2, Brace.Tidy (Brace.ofLine [] line)) ∧
      Brace.InForce (((splitLines nested).take 2).flatMap (Brace.ofLine [])) .dark := by
  have hopening : ∀ line ∈ (splitLines nested).take 2, Brace.closing ∉ Brace.ofLine [] line := by
    decide +kernel
  have htidy : ∀ line ∈ (splitLines nested).take 2, Brace.Tidy (Brace.ofLine [] line) :=
    fun line hline => Brace.tidy_of_not_mem (hopening line hline)
  exact ⟨htidy, ((ofLines_tidy [] nested 2 .dark htidy).mp (by decide +kernel)).2⟩

/-- A line that closes a rule and opens a dark block. -/
def reopened : List Char := "a \x7b\n\x7d @media (prefers-color-scheme: dark) \x7b\nx".toList

theorem ofLines_reopened :
    (ofLines [] reopened)[2]? = some .base ∧
      Brace.InForce (((splitLines reopened).take 2).flatMap (Brace.ofLine [])) .dark := by
  have hbraces : ((splitLines reopened).take 2).flatMap (Brace.ofLine []) =
      [.opening none, .closing, .opening (some .dark)] := by decide +kernel
  refine ⟨by decide +kernel, ?_⟩
  rw [hbraces]
  exact .inl ⟨[.opening none, .closing], [], rfl, Brace.not_closes_of_not_mem List.not_mem_nil,
    Brace.Balanced.nil.unthemed⟩

end ColorCensus.Theme
