import ColorCensus.Context.Extractor
import ColorCensus.Proofs.Lines
import ColorCensus.Proofs.Pieces
import Mathlib.Data.List.Induction

/-!
# The scope is the innermost open block with a selector

The search for a scope reads backwards and keeps a single number. Read forwards, the same stretch
of text calls for a stack: an opening brace puts a block on it, a closing brace takes the innermost
one off, and a closing brace that finds no block is passed over.

The number stands for the top of the stack. Closing braces that were read backwards will close
that many of the blocks that the text before them leaves open, so at depth `n` the search answers
for the stack without its `n` innermost blocks (`enclosing?_reverse`). What a rule of the kind `@…`
opens is on the stack like any other block and is passed over only in the end.
-/

namespace ColorCensus.Context.Stylesheet

open Text

/-! ## One step of the search -/

/-- What a selector comes after. -/
def endsSelector (c : Char) : Bool := c == '{' || c == '}' || c == ';'

theorem selectorBefore_reverse (cs : List Char) :
    selectorBefore cs.reverse = trim (collapse (afterLast endsSelector cs)) := rfl

theorem enclosing?_pass {c : Char} (hopen : c ≠ '{') (hclose : c ≠ '}') (depth : Nat)
    (rest : List Char) : enclosing? depth (c :: rest) = enclosing? depth rest := by
  rw [enclosing?.eq_def]
  dsimp only
  rw [if_neg (by simpa using hclose), if_neg (by simpa using hopen)]

theorem enclosing?_closing (depth : Nat) (rest : List Char) :
    enclosing? depth ('}' :: rest) = enclosing? (depth + 1) rest := by
  rw [enclosing?.eq_def]
  rfl

/-! ## The blocks that are open -/

/-- The selector of a block, told the text in front of its brace. -/
def selectorOf (front : List Char) : List Char := trim (collapse (afterLast endsSelector front))

/-- A selector that can be a scope: there is one, and it is no rule that starts with `@`. -/
def isScope (selector : List Char) : Bool := !selector.isEmpty && selector.head? != some '@'

/-- The blocks open at the end of a text that comes behind `seen`, where `blocks` were open. A
block is known by the text in front of its brace, and the innermost one comes first. -/
def openBlocksFrom (seen : List Char) (blocks : List (List Char)) : List Char → List (List Char)
  | [] => blocks
  | c :: rest =>
      if c == '{' then openBlocksFrom (seen ++ [c]) (seen :: blocks) rest
      else if c == '}' then openBlocksFrom (seen ++ [c]) (blocks.drop 1) rest
      else openBlocksFrom (seen ++ [c]) blocks rest

/-- The blocks that a text opens and does not close, the innermost first. -/
def openBlocks (text : List Char) : List (List Char) := openBlocksFrom [] [] text

/-- The selector of the innermost open block that can be a scope. -/
def innermost? (blocks : List (List Char)) : Option (List Char) :=
  (blocks.map selectorOf).find? isScope

theorem openBlocksFrom_append (seen : List Char) (blocks : List (List Char))
    (xs ys : List Char) :
    openBlocksFrom seen blocks (xs ++ ys) =
      openBlocksFrom (seen ++ xs) (openBlocksFrom seen blocks xs) ys := by
  induction xs generalizing seen blocks with
  | nil => rw [List.nil_append, List.append_nil, openBlocksFrom]
  | cons c xs ih =>
      simp only [List.cons_append, openBlocksFrom, List.append_cons seen c xs]
      split
      · exact ih _ _
      · split
        · exact ih _ _
        · exact ih _ _

theorem openBlocks_opening (text : List Char) :
    openBlocks (text ++ ['{']) = text :: openBlocks text := openBlocksFrom_append [] [] text ['{']

theorem openBlocks_closing (text : List Char) :
    openBlocks (text ++ ['}']) = (openBlocks text).drop 1 := openBlocksFrom_append [] [] text ['}']

theorem openBlocks_pass {c : Char} (hopen : c ≠ '{') (hclose : c ≠ '}') (text : List Char) :
    openBlocks (text ++ [c]) = openBlocks text := by
  rw [openBlocks, openBlocksFrom_append, openBlocksFrom, if_neg (by simpa using hopen),
    if_neg (by simpa using hclose)]
  rfl

theorem innermost?_cons (front : List Char) (blocks : List (List Char)) :
    innermost? (front :: blocks) =
      if isScope (selectorOf front) then some (selectorOf front) else innermost? blocks := by
  rw [innermost?, List.map_cons, List.find?_cons]
  split
  · next h => rw [if_pos h]
  · next h => rw [if_neg (by simp [h]), innermost?]

/-- At an opening brace that no closing brace is left for, the search answers with the selector of
the block or goes on. -/
theorem enclosing?_opening (front : List Char) :
    enclosing? 0 ('{' :: front.reverse) =
      if isScope (selectorOf front) then some (selectorOf front)
      else enclosing? 0 front.reverse := by
  have hpassed : ((selectorOf front).isEmpty || (selectorOf front).head? == some '@') =
      !isScope (selectorOf front) := by
    rw [isScope, Bool.not_and, Bool.not_not, bne, Bool.not_not]
  have hstep : enclosing? 0 ('{' :: front.reverse) =
      if (selectorOf front).isEmpty || (selectorOf front).head? == some '@' then
        enclosing? 0 front.reverse
      else some (selectorOf front) := by
    rw [enclosing?.eq_def]
    rfl
  rw [hstep, hpassed]
  cases isScope (selectorOf front) with
  | true => rfl
  | false => rfl

/-- The search runs backwards, and so the induction does: at depth `n` the `n` innermost blocks
are closed by what was read before. -/
theorem enclosing?_reverse (depth : Nat) (text : List Char) :
    enclosing? depth text.reverse = innermost? ((openBlocks text).drop depth) := by
  induction text using List.reverseRecOn generalizing depth with
  | nil =>
      rw [openBlocks, openBlocksFrom, List.drop_nil]
      rfl
  | append_singleton text c ih =>
      rw [List.reverse_concat]
      by_cases hopen : c = '{'
      · subst hopen
        rw [openBlocks_opening]
        cases depth with
        | zero => rw [enclosing?_opening, ih, List.drop_zero, List.drop_zero, innermost?_cons]
        | succ depth => exact ih depth
      · by_cases hclose : c = '}'
        · subst hclose
          rw [openBlocks_closing, enclosing?_closing, ih, List.drop_drop, Nat.add_comm]
        · rw [openBlocks_pass hopen hclose, enclosing?_pass hopen hclose, ih]

/-! ## The scope of an offset -/

/-- Where the line starts that is so many lines above the line of an offset; the first line if
there are not so many. -/
def windowStart (ix : LineIndex) (window offset : Nat) : Nat :=
  ix.lineStart (ix.lineOf offset - window)
    (Nat.lt_of_le_of_lt (Nat.sub_le _ _) (ix.lineOf_lt offset))

theorem windowLine_ofNat (ix : LineIndex) (window offset : Nat) :
    windowLine ix window offset = ix.lineOf offset - window := by
  rw [windowLine]
  omega

/-- The blocks of the window are read off in the order of the text. -/
theorem scopeAt?_eq (ix : LineIndex) (masked : List Char) (window floor offset : Nat) :
    scopeAt? ix masked window floor offset =
      innermost? (openBlocks (slice masked (max floor (windowStart ix window offset), offset))) := by
  have hline : ix.lineOf offset - window < ix.starts.size :=
    Nat.lt_of_le_of_lt (Nat.sub_le _ _) (ix.lineOf_lt offset)
  have hstart : ix.starts[ix.lineOf offset - window]? = some (windowStart ix window offset) :=
    Array.getElem?_eq_getElem hline
  rw [scopeAt?, windowLine_ofNat, hstart, slice]
  dsimp only [Option.bind_eq_bind, Option.bind_some]
  rw [List.drop_take, enclosing?_reverse, List.drop_zero]

/-- The window above an offset starts on a line. In the text without comments, from there on or
from the floor if that is later, the blocks are read off in the order of the text: the scope is
the selector of the innermost block open at the offset that has one and is no rule of the kind
`@…`. -/
theorem scopeAt?_innermost (source : Source) (window floor offset : Nat) :
    hasWindow source.index window offset = true ∧
      scopeAt? source.index (maskedText source) window floor offset =
        innermost? (openBlocks (slice (maskedText source)
          (max floor (windowStart source.index window offset), offset))) := by
  constructor
  · rw [hasWindow, windowLine_ofNat]
    exact decide_eq_true (Nat.lt_of_le_of_lt (Nat.sub_le _ _) (source.index.lineOf_lt offset))
  · exact scopeAt?_eq source.index (maskedText source) window floor offset

/-- A block without a selector and a rule are open inside `.b`, and `.c` is closed. -/
example : innermost? (openBlocks "\x7d .a, .b \x7b.c\x7b\x7d @media x\x7b;\x7bcolor:".toList) =
    some ".a, .b".toList := by decide

end ColorCensus.Context.Stylesheet
