import ColorCensus.Context.Extractor
import ColorCensus.Proofs.Cuts
import ColorCensus.Proofs.Lines
import ColorCensus.Proofs.Pieces

/-!
# What stands in front of the floor

A search in a style block is given a floor, the start of the block, and what stands in front of it
should make no difference. Two files that are the same from the floor on, and have their lines in
front of it as well, are compared (`SameFrom`).

The search for a scope keeps to the floor, but it reads a text whose comments were blanked out from
the start of the file: a comment that opens in front of the floor may close behind it. So the scope
is the same where the floor cuts no comment (`CommentsCut`). The property knows nothing of the
floor. It is read from the last brace or semicolon on the line, and is the same where there is one
behind the floor or the line starts there (`DeclaredFrom`).

Neither condition can be left out: in front of a block that starts within a line, or in a comment
that is left open, a character makes the difference (`floor_is_crossed`).
-/

namespace ColorCensus

open Text

theorem drop_congr {xs ys : List Char} {m n : Nat} (h : xs.drop m = ys.drop m) (hn : m ≤ n) :
    xs.drop n = ys.drop n := by
  obtain ⟨k, rfl⟩ := Nat.exists_eq_add_of_le hn
  rw [← List.drop_drop, h, List.drop_drop]

namespace Context

theorem beforeOffset_eq {text : List Char} {offset start : Nat}
    (h : (LineIndex.ofText text).starts[(LineIndex.ofText text).lineOf offset]? = some start) :
    beforeOffset (.ofText text) offset =
      (dropTerminator (slice text (start, (LineIndex.ofText text).lineStop offset))).take
        (offset - start) := by
  rw [beforeOffset, LineIndex.columnOf_eq h, LineIndex.lineText, h]
  rfl

/-! ## The declaration at an offset -/

namespace Stylesheet

/-- What the search for a property comes to a stop at. -/
def opensDeclaration (c : Char) : Bool := c == '{' || c == ';'

theorem afterLast_append_stop {p : Char → Bool} {c : Char} (h : p c = true) (xs ys : List Char) :
    afterLast p (xs ++ c :: ys) = afterLast p ys := by
  have hstop : (!p c) = false := by rw [h, Bool.not_true]
  rw [afterLast, List.reverse_append, List.reverse_cons, List.append_assoc, List.singleton_append,
    takeWhile_append_stop hstop, afterLast]

theorem afterLast_append {p : Char → Bool} {ys : List Char} (h : ∀ c ∈ ys, p c = false)
    (xs : List Char) : afterLast p (xs ++ ys) = afterLast p xs ++ ys := by
  have hys : ∀ c ∈ ys.reverse, (!p c) = true := by
    intro c hc
    rw [h c (List.mem_reverse.mp hc), Bool.not_false]
  rw [afterLast, List.reverse_append, List.takeWhile_append_of_pos hys, List.reverse_append,
    List.reverse_reverse, afterLast]

theorem afterLast_beforeOffset {text : List Char} {offset start i : Nat} {c : Char}
    (h : (LineIndex.ofText text).starts[(LineIndex.ofText text).lineOf offset]? = some start)
    (hstart : start ≤ i) (hi : i < offset) (hc : text[i]? = some c)
    (hopens : opensDeclaration c = true) :
    afterLast opensDeclaration (beforeOffset (.ofText text) offset) =
      afterLast opensDeclaration
        ((dropTerminator (slice text (i + 1, (LineIndex.ofText text).lineStop offset))).take
          (offset - (i + 1))) := by
  have hlength : i < text.length := (List.getElem?_eq_some_iff.mp hc).1
  have hfront : (slice text (start, i)).length = i - start := length_slice (Nat.le_of_lt hlength)
  have hkept : (c == '\r' || c == '\n') = false := by
    rcases Bool.or_eq_true_iff.mp hopens with hc | hc
    · rw [eq_of_beq hc]
      rfl
    · rw [eq_of_beq hc]
      rfl
  have hcolumn : offset - start = (slice text (start, i)).length + (offset - (i + 1) + 1) := by
    omega
  rw [beforeOffset_eq h, slice_split hstart (LineIndex.lt_lineStop hlength hi) hc, dropTerminator,
    dropEndWhile_append_stop hkept, hcolumn, List.take_length_add_append, List.take_succ_cons,
    afterLast_append_stop hopens, dropTerminator]

end Stylesheet

end Context

/-! ## Files that are the same from the floor on -/

variable {floor offset : Nat} {s t : Source}

/-- Two files of one path with the same lines and, from the floor on, the same text. -/
structure Source.SameFrom (floor : Nat) (s t : Source) : Prop where
  path : s.path = t.path
  newlines : (s.text.getD []).map (· == '\n') = (t.text.getD []).map (· == '\n')
  rest : (s.text.getD []).drop floor = (t.text.getD []).drop floor

namespace Source.SameFrom

theorem slice (h : SameFrom floor s t) {n : Nat} (hn : floor ≤ n) (stop : Nat) :
    Text.slice (s.text.getD []) (n, stop) = Text.slice (t.text.getD []) (n, stop) := by
  rw [Text.slice, Text.slice, drop_congr h.rest hn]

theorem starts (h : SameFrom floor s t) : s.index.starts = t.index.starts := by
  rw [s.index_eq, t.index_eq, LineIndex.starts_congr h.newlines]

theorem suffix (h : SameFrom floor s t) : s.suffix = t.suffix := by
  rw [Source.suffix, Source.suffix, h.path]

end Source.SameFrom

namespace Context

/-! ## What the floor cuts -/

/-- No comment of a file runs across the floor, and whether one starts at it does not hang on the
character before. -/
structure CommentsCut (floor : Nat) (s : Source) : Prop where
  block : CleanCut (blockComment false) (s.text.getD []) floor
  line : s.suffix ≠ ".css".toList →
    CleanCut lineComment (overTokens (blockComment false) blank (s.text.getD [])) floor

/-- The declaration at an offset starts behind the floor: the line of the offset does, or a brace
or a semicolon comes in between. -/
def DeclaredFrom (floor offset : Nat) (s : Source) : Prop :=
  floor ≤ s.index.lineStart (s.index.lineOf offset) (s.index.lineOf_lt offset) ∨
    ∃ c ∈ slice (s.text.getD []) (floor, offset), Stylesheet.opensDeclaration c = true

/-- From the floor on, the comments are those that the text from there on has by itself. -/
theorem CommentsCut.drop_maskedText (h : CommentsCut floor s) :
    (maskedText s).drop floor =
      maskComments (s.suffix != ".css".toList) ((s.text.getD []).drop floor) := by
  have hblank : ∀ c, (blank c).length = 1 := fun _ => rfl
  rw [maskedText, maskComments, maskComments]
  cases hsuffix : s.suffix != ".css".toList with
  | false => exact h.block.drop_overTokens hblank
  | true =>
      have hline := h.line (bne_iff_ne.mp hsuffix)
      rw [if_pos rfl, if_pos rfl, hline.drop_overTokens hblank, h.block.drop_overTokens hblank]

namespace Stylesheet

theorem hasWindow_sameFrom (h : s.SameFrom floor t) (window : Int) (offset : Nat) :
    hasWindow s.index window offset = hasWindow t.index window offset := by
  rw [hasWindow, hasWindow, windowLine, windowLine, LineIndex.lineOf_congr h.starts,
    LineIndex.lineCount, LineIndex.lineCount, h.starts]

theorem scopeAt?_sameFrom (h : s.SameFrom floor t) (hs : CommentsCut floor s)
    (ht : CommentsCut floor t) (window : Int) (offset : Nat) :
    scopeAt? s.index (maskedText s) window floor offset =
      scopeAt? t.index (maskedText t) window floor offset := by
  have hfloor : (maskedText s).drop floor = (maskedText t).drop floor := by
    rw [hs.drop_maskedText, ht.drop_maskedText, h.suffix, h.rest]
  rw [scopeAt?, scopeAt?, windowLine, windowLine, LineIndex.lineOf_congr h.starts, h.starts]
  refine Option.bind_congr fun start _ => ?_
  rw [List.drop_take, List.drop_take, drop_congr hfloor (Nat.le_max_left _ _)]

theorem propertyAt_sameFrom (h : s.SameFrom floor t) (hs : DeclaredFrom floor offset s) :
    propertyAt s.index offset = propertyAt t.index offset := by
  have hstart : s.index.starts[s.index.lineOf offset]? =
      some (s.index.lineStart _ (s.index.lineOf_lt offset)) := Array.getElem?_eq_getElem _
  unfold DeclaredFrom at hs
  generalize s.index.lineStart _ (s.index.lineOf_lt offset) = start at hs hstart
  have hstart' : t.index.starts[t.index.lineOf offset]? = some start := by
    rw [← h.starts, ← LineIndex.lineOf_congr h.starts, hstart]
  rw [s.index_eq] at hstart ⊢
  rw [t.index_eq] at hstart' ⊢
  have hstop := LineIndex.lineStop_congr h.newlines offset
  suffices hafter : afterLast opensDeclaration (beforeOffset (.ofText (s.text.getD [])) offset) =
      afterLast opensDeclaration (beforeOffset (.ofText (t.text.getD [])) offset) from
    congrArg takeProperty? hafter
  by_cases hline : floor ≤ start
  · rw [beforeOffset_eq hstart, beforeOffset_eq hstart', hstop, h.slice hline]
  · obtain ⟨c, hc, hopens⟩ := hs.resolve_left hline
    obtain ⟨i, hfloor, hi, hc⟩ := exists_place_of_mem_slice hc
    have hc' : (t.text.getD [])[i]? = some c := by
      rw [← hc, ← Nat.add_sub_cancel' hfloor, ← List.getElem?_drop, ← List.getElem?_drop, h.rest]
    have hbehind : start ≤ i := Nat.le_trans (Nat.le_of_not_le hline) hfloor
    rw [afterLast_beforeOffset hstart hbehind hi hc hopens,
      afterLast_beforeOffset hstart' hbehind hi hc' hopens, hstop,
      h.slice (Nat.le_succ_of_le hfloor)]

end Stylesheet

/-! ## The hint -/

/-- What stands in front of the floor makes no difference to whether there is a window, nor to the
scope if the floor cuts no comment of either file, nor to the property if the declaration starts
behind the floor. So it is with the hint in a style block, whose start is the floor. -/
theorem hintAt_sameFrom (h : s.SameFrom floor t) (window : Int) (offset : Nat) :
    Stylesheet.hasWindow s.index window offset = Stylesheet.hasWindow t.index window offset ∧
      (CommentsCut floor s → CommentsCut floor t →
        Stylesheet.scopeAt? s.index (maskedText s) window floor offset =
          Stylesheet.scopeAt? t.index (maskedText t) window floor offset) ∧
      (DeclaredFrom floor offset s →
        Stylesheet.propertyAt s.index offset = Stylesheet.propertyAt t.index offset) ∧
      ∀ settings : Settings,
        strategyAt s offset = (.stylesheet, floor) → strategyAt t offset = (.stylesheet, floor) →
          CommentsCut floor s → CommentsCut floor t → DeclaredFrom floor offset s →
            hintAt settings s offset = hintAt settings t offset := by
  refine ⟨Stylesheet.hasWindow_sameFrom h window offset,
    fun hs ht => Stylesheet.scopeAt?_sameFrom h hs ht window offset,
    Stylesheet.propertyAt_sameFrom h, fun settings hstrategy hstrategy' hs ht hdeclared => ?_⟩
  rw [hintAt, hintAt, hstrategy, hstrategy']
  dsimp only
  rw [Stylesheet.hintAt, Stylesheet.hintAt, Stylesheet.scopeAt?_sameFrom h hs ht,
    Stylesheet.propertyAt_sameFrom h hdeclared]

/-- A page of some markup and a style block. -/
def styled (markup style : String) : Source where
  path := .ofString "a.vue"
  label := "a.vue"
  text := some (markup.toList ++ "<style>".toList ++ style.toList ++ "</style>".toList)

def rule : String := ".a\x7bcolor:#fff\x7d"

/-- A brace or a semicolon of the markup is none of the block. -/
theorem hintAt_sameFrom_brace :
    hintAt {} (styled "<p>\x7b</p>" rule) 24 = hintAt {} (styled "<p>;</p>" rule) 24 ∧
      hintAt {} (styled "<p>;</p>" rule) 24 = ⟨some ".a".toList, some "color".toList⟩ := by
  have hsame : (styled "<p>\x7b</p>" rule).SameFrom 15 (styled "<p>;</p>" rule) :=
    ⟨rfl, by decide, by decide⟩
  have hcut : CommentsCut 15 (styled "<p>\x7b</p>" rule) :=
    ⟨⟨by decide +kernel, rfl⟩, fun _ => ⟨by decide +kernel, by decide +kernel⟩⟩
  have hcut' : CommentsCut 15 (styled "<p>;</p>" rule) :=
    ⟨⟨by decide +kernel, rfl⟩, fun _ => ⟨by decide +kernel, by decide +kernel⟩⟩
  obtain ⟨-, -, -, hhint⟩ := hintAt_sameFrom hsame 40 24
  constructor
  · exact hhint {} (by decide +kernel) (by decide +kernel) hcut hcut'
      (.inr ⟨'\x7b', by decide +kernel, rfl⟩)
  · decide +kernel

def commentedRule : String := ".a\x7b/* */fill:red;color:#fff\x7d"

/-- In two ways what is in front of a block shows in it. A word on the line of its start is taken
for a property, and a comment that seems to open in the markup hides a selector. -/
theorem floor_is_crossed :
    ((styled "   " "#fff").SameFrom 10 (styled "a: " "#fff") ∧
        (∀ markup ∈ ["   ", "a: "], strategyAt (styled markup "#fff") 10 = (.stylesheet, 10)) ∧
        hintAt {} (styled "   " "#fff") 10 = ⟨none, none⟩ ∧
        hintAt {} (styled "a: " "#fff") 10 = ⟨none, some "a".toList⟩) ∧
      (styled "<p>**</p>" commentedRule).SameFrom 16 (styled "<p>/*</p>" commentedRule) ∧
        (∀ markup ∈ ["<p>**</p>", "<p>/*</p>"],
          strategyAt (styled markup commentedRule) 39 = (.stylesheet, 16)) ∧
        hintAt {} (styled "<p>**</p>" commentedRule) 39 =
          ⟨some ".a".toList, some "color".toList⟩ ∧
        hintAt {} (styled "<p>/*</p>" commentedRule) 39 = ⟨none, some "color".toList⟩ := by
  refine ⟨⟨⟨rfl, by decide, by decide⟩, ?_⟩, ⟨rfl, by decide, by decide⟩, ?_⟩
  · decide +kernel
  · decide +kernel

end Context

end ColorCensus
