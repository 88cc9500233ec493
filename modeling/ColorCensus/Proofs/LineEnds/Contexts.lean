import ColorCensus.Proofs.LineEnds.Masks
import ColorCensus.Proofs.Scopes
import ColorCensus.Proofs.Variables

/-!
# Contexts and line ends

Most of a context is read off lines, and lines do not show how they end. Two
things are read off the text itself: where the style blocks of a file are, and
the selector of the block that a color stands in. The spans of style blocks move
with the text (`styleBlocks_crlf`). The search for a selector passes over blanks,
and a selector is told with every run of blanks as one space, so another blank
before a newline does not show either (`scopeAt?_crlf`).

Together: at the shifted offset of a file with other line ends the context is
the one that it was (`hintAt_crlf`).
-/

namespace ColorCensus

open Text

/-- The file with a carriage return before every newline of its text. -/
def Source.crlf (s : Source) : Source where
  path := s.path
  label := s.label
  text := s.text.map Text.crlf

theorem Source.crlf_text (s : Source) : s.crlf.text.getD [] = Text.crlf (s.text.getD []) := by
  change (s.text.map Text.crlf).getD [] = _
  cases s.text with
  | none => rfl
  | some _ => rfl

theorem Source.crlf_index (s : Source) :
    s.crlf.index = .ofText (Text.crlf (s.text.getD [])) := by
  rw [Source.index_eq, Source.crlf_text]

namespace Context

/-! ## Selectors -/

theorem isBlank_soften (c : Char) : isBlank (soften c) = isBlank c := by
  by_cases hc : c = '\r'
  · subst hc
    rfl
  · rw [soften_of_ne hc]

theorem collapseAfter_soften (inRun : Bool) (cs : List Char) :
    collapseAfter inRun (cs.map soften) = collapseAfter inRun cs := by
  induction cs generalizing inRun with
  | nil => rfl
  | cons c cs ih =>
      rw [List.map_cons, collapseAfter, collapseAfter, isBlank_soften, ih, ih]
      split
      · rfl
      · next hblank =>
          have hc : c ≠ '\r' := fun hc => hblank (by rw [hc]; rfl)
          rw [soften_of_ne hc]

theorem collapseAfter_crlf (inRun : Bool) (cs : List Char) :
    collapseAfter inRun (crlf cs) = collapseAfter inRun cs := by
  induction cs generalizing inRun with
  | nil => rfl
  | cons c cs ih =>
      by_cases hc : c = '\n'
      · subst hc
        have hreturn : isBlank '\r' = true := rfl
        have hnewline : isBlank '\n' = true := rfl
        rw [crlf_newline]
        cases inRun with
        | true => simp [collapseAfter, hreturn, hnewline, ih]
        | false => simp [collapseAfter, hreturn, hnewline, ih]
      · rw [crlf_cons hc, collapseAfter, collapseAfter, ih, ih]

namespace Stylesheet

theorem afterLast_concat (p : Char → Bool) (cs : List Char) (c : Char) :
    afterLast p (cs ++ [c]) = if p c then [] else afterLast p cs ++ [c] := by
  rw [afterLast, List.reverse_concat, List.takeWhile_cons]
  cases p c with
  | true => rfl
  | false => exact List.reverse_cons

theorem afterLast_crlf {p : Char → Bool} (hr : p '\r' = false) (hn : p '\n' = false)
    (cs : List Char) : afterLast p (crlf cs) = crlf (afterLast p cs) := by
  induction cs using List.reverseRecOn with
  | nil => rfl
  | append_singleton cs c ih =>
      rw [crlf_append]
      by_cases hc : c = '\n'
      · subst hc
        have hends : afterLast p (crlf cs ++ ['\r'] ++ ['\n']) =
            afterLast p (crlf cs) ++ ['\r'] ++ ['\n'] := by
          rw [afterLast_concat, hn, if_neg Bool.false_ne_true, afterLast_concat, hr,
            if_neg Bool.false_ne_true]
        rw [List.append_assoc, List.append_assoc] at hends
        rw [afterLast_concat, hn, if_neg Bool.false_ne_true, crlf_append, ← ih]
        exact hends
      · rw [crlf_cons hc, crlf_nil, afterLast_concat, afterLast_concat, ih]
        split
        · rfl
        · rw [crlf_append, crlf_cons hc, crlf_nil]

theorem selectorBefore_crlf (cs : List Char) :
    selectorBefore (crlf cs).reverse = selectorBefore cs.reverse := by
  rw [selectorBefore_reverse, selectorBefore_reverse, afterLast_crlf rfl rfl, collapse,
    collapseAfter_crlf, collapse]

theorem selectorBefore_soften (reversed : List Char) :
    selectorBefore (reversed.map soften) = selectorBefore reversed := by
  have hsame : ((!endsSelector ·) ∘ soften) = (!endsSelector ·) := by
    funext c
    simp only [Function.comp_apply, endsSelector, soften_beq (by decide : '{' ≠ '\r') (by decide),
      soften_beq (by decide : '}' ≠ '\r') (by decide),
      soften_beq (by decide : ';' ≠ '\r') (by decide)]
  change trim (collapse ((reversed.map soften).takeWhile (!endsSelector ·)).reverse) =
    trim (collapse (reversed.takeWhile (!endsSelector ·)).reverse)
  rw [List.takeWhile_map, hsame, ← List.map_reverse, collapse, collapseAfter_soften, collapse]

/-! ## Scopes -/

theorem enclosing?_soften (depth : Nat) (reversed : List Char) :
    enclosing? depth (reversed.map soften) = enclosing? depth reversed := by
  induction reversed generalizing depth with
  | nil => rfl
  | cons c rest ih =>
      simp only [List.map_cons, enclosing?, soften_beq (by decide : '{' ≠ '\r') (by decide),
        soften_beq (by decide : '}' ≠ '\r') (by decide), selectorBefore_soften, ih]

/-- The search runs backwards, and so the induction does. -/
theorem enclosing?_crlf (depth : Nat) (cs : List Char) :
    enclosing? depth (crlf cs).reverse = enclosing? depth cs.reverse := by
  induction cs using List.reverseRecOn generalizing depth with
  | nil => rfl
  | append_singleton cs c ih =>
      rw [crlf_append, List.reverse_append, List.reverse_concat]
      by_cases hc : c = '\n'
      · subst hc
        change enclosing? depth ('\n' :: '\r' :: (crlf cs).reverse) = _
        rw [enclosing?_pass (by decide) (by decide), enclosing?_pass (by decide) (by decide),
          enclosing?_pass (by decide) (by decide), ih]
      · rw [crlf_cons hc]
        change enclosing? depth (c :: (crlf cs).reverse) = _
        simp only [enclosing?, selectorBefore_crlf, ih]

variable (text : List Char) (window : Int) (floor offset : Nat)

theorem beforeOffset_crlf :
    beforeOffset (.ofText (crlf text)) (shifted text offset) =
      beforeOffset (.ofText text) offset := by
  rw [beforeOffset, beforeOffset, LineIndex.lineOf_crlf, LineIndex.lineText_crlf,
    LineIndex.columnOf_crlf]

theorem windowLine_crlf :
    windowLine (.ofText (crlf text)) window (shifted text offset) =
      windowLine (.ofText text) window offset := by
  rw [windowLine, windowLine, LineIndex.lineOf_crlf]

theorem hasWindow_crlf :
    hasWindow (.ofText (crlf text)) window (shifted text offset) =
      hasWindow (.ofText text) window offset := by
  rw [hasWindow, hasWindow, windowLine_crlf, LineIndex.lineCount_crlf]

theorem take_drop_crlf (cs : List Char) (a b : Nat) :
    ((crlf cs).take (shifted cs b)).drop (shifted cs a) = crlf ((cs.take b).drop a) := by
  rw [List.drop_take, drop_crlf, shifted_sub, take_crlf, ← List.drop_take]

theorem scopeAt?_crlf {masked masked' : List Char}
    (hmasked : masked'.map soften = (crlf masked).map soften)
    (hshifted : ∀ n, shifted masked n = shifted text n) :
    scopeAt? (.ofText (crlf text)) masked' window (shifted text floor) (shifted text offset) =
      scopeAt? (.ofText text) masked window floor offset := by
  have hsoft : ∀ cs cs' : List Char, cs.map soften = cs'.map soften →
      enclosing? 0 cs.reverse = enclosing? 0 cs'.reverse := by
    intro cs cs' h
    rw [← enclosing?_soften, List.map_reverse, h, ← List.map_reverse, enclosing?_soften]
  have hpiece : ∀ start, enclosing? 0
        ((masked'.take (shifted text offset)).drop
          (max (shifted text floor) (shifted text start))).reverse =
      enclosing? 0 ((masked.take offset).drop (max floor start)).reverse := by
    intro start
    rw [← enclosing?_crlf 0 ((masked.take offset).drop _), ← take_drop_crlf, hshifted, hshifted,
      shifted_max]
    refine hsoft _ _ ?_
    rw [List.map_drop, List.map_take, hmasked, ← List.map_take, ← List.map_drop]
  rw [scopeAt?, scopeAt?, windowLine_crlf, LineIndex.starts_crlf]
  cases (LineIndex.ofText text).starts[windowLine (.ofText text) window offset]? with
  | none => rfl
  | some start => exact hpiece start

theorem propertyAt_crlf :
    propertyAt (.ofText (crlf text)) (shifted text offset) = propertyAt (.ofText text) offset := by
  rw [propertyAt, propertyAt, beforeOffset_crlf]

theorem hintAt_crlf (lineComments : Bool) :
    hintAt (.ofText (crlf text)) (maskComments lineComments (crlf text)) window
        (shifted text floor) (shifted text offset) =
      hintAt (.ofText text) (maskComments lineComments text) window floor offset := by
  rw [hintAt, hintAt, propertyAt_crlf, scopeAt?_crlf text window floor offset
    (maskComments_crlf lineComments text) (shifted_maskComments lineComments text)]

end Stylesheet

/-! ## Markup -/

namespace Markup

variable (text : List Char) (window componentWindow : Int) (offset : Nat)

theorem linesAbove_crlf :
    linesAbove (.ofText (crlf text)) window (shifted text offset) =
      linesAbove (.ofText text) window offset := by
  simp only [linesAbove, Stylesheet.beforeOffset_crlf, LineIndex.lineOf_crlf,
    LineIndex.lineText_crlf]

theorem hintAt_crlf :
    hintAt (.ofText (crlf text)) window componentWindow (shifted text offset) =
      hintAt (.ofText text) window componentWindow offset := by
  rw [hintAt, hintAt, scopeAt?, scopeAt?, linesAbove_crlf, linesAbove_crlf, propertyAt,
    propertyAt, Stylesheet.beforeOffset_crlf]

end Markup

/-! ## Style blocks -/

/-- What follows a `</style>` that the text starts with. -/
def afterTag? (cs : List Char) : Option (List Char) :=
  (Color.dropLetters? "</style".toList cs).bind fun cs => dropLiteral? ['>'] (trimLeft cs)

theorem afterTag?_crlf (cs : List Char) : afterTag? (crlf cs) = (afterTag? cs).map crlf := by
  simp only [afterTag?, dropLetters?_crlf (by decide : Plain "</style".toList), trimLeft_crlf,
    dropLiteral?_crlf (by decide : Plain ['>']), Option.bind_map, Option.map_bind,
    Function.comp_def]

theorem toClosingTag?_some {c : Char} {rest after : List Char}
    (h : afterTag? (c :: rest) = some after) :
    toClosingTag? (c :: rest) = some (0, after) := by
  unfold afterTag? at h
  rw [toClosingTag?, h]

theorem toClosingTag?_none {c : Char} {rest : List Char} (h : afterTag? (c :: rest) = none) :
    toClosingTag? (c :: rest) = (toClosingTag? rest).map fun (n, after) => (n + 1, after) := by
  unfold afterTag? at h
  rw [toClosingTag?, h]

theorem toClosingTag?_crlf (cs : List Char) :
    toClosingTag? (crlf cs) =
      (toClosingTag? cs).map fun (n, after) => (shifted cs n, crlf after) := by
  induction cs with
  | nil => rfl
  | cons c cs ih =>
      by_cases hc : c = '\n'
      · subst hc
        rw [crlf_newline, toClosingTag?_none rfl, toClosingTag?_none rfl, toClosingTag?_none rfl,
          ih, Option.map_map, Option.map_map, Option.map_map]
        refine Option.map_congr fun (n, after) _ => ?_
        simp only [Function.comp_apply, shifted_newline]
      · have hhere := afterTag?_crlf (c :: cs)
        rw [crlf_cons hc] at hhere ⊢
        cases htag : afterTag? (c :: cs) with
        | some after =>
            rw [htag] at hhere
            rw [toClosingTag?_some htag, toClosingTag?_some hhere]
            rfl
        | none =>
            rw [htag] at hhere
            rw [toClosingTag?_none htag, toClosingTag?_none hhere, ih, Option.map_map,
              Option.map_map]
            refine Option.map_congr fun (n, after) _ => ?_
            simp only [Function.comp_apply, shifted_cons hc]

theorem toClosingTag?_suffix {cs after : List Char} {n : Nat}
    (h : toClosingTag? cs = some (n, after)) : after <:+ cs := by
  induction cs generalizing n with
  | nil => cases h
  | cons c cs ih =>
      cases htag : afterTag? (c :: cs) with
      | some rest =>
          rw [toClosingTag?_some htag] at h
          cases h
          obtain ⟨left, hleft, htag⟩ := Option.bind_eq_some_iff.mp htag
          obtain ⟨piece, hpiece, -⟩ := Color.dropLetters?_shape hleft
          rw [hpiece]
          refine .trans ?_ (List.suffix_append piece left)
          refine .trans ?_ (List.dropWhile_suffix isBlank)
          change _ <:+ trimLeft left
          rw [dropLiteral?_eq_some_iff.mp htag]
          exact List.suffix_append _ _
      | none =>
          rw [toClosingTag?_none htag] at h
          obtain ⟨⟨m, after'⟩, hrest, h⟩ := Option.map_eq_some_iff.mp h
          cases h
          exact (ih hrest).trans (List.suffix_cons c cs)

theorem content_suffix {cs attributes content : List Char}
    (hopen : Color.dropLetters? "<style".toList cs = some attributes)
    (hclose : dropLiteral? ['>'] (attributes.dropWhile (· != '>')) = some content) :
    ∃ piece, cs = piece ++ content ∧ piece ≠ [] := by
  obtain ⟨name, rfl, hname⟩ := Color.dropLetters?_shape hopen
  have hattributes : attributes.takeWhile (· != '>') ++ '>' :: content = attributes := by
    rw [← List.singleton_append, ← dropLiteral?_eq_some_iff.mp hclose,
      List.takeWhile_append_dropWhile]
  refine ⟨name ++ (attributes.takeWhile (· != '>') ++ ['>']), ?_, ?_⟩
  · rw [List.append_assoc, List.append_assoc, List.singleton_append, hattributes]
  · simp

theorem styleBlock_widens :
    Widens styleBlock fun cs value =>
      (shifted cs value.1, shifted (cs.drop value.1) value.2) where
  crlf before cs := by
    unfold styleBlock
    rw [dropLetters?_crlf (by decide)]
    cases hopen : Color.dropLetters? "<style".toList cs with
    | none => rfl
    | some attributes =>
        have hskip : (crlf attributes).dropWhile (· != '>') =
            crlf (attributes.dropWhile (· != '>')) := dropWhile_crlf attributes rfl
        simp only [Option.map_some, Option.bind_eq_bind, Option.bind_some, endsWord_crlf, hskip,
          dropLiteral?_crlf (by decide : Plain ['>'])]
        split
        · rfl
        · cases hclose : dropLiteral? ['>'] (attributes.dropWhile (· != '>')) with
          | none => rfl
          | some content =>
              obtain ⟨piece, hpiece, -⟩ := content_suffix hopen hclose
              have hlead : cs.drop (consumed cs content) = content := by
                rw [hpiece, consumed_append, List.drop_left]
              simp only [Option.map_some, Option.bind_some, toClosingTag?_crlf,
                consumed_crlf (hpiece ▸ List.suffix_append piece content), Option.bind_map,
                Option.map_bind, Function.comp_def, Option.pure_def, hlead]
  piece before cs value left h := by
    obtain ⟨attributes, hopen, h⟩ := Option.bind_eq_some_iff.mp h
    obtain ⟨-, h⟩ := Option.ite_none_left_eq_some.mp h
    obtain ⟨content, hclose, h⟩ := Option.bind_eq_some_iff.mp h
    obtain ⟨⟨inside, after⟩, hafter, h⟩ := Option.bind_eq_some_iff.mp h
    cases h
    obtain ⟨piece, rfl, hne⟩ := content_suffix hopen hclose
    obtain ⟨block, rfl⟩ := toClosingTag?_suffix hafter
    exact ⟨piece ++ block, (List.append_assoc ..).symm, by simp [hne]⟩
  return_solid _ _ := rfl
  newline_solid _ _ := rfl

theorem styleBlocks_crlf (text : List Char) :
    styleBlocks (crlf text) = (styleBlocks text).map (shiftedSpan text) := by
  rw [styleBlocks, styleBlocks, tokens_crlf styleBlock_widens, List.map_map, List.map_map]
  refine List.map_congr_left fun t _ => ?_
  simp only [Function.comp_apply, Token.widen, shiftedSpan, shifted_add, List.drop_drop]

theorem strategyAmong_crlf (text : List Char) (blocks : List (Nat × Nat)) (offset : Nat) :
    strategyAmong (blocks.map (shiftedSpan text)) (shifted text offset) =
      ((strategyAmong blocks offset).1, shifted text (strategyAmong blocks offset).2) := by
  simp only [strategyAmong, List.find?_map, Function.comp_def, shiftedSpan, shifted_le_iff,
    shifted_lt_iff]
  cases blocks.find? fun b => decide (b.1 ≤ offset) && decide (offset < b.2) with
  | none => rfl
  | some b => rfl

/-! ## Files -/

variable (s : Source) (offset : Nat)

theorem strategyAt_crlf :
    strategyAt s.crlf (shifted (s.text.getD []) offset) =
      ((strategyAt s offset).1, shifted (s.text.getD []) (strategyAt s offset).2) := by
  have hsheet : isStylesheet s.crlf = isStylesheet s := rfl
  unfold strategyAt
  rw [hsheet]
  split
  · rfl
  · rw [Source.crlf_text, styleBlocks_crlf, strategyAmong_crlf]

theorem hasWindow_crlf (strategy : Strategy) (settings : Settings) :
    strategy.hasWindow settings s.crlf (shifted (s.text.getD []) offset) =
      strategy.hasWindow settings s offset := by
  cases strategy with
  | stylesheet =>
      change Stylesheet.hasWindow s.crlf.index _ _ = Stylesheet.hasWindow s.index _ _
      rw [Source.crlf_index, Stylesheet.hasWindow_crlf, s.index_eq]
  | markup => rfl

theorem hintAt_crlf (settings : Settings) :
    hintAt settings s.crlf (shifted (s.text.getD []) offset) = hintAt settings s offset := by
  have hmasked : maskedText s.crlf =
      maskComments (s.suffix != ".css".toList) (crlf (s.text.getD [])) := by
    rw [← Source.crlf_text]
    rfl
  unfold hintAt
  rw [strategyAt_crlf, Source.crlf_index, hmasked, s.index_eq]
  obtain ⟨_ | _, floor⟩ := strategyAt s offset
  · exact Stylesheet.hintAt_crlf _ _ floor offset _
  · exact Markup.hintAt_crlf _ _ _ offset

end Context

end ColorCensus
