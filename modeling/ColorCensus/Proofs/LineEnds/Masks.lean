import ColorCensus.Proofs.LineEnds.Tokens
import ColorCensus.Proofs.Masking

/-!
# Comments and line ends

A text whose comments are blanked out has its line ends where the text had them,
but a carriage return inside a comment is a space now. Which one stands there
makes no difference to what is read from the text afterwards, so masks are
compared with every carriage return told as a space (`soften`).

A block comment takes the same from a text with other line ends. A line comment
ends before the newline and takes the carriage return along, which is the reason
why `Reaches` asks for less than `Widens` does. The line comments are looked for
in what the block comments left, and so blanking has to respect `soften` as well
(`overTokensFrom_map`).
-/

namespace ColorCensus.Text

/-- A carriage return becomes a space. -/
def soften (c : Char) : Char := if c = '\r' then ' ' else c

theorem soften_of_ne {c : Char} (h : c ≠ '\r') : soften c = c := if_neg h

theorem soften_beq {d : Char} (hr : d ≠ '\r') (hs : d ≠ ' ') (c : Char) :
    (soften c == d) = (c == d) := by
  by_cases hc : c = '\r'
  · subst hc
    rw [beq_false_of_ne hr.symm]
    exact beq_false_of_ne hs.symm
  · rw [soften_of_ne hc]

/-! ## Writing over tokens -/

section

variable {α : Type} {r : Recognizer α} {f : Char → List Char}

theorem overTokensFrom_map {g : Char → Char}
    (hr : ∀ before cs, r (Option.map g before) (cs.map g) =
      (r before cs).map fun (value, left) => (value, left.map g))
    (hf : ∀ c, f (g c) = (f c).map g) (skip : Nat) (before : Option Char) (cs : List Char) :
    overTokensFrom r f skip (before.map g) (cs.map g) =
      (overTokensFrom r f skip before cs).map g := by
  induction cs generalizing skip before with
  | nil =>
      cases skip with
      | zero => rfl
      | succ _ => rfl
  | cons c cs ih =>
      cases skip with
      | succ skip =>
          rw [List.map_cons, overTokensFrom, overTokensFrom, List.map_append, hf]
          exact congrArg _ (ih skip (some c))
      | zero =>
          have hhere := hr before (c :: cs)
          cases htaken : r before (c :: cs) with
          | none =>
              rw [htaken] at hhere
              rw [overTokensFrom_none htaken, List.map_cons, overTokensFrom_none hhere,
                List.map_cons]
              exact congrArg _ (ih 0 (some c))
          | some taken =>
              obtain ⟨value, left⟩ := taken
              rw [htaken] at hhere
              have hconsumed : consumed ((c :: cs).map g) (left.map g) = consumed (c :: cs) left := by
                rw [consumed, consumed, List.length_map, List.length_map]
              rw [List.map_cons] at hhere hconsumed ⊢
              rw [overTokensFrom, hhere, overTokensFrom, htaken]
              dsimp only [Option.map_some]
              rw [hconsumed, List.map_append, hf]
              exact congrArg _ (ih _ (some c))

end

/-! ## Blanks for comments -/

theorem blank_soften (c : Char) : blank (soften c) = (blank c).map soften := by
  have hnewline : (soften c == '\n') = (c == '\n') := soften_beq (by decide) (by decide) c
  rw [blank, hnewline, blank]
  split
  · rfl
  · rfl

theorem map_soften_blank_crlf (piece : List Char) :
    ((crlf piece).flatMap blank).map soften = (crlf (piece.flatMap blank)).map soften := by
  induction piece with
  | nil => rfl
  | cons c piece ih =>
      by_cases hc : c = '\n'
      · subst hc
        exact congrArg (' ' :: '\n' :: ·) ih
      · rw [crlf_cons hc, List.flatMap_cons, List.flatMap_cons, blank_of_ne hc,
          List.singleton_append, List.singleton_append, crlf_cons (by decide), List.map_cons,
          List.map_cons, ih]

/-- A recogniser takes the same from a text with other line ends; where it stops
at a line end, it may take the carriage return along. -/
structure Reaches {α : Type} (r : Recognizer α) : Prop where
  crlf : ∀ before cs,
    r before (crlf cs) = (r before cs).map (fun (value, left) => (value, Text.crlf left)) ∨
      ∃ value rest, r before cs = some (value, '\n' :: rest) ∧
        r before (crlf cs) = some (value, '\n' :: Text.crlf rest)
  piece : ∀ before cs value left, r before cs = some (value, left) →
    ∃ piece, cs = piece ++ left ∧ piece ≠ []
  return_solid : ∀ before rest, r before ('\r' :: rest) = none
  newline_solid : ∀ before rest, r before ('\n' :: rest) = none

/-- The induction is along the walk over the text as it was. -/
theorem overTokensFrom_crlf {α : Type} {r : Recognizer α} (hr : Reaches r) (before : Option Char)
    (rest : List Char) :
    (overTokensFrom r blank 0 before (crlf rest)).map soften =
      (crlf (overTokensFrom r blank 0 before rest)).map soften := by
  induction before, rest using walk_induction hr.piece with
  | nil before => rfl
  | pass before c cs hnone ih =>
      by_cases hc : c = '\n'
      · subst hc
        rw [crlf_newline, overTokensFrom_none (hr.return_solid before _),
          overTokensFrom_none (hr.newline_solid _ _), overTokensFrom_none hnone, crlf_newline]
        exact congrArg (' ' :: '\n' :: ·) ih
      · have hcrlf := hr.crlf before (c :: cs)
        rw [hnone] at hcrlf
        have hnone' : r before (crlf (c :: cs)) = none :=
          hcrlf.elim id fun ⟨_, _, h, _⟩ => nomatch h
        rw [crlf_cons hc] at hnone' ⊢
        rw [overTokensFrom_none hnone', overTokensFrom_none hnone, crlf_cons hc, List.map_cons,
          List.map_cons, ih]
  | take before piece value left hne htaken ih =>
      have hcrlf := hr.crlf before (piece ++ left)
      rw [htaken, crlf_append] at hcrlf
      rw [overTokensFrom_some hne htaken, crlf_append, crlf_append, List.map_append,
        ← map_soften_blank_crlf]
      rcases hcrlf with hsame | ⟨value', rest, heq, hmore⟩
      · rw [overTokensFrom_some (crlf_ne_nil hne) hsame, getLast?_crlf, List.map_append, ih]
      · cases heq
        rw [crlf_newline, overTokensFrom_none (hr.return_solid _ _),
          overTokensFrom_none (hr.newline_solid _ _), overTokensFrom_none (hr.newline_solid _ _),
          crlf_newline] at ih
        -- The carriage return belongs to the piece now.
        have hsplit : crlf piece ++ crlf ('\n' :: rest) =
            (crlf piece ++ ['\r']) ++ '\n' :: crlf rest := by
          rw [crlf_newline, List.append_assoc, List.singleton_append]
        rw [hsplit] at hmore ⊢
        rw [overTokensFrom_some (by simp) hmore, overTokensFrom_none (hr.newline_solid _ _),
          overTokensFrom_none (hr.newline_solid _ _), crlf_newline, List.flatMap_append,
          List.append_assoc, List.map_append]
        exact congrArg (_ ++ ·) ih

/-! ## Comments -/

theorem afterClose?_crlf (cs : List Char) :
    afterClose? false (crlf cs) = (afterClose? false cs).map crlf := by
  induction cs with
  | nil => rfl
  | cons c cs ih =>
      have hhere := dropLiteral?_crlf (by decide : Plain ['*', '/']) (c :: cs)
      by_cases hc : c = '\n'
      · subst hc
        rw [crlf_newline, afterClose?_cons, afterClose?_cons, afterClose?_cons, ih]
        rfl
      · rw [crlf_cons hc] at hhere ⊢
        rw [afterClose?_cons, afterClose?_cons, hhere, ih, Option.map_or]

theorem blockComment_reaches : Reaches (blockComment false) where
  crlf before cs := .inl <| by
    simp only [blockComment, dropLiteral?_crlf (by decide : Plain ['/', '*']), afterClose?_crlf,
      Option.bind_eq_bind, Option.bind_map, Option.map_bind, Function.comp_def, Option.pure_def,
      Option.map_some]
  piece := blockComment_piece
  return_solid _ _ := rfl
  newline_solid _ _ := rfl

theorem dropWhile_line_crlf (cs : List Char) :
    ((crlf cs).dropWhile (· != '\n') = crlf (cs.dropWhile (· != '\n'))) ∨
      ∃ rest, cs.dropWhile (· != '\n') = '\n' :: rest ∧
        (crlf cs).dropWhile (· != '\n') = '\n' :: crlf rest := by
  induction cs with
  | nil => exact .inl rfl
  | cons c cs ih =>
      by_cases hc : c = '\n'
      · subst hc
        exact .inr ⟨cs, rfl, rfl⟩
      · have hpass : ∀ rest : List Char,
            (c :: rest).dropWhile (· != '\n') = rest.dropWhile (· != '\n') :=
          fun rest => List.dropWhile_cons_of_pos (by simpa using hc)
        rwa [crlf_cons hc, hpass, hpass]

theorem lineComment_reaches : Reaches lineComment where
  crlf before cs := by
    unfold lineComment
    rw [dropLiteral?_crlf (by decide)]
    cases dropLiteral? ['/', '/'] cs with
    | none => exact .inl rfl
    | some inside =>
        simp only [Option.map_some, Option.bind_eq_bind, Option.bind_some, Option.pure_def]
        split
        · exact .inl rfl
        · rcases dropWhile_line_crlf inside with h | ⟨rest, h, h'⟩
          · rw [h]
            exact .inl rfl
          · exact .inr ⟨(), rest, by rw [h], by rw [h']⟩
  piece := lineComment_piece
  return_solid _ _ := rfl
  newline_solid _ _ := rfl

/-! ## Masks -/

theorem dropLiteral?_soften {lit : List Char} (hr : '\r' ∉ lit) (hs : ' ' ∉ lit)
    (cs : List Char) :
    dropLiteral? lit (cs.map soften) = (dropLiteral? lit cs).map (List.map soften) := by
  induction lit generalizing cs with
  | nil => rfl
  | cons l lit ih =>
      cases cs with
      | nil => rfl
      | cons c cs =>
          rw [List.mem_cons, not_or] at hr hs
          have hsame : (l == soften c) = (l == c) := by
            rw [BEq.comm, soften_beq (Ne.symm hr.1) (Ne.symm hs.1), BEq.comm]
          rw [List.map_cons, dropLiteral?, dropLiteral?, hsame, ih hr.2 hs.2]
          split
          · rfl
          · rfl

theorem lineComment_soften (before : Option Char) (cs : List Char) :
    lineComment (before.map soften) (cs.map soften) =
      (lineComment before cs).map fun (value, left) => (value, left.map soften) := by
  have haddress : (before.map soften).any opensAddress = before.any opensAddress := by
    cases before with
    | none => rfl
    | some c =>
        simp only [Option.map_some, Option.any_some, opensAddress,
          soften_beq (by decide : ':' ≠ '\r') (by decide),
          soften_beq (by decide : '"' ≠ '\r') (by decide),
          soften_beq (by decide : '\'' ≠ '\r') (by decide),
          soften_beq (by decide : '(' ≠ '\r') (by decide)]
  have hline : ∀ inside : List Char, (inside.map soften).dropWhile (· != '\n') =
      (inside.dropWhile (· != '\n')).map soften := by
    intro inside
    have hsame : ((· != '\n') ∘ soften) = (· != '\n') := by
      funext c
      exact congrArg (!·) (soften_beq (by decide) (by decide) c)
    rw [List.dropWhile_map, hsame]
  simp only [lineComment, haddress, hline,
    dropLiteral?_soften (by decide : '\r' ∉ ['/', '/']) (by decide), Option.bind_eq_bind,
    Option.bind_map, Option.map_bind, Function.comp_def, Option.pure_def, Option.map_some,
    apply_ite (Option.map _), Option.map_none]

theorem maskComments_crlf (lineComments : Bool) (text : List Char) :
    (maskComments lineComments (crlf text)).map soften =
      (crlf (maskComments lineComments text)).map soften := by
  have hblock := overTokensFrom_crlf blockComment_reaches none text
  cases lineComments with
  | false => exact hblock
  | true =>
      have hsoft := overTokensFrom_map lineComment_soften blank_soften 0 none
      calc (overTokens lineComment blank (overTokens (blockComment false) blank (crlf text))).map
              soften
          = overTokens lineComment blank
              ((overTokens (blockComment false) blank (crlf text)).map soften) := (hsoft _).symm
        _ = overTokens lineComment blank
              ((crlf (overTokens (blockComment false) blank text)).map soften) :=
            congrArg _ hblock
        _ = (overTokens lineComment blank
              (crlf (overTokens (blockComment false) blank text))).map soften := hsoft _
        _ = _ := overTokensFrom_crlf lineComment_reaches none _

theorem shifted_maskComments (lineComments : Bool) (text : List Char) (offset : Nat) :
    shifted (maskComments lineComments text) offset = shifted text offset := by
  have hcount : ∀ cs : List Char, cs.count '\n' = (cs.map (· == '\n')).countP id :=
    fun cs => (List.countP_map (p := id) (f := (· == '\n'))).symm
  rw [shifted, shifted, hcount, hcount, List.map_take, List.map_take, maskComments_newlines]

end ColorCensus.Text
