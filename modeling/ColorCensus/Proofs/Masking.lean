import ColorCensus.Proofs.Tokens
import ColorCensus.Text.Comment
import Mathlib.Data.List.Forall2

/-!
# Blanking out comments

A mask has a space for every character of a comment and leaves newlines and all else alone. What
has to be seen is that it holds no comment any more: a character that is gone could have kept a
comment from being one.

Blanking never writes anything but blanks, so whatever a mask holds that is no blank was in the text
at the same place. A complete block comment of the mask is one of the text, then, and it would
have been taken there. For line comments this is not enough, because whether `//` opens one hangs on
the character in front, and that one may be gone. But it is gone only if it ended a comment, and
behind a line comment the line is over.

Both arguments are one induction along the walk (`Settles.lacks`): a recogniser that finds nothing
new under blanks, does not start at a blank and does not mind what stands in front of the place
where it stopped finds nothing in what it has blanked out. So a mask is its own mask.
-/

namespace ColorCensus.Text

variable {α : Type} {r : Recognizer α} {text : List Char}

/-! ## Texts without tokens -/

/-- No token starts anywhere in a text. -/
def Lacks (r : Recognizer α) : Option Char → List Char → Prop
  | _, [] => True
  | before, c :: rest => r before (c :: rest) = none ∧ Lacks r (some c) rest

theorem lacks_iff {before : Option Char} :
    Lacks r before text ↔
      ∀ front c rest, text = front ++ c :: rest →
        r (front.getLast?.or before) (c :: rest) = none := by
  induction text generalizing before with
  | nil => exact ⟨fun _ front c rest h => by simp at h, fun _ => trivial⟩
  | cons d text ih =>
      rw [Lacks, ih]
      constructor
      · rintro ⟨hhere, hlater⟩ front c rest hsplit
        cases front with
        | nil =>
            cases hsplit
            exact hhere
        | cons e front =>
            cases hsplit
            rw [getLast?_cons_or]
            exact hlater front c rest rfl
      · intro h
        refine ⟨h [] d text rfl, fun front c rest hsplit => ?_⟩
        rw [← getLast?_cons_or]
        exact h (d :: front) c rest (congrArg (d :: ·) hsplit)

theorem Lacks.overTokensFrom_eq {f : Char → List Char} {before : Option Char}
    (h : Lacks r before text) : overTokensFrom r f 0 before text = text := by
  induction text generalizing before with
  | nil => rfl
  | cons c rest ih => rw [overTokensFrom_none h.1, ih h.2]

/-! ## Blanks in the place of characters -/

/-- A text is another one with some of its characters blanked out, newlines apart. -/
def Blanked (text blanked : List Char) : Prop :=
  List.Forall₂ (fun c d => d = c ∨ c ≠ '\n' ∧ d = ' ') text blanked

namespace Blanked

variable {xs ys zs : List Char}

theorem trans (h : Blanked xs ys) (h' : Blanked ys zs) : Blanked xs zs := by
  induction h generalizing zs with
  | nil => exact h'
  | cons hc _ ih =>
      cases h' with
      | cons hd hrest =>
          refine .cons ?_ (ih hrest)
          rcases hd with rfl | ⟨hd, rfl⟩
          · exact hc
          · rcases hc with rfl | ⟨hc, -⟩
            · exact .inr ⟨hd, rfl⟩
            · exact .inr ⟨hc, rfl⟩

theorem ink {c : Char} (h : Blanked xs (c :: ys)) (hc : c ≠ ' ') :
    ∃ rest, xs = c :: rest ∧ Blanked rest ys := by
  cases h with
  | cons hhead hrest =>
      obtain rfl := hhead.resolve_right fun h => hc h.2
      exact ⟨_, rfl, hrest⟩

theorem append_right (h : Blanked xs (ys ++ zs)) :
    ∃ front rest, xs = front ++ rest ∧ Blanked rest zs :=
  ⟨_, _, (List.take_append_drop ys.length xs).symm, List.forall₂_drop_append _ _ _ h⟩

end Blanked

theorem blank_of_ne {c : Char} (h : c ≠ '\n') : blank c = [' '] := by
  rw [blank, if_neg (by simpa using h)]

theorem blank_eq (c : Char) :
    ∃ d, blank c = [d] ∧ (d = ' ' ∨ d = '\n') ∧ (d = c ∨ c ≠ '\n' ∧ d = ' ') := by
  by_cases hc : c = '\n'
  · subst hc
    exact ⟨'\n', rfl, .inr rfl, .inl rfl⟩
  · exact ⟨' ', blank_of_ne hc, .inl rfl, .inr ⟨hc, rfl⟩⟩

theorem blanked_overTokensFrom (r : Recognizer α) (skip : Nat) (before : Option Char)
    (text : List Char) : Blanked text (overTokensFrom r blank skip before text) := by
  fun_induction overTokensFrom r blank skip before text with
  | case1 => exact .nil
  | case2 skip before c rest ih =>
      obtain ⟨d, hd, -, hchar⟩ := blank_eq c
      rw [hd]
      exact .cons hchar ih
  | case3 before c rest _ ih => exact .cons (.inl rfl) ih
  | case4 before c rest _ left _ ih =>
      obtain ⟨d, hd, -, hchar⟩ := blank_eq c
      rw [hd]
      exact .cons hchar ih

theorem blanked_maskComments (lineComments : Bool) (text : List Char) :
    Blanked text (maskComments lineComments text) := by
  have hblock := blanked_overTokensFrom (blockComment false) 0 none text
  cases lineComments with
  | false => exact hblock
  | true => exact hblock.trans (blanked_overTokensFrom lineComment 0 none _)

/-! ## Recognisers that find nothing in their own blanks -/

/-- Blanking out what a recogniser finds gives it nothing new to find. -/
structure Settles (r : Recognizer α) : Prop where
  piece : TakesPiece r
  unblank : ∀ before cs cs', Blanked cs cs' → r before cs = none → r before cs' = none
  space : ∀ before rest, r before (' ' :: rest) = none
  newline : ∀ before rest, r before ('\n' :: rest) = none
  behind : ∀ before piece value left, r before (piece ++ left) = some (value, left) →
    ∀ c, r c left = r piece.getLast? left

theorem Settles.lacks_blanks (hr : Settles r) {piece : List Char} (hne : piece ≠ [])
    (h : ∀ before, Lacks r before text) (before : Option Char) :
    Lacks r before (piece.flatMap blank ++ text) := by
  induction piece generalizing before with
  | nil => exact absurd rfl hne
  | cons c piece ih =>
      obtain ⟨d, hd, hblank, -⟩ := blank_eq c
      have hnone : ∀ rest, r before (d :: rest) = none := by
        rcases hblank with rfl | rfl
        · exact hr.space before
        · exact hr.newline before
      rw [List.flatMap_cons, hd, List.append_assoc]
      refine ⟨hnone _, ?_⟩
      cases piece with
      | nil => exact h (some d)
      | cons e piece => exact ih (List.cons_ne_nil e piece) (some d)

/-- The induction is along the walk. The character in front of the text may be gone by now, so all
that is known of it is that it makes no difference at the place at hand. -/
theorem Settles.lacks (hr : Settles r) (before : Option Char) (text : List Char) :
    ∀ before', r before' text = r before text →
      Lacks r before' (overTokensFrom r blank 0 before text) := by
  induction before, text using walk_induction hr.piece with
  | nil before => exact fun _ _ => trivial
  | pass before c rest hnone ih =>
      intro before' hsame
      rw [overTokensFrom_none hnone]
      refine ⟨?_, ih (some c) rfl⟩
      exact hr.unblank before' _ _ (.cons (.inl rfl) (blanked_overTokensFrom r 0 (some c) rest))
        (hsame.trans hnone)
  | take before piece value left hne htaken ih =>
      intro before' _
      rw [overTokensFrom_some hne htaken]
      exact hr.lacks_blanks hne (fun c => ih c (hr.behind before piece value left htaken c)) before'

theorem Settles.lacks_overTokens (hr : Settles r) (text : List Char) :
    Lacks r none (overTokens r blank text) :=
  hr.lacks none text none rfl

theorem Settles.overTokens_eq_self_iff (hr : Settles r) :
    overTokens r blank text = text ↔ Lacks r none text := by
  constructor
  · intro h
    rw [← h]
    exact hr.lacks_overTokens text
  · exact Lacks.overTokensFrom_eq

/-! ## Block comments -/

theorem afterClose?_cons (c : Char) (cs : List Char) :
    afterClose? false (c :: cs) =
      (dropLiteral? ['*', '/'] (c :: cs)).or (afterClose? false cs) := by
  rw [afterClose?.eq_def]
  split
  · next h => cases h
  · next rest h =>
      cases h
      rfl
  · next c' cs' hclose h =>
      cases h
      have hnone : dropLiteral? ['*', '/'] (c :: cs) = none := by
        cases h : dropLiteral? ['*', '/'] (c :: cs) with
        | none => rfl
        | some rest => exact absurd (dropLiteral?_eq_some_iff.mp h) (by simpa using hclose rest)
      rw [hnone]
      rfl

theorem afterClose?_suffix {cs left : List Char} (h : afterClose? false cs = some left) :
    left <:+ cs := by
  induction cs with
  | nil => cases h
  | cons c cs ih =>
      rw [afterClose?_cons] at h
      rcases Option.or_eq_some_iff.mp h with h | ⟨-, h⟩
      · rw [dropLiteral?_eq_some_iff.mp h]
        exact List.suffix_append _ _
      · exact (ih h).trans (List.suffix_cons c cs)

theorem afterClose?_isSome_iff {cs : List Char} :
    (afterClose? false cs).isSome ↔ ∃ inside rest, cs = inside ++ '*' :: '/' :: rest := by
  induction cs with
  | nil => exact ⟨nofun, fun ⟨inside, rest, h⟩ => by simp at h⟩
  | cons c cs ih =>
      rw [afterClose?_cons, Option.isSome_or, Bool.or_eq_true, ih, Option.isSome_iff_exists]
      simp only [dropLiteral?_eq_some_iff]
      constructor
      · rintro (⟨rest, h⟩ | ⟨inside, rest, rfl⟩)
        · exact ⟨[], rest, h⟩
        · exact ⟨c :: inside, rest, rfl⟩
      · rintro ⟨inside, rest, h⟩
        cases inside with
        | nil => exact .inl ⟨rest, h⟩
        | cons d inside => exact .inr ⟨inside, rest, (List.cons.inj h).2⟩

theorem blockComment_isSome_iff {before : Option Char} {cs : List Char} :
    (blockComment false before cs).isSome ↔
      ∃ inside rest, cs = '/' :: '*' :: (inside ++ '*' :: '/' :: rest) := by
  rw [blockComment]
  cases hopen : dropLiteral? ['/', '*'] cs with
  | none =>
      refine ⟨nofun, ?_⟩
      rintro ⟨inside, rest, rfl⟩
      cases hopen
  | some after =>
      obtain rfl := dropLiteral?_eq_some_iff.mp hopen
      have hclosed : ((afterClose? false after).bind fun cs => some ((), cs)).isSome ↔
          (afterClose? false after).isSome := by
        cases afterClose? false after with
        | none => rfl
        | some left => rfl
      simp only [Option.bind_eq_bind, Option.bind_some, Option.pure_def]
      rw [hclosed, afterClose?_isSome_iff]
      constructor
      · rintro ⟨inside, rest, rfl⟩
        exact ⟨inside, rest, rfl⟩
      · rintro ⟨inside, rest, h⟩
        exact ⟨inside, rest, (List.cons.inj (List.cons.inj h).2).2⟩

theorem blockComment_piece : TakesPiece (blockComment false) := by
  intro before cs value left h
  obtain ⟨inside, hopen, h⟩ := Option.bind_eq_some_iff.mp h
  obtain ⟨left', hclose, h⟩ := Option.bind_eq_some_iff.mp h
  cases h
  obtain ⟨comment, rfl⟩ := afterClose?_suffix hclose
  refine ⟨['/', '*'] ++ comment, ?_, by simp⟩
  rw [dropLiteral?_eq_some_iff.mp hopen, List.append_assoc]

theorem Blanked.blockComment_isSome {before : Option Char} {cs cs' : List Char}
    (h : Blanked cs cs') (hcomment : (blockComment false before cs').isSome) :
    (blockComment false before cs).isSome := by
  obtain ⟨inside, rest, rfl⟩ := blockComment_isSome_iff.mp hcomment
  obtain ⟨_, rfl, hstar⟩ := h.ink (by decide)
  obtain ⟨_, rfl, hafter⟩ := hstar.ink (by decide)
  obtain ⟨inside', _, rfl, hclose⟩ := hafter.append_right
  obtain ⟨_, rfl, hslash⟩ := hclose.ink (by decide)
  obtain ⟨rest', rfl, -⟩ := hslash.ink (by decide)
  exact blockComment_isSome_iff.mpr ⟨inside', rest', rfl⟩

theorem blockComment_settles : Settles (blockComment false) where
  piece := blockComment_piece
  unblank _ _ _ hblanked hnone := by
    rw [← Option.not_isSome_iff_eq_none] at hnone ⊢
    exact fun hcomment => hnone (hblanked.blockComment_isSome hcomment)
  space _ _ := rfl
  newline _ _ := rfl
  behind _ _ _ _ _ _ := rfl

/-- A block comment stands somewhere in the text, from its opening to a closing behind it. -/
def HoldsBlockComment (text : List Char) : Prop :=
  ∃ front inside rest, text = front ++ '/' :: '*' :: (inside ++ '*' :: '/' :: rest)

theorem holdsBlockComment_iff :
    HoldsBlockComment text ↔
      ∃ front rest, text = front ++ rest ∧ (blockComment false none rest).isSome := by
  simp only [blockComment_isSome_iff]
  constructor
  · rintro ⟨front, inside, rest, rfl⟩
    exact ⟨front, _, rfl, inside, rest, rfl⟩
  · rintro ⟨front, _, rfl, inside, rest, rfl⟩
    exact ⟨front, inside, rest, rfl⟩

theorem Blanked.holdsBlockComment {xs ys : List Char} (h : Blanked xs ys)
    (hys : HoldsBlockComment ys) : HoldsBlockComment xs := by
  obtain ⟨front, rest, rfl, hcomment⟩ := holdsBlockComment_iff.mp hys
  obtain ⟨front', rest', rfl, hrest⟩ := h.append_right
  exact holdsBlockComment_iff.mpr ⟨front', rest', rfl, hrest.blockComment_isSome hcomment⟩

theorem lacks_blockComment_iff :
    Lacks (blockComment false) none text ↔ ¬ HoldsBlockComment text := by
  rw [lacks_iff, holdsBlockComment_iff]
  constructor
  · rintro h ⟨front, rest, rfl, hcomment⟩
    cases rest with
    | nil => cases hcomment
    | cons c rest => exact Option.not_isSome_iff_eq_none.mpr (h front c rest rfl) hcomment
  · intro h front c rest hsplit
    exact Option.not_isSome_iff_eq_none.mp fun hcomment => h ⟨front, _, hsplit, hcomment⟩

/-! ## Line comments -/

theorem lineComment_isSome_iff {before : Option Char} {cs : List Char} :
    (lineComment before cs).isSome ↔
      (∃ rest, cs = '/' :: '/' :: rest) ∧ before.any opensAddress = false := by
  rw [lineComment]
  cases hopen : dropLiteral? ['/', '/'] cs with
  | none =>
      refine ⟨nofun, ?_⟩
      rintro ⟨⟨rest, rfl⟩, -⟩
      cases hopen
  | some rest =>
      have hcs : ∃ rest, cs = '/' :: '/' :: rest := ⟨rest, dropLiteral?_eq_some_iff.mp hopen⟩
      simp only [Option.bind_eq_bind, Option.bind_some, hcs, true_and]
      cases before.any opensAddress with
      | true => exact ⟨nofun, nofun⟩
      | false => exact ⟨fun _ => rfl, fun _ => rfl⟩

theorem lineComment_eq_some {before : Option Char} {cs left : List Char} {value : Unit}
    (h : lineComment before cs = some (value, left)) :
    ∃ inside, cs = ['/', '/'] ++ inside ∧ left = inside.dropWhile (· != '\n') := by
  obtain ⟨inside, hopen, h⟩ := Option.bind_eq_some_iff.mp h
  obtain ⟨-, h⟩ := Option.ite_none_left_eq_some.mp h
  cases h
  exact ⟨inside, dropLiteral?_eq_some_iff.mp hopen, rfl⟩

theorem lineComment_piece : TakesPiece lineComment := by
  intro before cs value left h
  obtain ⟨inside, rfl, rfl⟩ := lineComment_eq_some h
  refine ⟨['/', '/'] ++ inside.takeWhile (· != '\n'), ?_, by simp⟩
  rw [List.append_assoc, List.takeWhile_append_dropWhile]

theorem lineComment_lineEnd (before : Option Char) (inside : List Char) :
    lineComment before (inside.dropWhile (· != '\n')) = none := by
  cases hline : inside.dropWhile (· != '\n') with
  | nil => rfl
  | cons c rest =>
      have hc := List.head?_dropWhile_not (· != '\n') inside
      rw [hline] at hc
      obtain rfl : c = '\n' := by simpa using hc
      rfl

theorem lineComment_settles : Settles lineComment where
  piece := lineComment_piece
  unblank before cs cs' hblanked hnone := by
    rw [← Option.not_isSome_iff_eq_none] at hnone ⊢
    refine fun hsome => hnone ?_
    obtain ⟨⟨rest, rfl⟩, hbefore⟩ := lineComment_isSome_iff.mp hsome
    obtain ⟨_, rfl, hslash⟩ := hblanked.ink (by decide)
    obtain ⟨rest', rfl, -⟩ := hslash.ink (by decide)
    exact lineComment_isSome_iff.mpr ⟨⟨rest', rfl⟩, hbefore⟩
  space _ _ := rfl
  newline _ _ := rfl
  behind before piece value left h c := by
    obtain ⟨inside, -, rfl⟩ := lineComment_eq_some h
    rw [lineComment_lineEnd, lineComment_lineEnd]

/-- Two slashes stand somewhere in the text and are no part of an address. -/
def HoldsLineComment (text : List Char) : Prop :=
  ∃ front rest, text = front ++ '/' :: '/' :: rest ∧ front.getLast?.any opensAddress = false

theorem lacks_lineComment_iff : Lacks lineComment none text ↔ ¬ HoldsLineComment text := by
  rw [lacks_iff]
  constructor
  · rintro h ⟨front, rest, hsplit, hbefore⟩
    have hnone := Option.not_isSome_iff_eq_none.mpr (h front _ _ hsplit)
    rw [Option.or_none] at hnone
    exact hnone (lineComment_isSome_iff.mpr ⟨⟨rest, rfl⟩, hbefore⟩)
  · intro h front c rest hsplit
    refine Option.not_isSome_iff_eq_none.mp fun hsome => h ?_
    obtain ⟨⟨rest', hcomment⟩, hbefore⟩ := lineComment_isSome_iff.mp hsome
    rw [Option.or_none] at hbefore
    exact ⟨front, rest', by rw [hsplit, hcomment], hbefore⟩

/-! ## Masks -/

theorem holdsBlockComment_maskComments (lineComments : Bool) (text : List Char) :
    ¬ HoldsBlockComment (maskComments lineComments text) := by
  have hblock : ¬ HoldsBlockComment (overTokens (blockComment false) blank text) :=
    lacks_blockComment_iff.mp (blockComment_settles.lacks_overTokens text)
  cases lineComments with
  | false => exact hblock
  | true =>
      have hlines := blanked_overTokensFrom lineComment 0 none
        (overTokens (blockComment false) blank text)
      exact fun h => hblock (hlines.holdsBlockComment h)

theorem holdsLineComment_maskComments (text : List Char) :
    ¬ HoldsLineComment (maskComments true text) :=
  lacks_lineComment_iff.mp (lineComment_settles.lacks_overTokens _)

/-- A text holds a comment of one of the kinds that are asked for. -/
def HoldsComment (lineComments : Bool) (text : List Char) : Prop :=
  HoldsBlockComment text ∨ lineComments = true ∧ HoldsLineComment text

theorem holdsComment_maskComments (lineComments : Bool) (text : List Char) :
    ¬ HoldsComment lineComments (maskComments lineComments text) := by
  rintro (hblock | ⟨rfl, hline⟩)
  · exact holdsBlockComment_maskComments lineComments text hblock
  · exact holdsLineComment_maskComments text hline

/-- A mask differs from its text exactly if there is a comment to blank out. -/
theorem maskComments_eq_self_iff {lineComments : Bool} :
    maskComments lineComments text = text ↔ ¬ HoldsComment lineComments text := by
  constructor
  · intro h
    rw [← h]
    exact holdsComment_maskComments lineComments text
  · intro h
    rw [HoldsComment, not_or] at h
    have hmasked : overTokens (blockComment false) blank text = text :=
      blockComment_settles.overTokens_eq_self_iff.mpr (lacks_blockComment_iff.mpr h.1)
    cases lineComments with
    | false => exact hmasked
    | true =>
        have hlacks : Lacks lineComment none text :=
          lacks_lineComment_iff.mpr fun hline => h.2 ⟨rfl, hline⟩
        rw [maskComments, if_pos rfl, hmasked]
        exact lineComment_settles.overTokens_eq_self_iff.mpr hlacks

/-- A mask is as long as its text and blanks out nothing but what is no newline. It holds no block
comment any more, and it is its own mask, as is exactly what holds no comment. -/
theorem maskComments_stable (lineComments : Bool) (text : List Char) :
    (maskComments lineComments text).length = text.length ∧
      Blanked text (maskComments lineComments text) ∧
      ¬ HoldsBlockComment (maskComments lineComments text) ∧
      maskComments lineComments (maskComments lineComments text) =
        maskComments lineComments text ∧
      (maskComments lineComments text = text ↔ ¬ HoldsComment lineComments text) :=
  ⟨length_maskComments lineComments text, blanked_maskComments lineComments text,
    holdsBlockComment_maskComments lineComments text,
    maskComments_eq_self_iff.mpr (holdsComment_maskComments lineComments text),
    maskComments_eq_self_iff⟩

end ColorCensus.Text
