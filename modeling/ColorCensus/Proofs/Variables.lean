import ColorCensus.Proofs.Literals
import ColorCensus.Variable.Declaration
import Mathlib.Data.List.Forall2

/-!
# Where values and names stand

A declaration reports the color at the start of its value and a reference its
name, both with offsets a few characters inside their tokens. `Defined.Stands`
and `Referred.Stands` say what stands there and what stands around it, and this
is all that is used to keep them apart from each other and from literals.

A value and a name would meet in one of two ways. A value does not start inside
a name, because a colon or a blank stands before it. A name does not start
inside a value either: the parenthesis of its `var(` would be in the value, with
nothing but blanks between, and a color function has one parenthesis, behind
`b`, `l` or `a` but never behind `r`.
-/

namespace ColorCensus

open Text

namespace Color

/-! ## How leading colors are written -/

/-- Letters spelled in either case. -/
def Spells (letters : List Char) (piece : List Char) : Prop :=
  List.Forall₂ (fun l c => isLetter l c = true) letters piece

/-- The names of color functions in the loose grammar. -/
def functionNames : List (List Char) :=
  [['r', 'g', 'b'], ['h', 's', 'l'], ['r', 'g', 'b', 'a'], ['h', 's', 'l', 'a']]

/-- A color function of the loose grammar. -/
def IsLooseFunction (piece : List Char) : Prop :=
  ∃ fn args, piece = fn ++ '(' :: args ∧ '(' ∉ args ∧ ∃ name ∈ functionNames, Spells name fn

namespace Spells

variable {letters piece : List Char}

theorem not_mem (h : Spells letters piece) {c : Char} (hc : ∀ l ∈ letters, isLetter l c = false) :
    c ∉ piece := by
  induction h with
  | nil => exact List.not_mem_nil
  | cons hletter _ ih =>
      obtain ⟨hl, hletters⟩ := List.forall_mem_cons.mp hc
      refine List.not_mem_cons_of_ne_of_not_mem (fun heq => ?_) (ih hletters)
      rw [← heq, hl] at hletter
      cases hletter

theorem exists_letter (h : Spells letters piece) {i : Nat} {c : Char} (hc : piece[i]? = some c) :
    ∃ l, letters[i]? = some l ∧ isLetter l c = true := by
  induction h generalizing i with
  | nil => cases hc
  | cons hletter _ ih =>
      cases i with
      | zero =>
          cases hc
          exact ⟨_, rfl, hletter⟩
      | succ i => exact ih hc

theorem concat (h : Spells letters piece) {l c : Char} (hc : isLetter l c = true) :
    Spells (letters ++ [l]) (piece ++ [c]) := List.rel_append h (.cons hc .nil)

theorem name_not_mem (h : Spells letters piece) (hname : letters ∈ functionNames) {c : Char}
    (hc : ∀ name ∈ functionNames, (name.all fun l => !isLetter l c) = true) : c ∉ piece := by
  refine h.not_mem fun l hl => ?_
  rw [← Bool.not_eq_true']
  exact List.all_eq_true.mp (hc letters hname) l hl

theorem name_last (h : Spells letters piece) (hname : letters ∈ functionNames) :
    ∃ k c, k + 1 = piece.length ∧ piece[k]? = some c ∧ c ≠ 'r' := by
  have hlast : ∀ name ∈ functionNames, ∃ k l, k + 1 = name.length ∧ name[k]? = some l ∧
      isLetter l 'r' = false := by
    unfold functionNames
    simp only [List.forall_mem_cons]
    exact ⟨⟨2, 'b', rfl, rfl, rfl⟩, ⟨2, 'l', rfl, rfl, rfl⟩, ⟨3, 'a', rfl, rfl, rfl⟩,
      ⟨3, 'a', rfl, rfl, rfl⟩, fun _ h => absurd h List.not_mem_nil⟩
  obtain ⟨k, l, hk, hl, hletter⟩ := hlast letters hname
  have hinside : k < piece.length := by
    have hlength : letters.length = piece.length := h.length_eq
    omega
  refine ⟨k, piece[k], by rw [hk, h.length_eq], List.getElem?_eq_getElem hinside, fun hr => ?_⟩
  obtain ⟨l', hl', hletter'⟩ := h.exists_letter (List.getElem?_eq_getElem hinside)
  cases hl.symm.trans hl'
  rw [hr, hletter] at hletter'
  cases hletter'

end Spells

theorem dropLetters?_shape {letters cs rest : List Char}
    (h : dropLetters? letters cs = some rest) :
    ∃ piece, cs = piece ++ rest ∧ Spells letters piece := by
  induction letters generalizing cs with
  | nil =>
      cases h
      exact ⟨[], rfl, .nil⟩
  | cons l letters ih =>
      cases cs with
      | nil => cases h
      | cons c cs =>
          rw [dropLetters?, Option.ite_none_right_eq_some] at h
          obtain ⟨piece, rfl, hpiece⟩ := ih h.2
          exact ⟨c :: piece, rfl, .cons h.1 hpiece⟩

theorem dropA_shape {name cs rest : List Char} (h : dropLetters? name cs = some rest) :
    ∃ fn, cs = fn ++ (dropOne? (isLetter 'a') rest).getD rest ∧
      (Spells name fn ∨ Spells (name ++ ['a']) fn) := by
  obtain ⟨piece, rfl, hpiece⟩ := dropLetters?_shape h
  cases rest with
  | nil => exact ⟨piece, rfl, .inl hpiece⟩
  | cons c rest =>
      cases ha : isLetter 'a' c with
      | false =>
          rw [dropOne?, ha]
          exact ⟨piece, rfl, .inl hpiece⟩
      | true =>
          rw [dropOne?, ha]
          exact ⟨piece ++ [c], List.append_cons piece c rest, .inr (hpiece.concat ha)⟩

theorem dropFunction?_parts {cs left : List Char} (h : dropFunction? cs = some left) :
    ∃ fn args, cs = fn ++ '(' :: (args ++ ')' :: left) ∧
      (∀ c ∈ args, (c == '(' || c == ')') = false) ∧ ∃ name ∈ functionNames, Spells name fn := by
  obtain ⟨rest, hname, h⟩ := Option.bind_eq_some_iff.mp h
  obtain ⟨afterOpen, hopen, hclose⟩ := Option.bind_eq_some_iff.mp h
  rw [dropLiteral?_eq_some_iff] at hopen hclose
  obtain ⟨fn, hfn, hspells⟩ : ∃ fn,
      cs = fn ++ (dropOne? (isLetter 'a') rest).getD rest ∧
        ∃ name ∈ functionNames, Spells name fn := by
    rcases Option.or_eq_some_iff.mp hname with hname | ⟨-, hname⟩
    · obtain ⟨fn, hcs, hspells⟩ := dropA_shape hname
      exact ⟨fn, hcs, hspells.elim (fun h => ⟨_, by decide, h⟩) fun h => ⟨_, by decide, h⟩⟩
    · obtain ⟨fn, hcs, hspells⟩ := dropA_shape hname
      exact ⟨fn, hcs, hspells.elim (fun h => ⟨_, by decide, h⟩) fun h => ⟨_, by decide, h⟩⟩
  obtain ⟨args, hargs, hinside⟩ := Takes.dropWhile (fun c => !(c == '(' || c == ')')) afterOpen
  rw [hclose] at hargs
  refine ⟨fn, args, ?_, fun c hc => by simpa using hinside c hc, hspells⟩
  rw [hfn, hopen, hargs]
  rfl

theorem dropFunction?_shape {cs left : List Char} (h : dropFunction? cs = some left) :
    ∃ piece, cs = piece ++ left ∧ IsLooseFunction piece := by
  obtain ⟨fn, args, rfl, hargs, hname⟩ := dropFunction?_parts h
  have hparen : '(' ∉ args ++ [')'] := by
    intro hmem
    rcases List.mem_append.mp hmem with hmem | hmem
    · exact absurd (hargs _ hmem) (by decide)
    · exact absurd (List.mem_singleton.mp hmem) (by decide)
  exact ⟨fn ++ '(' :: (args ++ [')']), by simp, fn, _, rfl, hparen, hname⟩

/-- What the color at the start of a value looks like. -/
def IsLeading (piece : List Char) : Prop := IsHex piece ∨ IsLooseFunction piece

theorem leading?_shape {text value : List Char} (h : leading? text = some value) :
    value <+: text ∧ IsLeading value := by
  obtain ⟨rest, hrest, h⟩ := Option.bind_eq_some_iff.mp h
  cases h
  obtain ⟨piece, rfl, hpiece⟩ : ∃ piece, text = piece ++ rest ∧ IsLeading piece := by
    rcases Option.or_eq_some_iff.mp hrest with hrest | ⟨-, hrest⟩
    · obtain ⟨piece, htext, hpiece⟩ := dropHex?_shape hrest
      exact ⟨piece, htext, .inl hpiece⟩
    · obtain ⟨piece, htext, hpiece⟩ := dropFunction?_shape hrest
      exact ⟨piece, htext, .inr hpiece⟩
  rw [consumed_append, List.take_left]
  exact ⟨List.prefix_append _ _, hpiece⟩

theorem IsLeading.ne_nil {piece : List Char} (h : IsLeading piece) : piece ≠ [] := by
  rcases h with ⟨run, rfl, -⟩ | ⟨fn, args, rfl, -⟩
  · exact List.cons_ne_nil _ _
  · simp

theorem IsLeading.head?_ne {piece : List Char} (h : IsLeading piece) : piece.head? ≠ some '-' := by
  rcases h with h | ⟨fn, args, rfl, -, name, hname, hspells⟩
  · rw [h.head?]
    decide
  · have hdash : '-' ∉ fn := hspells.name_not_mem hname (by decide)
    cases fn with
    | nil => exact nofun
    | cons c fn => exact fun h => hdash (Option.some.inj h ▸ List.mem_cons_self)

theorem IsLeading.before_paren {piece : List Char} (h : IsLeading piece) {i : Nat}
    (hi : piece[i]? = some '(') : ∃ k c, k + 1 = i ∧ piece[k]? = some c ∧ c ≠ 'r' := by
  rcases h with h | ⟨fn, args, rfl, hargs, name, hname, hspells⟩
  · exact absurd (List.mem_of_getElem? hi) (h.not_mem (by decide) (by decide))
  · have hparen : '(' ∉ fn := hspells.name_not_mem hname (by decide)
    have hplace : i = fn.length := by
      rcases Nat.lt_trichotomy i fn.length with hlt | heq | hgt
      · rw [List.getElem?_append_left hlt] at hi
        exact absurd (List.mem_of_getElem? hi) hparen
      · exact heq
      · obtain ⟨k, rfl⟩ := Nat.exists_eq_add_of_lt hgt
        rw [List.getElem?_append_right (by omega), show fn.length + k + 1 - fn.length = k + 1 by omega,
          List.getElem?_cons_succ] at hi
        exact absurd (List.mem_of_getElem? hi) hargs
    obtain ⟨k, c, hk, hc, hne⟩ := hspells.name_last hname
    refine ⟨k, c, hk.trans hplace.symm, ?_, hne⟩
    rw [List.getElem?_append_left (by omega)]
    exact hc

end Color

namespace Variable

/-! ## Declarations -/

theorem isNameChar_range {c : Char} (h : isNameChar c = true) :
    0x2D ≤ c.toNat ∧ c.toNat < 0x80 := by
  have h9 : ('9' : Char).val.toNat = 57 := rfl
  have hz : ('z' : Char).val.toNat = 122 := rfl
  have hZ : ('Z' : Char).val.toNat = 90 := rfl
  have h0 : ('0' : Char).val.toNat = 48 := rfl
  have ha : ('a' : Char).val.toNat = 97 := rfl
  have hA : ('A' : Char).val.toNat = 65 := rfl
  simp only [isNameChar, isAsciiAlnum, isAsciiLetter, isAsciiLower, isAsciiUpper, isAsciiDigit,
    Bool.or_eq_true, Bool.and_eq_true, decide_eq_true_eq, Char.le_def,
    UInt32.le_iff_toNat_le, beq_iff_eq] at h
  rcases h with (((h | h) | h) | rfl) | rfl
  · rw [← Char.toNat_val]; omega
  · rw [← Char.toNat_val]; omega
  · rw [← Char.toNat_val]; omega
  · decide
  · decide

theorem isNameChar_of_isBlank {c : Char} (h : isBlank c = true) : isNameChar c = false := by
  by_contra hname
  have hrange := isNameChar_range (Bool.not_eq_false _ ▸ hname)
  simp only [isBlank, hrange.2, if_true, Bool.or_eq_true, Bool.and_eq_true, beq_iff_eq,
    decide_eq_true_eq] at h
  omega

/-- A character of a name would not stand in front of a declaration. -/
theorem isWord_of_isNameChar {c : Char} (h : isNameChar c = true) :
    (isWord c || c == '-') = true := by
  rw [isWord, if_pos (isNameChar_range h).2]
  exact h

theorem takeName?_shape {cs name rest : List Char} (h : takeName? cs = some (name, rest)) :
    cs = name ++ rest ∧ name.head? = some '-' ∧ ∀ c ∈ name, isNameChar c = true := by
  obtain ⟨afterDashes, hdashes, h⟩ := Option.bind_eq_some_iff.mp h
  obtain ⟨⟨run, left⟩, hrun, h⟩ := Option.bind_eq_some_iff.mp h
  cases h
  obtain ⟨-, rfl, rfl⟩ := takeRun?_eq_some_iff.mp hrun
  refine ⟨?_, rfl, ?_⟩
  · rw [dropLiteral?_eq_some_iff.mp hdashes]
    exact congrArg ('-' :: '-' :: ·) List.takeWhile_append_dropWhile.symm
  · intro c hc
    rcases List.mem_cons.mp hc with rfl | hc
    · decide
    · rcases List.mem_cons.mp hc with rfl | hc
      · decide
      · exact List.all_eq_true.mp List.all_takeWhile c hc

theorem declaration_parts {before : Option Char} {cs left : List Char} {d : Declared}
    (h : declaration before cs = some (d, left)) :
    ∃ blanks gap, cs = (d.name ++ (blanks ++ ':' :: gap)) ++ (d.value ++ ';' :: left) ∧
      d.lead = (d.name ++ (blanks ++ ':' :: gap)).length ∧ d.name.head? = some '-' ∧
      (∀ c ∈ d.name, isNameChar c = true) ∧ (∀ c ∈ blanks, isBlank c = true) ∧
      (∀ c ∈ gap, isBlank c = true) ∧ ';' ∉ d.value ∧
      ∀ a ∈ d.value.head?, isBlank a = false := by
  rw [declaration, Option.ite_none_left_eq_some] at h
  obtain ⟨⟨name, afterName⟩, hname, h⟩ := Option.bind_eq_some_iff.mp h.2
  obtain ⟨afterColon, hcolon, h⟩ := Option.bind_eq_some_iff.mp h
  obtain ⟨⟨value, semicolon⟩, hvalue, h⟩ := Option.bind_eq_some_iff.mp h
  obtain ⟨left', hsemicolon, h⟩ := Option.bind_eq_some_iff.mp h
  cases h
  rw [dropLiteral?_eq_some_iff] at hcolon hsemicolon
  obtain ⟨hcs, hhead, hchars⟩ := takeName?_shape hname
  obtain ⟨blanks, hblanks, hblank⟩ := trimLeft_takes afterName
  obtain ⟨gap, hgap, hgapblank⟩ := trimLeft_takes afterColon
  have htext : trimLeft afterColon = trimLeft value ++ ';' :: left := by
    rw [takeRun?_append hvalue, hsemicolon]
    exact trimLeft_append_stop (by decide) value left
  have hwhole : cs = (name ++ (blanks ++ ':' :: gap)) ++ trimLeft afterColon := by
    rw [hcs, hblanks, hcolon]
    conv_lhs => rw [hgap]
    simp
  have hvalue' : ';' ∉ trimLeft value := by
    obtain ⟨-, hrun, -⟩ := takeRun?_eq_some_iff.mp hvalue
    intro hmem
    have hin := (List.dropWhile_suffix isBlank).mem hmem
    rw [hrun] at hin
    exact absurd (List.all_eq_true.mp List.all_takeWhile _ hin) (by decide)
  refine ⟨blanks, gap, ?_, ?_, hhead, hchars, hblank, hgapblank, hvalue',
    isBlank_head_trimLeft value⟩
  · rw [hwhole, htext]
  · dsimp only
    rw [hwhole, consumed_append]

/-- The value of a declaration stands between a colon or a blank and the
semicolon, and starts with no blank. -/
theorem declaration_shape {before : Option Char} {cs left : List Char} {d : Declared}
    (h : declaration before cs = some (d, left)) :
    ∃ front c, cs = front ++ c :: (d.value ++ ';' :: left) ∧ d.lead = front.length + 1 ∧
      isNameChar c = false ∧ ∀ a ∈ d.value.head?, isBlank a = false := by
  obtain ⟨blanks, gap, hcs, hlead, -, -, -, hgap, -, hhead⟩ := declaration_parts h
  obtain ⟨front, c, hfront, hc⟩ : ∃ front c,
      d.name ++ (blanks ++ ':' :: gap) = front ++ [c] ∧ isNameChar c = false := by
    rcases List.eq_nil_or_concat gap with rfl | ⟨init, c, rfl⟩
    · exact ⟨d.name ++ blanks, ':', by simp, by decide⟩
    · refine ⟨d.name ++ (blanks ++ ':' :: init), c, by simp, isNameChar_of_isBlank (hgap c ?_)⟩
      simp
  rw [hfront] at hcs hlead
  refine ⟨front, c, ?_, ?_, hc, hhead⟩
  · rw [hcs, List.append_assoc, List.singleton_append]
  · rw [hlead, List.length_append]
    rfl

/-- A definition as it stands in a text. -/
structure Defined.Stands (text : List Char) (d : Defined) : Prop where
  value : Color.IsLeading d.value
  unblank : ∀ c ∈ d.value.head?, isBlank c = false
  preceded : ∃ k c, k + 1 = d.start ∧ isNameChar c = false ∧ StandsAt (c :: d.value) text k

theorem stands_of_mem_definitions {text : List Char} {d : Defined} (h : d ∈ definitions text) :
    d.Stands text := by
  obtain ⟨t, ht, hd⟩ := List.mem_filterMap.mp h
  obtain ⟨color, hcolor, hd⟩ := Option.bind_eq_some_iff.mp hd
  cases hd
  obtain ⟨done, rest, left, rfl, hstart, hr, -⟩ := taken_of_mem_tokens ht
  obtain ⟨front, c, rfl, hlead, hc, hhead⟩ := declaration_shape hr
  obtain ⟨⟨more, hmore⟩, hleading⟩ := Color.leading?_shape hcolor
  refine ⟨hleading, ?_, (done ++ front).length, c, ?_, hc, ?_⟩
  · rw [← hmore, List.head?_append_of_ne_nil _ hleading.ne_nil] at hhead
    exact hhead
  · rw [List.length_append, hstart, hlead]
    rfl
  · have h := standsAt_append (done ++ front) (c :: color) (more ++ ';' :: left)
    rw [← hmore]
    simpa using h

theorem Defined.Stands.start_lt_stop {text : List Char} {d : Defined} (h : d.Stands text) :
    d.start < d.stop :=
  Nat.lt_add_of_pos_right (List.length_pos_iff.mpr h.value.ne_nil)

theorem definitions_apart (text : List Char) :
    (definitions text).Pairwise fun d e => d.stop ≤ e.start := by
  have h := tokens_pairwise_part declaration Declared.lead (fun d => d.value.length) text
    fun before cs d left hd => by
      obtain ⟨front, c, rfl, hlead, -⟩ := declaration_shape hd
      simp only [consumed, List.length_append, List.length_cons]
      omega
  refine List.pairwise_filterMap.mpr (h.imp fun htu d hd e he => ?_)
  obtain ⟨color, hcolor, hd⟩ := Option.bind_eq_some_iff.mp hd
  obtain ⟨_, -, he⟩ := Option.bind_eq_some_iff.mp he
  cases hd
  cases he
  have hle := (Color.leading?_shape hcolor).1.length_le
  simp only [Defined.stop]
  omega

theorem definitions_pairwise (text : List Char) :
    (definitions text).Pairwise fun d e => d.start < e.start := by
  refine (List.Pairwise.and_mem.mp (definitions_apart text)).imp ?_
  rintro d e ⟨hd, -, h⟩
  exact Nat.lt_of_lt_of_le (stands_of_mem_definitions hd).start_lt_stop h

/-! ## References -/

/-- What may follow the name of a reference. -/
def isClosing (c : Char) : Bool := isBlank c || c == ',' || c == ')'

/-- The name in a reference stands behind the parenthesis and blanks, and before
a blank or the end of the reference. -/
theorem reference_shape {before : Option Char} {cs left name : List Char} {lead : Nat}
    (h : reference before cs = some ((name, lead), left)) :
    ∃ blanks c after, cs = ['v', 'a'] ++ ('r' :: '(' :: (blanks ++ (name ++ c :: after))) ∧
      lead = blanks.length + 4 ∧ left.length ≤ after.length ∧ isClosing c = true ∧
      (∀ b ∈ blanks, isBlank b = true) ∧ name.head? = some '-' ∧
      ∀ b ∈ name, isNameChar b = true := by
  obtain ⟨args, hargs, h⟩ := Option.bind_eq_some_iff.mp h
  obtain ⟨⟨name', afterName⟩, hname, h⟩ := Option.bind_eq_some_iff.mp h
  obtain ⟨left', hleft, h⟩ := Option.bind_eq_some_iff.mp h
  cases h
  obtain ⟨hargs', hhead, hchars⟩ := takeName?_shape hname
  obtain ⟨blanks, hblanks, hblank⟩ := trimLeft_takes args
  obtain ⟨gap, hgap, hgapblank⟩ := trimLeft_takes afterName
  obtain ⟨close, hclose, hend⟩ := dropOne?_eq_some_iff.mp hleft
  have hcloses : isClosing close = true := by rw [isClosing, Bool.or_assoc, hend, Bool.or_true]
  obtain ⟨c, after, hafter, hlength, hc⟩ : ∃ c after, afterName = c :: after ∧
      left.length ≤ after.length ∧ isClosing c = true := by
    rw [hgap, hclose]
    cases gap with
    | nil => exact ⟨close, left, rfl, Nat.le_refl _, hcloses⟩
    | cons b gap =>
        refine ⟨b, gap ++ close :: left, rfl, ?_, ?_⟩
        · simp only [List.length_append, List.length_cons]
          omega
        · rw [isClosing, hgapblank b List.mem_cons_self]
          rfl
  have hcs : cs = (['v', 'a', 'r', '('] ++ blanks) ++ trimLeft args := by
    rw [dropLiteral?_eq_some_iff.mp hargs, List.append_assoc, ← hblanks]
    rfl
  refine ⟨blanks, c, after, ?_, ?_, hlength, hc, hblank, hhead, hchars⟩
  · rw [hcs, hargs', hafter]
    simp
  · rw [hcs, consumed_append, List.length_append, Nat.add_comm]
    rfl

/-- A reference as it stands in a text. -/
structure Referred.Stands (text : List Char) (r : Referred) : Prop where
  head : r.name.head? = some '-'
  chars : ∀ c ∈ r.name, isNameChar c = true
  enclosed : ∃ k blanks c, StandsAt ('r' :: '(' :: (blanks ++ (r.name ++ [c]))) text k ∧
    k + 2 + blanks.length = r.start ∧ (∀ b ∈ blanks, isBlank b = true) ∧ isClosing c = true

theorem stands_of_mem_references {text : List Char} {r : Referred} (h : r ∈ references text) :
    r.Stands text := by
  obtain ⟨⟨start, piece, name, lead⟩, ht, rfl⟩ := List.mem_map.mp h
  obtain ⟨done, rest, left, rfl, hstart, hr, -⟩ := taken_of_mem_tokens ht
  obtain ⟨blanks, c, after, rfl, rfl, -, hc, hblank, hhead, hchars⟩ := reference_shape hr
  refine ⟨hhead, hchars, (done ++ ['v', 'a']).length, blanks, c, ?_, ?_, hblank, hc⟩
  · have h := standsAt_append (done ++ ['v', 'a']) ('r' :: '(' :: (blanks ++ (name ++ [c]))) after
    simpa using h
  · simp only [List.length_append, List.length_cons, List.length_nil] at hstart ⊢
    omega

theorem Referred.Stands.name_ne_nil {text : List Char} {r : Referred} (h : r.Stands text) :
    r.name ≠ [] := by
  obtain ⟨name, hname⟩ := List.head?_eq_some_iff.mp h.head
  rw [hname]
  exact List.cons_ne_nil _ _

theorem Referred.Stands.start_lt_stop {text : List Char} {r : Referred} (h : r.Stands text) :
    r.start < r.stop :=
  Nat.lt_add_of_pos_right (List.length_pos_iff.mpr h.name_ne_nil)

theorem references_apart (text : List Char) :
    (references text).Pairwise fun p q => p.stop ≤ q.start := by
  have h := tokens_pairwise_part reference (fun value => value.2) (fun value => value.1.length) text
    fun before cs value left hr => by
      obtain ⟨blanks, c, after, rfl, hlead, hlength, -⟩ := reference_shape hr
      simp only [consumed, List.length_append, List.length_cons]
      omega
  exact List.pairwise_map.mpr h

theorem references_pairwise (text : List Char) :
    (references text).Pairwise fun p q => p.start < q.start := by
  refine (List.Pairwise.and_mem.mp (references_apart text)).imp ?_
  rintro p q ⟨hp, -, h⟩
  exact Nat.lt_of_lt_of_le (stands_of_mem_references hp).start_lt_stop h

/-! ## Values, names and literals are apart -/

variable {text : List Char} {d : Defined} {r : Referred}

theorem Defined.Stands.standsAt (h : d.Stands text) : StandsAt d.value text d.start := by
  obtain ⟨k, c, hk, -, hstands⟩ := h.preceded
  have hvalue : StandsAt ([c] ++ d.value) text k := hstands
  rw [← hk]
  exact hvalue.right

theorem Referred.Stands.standsAt (h : r.Stands text) : StandsAt r.name text r.start := by
  obtain ⟨k, blanks, c, hstands, hk, -⟩ := h.enclosed
  have hname : StandsAt (['r', '('] ++ (blanks ++ (r.name ++ [c]))) text k := hstands
  rw [← hk]
  exact hname.right.right.left

theorem Referred.Stands.closed (h : r.Stands text) :
    ∃ c, text[r.stop]? = some c ∧ isClosing c = true := by
  obtain ⟨k, blanks, c, hstands, hk, -, hc⟩ := h.enclosed
  have hclose : StandsAt (['r', '('] ++ (blanks ++ (r.name ++ [c]))) text k := hstands
  refine ⟨c, ?_, hc⟩
  rw [Referred.stop, ← hk]
  exact hclose.right.right.right.head rfl

theorem Referred.Stands.outside (h : r.Stands text) {i : Nat} {c : Char}
    (hi : text[i]? = some c) (hc : isNameChar c = false) : i < r.start ∨ r.stop ≤ i := by
  refine h.standsAt.outside hi fun hmem => ?_
  rw [h.chars c hmem] at hc
  cases hc

/-- The value of a definition has no place in common with the name in a
reference. -/
theorem Defined.Stands.apart_referred (hd : d.Stands text) (hr : r.Stands text) :
    Apart (d.start, d.stop) (r.start, r.stop) := by
  obtain ⟨k, c, hk, hc, hstands⟩ := hd.preceded
  obtain ⟨o, blanks, c', henclosed, ho, hblank, -⟩ := hr.enclosed
  have hletter : text[o]? = some 'r' := henclosed.head rfl
  have hparen : text[o + 1]? = some '(' := henclosed.getElem? (i := 1) (by simp)
  have hblanks : StandsAt blanks text (o + 2) := by
    have h : StandsAt (['r', '('] ++ (blanks ++ (r.name ++ [c']))) text o := henclosed
    exact h.right.left
  obtain ⟨v, value, hvalue⟩ := List.exists_cons_of_ne_nil hd.value.ne_nil
  have hfirst : text[d.start]? = some v := hd.standsAt.head (by rw [hvalue]; rfl)
  have hv : isBlank v = false := hd.unblank v (by rw [hvalue]; rfl)
  -- The character before the value is not in the name.
  rcases hr.outside (hstands.head rfl) hc with hbefore | hafter
  · rcases Nat.lt_trichotomy d.start r.start with hlt | heq | hgt
    · rcases Nat.lt_or_ge (o + 1) d.start with hopen | hopen
      · obtain ⟨b, hb, htext⟩ := hblanks.exists_mem (i := d.start) (by omega) (by omega)
        cases hfirst.symm.trans htext
        rw [hblank v hb] at hv
        cases hv
      · refine .inl (Nat.le_of_not_lt fun hstop => ?_)
        have hstop' : o + 1 - d.start < d.value.length := by
          rw [Defined.stop] at hstop
          omega
        have hinside : d.value[o + 1 - d.start]? = some '(' := by
          rw [← hd.standsAt.getElem? hstop', ← hparen]
          congr 1
          omega
        obtain ⟨j, x, hj, hx, hne⟩ := hd.value.before_paren hinside
        have hr' : text[d.start + j]? = some x := by
          rw [hd.standsAt.getElem? (by omega), hx]
        rw [show d.start + j = o by omega, hletter] at hr'
        exact hne (Option.some.inj hr').symm
    · have hdash : text[r.start]? = some '-' := hr.standsAt.head hr.head
      rw [← heq, hfirst] at hdash
      refine absurd ?_ hd.value.head?_ne
      rw [hvalue, List.head?_cons, hdash]
    · omega
  · refine .inr ?_
    dsimp only
    omega

/-- A literal has no place in common with the name in a reference. It starts
before the name, which starts with a dash. Then the name ends before the first
character of the literal that is no name character, and what follows the name
is none of the letters on the way. -/
theorem Referred.Stands.apart_literal {piece : List Char} {a : Nat} (hr : r.Stands text)
    (hliteral : Color.IsLiteral piece) (hstands : StandsAt piece text a) :
    Apart (a, a + piece.length) (r.start, r.stop) := by
  rcases hstands.outside (hr.standsAt.head hr.head) hliteral.dash_not_mem with hbefore | hafter
  · obtain ⟨letters, c, rest, rfl, hc, hletters⟩ := hliteral.opening
    have hopening : text[a + letters.length]? = some c := hstands.right.head rfl
    have hname : isNameChar c = false := by rcases hc with rfl | rfl <;> rfl
    have hstop : r.stop ≤ a + letters.length := by
      rcases hr.outside hopening hname with h | h
      · omega
      · exact h
    refine .inr (Nat.le_of_not_lt fun hinside => ?_)
    have hstart : StandsAt (letters ++ [c]) text a := by
      rw [List.append_cons] at hstands
      exact hstands.left
    obtain ⟨x, hx, htext⟩ := hstart.exists_mem (Nat.le_of_lt hinside) (by simpa using by omega)
    obtain ⟨y, htext', hclosing⟩ := hr.closed
    cases htext.symm.trans htext'
    have hnone : (['r', 'g', 'b', 'h', 's', 'l', 'a'].all fun x => !isClosing x) = true := by decide
    rcases List.mem_append.mp hx with hx | hx
    · have hopen := List.all_eq_true.mp hnone x (hletters hx)
      rw [hclosing] at hopen
      cases hopen
    · rw [List.mem_singleton.mp hx] at hclosing
      rcases hc with rfl | rfl
      · cases hclosing
      · cases hclosing
  · exact .inl hafter

end Variable

end ColorCensus
