import ColorCensus.Proofs.Variables

/-!
# A literal that overlaps a value lies inside it

The value of a definition and a color literal follow different grammars, and a literal may stand
anywhere in a value. Still none of them sticks out.

A hexadecimal value goes on as long as the word does, and so does every literal that starts at
its `#`. Two functions that overlap have their parentheses in common, because each has only
one pair and overlaps the other at its end. Then the literal could only stick out with the
start of its name, and no name of a function ends in another one.
-/

namespace ColorCensus

open Text

/-- A span lies inside another one. -/
def Within (p q : Nat × Nat) : Prop := q.1 ≤ p.1 ∧ p.2 ≤ q.2

namespace Color

/-! ## Functions and their parentheses -/

def isParen (c : Char) : Bool := c == '(' || c == ')'

/-- A name and arguments in parentheses, with no other parentheses in it. -/
def IsCall (fn piece : List Char) : Prop :=
  ∃ args, piece = fn ++ '(' :: (args ++ [')']) ∧ (∀ c ∈ fn, isParen c = false) ∧
    ∀ c ∈ args, isParen c = false

namespace IsCall

variable {fn piece text : List Char} {a : Nat}

theorem length_lt (h : IsCall fn piece) : fn.length + 1 < piece.length := by
  obtain ⟨args, rfl, -⟩ := h
  simp only [List.length_append, List.length_cons, List.length_nil]
  omega

theorem opens (h : IsCall fn piece) (hstands : StandsAt piece text a) :
    text[a + fn.length]? = some '(' := by
  obtain ⟨args, rfl, -⟩ := h
  exact hstands.right.head rfl

theorem closes (h : IsCall fn piece) (hstands : StandsAt piece text a) :
    text[a + piece.length - 1]? = some ')' := by
  obtain ⟨args, rfl, -⟩ := h
  have hclose : StandsAt ((fn ++ '(' :: args) ++ [')']) text a := by
    rwa [List.append_assoc, List.cons_append]
  rw [← hclose.right.head rfl]
  congr 1
  simp
  omega

theorem paren_place (h : IsCall fn piece) (hstands : StandsAt piece text a) {i : Nat} {c : Char}
    (hi : a ≤ i) (hstop : i < a + piece.length) (hc : text[i]? = some c)
    (hparen : isParen c = true) :
    c = '(' ∧ i = a + fn.length ∨ c = ')' ∧ i = a + piece.length - 1 := by
  obtain ⟨args, rfl, hfn, hargs⟩ := h
  have hname : StandsAt fn text a := hstands.left
  have hopen : text[a + fn.length]? = some '(' := hstands.right.head rfl
  have hinside : StandsAt args text (a + fn.length + 1) := by
    have h : StandsAt (fn ++ (['('] ++ (args ++ [')']))) text a := hstands
    exact h.right.right.left
  have hnoname := hname.outside hc fun hmem => by rw [hfn c hmem] at hparen; cases hparen
  have hnoargs := hinside.outside hc fun hmem => by rw [hargs c hmem] at hparen; cases hparen
  simp only [List.length_append, List.length_cons, List.length_nil] at hstop ⊢
  have hplace : i = a + fn.length ∨ i = a + fn.length + 1 + args.length := by omega
  rcases hplace with rfl | rfl
  · exact .inl ⟨Option.some.inj (hc.symm.trans hopen), rfl⟩
  · refine .inr ⟨?_, by omega⟩
    have hclose := closes ⟨args, rfl, hfn, hargs⟩ hstands
    simp only [List.length_append, List.length_cons, List.length_nil] at hclose
    rw [show a + (fn.length + (args.length + 1 + 1)) - 1 = a + fn.length + 1 + args.length by omega,
      hc] at hclose
    exact Option.some.inj hclose

/-- Two calls that overlap have their parentheses in common. -/
theorem shared {gn other : List Char} {b : Nat} (h : IsCall fn piece) (h' : IsCall gn other)
    (hstands : StandsAt piece text a) (hstands' : StandsAt other text b)
    (meet : ¬ Apart (a, a + piece.length) (b, b + other.length)) :
    a + fn.length = b + gn.length ∧ a + piece.length = b + other.length := by
  have hlength := h.length_lt
  have hlength' := h'.length_lt
  simp only [Apart, not_or, Nat.not_le] at meet
  have hne {P : Prop} : ¬ ('(' = ')' ∧ P) := fun hboth => absurd hboth.1 (by decide)
  have hne' {P : Prop} : ¬ (')' = '(' ∧ P) := fun hboth => absurd hboth.1 (by decide)
  -- A parenthesis of one call at a place of the other is the same one there.
  have hopen : a ≤ b + gn.length → b + gn.length < a + piece.length →
      b + gn.length = a + fn.length := fun hi hstop =>
    ((h.paren_place hstands hi hstop (h'.opens hstands') rfl).resolve_right hne).2
  have hclose : a ≤ b + other.length - 1 → b + other.length - 1 < a + piece.length →
      b + other.length - 1 = a + piece.length - 1 := fun hi hstop =>
    ((h.paren_place hstands hi hstop (h'.closes hstands') rfl).resolve_left hne').2
  have hopen' : b ≤ a + fn.length → a + fn.length < b + other.length →
      a + fn.length = b + gn.length := fun hi hstop =>
    ((h'.paren_place hstands' hi hstop (h.opens hstands) rfl).resolve_right hne).2
  have hclose' : b ≤ a + piece.length - 1 → a + piece.length - 1 < b + other.length →
      a + piece.length - 1 = b + other.length - 1 := fun hi hstop =>
    ((h'.paren_place hstands' hi hstop (h.closes hstands) rfl).resolve_left hne').2
  omega

end IsCall

/-! ## Names of functions -/

/-- The letters that a name of a color function goes on with. -/
def laterLetters : List Char := ['g', 'b', 's', 'l', 'a']

theorem not_isParen_of_isArgument {c : Char} (h : isArgument c = true) : isParen c = false := by
  by_contra hparen
  rw [Bool.not_eq_false, isParen, Bool.or_eq_true, beq_iff_eq, beq_iff_eq] at hparen
  rcases hparen with rfl | rfl
  · exact absurd h (by decide)
  · exact absurd h (by decide)

theorem IsFunction.isCall {first : Char} {rest piece : List Char}
    (h : IsFunction (first :: rest) piece) (hname : (first :: rest).all (!isParen ·) = true)
    (hrest : rest ⊆ laterLetters) : ∃ more ⊆ laterLetters, IsCall (first :: more) piece := by
  obtain ⟨fn, args, hfn, rfl, hargs⟩ := h
  have hargs' : ∀ c ∈ args, isParen c = false :=
    fun c hc => not_isParen_of_isArgument (hargs c hc)
  have hname' : ∀ c ∈ first :: rest, isParen c = false := fun c hc => by
    simpa using List.all_eq_true.mp hname c hc
  rcases hfn with rfl | rfl
  · exact ⟨rest, hrest, args, rfl, hname', hargs'⟩
  · refine ⟨rest ++ ['a'], List.append_subset.mpr ⟨hrest, by decide⟩, args, rfl, ?_, hargs'⟩
    rw [← List.cons_append]
    intro c hc
    rcases List.mem_append.mp hc with hc | hc
    · exact hname' c hc
    · rw [List.mem_singleton.mp hc]
      rfl

theorem IsLiteral.isCall {piece : List Char} (h : IsLiteral piece) :
    IsHex piece ∨
      '#' ∉ piece ∧ ∃ first ∈ ['r', 'h'], ∃ more ⊆ laterLetters, IsCall (first :: more) piece := by
  rcases h with h | h | h
  · exact .inl h
  · exact .inr ⟨h.not_mem (by decide) (by decide) (by decide), 'r', by decide,
      h.isCall (by decide) (by decide)⟩
  · exact .inr ⟨h.not_mem (by decide) (by decide) (by decide), 'h', by decide,
      h.isCall (by decide) (by decide)⟩

/-- The letters that a name of a color function starts with, in either case. -/
def firstLetters : List Char := ['r', 'R', 'h', 'H']

/-- How the color at the start of a value is written: a hexadecimal one at the end of a word, or
a call. -/
def IsLeadingOf (value rest : List Char) : Prop :=
  IsHex value ∧ endsWord rest = true ∨
    ∃ first ∈ firstLetters, ∃ more, IsCall (first :: more) value

theorem mem_firstLetters {c : Char} (h : isLetter 'r' c = true ∨ isLetter 'h' c = true) :
    c ∈ firstLetters := by
  have hr : ('r' == 's' : Bool) = false := rfl
  have hh : ('h' == 's' : Bool) = false := rfl
  simp only [isLetter, hr, hh, Bool.false_and, Bool.or_false, Bool.or_eq_true, Bool.and_eq_true,
    beq_iff_eq] at h
  rcases h with (rfl | ⟨-, h⟩) | rfl | ⟨-, h⟩
  · decide
  · rw [Char.toNat_inj.mp (show c.toNat = 'R'.toNat by simpa using h)]
    decide
  · decide
  · rw [Char.toNat_inj.mp (show c.toNat = 'H'.toNat by simpa using h)]
    decide

theorem Spells.name_first {name fn : List Char} (h : Spells name fn)
    (hname : name ∈ functionNames) : ∃ first ∈ firstLetters, ∃ more, fn = first :: more := by
  have hfirst : ∀ name ∈ functionNames, name.head? = some 'r' ∨ name.head? = some 'h' := by decide
  cases h with
  | nil => exact absurd hname (by decide)
  | cons hletter _ =>
      refine ⟨_, mem_firstLetters ?_, _, rfl⟩
      rcases hfirst _ hname with h | h
      · cases h
        exact .inl hletter
      · cases h
        exact .inr hletter

theorem dropFunction?_isCall {cs left : List Char} (h : dropFunction? cs = some left) :
    ∃ piece, cs = piece ++ left ∧ ∃ first ∈ firstLetters, ∃ more, IsCall (first :: more) piece := by
  obtain ⟨fn, args, rfl, hargs, name, hname, hspells⟩ := dropFunction?_parts h
  obtain ⟨first, hfirst, more, rfl⟩ := hspells.name_first hname
  refine ⟨first :: more ++ '(' :: (args ++ [')']), by simp, first, hfirst, more, args, rfl, ?_,
    hargs⟩
  intro c hc
  by_contra hparen
  rw [Bool.not_eq_false, isParen, Bool.or_eq_true, beq_iff_eq, beq_iff_eq] at hparen
  rcases hparen with rfl | rfl
  · exact hspells.name_not_mem hname (by decide) hc
  · exact hspells.name_not_mem hname (by decide) hc

theorem dropHex?_endsWord {cs left : List Char} (h : dropHex? cs = some left) :
    endsWord left = true := by
  obtain ⟨rest, -, h⟩ := Option.bind_eq_some_iff.mp h
  obtain ⟨-, h⟩ := Option.ite_none_right_eq_some.mp h
  cases h
  have hhead := List.head?_dropWhile_not isWord rest
  cases hrest : (rest.dropWhile isWord).head? with
  | none => rw [endsWord, hrest]; rfl
  | some c =>
      rw [hrest] at hhead
      rw [endsWord, hrest, Option.any_some, hhead]
      rfl

theorem leading?_leadingOf {text value : List Char} (h : leading? text = some value) :
    ∃ rest, text = value ++ rest ∧ IsLeadingOf value rest := by
  obtain ⟨rest, hrest, h⟩ := Option.bind_eq_some_iff.mp h
  cases h
  obtain ⟨piece, rfl, hpiece⟩ : ∃ piece, text = piece ++ rest ∧ IsLeadingOf piece rest := by
    rcases Option.or_eq_some_iff.mp hrest with hrest | ⟨-, hrest⟩
    · obtain ⟨piece, htext, hpiece⟩ := dropHex?_shape hrest
      exact ⟨piece, htext, .inl ⟨hpiece, dropHex?_endsWord hrest⟩⟩
    · obtain ⟨piece, htext, hpiece⟩ := dropFunction?_isCall hrest
      exact ⟨piece, htext, .inr hpiece⟩
  rw [consumed_append, List.take_left]
  exact ⟨rest, rfl, hpiece⟩

/-! ## A literal that overlaps a value -/

section

variable {value rest piece text : List Char} {a b : Nat}

/-- Two hexadecimal colors that overlap start at the same `#`, and neither can
go on where the word of the other one ends. -/
theorem hex_holds_hex (hvalue : IsHex value) (hend : endsWord rest = true)
    (htext : text.drop a = value ++ rest) (hpiece : IsHex piece) (stands : StandsAt piece text b) :
    Apart (a, a + value.length) (b, b + piece.length) ∨
      Within (b, b + piece.length) (a, a + value.length) := by
  have standsValue : StandsAt value text a := ⟨rest, htext.symm⟩
  obtain ⟨run, rfl, hrun⟩ := hvalue
  obtain ⟨digits, rfl, hdigits⟩ := hpiece
  have hhash : '#' ∉ run := fun h => absurd (hrun _ h) (by decide)
  have hhash' : '#' ∉ digits := fun h => absurd (hdigits _ h) (by decide)
  have hrunstands : StandsAt run text (a + 1) :=
    (show StandsAt (['#'] ++ run) text a from standsValue).right
  have hdigitstands : StandsAt digits text (b + 1) :=
    (show StandsAt (['#'] ++ digits) text b from stands).right
  have hb := hrunstands.outside (stands.head rfl) hhash
  have ha := hdigitstands.outside (standsValue.head rfl) hhash'
  simp only [List.length_cons, Apart, Within]
  rcases Nat.lt_trichotomy a b with hlt | rfl | hgt
  · omega
  · refine .inr ⟨Nat.le_refl _, Nat.le_of_not_lt fun hlonger => ?_⟩
    obtain ⟨c, hc, hplace⟩ :=
      hdigitstands.exists_mem (i := a + (run.length + 1)) (by omega) (by omega)
    have hnext : rest.head? = some c := by
      rw [← hplace, ← List.getElem?_drop, htext, List.head?_eq_getElem?]
      exact (List.getElem?_append_right (Nat.le_refl _)).symm ▸ by simp
    rw [endsWord, hnext, Option.any_some, isWord_of_isHexDigit (hdigits c hc)] at hend
    cases hend
  · omega

/-- A hexadecimal color that overlaps a call starts inside of it, and ends
before the parenthesis does. -/
theorem call_holds_hex {first : Char} {more : List Char} (hfirst : first ∈ firstLetters)
    (hcall : IsCall (first :: more) value) (standsValue : StandsAt value text a)
    (hpiece : IsHex piece) (stands : StandsAt piece text b) :
    Apart (a, a + value.length) (b, b + piece.length) ∨
      Within (b, b + piece.length) (a, a + value.length) := by
  have hdigit : ∀ c ∈ firstLetters, c ≠ '#' ∧ isHexDigit c = false := by
    simp [firstLetters, isHexDigit, isAsciiDigit]
  have hstart : text[a]? = some first := by
    obtain ⟨args, rfl, -⟩ := hcall
    exact standsValue.head rfl
  have ha := stands.outside hstart (hpiece.not_mem (hdigit first hfirst).1 (hdigit first hfirst).2)
  have hclose := stands.outside (hcall.closes standsValue) (hpiece.not_mem (by decide) (by decide))
  have hlength := hcall.length_lt
  simp only [Apart, Within]
  omega

/-- Of two calls that overlap the second one does not start earlier, as the
first letter of the one is no later letter of the other. -/
theorem call_holds_call {first : Char} {more name : List Char} {c : Char}
    (hfirst : first ∈ firstLetters) (hcall : IsCall (first :: more) value)
    (standsValue : StandsAt value text a) (hname : name ⊆ laterLetters)
    (hcall' : IsCall (c :: name) piece) (stands : StandsAt piece text b) :
    Apart (a, a + value.length) (b, b + piece.length) ∨
      Within (b, b + piece.length) (a, a + value.length) := by
  refine or_iff_not_imp_left.mpr fun meet => ?_
  obtain ⟨hopen, hstop⟩ := hcall.shared hcall' standsValue stands meet
  simp only [List.length_cons] at hopen
  refine ⟨Nat.le_of_not_lt fun hbefore => ?_, Nat.le_of_eq hstop.symm⟩
  have hstart : text[a]? = some first := by
    obtain ⟨args, rfl, -⟩ := hcall
    exact standsValue.head rfl
  have hnamestands : StandsAt name text (b + 1) := by
    obtain ⟨args, rfl, -⟩ := hcall'
    have h : StandsAt ([c] ++ name) text b := stands.left
    exact h.right
  obtain ⟨x, hx, hplace⟩ := hnamestands.exists_mem (i := a) (by omega) (by omega)
  cases hstart.symm.trans hplace
  have hnone : ∀ c ∈ firstLetters, c ∉ laterLetters := by simp [firstLetters, laterLetters]
  exact hnone first hfirst (hname hx)

theorem IsLeadingOf.holds (hvalue : IsLeadingOf value rest)
    (htext : text.drop a = value ++ rest) (hpiece : IsLiteral piece)
    (stands : StandsAt piece text b) :
    Apart (a, a + value.length) (b, b + piece.length) ∨
      Within (b, b + piece.length) (a, a + value.length) := by
  have standsValue : StandsAt value text a := ⟨rest, htext.symm⟩
  rcases hvalue with ⟨hhex, hend⟩ | ⟨first, hfirst, more, hcall⟩
  · rcases hpiece.isCall with hhex' | ⟨hhash, first', hfirst', name, -, hcall'⟩
    · exact hex_holds_hex hhex hend htext hhex' stands
    · have hdigit : ∀ c ∈ ['r', 'h'], c ≠ '#' ∧ isHexDigit c = false := by
        simp [isHexDigit, isAsciiDigit]
      have hhead : piece.head? = some first' := by
        obtain ⟨args, rfl, -⟩ := hcall'
        rfl
      exact .inl (standsValue.apart stands hhex.head? hhead hhash
        (hhex.not_mem (hdigit first' hfirst').1 (hdigit first' hfirst').2))
  · rcases hpiece.isCall with hhex' | ⟨-, first', -, name, hname, hcall'⟩
    · exact call_holds_hex hfirst hcall standsValue hhex' stands
    · exact call_holds_call hfirst hcall standsValue hname hcall' stands

end

end Color

/-! ## Values of definitions -/

namespace Variable

theorem leadingOf_of_mem_definitions {text : List Char} {d : Defined}
    (h : d ∈ definitions text) :
    ∃ rest, text.drop d.start = d.value ++ rest ∧ Color.IsLeadingOf d.value rest := by
  obtain ⟨t, ht, hd⟩ := List.mem_filterMap.mp h
  obtain ⟨color, hcolor, hd⟩ := Option.bind_eq_some_iff.mp hd
  cases hd
  obtain ⟨done, _, left, rfl, hstart, hr, -⟩ := taken_of_mem_tokens ht
  obtain ⟨front, c, rfl, hlead, -⟩ := declaration_shape hr
  obtain ⟨more, hmore, hleading⟩ := Color.leading?_leadingOf hcolor
  refine ⟨more ++ ';' :: left, ?_, ?_⟩
  · have htext : done ++ (front ++ c :: (t.value.value ++ ';' :: left)) =
        (done ++ front ++ [c]) ++ (color ++ (more ++ ';' :: left)) := by
      rw [hmore]
      simp
    have hlength : t.start + t.value.lead = (done ++ front ++ [c]).length := by
      rw [hstart, hlead]
      simp
    dsimp only
    rw [htext, hlength, List.drop_left]
  · refine hleading.imp_left fun h => ⟨h.1, ?_⟩
    cases more with
    | nil => rfl
    | cons d more => exact h.2

theorem apart_or_within_of_mem_literals {text : List Char} {d : Defined} {t : Token Unit}
    (hd : d ∈ definitions text) (ht : t ∈ Color.literals text) :
    Apart (d.start, d.stop) t.span ∨ Within t.span (d.start, d.stop) := by
  obtain ⟨rest, htext, hleading⟩ := leadingOf_of_mem_definitions hd
  obtain ⟨hstands, hliteral⟩ := Color.standsAt_of_mem_literals ht
  exact hleading.holds htext hliteral hstands

end Variable

end ColorCensus
