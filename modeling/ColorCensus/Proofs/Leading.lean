import ColorCensus.Proofs.Declarations
import ColorCensus.Proofs.Enclosure
import ColorCensus.Proofs.Hexadecimal

/-!
# A literal leads where it starts

Literals are recognised by three strict grammars, and the color at the start of a value by a loose
one. Whatever the strict ones take, the loose one takes as well and ends at the same character. A
hexadecimal color goes on as long as the word does in both. A color function has no parenthesis
between its two, so the loose grammar, which knows nothing of arguments, closes it where the strict
one does.

So a literal may be moved into a declaration: where it is the value, or the start of it, the
declaration defines the whole of that color. A hexadecimal color needs one thing for this, that the
word ends behind it there too.
-/

namespace ColorCensus

open Text

namespace Text

theorem not_isWord_of_isBlank {c : Char} (h : isBlank c = true) : isWord c = false := by
  by_cases hascii : c.toNat < 0x80
  · have hall : ∀ n < 0x80, isBlank (Char.ofNat n) = true → isWord (Char.ofNat n) = false := by
      decide
    exact of_forall_ofNat (P := fun c => isBlank c = true → isWord c = false) hall hascii h
  · have hwide : ∀ n ∈ wideBlanks, inRanges wordRanges n = false := by decide +kernel
    unfold isBlank at h
    dsimp only at h
    rw [if_neg hascii] at h
    rw [isWord, if_neg hascii]
    exact hwide c.toNat (List.contains_iff_mem.mp h)

theorem endsWord_of_blanks {cs : List Char} (h : ∀ c ∈ cs, isBlank c = true) :
    endsWord cs = true :=
  endsWord_iff.mpr fun c hc => not_isWord_of_isBlank (h c (List.mem_of_mem_head? hc))

end Text

namespace Color

/-! ## The loose grammar takes what the strict ones take -/

theorem dropLetters?_self (letters rest : List Char) :
    dropLetters? letters (letters ++ rest) = some rest := by
  induction letters with
  | nil => rfl
  | cons l letters ih =>
      have hl : isLetter l l = true := by
        rw [isLetter, beq_self_eq_true, Bool.true_or, Bool.true_or]
      rw [List.cons_append, dropLetters?, if_pos hl, ih]

theorem IsFunction.dropFunction?_append {name piece : List Char} (h : IsFunction name piece)
    (hname : name = ['r', 'g', 'b'] ∨ name = ['h', 's', 'l']) (rest : List Char) :
    dropFunction? (piece ++ rest) = some rest := by
  obtain ⟨fn, args, hfn, rfl, hargs⟩ := h
  have hnamed : ∀ cs, (dropLetters? ['r', 'g', 'b'] (name ++ cs)).or
      (dropLetters? ['h', 's', 'l'] (name ++ cs)) = some cs := by
    intro cs
    rcases hname with rfl | rfl
    · rw [dropLetters?_self, Option.some_or]
    · rw [dropLetters?_self]
      rfl
  have hclose : dropLiteral? [')']
      ((args ++ ')' :: rest).dropWhile fun c => !(c == '(' || c == ')')) = some rest := by
    rw [List.dropWhile_append_of_pos fun c hc => by
      rw [show (c == '(' || c == ')') = false from not_isParen_of_isArgument (hargs c hc)]
      rfl]
    rfl
  unfold dropFunction?
  rcases hfn with rfl | rfl
  · simp only [List.append_assoc, hnamed, List.cons_append, List.nil_append]
    exact hclose
  · simp only [List.append_assoc, hnamed, List.cons_append, List.nil_append]
    exact hclose

theorem dropHex?_append {piece left rest : List Char} (h : dropHex? (piece ++ left) = some left)
    (hrest : endsWord rest = true) : dropHex? (piece ++ rest) = some rest := by
  obtain ⟨more, hmore, hleft, hdigits, hcount⟩ := dropHex?_eq_some_iff.mp h
  obtain ⟨htake, hdrop⟩ := stop_of_head? (endsWord_iff.mp hrest)
  have hpiece : piece = '#' :: more.takeWhile isWord := by
    rw [← List.takeWhile_append_dropWhile (p := isWord) (l := more), ← hleft, ← List.cons_append]
      at hmore
    exact List.append_cancel_right hmore
  have hword : ∀ c ∈ more.takeWhile isWord, isWord c = true :=
    fun c hc => isWord_of_isHexDigit (hdigits c hc)
  have htake' : (more.takeWhile isWord ++ rest).takeWhile isWord = more.takeWhile isWord := by
    rw [List.takeWhile_append_of_pos hword, htake, List.append_nil]
  refine dropHex?_eq_some_iff.mpr ⟨more.takeWhile isWord ++ rest, ?_, ?_, ?_, ?_⟩
  · rw [hpiece, List.cons_append]
  · rw [List.dropWhile_append_of_pos hword, hdrop]
  · rwa [htake']
  · rwa [htake']

theorem leading?_append {piece rest : List Char}
    (h : (dropHex? (piece ++ rest)).or (dropFunction? (piece ++ rest)) = some rest) :
    leading? (piece ++ rest) = some piece := by
  rw [leading?, h]
  change some ((piece ++ rest).take (consumed (piece ++ rest) rest)) = _
  rw [consumed_append, List.take_left]

theorem IsFunction.leading?_append {name piece : List Char} (h : IsFunction name piece)
    (hname : name = ['r', 'g', 'b'] ∨ name = ['h', 's', 'l']) (rest : List Char) :
    leading? (piece ++ rest) = some piece := by
  have hhead : (piece ++ rest).head? ≠ some '#' := by
    obtain ⟨fn, args, rfl | rfl, rfl, -⟩ := h
    · rcases hname with rfl | rfl
      · exact nofun
      · exact nofun
    · rcases hname with rfl | rfl
      · exact nofun
      · exact nofun
  have hhex : dropHex? (piece ++ rest) = none := by
    rw [Option.eq_none_iff_forall_ne_some]
    intro left hleft
    obtain ⟨more, hmore, -⟩ := dropHex?_eq_some_iff.mp hleft
    exact hhead (by rw [hmore]; rfl)
  refine Color.leading?_append ?_
  rw [hhex, Option.none_or, h.dropFunction?_append hname]

theorem IsLiteral.semicolon_not_mem {piece : List Char} (h : IsLiteral piece) : ';' ∉ piece := by
  rcases h with h | h | h
  · exact h.not_mem (by decide) (by decide)
  · exact h.not_mem (by decide) (by decide) (by decide)
  · exact h.not_mem (by decide) (by decide) (by decide)

theorem IsLiteral.head_not_isBlank {piece : List Char} (h : IsLiteral piece) :
    ∀ c ∈ piece.head?, isBlank c = false := by
  intro c hc
  rcases h with h | h | h
  · rw [h.head?] at hc
    cases hc
    rfl
  · rw [h.head? (by decide)] at hc
    cases hc
    rfl
  · rw [h.head? (by decide)] at hc
    cases hc
    rfl

/-- A literal is the color at the start of its text, and of every text that goes on with no
character of a word. -/
theorem leading?_of_mem_literals {text : List Char} {t : Token Unit} (ht : t ∈ literals text) :
    leading? (text.drop t.start) = some t.text ∧
      ∀ rest, endsWord rest = true → leading? (t.text ++ rest) = some t.text := by
  have hfunction : ∀ name, name = ['r', 'g', 'b'] ∨ name = ['h', 's', 'l'] →
      StandsAt t.text text t.start ∧ IsFunction name t.text →
      leading? (text.drop t.start) = some t.text ∧
        ∀ rest, endsWord rest = true → leading? (t.text ++ rest) = some t.text := by
    rintro name hname ⟨⟨left, hleft⟩, h⟩
    rw [← hleft]
    exact ⟨h.leading?_append hname left, fun rest _ => h.leading?_append hname rest⟩
  rcases mem_literals.mp ht with hhex | hrgb | hhsl
  · obtain ⟨done, rest, left, rfl, hstart, hr, htext⟩ := taken_of_mem_tokens hhex
    obtain ⟨-, hdrop⟩ := hex_eq_some_iff.mp hr
    obtain ⟨piece, rfl, -⟩ := hex_shape hr
    rw [consumed_append, List.take_left] at htext
    rw [hstart, List.drop_left, htext]
    refine ⟨leading?_append ?_, fun rest hrest => leading?_append ?_⟩
    · rw [hdrop, Option.some_or]
    · rw [dropHex?_append hdrop hrest, Option.some_or]
  · exact hfunction _ (.inl rfl) (standsAt_of_mem_tokens (fun _ _ _ _ => rgb_shape) hrgb)
  · exact hfunction _ (.inr rfl) (standsAt_of_mem_tokens (fun _ _ _ _ => hsl_shape) hhsl)

end Color

namespace Variable

/-! ## Literals as values -/

/-- What stands in front of the value of a declaration: its name, and a colon between blanks. -/
structure Heading where
  letters : List Char
  blanks : List Char
  gap : List Char
  letters_ne_nil : letters ≠ []
  isNameChar_letters : ∀ c ∈ letters, isNameChar c = true
  isBlank_blanks : ∀ c ∈ blanks, isBlank c = true
  isBlank_gap : ∀ c ∈ gap, isBlank c = true

def Heading.name (h : Heading) : List Char := '-' :: '-' :: h.letters

def Heading.text (h : Heading) : List Char := h.name ++ (h.blanks ++ ':' :: h.gap)

/-- A heading, a value and a semicolon make a declaration. -/
theorem declaration_of_heading {before : Option Char} {value : List Char} (h : Heading)
    (hbefore : ∀ c ∈ before, isWord c = false ∧ c ≠ '-') (hne : value ≠ [])
    (hvalue : ∀ c ∈ value.head?, isBlank c = false) (hsemicolon : ';' ∉ value)
    (left : List Char) :
    declaration before (h.text ++ (value ++ ';' :: left)) =
      some (⟨h.name, value, h.text.length⟩, left) := by
  have hfront : (before.any fun c => isWord c || c == '-') = false := by
    cases before with
    | none => rfl
    | some c =>
        obtain ⟨hword, hdash⟩ := hbefore c rfl
        rw [Option.any_some, hword, beq_eq_false_iff_ne.mpr hdash]
        rfl
  have hcolon : ∀ c ∈ (h.blanks ++ ':' :: (h.gap ++ (value ++ ';' :: left))).head?,
      isNameChar c = false := by
    intro c hc
    cases hblanks : h.blanks with
    | nil =>
        rw [hblanks] at hc
        cases hc
        decide
    | cons b blanks =>
        rw [hblanks] at hc
        cases hc
        exact isNameChar_of_isBlank (h.isBlank_blanks c (by rw [hblanks]; exact List.mem_cons_self))
  have hname : takeName? (h.text ++ (value ++ ';' :: left)) =
      some (h.name, h.blanks ++ ':' :: (h.gap ++ (value ++ ';' :: left))) := by
    have hrun := takeRun?_append_rest h.letters_ne_nil h.isNameChar_letters hcolon
    rw [takeName?, Heading.text, Heading.name]
    simp only [List.cons_append, List.append_assoc, dropLiteral?, beq_self_eq_true, if_true,
      Option.bind_eq_bind, Option.bind_some, hrun, Option.pure_def]
  have hafter : trimLeft (h.blanks ++ ':' :: (h.gap ++ (value ++ ';' :: left))) =
      ':' :: (h.gap ++ (value ++ ';' :: left)) := by
    refine trimLeft_append_blanks h.isBlank_blanks fun c hc => ?_
    cases hc
    decide
  have hrun : takeRun? (· != ';') (h.gap ++ (value ++ ';' :: left)) =
      some (h.gap ++ value, ';' :: left) := by
    rw [← List.append_assoc]
    refine takeRun?_append_rest (by simp [hne]) (fun c hc => ?_) fun c hc => ?_
    · rw [bne_iff_ne]
      rintro rfl
      rcases List.mem_append.mp hc with hc | hc
      · exact absurd (h.isBlank_gap _ hc) (by decide)
      · exact hsemicolon hc
    · cases hc
      decide
  have hhead : ∀ c ∈ (value ++ ';' :: left).head?, isBlank c = false := by
    rw [List.head?_append_of_ne_nil _ hne]
    exact hvalue
  rw [declaration, hfront, if_neg Bool.false_ne_true, hname]
  simp only [Option.bind_eq_bind, Option.bind_some, hafter, dropLiteral?, beq_self_eq_true, if_true,
    hrun, trimLeft_append_blanks h.isBlank_gap hvalue, trimLeft_append_blanks h.isBlank_gap hhead,
    consumed_append, Option.pure_def]

theorem mem_definitions_of_token {text color : List Char} {t : Token Declared}
    (ht : t ∈ tokens declaration text) (hcolor : Color.leading? t.value.value = some color) :
    ⟨t.value.name, color, t.start + t.value.lead⟩ ∈ definitions text := by
  refine List.mem_filterMap.mpr ⟨t, ht, ?_⟩
  rw [Defined.ofToken?, hcolor]
  rfl

/-- A literal is the color that leads where it starts. Every declaration that has it for its value,
maybe with more behind it, defines the whole of it; and wherever no declaration is left open, one
may be written that has it for its value. -/
theorem literal_defines {text : List Char} {t : Token Unit} (ht : t ∈ Color.literals text) :
    Color.leading? (text.drop t.start) = some t.text ∧
      (∀ other, ∀ d ∈ tokens declaration other, ∀ tail, d.value.value = t.text ++ tail →
        endsWord tail = true →
        ⟨d.value.name, t.text, d.start + d.value.lead⟩ ∈ definitions other) ∧
      ∀ (h : Heading) (before space after : List Char), (∀ c ∈ space, isBlank c = true) →
        (∀ c ∈ before.getLast?, isWord c = false ∧ c ≠ '-') →
        ¬ LeftOpen before (h.text ++ ((t.text ++ space) ++ ';' :: after)) →
        ⟨h.name, t.text, before.length + h.text.length⟩ ∈
          definitions (before ++ (h.text ++ ((t.text ++ space) ++ ';' :: after))) := by
  obtain ⟨hleads, happend⟩ := Color.leading?_of_mem_literals ht
  refine ⟨hleads, ?_, ?_⟩
  · intro other d hd tail hvalue htail
    exact mem_definitions_of_token hd (by rw [hvalue, happend tail htail])
  · intro h before space after hspace hbefore hopen
    have hliteral := (Color.standsAt_of_mem_literals ht).2
    have hhead : ∀ c ∈ (t.text ++ space).head?, isBlank c = false := by
      rw [List.head?_append_of_ne_nil _ hliteral.ne_nil]
      exact hliteral.head_not_isBlank
    have hsemicolon : ';' ∉ t.text ++ space := by
      rw [List.mem_append, not_or]
      exact ⟨hliteral.semicolon_not_mem, fun hmem => absurd (hspace _ hmem) (by decide)⟩
    have hd := declaration_of_heading h hbefore
      (List.append_ne_nil_of_left_ne_nil hliteral.ne_nil space) hhead hsemicolon after
    obtain ⟨d, hd, hstart, hvalue⟩ := exists_token_of_not_leftOpen hd hopen
    have hleading : Color.leading? d.value.value = some t.text := by
      rw [hvalue]
      exact happend space (endsWord_of_blanks hspace)
    have hmem := mem_definitions_of_token hd hleading
    rw [hvalue, hstart] at hmem
    exact hmem

/-- A color function from the middle of a value, and a rule with a declaration of it. -/
theorem literal_defines_border :
    Color.leading? "rgb(1, 2, 3) solid".toList = some "rgb(1, 2, 3)".toList ∧
      ⟨"--border".toList, "rgb(1, 2, 3)".toList, 15⟩ ∈
        definitions ".a \x7b --border: rgb(1, 2, 3); \x7d".toList := by
  have htokens : tokens Color.rgb "1px rgb(1, 2, 3) solid".toList =
      [⟨4, "rgb(1, 2, 3)".toList, ()⟩] := by cbv
  have ht : ⟨4, "rgb(1, 2, 3)".toList, ()⟩ ∈ Color.literals "1px rgb(1, 2, 3) solid".toList := by
    rw [Color.mem_literals, htokens]
    exact .inr (.inl List.mem_cons_self)
  obtain ⟨hleads, -, hwritten⟩ := literal_defines ht
  have hletters : ∀ c ∈ "border".toList, isNameChar c = true := List.all_eq_true.mp (by decide)
  have hgap : ∀ c ∈ [' '], isBlank c = true := List.all_eq_true.mp (by decide)
  have hnone {P : Char → Prop} : ∀ c ∈ ([] : List Char), P c :=
    fun _ hc => absurd hc List.not_mem_nil
  have hbefore : ∀ c ∈ ".a \x7b ".toList.getLast?, isWord c = false ∧ c ≠ '-' := by
    intro c hc
    cases hc
    exact ⟨by decide, by decide⟩
  exact ⟨hleads, hwritten ⟨"border".toList, [], [' '], by decide, hletters, hnone, hgap⟩
    ".a \x7b ".toList [] " \x7d".toList hnone hbefore (not_leftOpen_of_no_dash (by decide))⟩

end Variable

end ColorCensus
