import ColorCensus.Proofs.LineEnds.Tokens
import ColorCensus.Proofs.Variables

/-!
# Colors and line ends

The grammars of colors, declarations and references are made of pieces that
treat a line end of two characters as they treat a newline. So a text with other
line ends holds the same colors: they stand at the shifted offsets, and where a
color goes over lines its text has the other line ends.

What a declaration reports is the color inside, and a reference reports the name
inside, both counted from the start of the token. A count moves on with the line
ends that it covers, and so these offsets are shifted as well.
-/

namespace ColorCensus

open Text

namespace Text

theorem StandsAt.shifted_add {piece text : List Char} {start : Nat}
    (h : StandsAt piece text start) :
    shifted text (start + piece.length) = shifted text start + (crlf piece).length := by
  obtain ⟨rest, hrest⟩ := h
  rw [Text.shifted_add, ← hrest, shifted_append_length]

/-- A token whose value says nothing about places. -/
abbrev Token.moved {α : Type} (text : List Char) (t : Token α) : Token α :=
  t.widen (fun _ value => value) text

theorem Token.stop_moved {α : Type} {text : List Char} {t : Token α}
    (h : StandsAt t.text text t.start) : (t.moved text).stop = shifted text t.stop :=
  h.shifted_add.symm

end Text

namespace Color

/-! ## Literals -/

theorem dropHex?_crlf (cs : List Char) : dropHex? (crlf cs) = (dropHex? cs).map crlf := by
  simp only [dropHex?, dropLiteral?_crlf (by decide : Plain ['#']), Option.bind_eq_bind,
    Option.bind_map, Option.map_bind, Function.comp_def, Option.pure_def, Option.map_some,
    takeWhile_crlf_plain _ (by decide : isWord '\r' = false) (by decide),
    dropWhile_crlf _ (by decide : isWord '\r' = isWord '\n'), apply_ite (Option.map crlf),
    Option.map_none]

theorem dropNumber?_crlf (cs : List Char) : dropNumber? (crlf cs) = (dropNumber? cs).map crlf := by
  simp only [dropNumber?, takeRun?_crlf_plain cs (by decide : isDigit '\r' = false) (by decide),
    Option.bind_eq_bind, Option.bind_map, Option.map_bind, Function.comp_def, Option.pure_def,
    Option.map_some, apply_ite (Option.map crlf), Option.map_none]

theorem dropPercentage?_crlf (cs : List Char) :
    dropPercentage? (crlf cs) = (dropPercentage? cs).map crlf := by
  simp only [dropPercentage?, dropNumber?_crlf, dropLiteral?_crlf (by decide : Plain ['%']),
    Option.bind_eq_bind, Option.bind_map, Option.map_bind, Function.comp_def]

theorem dropComma?_crlf (cs : List Char) : dropComma? (crlf cs) = (dropComma? cs).map crlf := by
  simp only [dropComma?, trimLeft_crlf, dropLiteral?_crlf (by decide : Plain [',']),
    Option.bind_eq_bind, Option.bind_map, Option.map_bind, Function.comp_def, Option.pure_def,
    Option.map_some]

theorem dropAlpha?_crlf (cs : List Char) : dropAlpha? (crlf cs) = (dropAlpha? cs).map crlf := by
  rw [dropAlpha?_eq, dropAlpha?_eq, dropLiteral?_crlf (by decide), dropLiteral?_crlf (by decide),
    dropLiteral?_crlf (by decide), dropLiteral?_crlf (by decide)]
  cases dropLiteral? ['0', '.'] cs with
  | some rest => exact dropRun?_crlf rest rfl
  | none =>
      cases dropLiteral? ['.'] cs with
      | some rest => exact dropRun?_crlf rest rfl
      | none => exact Option.map_or.symm

theorem dropTail?_crlf (cs : List Char) : dropTail? (crlf cs) = (dropTail? cs).map crlf := by
  simp only [dropTail?, dropComma?_crlf]
  cases dropComma? cs with
  | none =>
      simp only [Option.map_none, Option.bind_eq_bind, Option.bind_some, trimLeft_crlf,
        dropLiteral?_crlf (by decide : Plain [')'])]
  | some rest =>
      simp only [Option.map_some, dropAlpha?_crlf, trimLeft_crlf,
        dropLiteral?_crlf (by decide : Plain [')']), Option.bind_eq_bind, Option.bind_map,
        Option.map_bind, Function.comp_def]

theorem dropName?_crlf {name : String} (h : Plain name.toList) (cs : List Char) :
    dropName? name (crlf cs) = (dropName? name cs).map crlf := by
  simp only [dropName?, dropLiteral?_crlf h, dropLiteral?_crlf (by decide : Plain ['a']),
    dropLiteral?_crlf (by decide : Plain ['(']), Option.getD_map, trimLeft_crlf,
    Option.bind_eq_bind, Option.bind_map, Option.map_bind, Function.comp_def, Option.pure_def,
    Option.map_some]

theorem hex_widens : Widens hex fun _ value => value where
  crlf before cs := by
    unfold hex
    split
    · rfl
    · rw [dropHex?_crlf, Option.map_map, Option.map_map]
      rfl
  piece before cs value left h := by
    obtain ⟨piece, hcs, hpiece⟩ := hex_shape h
    exact ⟨piece, hcs, IsLiteral.ne_nil (.inl hpiece)⟩
  return_solid _ _ := ite_self none
  newline_solid _ _ := ite_self none

theorem rgb_widens : Widens rgb fun _ value => value where
  crlf before cs := by
    simp only [rgb, dropName?_crlf (by decide : Plain "rgb".toList), dropNumber?_crlf,
      dropComma?_crlf, dropTail?_crlf, Option.bind_eq_bind, Option.bind_map, Option.map_bind,
      Function.comp_def, Option.pure_def, Option.map_some, apply_ite (Option.map _),
      Option.map_none]
  piece before cs value left h := by
    obtain ⟨piece, hcs, hpiece⟩ := rgb_shape h
    exact ⟨piece, hcs, IsLiteral.ne_nil (.inr (.inl hpiece))⟩
  return_solid _ _ := ite_self none
  newline_solid _ _ := ite_self none

theorem hsl_widens : Widens hsl fun _ value => value where
  crlf before cs := by
    simp only [hsl, dropName?_crlf (by decide : Plain "hsl".toList), dropNumber?_crlf,
      dropOneOf?_crlf (by decide : ∀ s ∈ ["deg", "rad", "turn"], Plain s.toList),
      Option.getD_map, dropComma?_crlf, dropPercentage?_crlf, dropTail?_crlf,
      Option.bind_eq_bind, Option.bind_map, Option.map_bind, Function.comp_def, Option.pure_def,
      Option.map_some, apply_ite (Option.map _), Option.map_none]
  piece before cs value left h := by
    obtain ⟨piece, hcs, hpiece⟩ := hsl_shape h
    exact ⟨piece, hcs, IsLiteral.ne_nil (.inr (.inr hpiece))⟩
  return_solid _ _ := ite_self none
  newline_solid _ _ := ite_self none

theorem literals_crlf (text : List Char) :
    literals (crlf text) = (literals text).map (Token.moved text) := by
  rw [literals, literals, tokens_crlf hex_widens, tokens_crlf rgb_widens, tokens_crlf hsl_widens,
    ← List.map_append, ← List.map_append]
  refine (List.map_mergeSort fun t ht u hu => ?_).symm
  have stands : ∀ t ∈ tokens hex text ++ tokens rgb text ++ tokens hsl text,
      (t.moved text).stop = shifted text t.stop := by
    intro t ht
    rw [List.mem_append, List.mem_append, or_assoc, ← mem_literals] at ht
    exact Token.stop_moved (standsAt_of_mem_literals ht).1
  rw [stands t ht, stands u hu]
  change _ = (decide (shifted text t.start < shifted text u.start) ||
    (shifted text t.start == shifted text u.start &&
      decide (shifted text t.stop ≤ shifted text u.stop)))
  have hsame : (shifted text t.start == shifted text u.start) = (t.start == u.start) := by
    rw [Bool.eq_iff_iff, beq_iff_eq, beq_iff_eq]
    constructor
    · intro h
      exact Nat.le_antisymm (shifted_le_iff.mp (Nat.le_of_eq h))
        (shifted_le_iff.mp (Nat.le_of_eq h.symm))
    · exact congrArg _
  simp only [hsame, shifted_lt_iff, shifted_le_iff]

/-! ## The color at the start of a value -/

theorem dropFunction?_crlf (cs : List Char) :
    dropFunction? (crlf cs) = (dropFunction? cs).map crlf := by
  have hletter : ∀ rest : List Char,
      dropOne? (isLetter 'a') (crlf rest) = (dropOne? (isLetter 'a') rest).map crlf :=
    fun rest => dropOne?_crlf rest rfl rfl
  have hinside : ∀ rest : List Char,
      (crlf rest).dropWhile (fun c => !(c == '(' || c == ')')) =
        crlf (rest.dropWhile fun c => !(c == '(' || c == ')')) :=
    fun rest => dropWhile_crlf rest rfl
  simp only [dropFunction?, dropLetters?_crlf (by decide : Plain ['r', 'g', 'b']),
    dropLetters?_crlf (by decide : Plain ['h', 's', 'l']), ← Option.map_or, hletter,
    Option.getD_map, dropLiteral?_crlf (by decide : Plain ['(']), hinside,
    dropLiteral?_crlf (by decide : Plain [')']), Option.bind_eq_bind, Option.bind_map,
    Option.map_bind, Function.comp_def]

theorem leading?_crlf (text : List Char) : leading? (crlf text) = (leading? text).map crlf := by
  unfold leading?
  rw [dropHex?_crlf, dropFunction?_crlf, ← Option.map_or]
  cases hrest : (dropHex? text).or (dropFunction? text) with
  | none => rfl
  | some rest =>
      have hsuffix : rest <:+ text := by
        rcases Option.or_eq_some_iff.mp hrest with hrest | ⟨-, hrest⟩
        · obtain ⟨piece, rfl, -⟩ := dropHex?_shape hrest
          exact List.suffix_append _ _
        · obtain ⟨piece, rfl, -⟩ := dropFunction?_shape hrest
          exact List.suffix_append _ _
      change some ((crlf text).take (consumed (crlf text) (crlf rest))) =
        some (crlf (text.take (consumed text rest)))
      rw [consumed_crlf hsuffix, take_crlf]

end Color

namespace Variable

/-! ## Declarations -/

theorem takeName?_crlf (cs : List Char) :
    takeName? (crlf cs) = (takeName? cs).map fun (name, left) => (name, crlf left) := by
  simp only [takeName?, dropLiteral?_crlf (by decide : Plain ['-', '-']),
    takeRun?_crlf_plain _ (by decide : isNameChar '\r' = false) (by decide),
    Option.bind_eq_bind, Option.bind_map, Option.map_bind, Function.comp_def, Option.pure_def,
    Option.map_some]

def Declared.widen (cs : List Char) (d : Declared) : Declared :=
  ⟨d.name, crlf d.value, shifted cs d.lead⟩

theorem declaration_widens : Widens declaration Declared.widen where
  crlf before cs := by
    unfold declaration
    split
    · rfl
    · rw [takeName?_crlf]
      cases hname : takeName? cs with
      | none => rfl
      | some named =>
          obtain ⟨name, afterName⟩ := named
          simp only [Option.map_some, Option.bind_eq_bind, Option.bind_some, trimLeft_crlf,
            dropLiteral?_crlf (by decide : Plain [':'])]
          cases hcolon : dropLiteral? [':'] (trimLeft afterName) with
          | none => rfl
          | some afterColon =>
              have hsuffix : trimLeft afterColon <:+ cs := by
                rw [(takeName?_shape hname).1]
                refine .trans ?_ (List.suffix_append _ _)
                refine .trans ?_ (List.dropWhile_suffix isBlank)
                change _ <:+ trimLeft afterName
                rw [dropLiteral?_eq_some_iff.mp hcolon]
                exact (List.dropWhile_suffix isBlank).trans (List.suffix_append _ _)
              have hvalue : takeRun? (· != ';') (crlf afterColon) =
                  (takeRun? (· != ';') afterColon).map fun (run, left) => (crlf run, crlf left) :=
                takeRun?_crlf afterColon rfl
              simp only [Option.map_some, Option.bind_some, hvalue, trimLeft_crlf,
                consumed_crlf hsuffix, dropLiteral?_crlf (by decide : Plain [';']),
                Option.bind_map, Option.map_bind, Function.comp_def, Option.pure_def,
                Declared.widen]
  piece before cs d left h := by
    obtain ⟨front, c, rfl, -⟩ := declaration_shape h
    exact ⟨front ++ c :: (d.value ++ [';']), by simp, by simp⟩
  return_solid _ _ := ite_self none
  newline_solid _ _ := ite_self none

def Defined.widen (text : List Char) (d : Defined) : Defined :=
  ⟨d.name, crlf d.value, shifted text d.start⟩

theorem definitions_crlf (text : List Char) :
    definitions (crlf text) = (definitions text).map (Defined.widen text) := by
  rw [definitions, definitions, tokens_crlf declaration_widens, List.filterMap_map,
    List.map_filterMap]
  refine List.filterMap_congr fun t _ => ?_
  change (Color.leading? (crlf t.value.value) >>= _) = _
  rw [Color.leading?_crlf, Defined.ofToken?]
  cases Color.leading? t.value.value with
  | none => rfl
  | some color =>
      change some (Defined.mk t.value.name (crlf color) _) = some (Defined.mk _ _ _)
      rw [shifted_add]
      rfl

theorem Defined.Stands.stop_widen {text : List Char} {d : Defined} (h : d.Stands text) :
    (d.widen text).stop = shifted text d.stop := h.standsAt.shifted_add.symm

/-! ## References -/

theorem reference_widens :
    Widens reference fun cs value => (value.1, shifted cs value.2) where
  crlf before cs := by
    unfold reference
    rw [dropLiteral?_crlf (by decide)]
    cases hargs : dropLiteral? "var(".toList cs with
    | none => rfl
    | some args =>
        have hsuffix : trimLeft args <:+ cs := by
          rw [dropLiteral?_eq_some_iff.mp hargs]
          exact (List.dropWhile_suffix isBlank).trans (List.suffix_append _ _)
        have hclose : ∀ rest : List Char, dropOne? (fun c => c == ',' || c == ')') (crlf rest) =
            (dropOne? (fun c => c == ',' || c == ')') rest).map crlf :=
          fun rest => dropOne?_crlf rest rfl rfl
        simp only [Option.map_some, Option.bind_eq_bind, Option.bind_some, trimLeft_crlf,
          takeName?_crlf, hclose, consumed_crlf hsuffix, Option.bind_map, Option.map_bind,
          Function.comp_def, Option.pure_def]
  piece before cs value left h := by
    obtain ⟨args, hargs, h⟩ := Option.bind_eq_some_iff.mp h
    obtain ⟨⟨name, afterName⟩, hname, h⟩ := Option.bind_eq_some_iff.mp h
    obtain ⟨left', hleft, h⟩ := Option.bind_eq_some_iff.mp h
    cases h
    obtain ⟨blanks, hblanks, -⟩ := trimLeft_takes args
    obtain ⟨gap, hgap, -⟩ := trimLeft_takes afterName
    obtain ⟨close, hclose, -⟩ := dropOne?_eq_some_iff.mp hleft
    refine ⟨"var(".toList ++ (blanks ++ (name ++ (gap ++ [close]))), ?_, by simp⟩
    rw [dropLiteral?_eq_some_iff.mp hargs, hblanks, (takeName?_shape hname).1, hgap, hclose]
    simp only [List.append_assoc, List.singleton_append]
  return_solid _ _ := rfl
  newline_solid _ _ := rfl

def Referred.widen (text : List Char) (r : Referred) : Referred :=
  ⟨r.name, shifted text r.start⟩

theorem references_crlf (text : List Char) :
    references (crlf text) = (references text).map (Referred.widen text) := by
  rw [references, references, tokens_crlf reference_widens, List.map_map, List.map_map]
  refine List.map_congr_left fun t _ => ?_
  change Referred.mk _ _ = Referred.mk _ _
  rw [shifted_add]
  rfl

theorem Referred.Stands.stop_widen {text : List Char} {r : Referred} (h : r.Stands text) :
    (r.widen text).stop = shifted text r.stop := by
  have hplain : '\n' ∉ r.name := fun hmem => absurd (h.chars _ hmem) (by decide)
  have hstop := h.standsAt.shifted_add
  rw [crlf_eq_self hplain] at hstop
  exact hstop.symm

end Variable

end ColorCensus
