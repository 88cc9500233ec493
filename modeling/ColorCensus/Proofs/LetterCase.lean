import ColorCensus.Proofs.Enclosure
import ColorCensus.Proofs.Hexadecimal

/-!
# Literals and letter case

A hexadecimal color may be written with capitals: no class of characters that its recogniser looks
at tells a capital from its small letter, so the recogniser commutes with lower-casing. The names
and units of color functions may not. They are looked for in small letters, though the color at the
start of a definition is looked for in both, and so a function in capitals is a definition's color
and no literal.

What stands behind a function is not looked at, because its closing parenthesis ends every piece of
the pattern (`StopsAt`), and in front of it only whether a word stands there. So a function is
found by its own characters, and the literals of a text are those of its lowered copy, less the
functions that have a capital (`literals_lowerAscii`).
-/

namespace ColorCensus

open Text

namespace Text

/-! ## Small letters -/

/-- The capital letters of ASCII. -/
def asciiCapitals : List Char := "ABCDEFGHIJKLMNOPQRSTUVWXYZ".toList

theorem mem_asciiCapitals {c : Char} (h : isAsciiUpper c = true) : c ∈ asciiCapitals := by
  have hall : ∀ n < 0x5B, 0x41 ≤ (Char.ofNat n).toNat → Char.ofNat n ∈ asciiCapitals := by decide
  obtain ⟨hA, hZ⟩ := isAsciiUpper_iff.mp h
  exact of_forall_ofNat (P := fun c => 0x41 ≤ c.toNat → c ∈ asciiCapitals) hall
    (Nat.lt_succ_of_le hZ) hA

theorem toLower_of_not_isAsciiUpper {c : Char} (h : isAsciiUpper c = false) : c.toLower = c := by
  rw [← Bool.not_eq_true, isAsciiUpper_iff, ← Char.toNat_val] at h
  refine dif_neg fun hupper => h ?_
  simpa [UInt32.le_iff_toNat_le] using hupper

theorem class_toLower {p : Char → Bool}
    (h : (asciiCapitals.all fun c => p c.toLower == p c) = true) (c : Char) :
    p c.toLower = p c := by
  cases hc : isAsciiUpper c with
  | true => exact eq_of_beq (List.all_eq_true.mp h c (mem_asciiCapitals hc))
  | false => rw [toLower_of_not_isAsciiUpper hc]

theorem isWord_toLower (c : Char) : isWord c.toLower = isWord c := class_toLower (by decide) c

theorem isHexDigit_toLower (c : Char) : isHexDigit c.toLower = isHexDigit c :=
  class_toLower (by decide) c

/-- The copy of a text with small letters for the capitals of ASCII. -/
def lowerAscii (cs : List Char) : List Char := cs.map Char.toLower

theorem lowerAscii_of_no_capital {cs : List Char} (h : ∀ c ∈ cs, isAsciiUpper c = false) :
    lowerAscii cs = cs := by
  rw [lowerAscii, List.map_congr_left fun c hc => toLower_of_not_isAsciiUpper (h c hc),
    List.map_id']

/-! ## In front of a parenthesis -/

/-- In front of a character, and of whatever follows it, a piece takes what it takes alone. -/
def StopsAt (stop : Char) (piece : List Char → Option (List Char)) : Prop :=
  ∀ cs rest, piece (cs ++ stop :: rest) = (piece cs).map (· ++ stop :: rest)

namespace StopsAt

variable {stop : Char} {f g : List Char → Option (List Char)} {p : Char → Bool}

theorem bind (hf : StopsAt stop f) (hg : StopsAt stop g) :
    StopsAt stop fun cs => (f cs).bind g := by
  intro cs rest
  simp only [hf cs rest]
  cases f cs with
  | none => rfl
  | some left => exact hg left rest

theorem getD (hf : StopsAt stop f) : StopsAt stop fun cs => some ((f cs).getD cs) := by
  intro cs rest
  simp only [hf cs rest]
  cases f cs with
  | none => rfl
  | some left => rfl

theorem trimLeft (h : isBlank stop = false) : StopsAt stop fun cs => some (Text.trimLeft cs) :=
  fun cs rest => congrArg some (trimLeft_append_stop h cs rest)

theorem dropLiteral? {lit : List Char} (h : stop ∉ lit) : StopsAt stop (Text.dropLiteral? lit) :=
  dropLiteral?_append_stop h

theorem dropOneOf? {spellings : List String} (h : ∀ s ∈ spellings, stop ∉ s.toList) :
    StopsAt stop (Text.dropOneOf? spellings) := dropOneOf?_append_stop h

theorem dropRun? (h : p stop = false) : StopsAt stop (Text.dropRun? p) := dropRun?_append_stop h

end StopsAt

end Text

namespace Color

theorem dropNumber?_stops : StopsAt ')' dropNumber? := by
  intro cs rest
  rw [dropNumber?, dropNumber?, takeRun?_append_stop (by decide)]
  cases takeRun? isDigit cs with
  | none => rfl
  | some run =>
      simp only [Option.map_some, Option.bind_eq_bind, Option.bind_some]
      split
      · rfl
      · rfl

theorem dropComma?_stops : StopsAt ')' dropComma? :=
  (StopsAt.trimLeft (by decide)).bind
    ((StopsAt.dropLiteral? (by decide)).bind (.trimLeft (by decide)))

theorem dropPercentage?_stops : StopsAt ')' dropPercentage? :=
  dropNumber?_stops.bind (.dropLiteral? (by decide))

theorem dropName?_stops {name : String} (h : ')' ∉ name.toList) : StopsAt ')' (dropName? name) :=
  (StopsAt.dropLiteral? h).bind ((StopsAt.dropLiteral? (by decide)).getD.bind
    ((StopsAt.dropLiteral? (by decide)).bind (.trimLeft (by decide))))

theorem dropAlpha?_stops : StopsAt ')' dropAlpha? := by
  intro cs rest
  have hpoint : StopsAt ')' (dropRun? isDigit) := .dropRun? (by decide)
  rw [dropAlpha?_eq, dropAlpha?_eq, dropLiteral?_append_stop (by decide),
    dropLiteral?_append_stop (by decide), dropLiteral?_append_stop (by decide),
    dropLiteral?_append_stop (by decide)]
  cases dropLiteral? ['0', '.'] cs with
  | some left => exact hpoint left rest
  | none =>
      cases dropLiteral? ['.'] cs with
      | some left => exact hpoint left rest
      | none => exact Option.map_or.symm

theorem dropTail?_append (cs rest : List Char) :
    dropTail? (cs ++ ')' :: rest) = (dropTail? (cs ++ [')'])).map (· ++ rest) := by
  have hclose : ∀ cs : List Char, dropLiteral? [')'] (trimLeft (cs ++ ')' :: rest)) =
      (dropLiteral? [')'] (trimLeft (cs ++ [')']))).map (· ++ rest) := by
    intro cs
    rw [trimLeft_append_stop (by decide), trimLeft_append_stop (by decide),
      dropLiteral?_append_self]
  unfold dropTail?
  rw [dropComma?_stops, dropComma?_stops]
  cases dropComma? cs with
  | none => exact hclose cs
  | some left =>
      simp only [Option.map_some, dropAlpha?_stops left]
      cases dropAlpha? left with
      | none => rfl
      | some left => exact hclose left

/-- A color function by what stands in front of its tail. -/
def function (start : List Char → Option (List Char)) : Recognizer Unit := fun before cs =>
  if startsWord before then do
    let cs ← start cs
    let cs ← dropTail? cs
    pure ((), cs)
  else none

/-- The pattern of `rgb`, up to its alpha channel. -/
def rgbStart (cs : List Char) : Option (List Char) := do
  let cs ← dropName? "rgb" cs
  let cs ← dropNumber? cs
  let cs ← dropComma? cs
  let cs ← dropNumber? cs
  let cs ← dropComma? cs
  dropNumber? cs

theorem rgb_eq : rgb = function rgbStart := by
  funext before cs
  simp only [rgb, function, rgbStart, Option.bind_eq_bind, Option.bind_assoc]

/-- The pattern of `hsl`, up to its alpha channel. -/
def hslStart (cs : List Char) : Option (List Char) := do
  let cs ← dropName? "hsl" cs
  let cs ← dropNumber? cs
  let cs := (dropOneOf? ["deg", "rad", "turn"] cs).getD cs
  let cs ← dropComma? cs
  let cs ← dropPercentage? cs
  let cs ← dropComma? cs
  dropPercentage? cs

theorem hsl_eq : hsl = function hslStart := by
  funext before cs
  simp only [hsl, function, hslStart, Option.bind_eq_bind, Option.bind_assoc]

theorem rgbStart_stops : StopsAt ')' rgbStart :=
  (dropName?_stops (by decide)).bind <| dropNumber?_stops.bind <| dropComma?_stops.bind <|
    dropNumber?_stops.bind <| dropComma?_stops.bind dropNumber?_stops

theorem hslStart_stops : StopsAt ')' hslStart :=
  (dropName?_stops (by decide)).bind <| dropNumber?_stops.bind <|
    (StopsAt.dropOneOf? (by decide)).getD.bind <| dropComma?_stops.bind <|
    dropPercentage?_stops.bind <| dropComma?_stops.bind dropPercentage?_stops

theorem function_elsewhere {start : List Char → Option (List Char)} (hstart : StopsAt ')' start)
    {before : Option Char} {body left : List Char}
    (h : function start before (body ++ ')' :: left) = some ((), left)) (other : List Char) :
    function start before (body ++ ')' :: other) = some ((), other) := by
  have happend : ∀ rest, function start before (body ++ ')' :: rest) =
      (function start before (body ++ [')'])).map fun taken => (taken.1, taken.2 ++ rest) := by
    intro rest
    unfold function
    split
    · rw [hstart, hstart]
      cases start body with
      | none => rfl
      | some cs =>
          simp only [Option.map_some, Option.bind_eq_bind, Option.bind_some,
            dropTail?_append cs rest, Option.bind_map, Option.map_bind]
          rfl
    · rfl
  rw [happend] at h ⊢
  obtain ⟨⟨⟨⟩, left'⟩, hbody, hleft⟩ := Option.map_eq_some_iff.mp h
  obtain rfl : left' = [] := by simpa using hleft
  rw [hbody]
  rfl

/-! ## Where literals stand -/

/-- Two functions that overlap have their parentheses in common, and no name ends in another one. -/
theorem IsFunction.solid {first : Char} {rest xs ys text : List Char} {a b : Nat}
    (hfirst : first ∈ firstLetters) (hname : (first :: rest).all (!isParen ·) = true)
    (hrest : rest ⊆ laterLetters) (hx : IsFunction (first :: rest) xs)
    (hy : IsFunction (first :: rest) ys) (standsX : StandsAt xs text a)
    (standsY : StandsAt ys text b) : Apart (a, a + xs.length) (b, b + ys.length) ∨ a = b := by
  obtain ⟨more, hmore, hcall⟩ := hx.isCall hname hrest
  obtain ⟨more', hmore', hcall'⟩ := hy.isCall hname hrest
  rcases call_holds_call hfirst hcall standsX hmore' hcall' standsY with hapart | hwithin
  · exact .inl hapart
  · rcases call_holds_call hfirst hcall' standsY hmore hcall standsX with hapart | hwithin'
    · exact .inl hapart.symm
    · exact .inr (Nat.le_antisymm hwithin.1 hwithin'.1)

/-- A recogniser takes a literal at a span. -/
def TakenAt (r : Recognizer Unit) (text : List Char) (span : Nat × Nat) : Prop :=
  ∃ done piece left, text = done ++ (piece ++ left) ∧
    span = (done.length, done.length + piece.length) ∧
    r done.getLast? (piece ++ left) = some ((), left)

theorem mem_spans_iff {r : Recognizer Unit} {P : List Char → Prop} {text : List Char}
    {span : Nat × Nat}
    (shape : ∀ before cs value left, r before cs = some (value, left) →
      ∃ piece, cs = piece ++ left ∧ P piece)
    (ne : ∀ piece, P piece → piece ≠ [])
    (solid : ∀ text xs ys a b, P xs → P ys → StandsAt xs text a → StandsAt ys text b →
      Apart (a, a + xs.length) (b, b + ys.length) ∨ a = b) :
    span ∈ (tokens r text).map Token.span ↔ TakenAt r text span := by
  rw [List.mem_map]
  constructor
  · rintro ⟨t, ht, rfl⟩
    obtain ⟨done, rest, left, rfl, hstart, hr, htext⟩ := taken_of_mem_tokens ht
    obtain ⟨piece, rfl, -⟩ := shape _ _ _ _ hr
    rw [consumed_append, List.take_left] at htext
    exact ⟨done, piece, left, rfl, by rw [Token.span, Token.stop, hstart, htext], hr⟩
  · rintro ⟨done, piece, left, rfl, rfl, hr⟩
    obtain ⟨piece', hpiece, hP⟩ := shape _ _ _ _ hr
    obtain rfl := List.append_cancel_right hpiece
    exact ⟨_, exists_token_at shape solid (ne _ hP) hr, rfl⟩

theorem mem_spans_literals {text : List Char} {span : Nat × Nat} :
    span ∈ (literals text).map Token.span ↔
      TakenAt hex text span ∨ TakenAt rgb text span ∨ TakenAt hsl text span := by
  have hhex : span ∈ (tokens hex text).map Token.span ↔ TakenAt hex text span :=
    mem_spans_iff (fun _ _ _ _ => hex_shape) (fun _ h => IsLiteral.ne_nil (.inl h))
      fun _ _ _ _ _ => IsHex.solid
  have hrgb : span ∈ (tokens rgb text).map Token.span ↔ TakenAt rgb text span :=
    mem_spans_iff (fun _ _ _ _ => rgb_shape) (fun _ h => IsLiteral.ne_nil (.inr (.inl h)))
      fun _ _ _ _ _ => IsFunction.solid (by decide) (by decide) (by decide)
  have hhsl : span ∈ (tokens hsl text).map Token.span ↔ TakenAt hsl text span :=
    mem_spans_iff (fun _ _ _ _ => hsl_shape) (fun _ h => IsLiteral.ne_nil (.inr (.inr h)))
      fun _ _ _ _ _ => IsFunction.solid (by decide) (by decide) (by decide)
  rw [← hhex, ← hrgb, ← hhsl]
  simp only [List.mem_map, mem_literals, or_and_right, exists_or]

theorem TakenAt.slice {r : Recognizer Unit} {P : List Char → Prop} {text : List Char}
    {span : Nat × Nat}
    (shape : ∀ before cs value left, r before cs = some (value, left) →
      ∃ piece, cs = piece ++ left ∧ P piece) (h : TakenAt r text span) : P (slice text span) := by
  obtain ⟨done, piece, left, rfl, rfl, hr⟩ := h
  obtain ⟨piece', hpiece, hP⟩ := shape _ _ _ _ hr
  obtain rfl := List.append_cancel_right hpiece
  rwa [(standsAt_append done piece left).slice_eq]

/-! ## Letter case -/

theorem takenAt_lowerAscii_iff {r : Recognizer Unit} {text : List Char} {span : Nat × Nat} :
    TakenAt r (lowerAscii text) span ↔ ∃ done piece left, text = done ++ (piece ++ left) ∧
      span = (done.length, done.length + piece.length) ∧
      r (done.getLast?.map Char.toLower) (lowerAscii piece ++ lowerAscii left) =
        some ((), lowerAscii left) := by
  constructor
  · rintro ⟨done', rest', left', htext, hspan, hr⟩
    obtain ⟨done, rest, rfl, rfl, hrest⟩ := List.map_eq_append_iff.mp htext
    obtain ⟨piece, left, rfl, rfl, rfl⟩ := List.map_eq_append_iff.mp hrest
    rw [List.length_map, List.length_map] at hspan
    rw [List.getLast?_map] at hr
    exact ⟨done, piece, left, rfl, hspan, hr⟩
  · rintro ⟨done, piece, left, rfl, rfl, hr⟩
    refine ⟨lowerAscii done, lowerAscii piece, lowerAscii left, ?_, ?_, ?_⟩
    · rw [lowerAscii, List.map_append, List.map_append]
      rfl
    · rw [lowerAscii, lowerAscii, List.length_map, List.length_map]
    · rwa [lowerAscii, List.getLast?_map]

/-! ### Hexadecimal colors -/

theorem dropHex?_lowerAscii (cs : List Char) :
    dropHex? (lowerAscii cs) = (dropHex? cs).map lowerAscii := by
  cases cs with
  | nil => rfl
  | cons c cs =>
      have hhash : ('#' == c.toLower) = ('#' == c) := class_toLower (p := ('#' == ·)) (by decide) c
      have hword : isWord ∘ Char.toLower = isWord := funext isWord_toLower
      have hdigit : isHexDigit ∘ Char.toLower = isHexDigit := funext isHexDigit_toLower
      simp only [lowerAscii, dropHex?, List.map_cons, dropLiteral?, hhash]
      split
      · simp only [Option.bind_eq_bind, Option.bind_some, List.takeWhile_map, List.dropWhile_map,
          List.all_map, List.length_map, hword, hdigit]
        split
        · rfl
        · rfl
      · rfl

theorem hex_lowerAscii (before : Option Char) (cs : List Char) :
    hex (before.map Char.toLower) (lowerAscii cs) =
      (hex before cs).map fun taken => (taken.1, lowerAscii taken.2) := by
  have hfront : ((before.map Char.toLower).any fun c => isWord c || c == '&') =
      before.any fun c => isWord c || c == '&' := by
    cases before with
    | none => rfl
    | some c => exact class_toLower (p := fun c => isWord c || c == '&') (by decide) c
  rw [hex, hex, hfront, dropHex?_lowerAscii]
  split
  · rfl
  · rw [Option.map_map, Option.map_map]
    rfl

theorem takenAt_hex_lowerAscii {text : List Char} {span : Nat × Nat} :
    TakenAt hex (lowerAscii text) span ↔ TakenAt hex text span := by
  rw [takenAt_lowerAscii_iff, TakenAt]
  refine exists_congr fun done => exists_congr fun piece => exists_congr fun left =>
    and_congr_right fun _ => and_congr_right fun _ => ?_
  have happend : lowerAscii piece ++ lowerAscii left = lowerAscii (piece ++ left) :=
    List.map_append.symm
  rw [happend, hex_lowerAscii]
  constructor
  · intro h
    obtain ⟨⟨⟨⟩, left'⟩, hr, hleft⟩ := Option.map_eq_some_iff.mp h
    obtain ⟨piece', hpiece, -⟩ := hex_shape hr
    have hlength : left'.length = left.length := by
      have h := congrArg (fun taken : Unit × List Char => taken.2.length) hleft
      simpa [lowerAscii] using h
    obtain ⟨-, rfl⟩ := List.append_inj' hpiece hlength.symm
    exact hr
  · intro h
    rw [h]
    rfl

/-! ### Color functions -/

theorem function_toLower (start : List Char → Option (List Char)) (before : Option Char)
    (cs : List Char) : function start (before.map Char.toLower) cs = function start before cs := by
  have hfront : startsWord (before.map Char.toLower) = startsWord before := by
    cases before with
    | none => rfl
    | some c => simp only [startsWord, Option.map_some, Option.any_some, isWord_toLower]
  rw [function, function, hfront]

theorem IsFunction.no_capital {name piece : List Char} (h : IsFunction name piece)
    (hname : asciiCapitals.all (!name.contains ·) = true) :
    ∀ c ∈ piece, isAsciiUpper c = false := by
  intro c hc
  rw [Bool.eq_false_iff]
  intro hupper
  have hsigns : (asciiCapitals.all fun c =>
      !(['a', '(', ')'].contains c) && !isArgument c) = true := by decide
  have hcapital := mem_asciiCapitals hupper
  have hname := List.all_eq_true.mp hname c hcapital
  have hsigns := List.all_eq_true.mp hsigns c hcapital
  simp only [Bool.and_eq_true, Bool.not_eq_true', List.contains_eq_mem,
    decide_eq_false_iff_not] at hname hsigns
  exact h.not_mem hname hsigns.1 hsigns.2 hc

variable {start : List Char → Option (List Char)} {name : List Char}

theorem takenAt_function_lowerAscii (hstart : StopsAt ')' start)
    (hname : asciiCapitals.all (!name.contains ·) = true)
    (shape : ∀ before cs value left, function start before cs = some (value, left) →
      ∃ piece, cs = piece ++ left ∧ IsFunction name piece) {text : List Char} {span : Nat × Nat} :
    TakenAt (function start) text span ↔ TakenAt (function start) (lowerAscii text) span ∧
      ∀ c ∈ slice text span, isAsciiUpper c = false := by
  have elsewhere : ∀ {before piece left}, function start before (piece ++ left) = some ((), left) →
      IsFunction name piece ∧
        ∀ other, function start before (piece ++ other) = some ((), other) := by
    intro before piece left h
    obtain ⟨piece', hpiece, hfunction⟩ := shape _ _ _ _ h
    obtain rfl := List.append_cancel_right hpiece
    refine ⟨hfunction, fun other => ?_⟩
    obtain ⟨fn, args, -, rfl, -⟩ := hfunction
    have hclose : ∀ rest : List Char, fn ++ '(' :: (args ++ [')']) ++ rest =
        (fn ++ '(' :: args) ++ ')' :: rest := by simp
    rw [hclose] at h ⊢
    exact function_elsewhere hstart h other
  rw [takenAt_lowerAscii_iff]
  constructor
  · rintro ⟨done, piece, left, rfl, rfl, hr⟩
    obtain ⟨hfunction, hother⟩ := elsewhere hr
    have hsmall := hfunction.no_capital hname
    rw [(standsAt_append done piece left).slice_eq]
    refine ⟨⟨done, piece, left, rfl, rfl, ?_⟩, hsmall⟩
    rw [function_toLower, lowerAscii_of_no_capital hsmall]
    exact hother _
  · rintro ⟨⟨done, piece, left, rfl, rfl, hr⟩, hsmall⟩
    rw [(standsAt_append done piece left).slice_eq] at hsmall
    rw [function_toLower, lowerAscii_of_no_capital hsmall] at hr
    exact ⟨done, piece, left, rfl, rfl, (elsewhere hr).2 left⟩

/-! ### All literals -/

/-- A literal stands in a text in a way that letter case does not spoil: it is hexadecimal, or
written in small letters. -/
def unspoilt (text : List Char) (span : Nat × Nat) : Bool :=
  (slice text span).head? == some '#' || (slice text span).all (!isAsciiUpper ·)

theorem slice_lowerAscii (text : List Char) (span : Nat × Nat) :
    slice (lowerAscii text) span = lowerAscii (slice text span) := by
  rw [slice, slice, lowerAscii, lowerAscii, ← List.map_drop, ← List.map_take]

theorem no_capital_of_unspoilt {text : List Char} {span : Nat × Nat} (hname : '#' ∉ name)
    (hfunction : IsFunction name (slice (lowerAscii text) span)) (h : unspoilt text span = true) :
    ∀ c ∈ slice text span, isAsciiUpper c = false := by
  rw [unspoilt, Bool.or_eq_true, beq_iff_eq] at h
  rcases h with hhash | hsmall
  · have hmem : '#' ∈ slice (lowerAscii text) span := by
      rw [slice_lowerAscii]
      exact List.mem_map.mpr ⟨'#', List.mem_of_head? hhash, rfl⟩
    exact absurd hmem (hfunction.not_mem hname (by decide) (by decide))
  · simpa using hsmall

/-- A function is found where it is found in the lowered copy, unless its case is spoilt. -/
theorem takenAt_function_iff_unspoilt (hstart : StopsAt ')' start)
    (hhash : '#' ∉ name) (hname : asciiCapitals.all (!name.contains ·) = true)
    (shape : ∀ before cs value left, function start before cs = some (value, left) →
      ∃ piece, cs = piece ++ left ∧ IsFunction name piece) {text : List Char} {span : Nat × Nat} :
    TakenAt (function start) text span ↔
      TakenAt (function start) (lowerAscii text) span ∧ unspoilt text span = true := by
  rw [takenAt_function_lowerAscii hstart hname shape]
  refine and_congr_right fun htaken => ⟨fun hsmall => ?_, fun h => ?_⟩
  · simpa [unspoilt] using .inr hsmall
  · exact no_capital_of_unspoilt hhash (htaken.slice shape) h

theorem takenAt_hex_iff_unspoilt {text : List Char} {span : Nat × Nat} :
    TakenAt hex text span ↔ TakenAt hex (lowerAscii text) span ∧ unspoilt text span = true := by
  rw [takenAt_hex_lowerAscii, iff_self_and]
  intro h
  rw [unspoilt, (h.slice fun _ _ _ _ => hex_shape).head?]
  rfl

theorem mem_spans_lowerAscii {text : List Char} {span : Nat × Nat} :
    span ∈ (literals text).map Token.span ↔
      span ∈ (literals (lowerAscii text)).map Token.span ∧ unspoilt text span = true := by
  have hrgb : TakenAt rgb text span ↔ TakenAt rgb (lowerAscii text) span ∧ unspoilt text span := by
    rw [rgb_eq]
    exact takenAt_function_iff_unspoilt rgbStart_stops (by decide) (by decide)
      fun _ _ _ _ h => rgb_shape (rgb_eq ▸ h)
  have hhsl : TakenAt hsl text span ↔ TakenAt hsl (lowerAscii text) span ∧ unspoilt text span := by
    rw [hsl_eq]
    exact takenAt_function_iff_unspoilt hslStart_stops (by decide) (by decide)
      fun _ _ _ _ h => hsl_shape (hsl_eq ▸ h)
  rw [mem_spans_literals, mem_spans_literals, takenAt_hex_iff_unspoilt, hrgb, hhsl]
  simp only [or_and_right]

theorem spans_pairwise (text : List Char) :
    ((literals text).map Token.span).Pairwise fun x y => x.1 < y.1 :=
  List.pairwise_map.mpr (literals_pairwise_start text)

/-- The scanner finds the literals of the lowered copy of a text, at the same spans, less the
functions that have a capital in the text; so the spans are the same only if there is none. -/
theorem literals_lowerAscii (text : List Char) :
    (literals text).map Token.span =
        ((literals (lowerAscii text)).map Token.span).filter (unspoilt text) ∧
      ((literals text).map Token.span = (literals (lowerAscii text)).map Token.span ↔
        ∀ t ∈ literals (lowerAscii text), unspoilt text t.span = true) := by
  have hfilter : (literals text).map Token.span =
      ((literals (lowerAscii text)).map Token.span).filter (unspoilt text) := by
    have hleft := spans_pairwise text
    have hright := (spans_pairwise (lowerAscii text)).filter (unspoilt text)
    have hne : ∀ {x y : Nat × Nat}, x.1 < y.1 → x ≠ y :=
      fun h heq => absurd (heq ▸ h) (Nat.lt_irrefl _)
    have hperm : ((literals text).map Token.span).Perm
        (((literals (lowerAscii text)).map Token.span).filter (unspoilt text)) := by
      refine (List.perm_ext_iff_of_nodup (hleft.imp hne) (hright.imp hne)).mpr fun span => ?_
      rw [List.mem_filter, mem_spans_lowerAscii]
    exact hperm.eq_of_pairwise (fun _ _ _ _ h h' => absurd h' (Nat.lt_asymm h)) hleft hright
  refine ⟨hfilter, ?_⟩
  rw [hfilter, List.filter_eq_self, List.forall_mem_map]

/-- A function in capitals is not found, though its lowered copy is, and a definition takes it. -/
theorem literals_capitals :
    literals "RGB(1,2,3)".toList = [] ∧
      (literals (lowerAscii "RGB(1,2,3)".toList)).map Token.span = [(0, 10)] ∧
      leading? "RGB(1,2,3)".toList = some "RGB(1,2,3)".toList := by
  decide +kernel

end Color

end ColorCensus
