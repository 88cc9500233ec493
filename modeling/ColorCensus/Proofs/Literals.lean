import ColorCensus.Color.Literal
import ColorCensus.Proofs.Pieces

/-!
# Color literals are apart

Three recognisers go over a text for color literals, each on its own. That they
never take the same place twice is seen from the characters alone. A
hexadecimal color is a `#` and digits, and neither the `#` nor the first letter
of a function is among the characters of the other. An `rgb` has no `h`, so no
`hsl` starts in it. An `hsl` may have an `r` in its unit but no `b`, and it ends
with a parenthesis, so no `rgb` starts in it either.
-/

namespace ColorCensus.Color

open Text

theorem dropAlpha?_eq (cs : List Char) :
    dropAlpha? cs =
      match dropLiteral? ['0', '.'] cs, dropLiteral? ['.'] cs with
      | some rest, _ => dropRun? isDigit rest
      | none, some rest => dropRun? isDigit rest
      | none, none => (dropLiteral? ['0'] cs).or (dropLiteral? ['1'] cs) := by
  unfold dropAlpha?
  split
  · rfl
  · rfl
  · next rest hpoint =>
      cases rest with
      | nil => rfl
      | cons c rest =>
          have hc : c ≠ '.' := fun hc => hpoint rest (by rw [hc])
          simp [dropLiteral?, Ne.symm hc]
  · rfl
  · next _ hpoint hzero hone =>
      cases cs with
      | nil => rfl
      | cons c cs =>
          have hc : c ≠ '.' := fun hc => hpoint cs (by rw [hc])
          have hc' : c ≠ '0' := fun hc => hzero cs (by rw [hc])
          have hc'' : c ≠ '1' := fun hc => hone cs (by rw [hc])
          simp [dropLiteral?, Ne.symm hc, Ne.symm hc', Ne.symm hc'']

/-! ## How literals are written -/

def IsHex (piece : List Char) : Prop :=
  ∃ run, piece = '#' :: run ∧ ∀ c ∈ run, isHexDigit c = true

/-- The characters between the parentheses of a color function. -/
def isArgument (c : Char) : Bool :=
  isDigit c || isBlank c || [',', '.', '%', 'd', 'e', 'g', 'r', 'a', 't', 'u', 'n'].contains c

/-- A color function of a name, with or without an `a` behind it. -/
def IsFunction (name : List Char) (piece : List Char) : Prop :=
  ∃ fn args, (fn = name ∨ fn = name ++ ['a']) ∧ piece = fn ++ '(' :: (args ++ [')']) ∧
    ∀ c ∈ args, isArgument c = true

theorem dropHex?_shape {cs left : List Char} (h : dropHex? cs = some left) :
    ∃ piece, cs = piece ++ left ∧ IsHex piece := by
  obtain ⟨rest, hdash, h⟩ := Option.bind_eq_some_iff.mp h
  rw [Option.ite_none_right_eq_some, Bool.and_eq_true] at h
  obtain ⟨⟨hrun, -⟩, h⟩ := h
  cases h
  refine ⟨'#' :: rest.takeWhile isWord, ?_, _, rfl, List.all_eq_true.mp hrun⟩
  rw [dropLiteral?_eq_some_iff.mp hdash]
  exact congrArg ('#' :: ·) List.takeWhile_append_dropWhile.symm

theorem hex_shape {before : Option Char} {cs left : List Char} {value : Unit}
    (h : hex before cs = some (value, left)) : ∃ piece, cs = piece ++ left ∧ IsHex piece := by
  rw [hex, Option.ite_none_left_eq_some] at h
  obtain ⟨rest, hrest, h⟩ := Option.map_eq_some_iff.mp h.2
  cases h
  exact dropHex?_shape hrest

section

variable {cs rest : List Char}

theorem isArgument_of_isDigit {c : Char} (h : isDigit c = true) : isArgument c = true := by
  rw [isArgument, h]
  rfl

theorem isArgument_of_isBlank {c : Char} (h : isBlank c = true) : isArgument c = true := by
  rw [isArgument, h, Bool.or_true]
  rfl

theorem trimLeft_takes_arguments (cs : List Char) : Takes isArgument cs (trimLeft cs) :=
  (trimLeft_takes cs).mono fun _ => isArgument_of_isBlank

theorem dropNumber?_takes (h : dropNumber? cs = some rest) : Takes isArgument cs rest := by
  obtain ⟨⟨run, left⟩, hrun, h⟩ := Option.bind_eq_some_iff.mp h
  obtain ⟨-, h⟩ := Option.ite_none_right_eq_some.mp h
  cases h
  exact (takeRun?_takes hrun).mono fun _ => isArgument_of_isDigit

theorem dropPercentage?_takes (h : dropPercentage? cs = some rest) : Takes isArgument cs rest := by
  obtain ⟨mid, hnumber, hsign⟩ := Option.bind_eq_some_iff.mp h
  exact (dropNumber?_takes hnumber).trans (dropLiteral?_takes hsign (by decide))

theorem dropComma?_takes (h : dropComma? cs = some rest) : Takes isArgument cs rest := by
  obtain ⟨mid, hcomma, h⟩ := Option.bind_eq_some_iff.mp h
  cases h
  exact (trimLeft_takes_arguments cs).trans
    ((dropLiteral?_takes hcomma (by decide)).trans (trimLeft_takes_arguments mid))

theorem dropAlpha?_takes (h : dropAlpha? cs = some rest) : Takes isArgument cs rest := by
  have digits : ∀ {mid}, dropRun? isDigit mid = some rest → Takes isArgument mid rest :=
    fun h => (dropRun?_takes h).mono fun _ => isArgument_of_isDigit
  unfold dropAlpha? at h
  split at h
  · exact (Takes.append (by decide : ['0', '.'].all isArgument = true) _).trans (digits h)
  · exact (Takes.append (by decide : ['.'].all isArgument = true) _).trans (digits h)
  · cases h
    exact Takes.append (by decide : ['0'].all isArgument = true) _
  · cases h
    exact Takes.append (by decide : ['1'].all isArgument = true) _
  · cases h

theorem dropTail?_takes (h : dropTail? cs = some rest) : Takes isArgument cs (')' :: rest) := by
  have close : ∀ {mid}, dropLiteral? [')'] (trimLeft mid) = some rest →
      Takes isArgument mid (')' :: rest) := by
    intro mid hclose
    have hblanks := trimLeft_takes_arguments mid
    rw [dropLiteral?_eq_some_iff.mp hclose] at hblanks
    exact hblanks
  unfold dropTail? at h
  dsimp only at h
  split at h
  · next left hcomma =>
      obtain ⟨mid, halpha, hclose⟩ := Option.bind_eq_some_iff.mp h
      exact (dropComma?_takes hcomma).trans ((dropAlpha?_takes halpha).trans (close hclose))
  · exact close h

theorem dropName?_shape {name : String} (h : dropName? name cs = some rest) :
    ∃ fn left, (fn = name.toList ∨ fn = name.toList ++ ['a']) ∧ cs = fn ++ '(' :: left ∧
      Takes isArgument left rest := by
  obtain ⟨afterName, hname, h⟩ := Option.bind_eq_some_iff.mp h
  obtain ⟨left, hopen, h⟩ := Option.bind_eq_some_iff.mp h
  cases h
  rw [dropLiteral?_eq_some_iff] at hname hopen
  cases ha : dropLiteral? ['a'] afterName with
  | none =>
      rw [ha, Option.getD_none] at hopen
      exact ⟨_, left, .inl rfl, by rw [hname, hopen]; rfl, trimLeft_takes_arguments left⟩
  | some afterA =>
      rw [ha, Option.getD_some] at hopen
      rw [dropLiteral?_eq_some_iff] at ha
      refine ⟨_, left, .inr rfl, ?_, trimLeft_takes_arguments left⟩
      rw [hname, ha, hopen, List.append_assoc]
      rfl

end

theorem isFunction_of_takes {name : String} {cs mid left : List Char}
    (hname : dropName? name cs = some mid) (hargs : Takes isArgument mid (')' :: left)) :
    ∃ piece, cs = piece ++ left ∧ IsFunction name.toList piece := by
  obtain ⟨fn, afterOpen, hfn, rfl, htakes⟩ := dropName?_shape hname
  obtain ⟨args, rfl, hargs⟩ := htakes.trans hargs
  refine ⟨fn ++ '(' :: (args ++ [')']), ?_, fn, args, hfn, rfl, hargs⟩
  simp

theorem rgb_shape {before : Option Char} {cs left : List Char} {value : Unit}
    (h : rgb before cs = some (value, left)) :
    ∃ piece, cs = piece ++ left ∧ IsFunction ['r', 'g', 'b'] piece := by
  rw [rgb, Option.ite_none_right_eq_some] at h
  obtain ⟨afterName, hname, h⟩ := Option.bind_eq_some_iff.mp h.2
  obtain ⟨_, hred, h⟩ := Option.bind_eq_some_iff.mp h
  obtain ⟨_, hcomma, h⟩ := Option.bind_eq_some_iff.mp h
  obtain ⟨_, hgreen, h⟩ := Option.bind_eq_some_iff.mp h
  obtain ⟨_, hcomma', h⟩ := Option.bind_eq_some_iff.mp h
  obtain ⟨_, hblue, h⟩ := Option.bind_eq_some_iff.mp h
  obtain ⟨_, htail, h⟩ := Option.bind_eq_some_iff.mp h
  cases h
  refine isFunction_of_takes hname ?_
  exact (dropNumber?_takes hred).trans <| (dropComma?_takes hcomma).trans <|
    (dropNumber?_takes hgreen).trans <| (dropComma?_takes hcomma').trans <|
    (dropNumber?_takes hblue).trans (dropTail?_takes htail)

theorem dropUnit_takes (cs : List Char) :
    Takes isArgument cs ((dropOneOf? ["deg", "rad", "turn"] cs).getD cs) := by
  cases hunit : dropOneOf? ["deg", "rad", "turn"] cs with
  | none => exact .refl cs
  | some rest => exact dropOneOf?_takes hunit (by decide)

theorem hsl_shape {before : Option Char} {cs left : List Char} {value : Unit}
    (h : hsl before cs = some (value, left)) :
    ∃ piece, cs = piece ++ left ∧ IsFunction ['h', 's', 'l'] piece := by
  rw [hsl, Option.ite_none_right_eq_some] at h
  obtain ⟨afterName, hname, h⟩ := Option.bind_eq_some_iff.mp h.2
  obtain ⟨afterHue, hhue, h⟩ := Option.bind_eq_some_iff.mp h
  obtain ⟨_, hcomma, h⟩ := Option.bind_eq_some_iff.mp h
  obtain ⟨_, hsaturation, h⟩ := Option.bind_eq_some_iff.mp h
  obtain ⟨_, hcomma', h⟩ := Option.bind_eq_some_iff.mp h
  obtain ⟨_, hlightness, h⟩ := Option.bind_eq_some_iff.mp h
  obtain ⟨_, htail, h⟩ := Option.bind_eq_some_iff.mp h
  cases h
  refine isFunction_of_takes hname ?_
  exact (dropNumber?_takes hhue).trans <| (dropUnit_takes afterHue).trans <|
    (dropComma?_takes hcomma).trans <| (dropPercentage?_takes hsaturation).trans <|
    (dropComma?_takes hcomma').trans <| (dropPercentage?_takes hlightness).trans
    (dropTail?_takes htail)

/-! ## Two literals of different kinds -/

theorem IsHex.head? {piece : List Char} (h : IsHex piece) : piece.head? = some '#' := by
  obtain ⟨run, rfl, -⟩ := h
  rfl

theorem IsHex.not_mem {piece : List Char} (h : IsHex piece) {c : Char} (hhash : c ≠ '#')
    (hdigit : isHexDigit c = false) : c ∉ piece := by
  obtain ⟨run, rfl, hrun⟩ := h
  intro hc
  have hmem := (List.mem_cons.mp hc).resolve_left hhash
  rw [hrun c hmem] at hdigit
  cases hdigit

namespace IsFunction

variable {name piece text : List Char} {a : Nat}

theorem head? (h : IsFunction name piece) (hname : name ≠ []) : piece.head? = name.head? := by
  obtain ⟨fn, args, hfn, rfl, -⟩ := h
  obtain ⟨c, rest, rfl⟩ := List.exists_cons_of_ne_nil hname
  rcases hfn with rfl | rfl
  · rfl
  · rfl

theorem not_mem (h : IsFunction name piece) {c : Char} (hname : c ∉ name)
    (hsigns : c ∉ ['a', '(', ')']) (hargument : isArgument c = false) : c ∉ piece := by
  obtain ⟨fn, args, hfn, rfl, hargs⟩ := h
  have hc : c ∉ args := by
    intro hc
    rw [hargs c hc] at hargument
    cases hargument
  simp only [List.mem_cons, List.not_mem_nil, or_false, not_or] at hsigns
  rcases hfn with rfl | rfl
  · simp [hname, hsigns, hc]
  · simp [hname, hsigns, hc]

theorem standsAt_name (h : IsFunction name piece) (hstands : StandsAt piece text a) :
    StandsAt name text a := by
  obtain ⟨fn, args, hfn, rfl, -⟩ := h
  rcases hfn with rfl | rfl
  · exact hstands.left
  · exact hstands.left.left

theorem getElem?_last (h : IsFunction name piece) (hstands : StandsAt piece text a) :
    ∃ k, k + 1 = a + piece.length ∧ text[k]? = some ')' := by
  obtain ⟨fn, args, -, rfl, -⟩ := h
  refine ⟨a + (fn ++ '(' :: args).length, ?_, ?_⟩
  · simp
    omega
  · rw [← List.cons_append, ← List.append_assoc] at hstands
    exact hstands.right.head rfl

end IsFunction

theorem hex_apart_function {name xs ys text : List Char} {a b : Nat} {c : Char}
    (hx : IsHex xs) (hy : IsFunction (c :: name) ys) (hhash : '#' ∉ c :: name)
    (hdigit : isHexDigit c = false) (standsX : StandsAt xs text a) (standsY : StandsAt ys text b) :
    Apart (a, a + xs.length) (b, b + ys.length) := by
  have hc : c ≠ '#' := fun h => hhash (h ▸ List.mem_cons_self)
  exact standsX.apart standsY hx.head? (hy.head? (List.cons_ne_nil _ _))
    (hy.not_mem hhash (by decide) (by decide)) (hx.not_mem hc hdigit)

/-- No `hsl` starts in an `rgb`, which has no `h`. An `rgb` that starts in an
`hsl` would have to end its name there, and there is no `b`, or to start at the
last two characters, where there is the parenthesis. -/
theorem rgb_apart_hsl {xs ys text : List Char} {a b : Nat} (hx : IsFunction ['r', 'g', 'b'] xs)
    (hy : IsFunction ['h', 's', 'l'] ys) (standsX : StandsAt xs text a)
    (standsY : StandsAt ys text b) : Apart (a, a + xs.length) (b, b + ys.length) := by
  have standsName : StandsAt ['r', 'g', 'b'] text a := hx.standsAt_name standsX
  have r : text[a + 0]? = some 'r' := standsName.getElem? (by decide)
  have g : text[a + 1]? = some 'g' := standsName.getElem? (by decide)
  have b' : text[a + 2]? = some 'b' := standsName.getElem? (by decide)
  obtain ⟨last, hlast, hclose⟩ := hy.getElem?_last standsY
  have hb := standsY.outside b' (hy.not_mem (by decide) (by decide) (by decide))
  have hh := standsX.outside (standsY.head (hy.head? (by decide)))
    (hx.not_mem (by decide) (by decide) (by decide))
  have hr : last ≠ a + 0 := fun h => by rw [h, r] at hclose; cases hclose
  have hg : last ≠ a + 1 := fun h => by rw [h, g] at hclose; cases hclose
  unfold Apart
  omega

/-! ## All literals of a text -/

def IsLiteral (piece : List Char) : Prop :=
  IsHex piece ∨ IsFunction ['r', 'g', 'b'] piece ∨ IsFunction ['h', 's', 'l'] piece

theorem IsLiteral.ne_nil {piece : List Char} (h : IsLiteral piece) : piece ≠ [] := by
  rcases h with ⟨run, rfl, -⟩ | ⟨fn, args, -, rfl, -⟩ | ⟨fn, args, -, rfl, -⟩
  · exact List.cons_ne_nil _ _
  · simp
  · simp

theorem IsLiteral.dash_not_mem {piece : List Char} (h : IsLiteral piece) : '-' ∉ piece := by
  rcases h with h | h | h
  · exact h.not_mem (by decide) (by decide)
  · exact h.not_mem (by decide) (by decide) (by decide)
  · exact h.not_mem (by decide) (by decide) (by decide)

/-- A literal starts with a few letters, if any, and a `#` or a parenthesis. -/
theorem IsLiteral.opening {piece : List Char} (h : IsLiteral piece) :
    ∃ letters c rest, piece = letters ++ c :: rest ∧ (c = '#' ∨ c = '(') ∧
      letters ⊆ ['r', 'g', 'b', 'h', 's', 'l', 'a'] := by
  rcases h with ⟨run, rfl, -⟩ | ⟨fn, args, rfl | rfl, rfl, -⟩ | ⟨fn, args, rfl | rfl, rfl, -⟩
  · exact ⟨[], '#', run, rfl, .inl rfl, List.nil_subset _⟩
  · exact ⟨_, '(', _, rfl, .inr rfl, by decide⟩
  · exact ⟨_, '(', _, rfl, .inr rfl, by decide⟩
  · exact ⟨_, '(', _, rfl, .inr rfl, by decide⟩
  · exact ⟨_, '(', _, rfl, .inr rfl, by decide⟩

theorem mem_literals {text : List Char} {t : Token Unit} :
    t ∈ literals text ↔ t ∈ tokens hex text ∨ t ∈ tokens rgb text ∨ t ∈ tokens hsl text := by
  rw [literals, List.mem_mergeSort, List.mem_append, List.mem_append, or_assoc]

theorem standsAt_of_mem_literals {text : List Char} {t : Token Unit} (h : t ∈ literals text) :
    StandsAt t.text text t.start ∧ IsLiteral t.text := by
  rcases mem_literals.mp h with h | h | h
  · exact (standsAt_of_mem_tokens (fun _ _ _ _ => hex_shape) h).imp_right .inl
  · exact (standsAt_of_mem_tokens (fun _ _ _ _ => rgb_shape) h).imp_right fun h => .inr (.inl h)
  · exact (standsAt_of_mem_tokens (fun _ _ _ _ => hsl_shape) h).imp_right fun h => .inr (.inr h)

theorem start_lt_stop_of_mem_literals {text : List Char} {t : Token Unit}
    (ht : t ∈ literals text) : t.start < t.stop :=
  Nat.lt_add_of_pos_right (List.length_pos_iff.mpr (standsAt_of_mem_literals ht).2.ne_nil)

theorem literals_pairwise_apart (text : List Char) :
    (literals text).Pairwise fun t u => Apart t.span u.span := by
  rw [literals, (List.mergeSort_perm _ _).pairwise_iff Apart.symm]
  refine List.pairwise_append.mpr ⟨List.pairwise_append.mpr ⟨tokens_pairwise_apart hex text,
    tokens_pairwise_apart rgb text, fun t ht u hu => ?_⟩, tokens_pairwise_apart hsl text,
    fun t ht u hu => ?_⟩
  · obtain ⟨standsX, hx⟩ := standsAt_of_mem_tokens (fun _ _ _ _ => hex_shape) ht
    obtain ⟨standsY, hy⟩ := standsAt_of_mem_tokens (fun _ _ _ _ => rgb_shape) hu
    exact hex_apart_function hx hy (by decide) (by decide) standsX standsY
  · obtain ⟨standsY, hy⟩ := standsAt_of_mem_tokens (fun _ _ _ _ => hsl_shape) hu
    rcases List.mem_append.mp ht with ht | ht
    · obtain ⟨standsX, hx⟩ := standsAt_of_mem_tokens (fun _ _ _ _ => hex_shape) ht
      exact hex_apart_function hx hy (by decide) (by decide) standsX standsY
    · obtain ⟨standsX, hx⟩ := standsAt_of_mem_tokens (fun _ _ _ _ => rgb_shape) ht
      exact rgb_apart_hsl hx hy standsX standsY

end ColorCensus.Color
