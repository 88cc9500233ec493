import ColorCensus.Proofs.Masking
import ColorCensus.Theme.Lines

/-!
# Addresses in lines

A line is read in two ways: the theme code drops its comments, the search for a scope blanks them
out. Block comments are the same for both. What differs is `//`: it always opens a comment for the
former, and not in an address for the latter. So the former never sees a brace that the latter does
not see, and it misses those that stand behind an address on the line
(`braces_stripComments_prefix`).

On a single line a comment that `//` opens goes on to the end, so either reading comes down to the
text in front of its first such comment (`frontFrom`). Both fronts are walked at once, over the line
with its block comments blanked out on one side and closed up on the other (`Fades`): wherever the
former reading goes on, the latter goes on too.
-/

namespace ColorCensus.Text

variable {α : Type} {r : Recognizer α} {f : Char → List Char} {before : Option Char}
  {cs text : List Char}

/-- The braces of a text, in order. -/
def braces (cs : List Char) : List Char := cs.filter fun c => c == '{' || c == '}'

/-- A line without its block comments, closed up. -/
def dropBlockComments (line : List Char) : List Char :=
  overTokens (blockComment true) (fun _ => []) line

theorem braces_append (xs ys : List Char) : braces (xs ++ ys) = braces xs ++ braces ys :=
  List.filter_append ..

theorem braces_mono {xs ys : List Char} (h : xs <+: ys) : braces xs <+: braces ys :=
  h.filter _

/-! ## The text in front of the first token -/

/-- The text in front of the first token, told the character before the text. -/
def frontFrom (r : Recognizer α) : Option Char → List Char → List Char
  | _, [] => []
  | before, c :: rest =>
      if (r before (c :: rest)).isSome then [] else c :: frontFrom r (some c) rest

theorem frontFrom_isPrefix_of_isSome {front rest : List Char} (hne : rest ≠ [])
    (h : (r (front.getLast?.or before) rest).isSome) :
    frontFrom r before (front ++ rest) <+: front := by
  induction front generalizing before with
  | nil =>
      obtain ⟨c, rest, rfl⟩ := List.exists_cons_of_ne_nil hne
      have hhere : frontFrom r before (c :: rest) = [] := if_pos h
      exact List.prefix_nil.mpr hhere
  | cons c front ih =>
      rw [getLast?_cons_or] at h
      rw [List.cons_append, frontFrom]
      split
      · exact List.nil_prefix
      · exact List.prefix_cons_inj c |>.mpr (ih h)

theorem frontFrom_cases (r : Recognizer α) (before : Option Char) (cs : List Char) :
    frontFrom r before cs = cs ∨ ∃ rest, cs = frontFrom r before cs ++ rest ∧
      (r ((frontFrom r before cs).getLast?.or before) rest).isSome := by
  induction cs generalizing before with
  | nil => exact .inl rfl
  | cons c cs ih =>
      rw [frontFrom]
      split
      · next h => exact .inr ⟨c :: cs, rfl, h⟩
      · obtain hnone | ⟨rest, hrest, hsome⟩ := ih (some c)
        · exact .inl (congrArg (c :: ·) hnone)
        · refine .inr ⟨rest, congrArg (c :: ·) hrest, ?_⟩
          rw [getLast?_cons_or]
          exact hsome

theorem frontFrom_isPrefix (r : Recognizer α) (before : Option Char) (cs : List Char) :
    frontFrom r before cs <+: cs := by
  obtain h | ⟨rest, h, -⟩ := frontFrom_cases r before cs
  · exact ⟨[], by rw [List.append_nil, h]⟩
  · exact ⟨rest, h.symm⟩

/-- Where tokens run to the end of the text, writing over them keeps the front and writes over all
that is behind it. -/
theorem overTokensFrom_of_toEnd
    (h : ∀ before rest value left, rest <:+ cs → r before rest = some (value, left) → left = [])
    (before : Option Char) :
    ∃ behind : List Char,
      overTokensFrom r f 0 before cs = frontFrom r before cs ++ behind.flatMap f := by
  induction cs generalizing before with
  | nil => exact ⟨[], rfl⟩
  | cons c cs ih =>
      cases hr : r before (c :: cs) with
      | none =>
          obtain ⟨behind, hbehind⟩ :=
            ih (fun before rest value left hsuffix =>
              h before rest value left (hsuffix.trans (List.suffix_cons c cs))) (some c)
          refine ⟨behind, ?_⟩
          rw [overTokensFrom_none hr, hbehind, frontFrom, hr]
          rfl
      | some taken =>
          obtain ⟨value, left⟩ := taken
          obtain rfl := h before _ value left (List.suffix_refl _) hr
          refine ⟨c :: cs, ?_⟩
          have hpiece : r before ((c :: cs) ++ []) = some (value, []) := by
            rw [List.append_nil, hr]
          have hover := overTokensFrom_some (f := f) (List.cons_ne_nil c cs) hpiece
          have hend : overTokensFrom r f 0 (c :: cs).getLast? [] = [] := rfl
          rw [List.append_nil, hend, List.append_nil] at hover
          rw [hover, frontFrom, hr]
          rfl

theorem braces_overTokens
    (h : ∀ before rest value left, rest <:+ cs → r before rest = some (value, left) → left = [])
    (hf : ∀ c, braces (f c) = []) : braces (overTokens r f cs) = braces (frontFrom r none cs) := by
  have hwritten : ∀ behind : List Char, braces (behind.flatMap f) = [] := by
    intro behind
    rw [braces, List.filter_flatMap, List.flatMap_eq_nil_iff]
    exact fun c _ => hf c
  obtain ⟨behind, hbehind⟩ := overTokensFrom_of_toEnd (f := f) h none
  rw [overTokens, hbehind, braces_append, hwritten, List.append_nil]

theorem braces_blank (c : Char) : braces (blank c) = [] := by
  rw [blank]
  split
  · rfl
  · rfl

/-! ## Comments that `//` opens -/

theorem dropWhile_line (h : '\n' ∉ cs) : cs.dropWhile (· != '\n') = [] := by
  induction cs with
  | nil => rfl
  | cons c cs ih =>
      rw [List.mem_cons, not_or] at h
      obtain ⟨hc, hcs⟩ := h
      rw [List.dropWhile_cons_of_pos (by simpa using Ne.symm hc), ih hcs]

theorem trailingComment_eq (h : '\n' ∉ cs) (before : Option Char) :
    trailingComment before cs = (dropLiteral? ['/', '/'] cs).map fun _ => ((), []) := by
  rw [trailingComment]
  cases hopen : dropLiteral? ['/', '/'] cs with
  | none => rfl
  | some rest =>
      have hrest : '\n' ∉ rest := by
        rw [dropLiteral?_eq_some_iff.mp hopen] at h
        exact fun hmem => h (List.mem_append_right _ hmem)
      simp only [Option.bind_eq_bind, Option.bind_some, dropWhile_line hrest]
      rfl

theorem trailingComment_isSome_iff (h : '\n' ∉ cs) :
    (trailingComment before cs).isSome ↔ ∃ rest, cs = '/' :: '/' :: rest := by
  rw [trailingComment_eq h, Option.isSome_map, Option.isSome_iff_exists]
  simp only [dropLiteral?_eq_some_iff]
  rfl

theorem braces_stripped {line : List Char} (h : '\n' ∉ dropBlockComments line) :
    braces (stripComments line) =
      braces (frontFrom trailingComment none (dropBlockComments line)) := by
  refine braces_overTokens (fun before rest value left hsuffix hr => ?_) fun _ => rfl
  rw [trailingComment_eq fun hmem => h (hsuffix.mem hmem)] at hr
  obtain ⟨_, -, hr⟩ := Option.map_eq_some_iff.mp hr
  exact (Prod.mk.inj hr).2.symm

theorem braces_masked {line : List Char} (h : '\n' ∉ maskComments false line) :
    braces (maskComments true line) =
      braces (frontFrom lineComment none (maskComments false line)) := by
  refine braces_overTokens (fun before rest value left hsuffix hr => ?_) braces_blank
  obtain ⟨inside, rfl, rfl⟩ := lineComment_eq_some hr
  exact dropWhile_line fun hmem => h (hsuffix.mem (List.mem_append_right _ hmem))

/-! ## Block comments on a line -/

theorem afterClose?_onLine (h : '\n' ∉ cs) : afterClose? true cs = afterClose? false cs := by
  induction cs with
  | nil => rfl
  | cons c cs ih =>
      rw [List.mem_cons, not_or] at h
      obtain ⟨hc, hcs⟩ := h
      rw [afterClose?.eq_def true, afterClose?.eq_def false]
      split
      · rfl
      · rfl
      · next c' cs' _ heq =>
          cases heq
          have hpass : (c == '\n') = false := beq_false_of_ne (Ne.symm hc)
          rw [hpass, Bool.and_false, Bool.and_false, ih hcs]

/-- On a line it makes no difference whether block comments may go on behind its end. -/
theorem blockComment_onLine (h : '\n' ∉ cs) (before : Option Char) :
    blockComment true before cs = blockComment false before cs := by
  rw [blockComment, blockComment]
  cases hopen : dropLiteral? ['/', '*'] cs with
  | none => rfl
  | some inside =>
      have hinside : '\n' ∉ inside := by
        rw [dropLiteral?_eq_some_iff.mp hopen] at h
        exact fun hmem => h (List.mem_append_right _ hmem)
      simp only [Option.bind_eq_bind, Option.bind_some, afterClose?_onLine hinside]

theorem overTokensFrom_congr {r' : Recognizer α}
    (h : ∀ before rest, rest <:+ text → r before rest = r' before rest) (skip : Nat)
    (before : Option Char) :
    overTokensFrom r f skip before text = overTokensFrom r' f skip before text := by
  induction text generalizing skip before with
  | nil =>
      cases skip with
      | zero => rfl
      | succ _ => rfl
  | cons c rest ih =>
      have hrest : ∀ skip before, overTokensFrom r f skip before rest =
          overTokensFrom r' f skip before rest :=
        ih fun before cs hsuffix => h before cs (hsuffix.trans (List.suffix_cons c rest))
      cases skip with
      | succ skip => rw [overTokensFrom, overTokensFrom, hrest]
      | zero =>
          have hhere := h before (c :: rest) (List.suffix_refl _)
          cases hr : r' before (c :: rest) with
          | none =>
              rw [overTokensFrom_none (hhere.trans hr), overTokensFrom_none hr, hrest]
          | some taken =>
              rw [overTokensFrom, hhere.trans hr, overTokensFrom, hr]
              dsimp only
              rw [hrest]

/-- The second text is the first one without some of its spaces. -/
inductive Fades : List Char → List Char → Prop
  | nil : Fades [] []
  | keep (c : Char) {xs ys : List Char} : Fades xs ys → Fades (c :: xs) (c :: ys)
  | space {xs ys : List Char} : Fades xs ys → Fades (' ' :: xs) ys

theorem fades_overTokensFrom (h : '\n' ∉ text) (skip : Nat) (before : Option Char) :
    Fades (overTokensFrom r blank skip before text)
      (overTokensFrom r (fun _ => []) skip before text) := by
  induction text generalizing skip before with
  | nil =>
      cases skip with
      | zero => exact .nil
      | succ _ => exact .nil
  | cons c rest ih =>
      rw [List.mem_cons, not_or] at h
      obtain ⟨hc, hrest⟩ := h
      have hblank : blank c = [' '] := blank_of_ne (Ne.symm hc)
      cases skip with
      | succ skip =>
          rw [overTokensFrom, overTokensFrom, hblank]
          exact .space (ih hrest skip (some c))
      | zero =>
          cases hr : r before (c :: rest) with
          | none =>
              rw [overTokensFrom_none hr, overTokensFrom_none hr]
              exact .keep c (ih hrest 0 (some c))
          | some taken =>
              rw [overTokensFrom, hr, overTokensFrom, hr]
              dsimp only
              rw [hblank]
              exact .space (ih hrest _ (some c))

/-- The block comments of a line are blanked out in one reading and closed up in the other. -/
theorem fades_line {line : List Char} (h : '\n' ∉ line) :
    Fades (maskComments false line) (dropBlockComments line) := by
  have hsame : dropBlockComments line = overTokens (blockComment false) (fun _ => []) line :=
    overTokensFrom_congr (fun before rest hsuffix =>
      blockComment_onLine (fun hmem => h (hsuffix.mem hmem)) before) 0 none
  rw [hsame]
  exact fades_overTokensFrom h 0 none

namespace Fades

variable {xs ys : List Char}

theorem sublist (h : Fades xs ys) : ys.Sublist xs := by
  induction h with
  | nil => exact List.Sublist.refl _
  | keep c _ ih => exact ih.cons_cons c
  | space _ ih => exact ih.cons ' '

theorem braces_eq (h : Fades xs ys) : braces xs = braces ys := by
  induction h with
  | nil => rfl
  | keep c _ ih =>
      rw [braces, braces, List.filter_cons, List.filter_cons]
      change (if _ then c :: braces _ else braces _) = _
      rw [ih]
      rfl
  | space _ ih => exact ih

theorem slashes (h : Fades xs ys) {rest : List Char} (hxs : xs = '/' :: '/' :: rest) :
    ∃ rest', ys = '/' :: '/' :: rest' := by
  subst hxs
  cases h with
  | keep _ h =>
      cases h with
      | keep _ _ => exact ⟨_, rfl⟩

theorem braces_front_isPrefix (h : Fades xs ys) (hys : '\n' ∉ ys) (before before' : Option Char) :
    braces (frontFrom trailingComment before ys) <+: braces (frontFrom lineComment before' xs) := by
  induction h generalizing before before' with
  | nil => exact List.nil_prefix
  | @keep c xs ys h ih =>
      rw [frontFrom]
      split
      · exact List.nil_prefix
      · next hnone =>
          have hpass : ¬ (lineComment before' (c :: xs)).isSome := by
            intro hsome
            obtain ⟨⟨rest, hrest⟩, -⟩ := lineComment_isSome_iff.mp hsome
            exact hnone ((trailingComment_isSome_iff hys).mpr ((keep c h).slashes hrest))
          rw [frontFrom, if_neg hpass]
          have hlater := ih (fun hmem => hys (List.mem_cons_of_mem c hmem)) (some c) (some c)
          rw [braces, braces, List.filter_cons, List.filter_cons]
          split
          · exact List.prefix_cons_inj c |>.mpr hlater
          · exact hlater
  | @space xs ys h ih =>
      have hpass : ¬ (lineComment before' (' ' :: xs)).isSome := by
        intro hsome
        obtain ⟨⟨rest, hrest⟩, -⟩ := lineComment_isSome_iff.mp hsome
        cases hrest
      rw [frontFrom.eq_2 lineComment, if_neg hpass]
      exact ih hys before (some ' ')

/-- A brace behind slashes is hidden from the reading without spaces. If the other one sees no more,
it has come to a comment as well. -/
theorem exists_comment (h : Fades xs ys) (hys : '\n' ∉ ys)
    (heq : braces (frontFrom trailingComment none ys) = braces (frontFrom lineComment none xs))
    {front rest : List Char} (hfront : ys = front ++ '/' :: '/' :: rest)
    (hbraces : braces rest ≠ []) :
    ∃ front' rest', xs = front' ++ '/' :: '/' :: rest' ∧
      front'.getLast?.any opensAddress = false ∧ braces front' <+: braces front := by
  subst hfront
  have hslashes : '\n' ∉ '/' :: '/' :: rest := fun hmem => hys (List.mem_append_right _ hmem)
  have hshort : braces (frontFrom trailingComment none (front ++ '/' :: '/' :: rest)) <+:
      braces front :=
    braces_mono (frontFrom_isPrefix_of_isSome (List.cons_ne_nil _ _)
      ((trailingComment_isSome_iff hslashes).mpr ⟨rest, rfl⟩))
  rw [heq] at hshort
  obtain hwhole | ⟨behind, hbehind, hcomment⟩ := frontFrom_cases lineComment none xs
  · have hlength := hshort.length_le
    rw [hwhole, h.braces_eq, braces_append, List.length_append] at hlength
    have hpos : 0 < (braces ('/' :: '/' :: rest)).length := List.length_pos_iff.mpr hbraces
    omega
  · obtain ⟨⟨rest', rfl⟩, haddress⟩ := lineComment_isSome_iff.mp hcomment
    rw [Option.or_none] at haddress
    exact ⟨_, rest', hbehind, haddress, hshort⟩

/-- The reading with spaces sees no more, if it has a comment where one hides a brace from the
other. -/
theorem braces_front_le (h : Fades xs ys) (hys : '\n' ∉ ys)
    (hcomments : ∀ front rest, ys = front ++ '/' :: '/' :: rest → braces rest ≠ [] →
      ∃ front' rest', xs = front' ++ '/' :: '/' :: rest' ∧
        front'.getLast?.any opensAddress = false ∧ braces front' <+: braces front) :
    braces (frontFrom lineComment none xs) <+: braces (frontFrom trailingComment none ys) := by
  have hseen : braces (frontFrom lineComment none xs) <+: braces ys := by
    rw [← h.braces_eq]
    exact braces_mono (frontFrom_isPrefix _ _ _)
  obtain hwhole | ⟨behind, hbehind, hcomment⟩ := frontFrom_cases trailingComment none ys
  · rw [hwhole]
    exact hseen
  · have hnewline : '\n' ∉ behind := fun hmem => hys (hbehind ▸ List.mem_append_right _ hmem)
    obtain ⟨rest, rfl⟩ := (trailingComment_isSome_iff hnewline).mp hcomment
    by_cases hbraces : braces rest = []
    · have hnone : braces ('/' :: '/' :: rest) = [] := hbraces
      have hall := congrArg braces hbehind
      rw [braces_append, hnone, List.append_nil] at hall
      rw [← hall]
      exact hseen
    · obtain ⟨front', rest', rfl, haddress, hless⟩ := hcomments _ rest hbehind hbraces
      refine (braces_mono (frontFrom_isPrefix_of_isSome (List.cons_ne_nil _ _) ?_)).trans hless
      rw [Option.or_none]
      exact lineComment_isSome_iff.mpr ⟨⟨rest', rfl⟩, haddress⟩

end Fades

/-! ## What the two readings see -/

theorem newline_not_mem_maskComments {lineComments : Bool} (h : '\n' ∉ text) :
    '\n' ∉ maskComments lineComments text := by
  intro hmem
  have hmap : true ∈ (maskComments lineComments text).map (· == '\n') :=
    List.mem_map.mpr ⟨_, hmem, rfl⟩
  rw [maskComments_newlines] at hmap
  obtain ⟨c, hc, hnewline⟩ := List.mem_map.mp hmap
  exact h (beq_iff_eq.mp hnewline ▸ hc)

/-- The theme code sees no brace of a line that the search for a scope does not see. It sees all
that the latter sees exactly if every `//` that hides a brace, with the block comments of the line
closed up, has a `//` outside of an address at it or in front of it, with the block comments blanked
out. -/
theorem braces_stripComments_prefix (line : List Char) (h : '\n' ∉ line) :
    braces (stripComments line) <+: braces (maskComments true line) ∧
      (braces (stripComments line) = braces (maskComments true line) ↔
        ∀ front rest, dropBlockComments line = front ++ '/' :: '/' :: rest → braces rest ≠ [] →
          ∃ front' rest', maskComments false line = front' ++ '/' :: '/' :: rest' ∧
            front'.getLast?.any opensAddress = false ∧ braces front' <+: braces front) := by
  have hfades := fades_line h
  have hmasked : '\n' ∉ maskComments false line := newline_not_mem_maskComments h
  have hdropped : '\n' ∉ dropBlockComments line := fun hmem => hmasked (hfades.sublist.mem hmem)
  have hfirst := hfades.braces_front_isPrefix hdropped none none
  rw [braces_stripped hdropped, braces_masked hmasked]
  refine ⟨hfirst, fun heq front rest => hfades.exists_comment hdropped heq, fun hcomments => ?_⟩
  have hback := hfades.braces_front_le hdropped hcomments
  exact hfirst.eq_of_length (Nat.le_antisymm hfirst.length_le hback.length_le)

/-- A rule with a block comment in it and a line comment behind it. -/
def commented : List Char := "a \x7b /* \x7b */ \x7d // \x7d".toList

/-- Both readings come to the line comment behind the braces of the rule. -/
theorem braces_stripComments_commented :
    '\n' ∉ commented ∧ braces (stripComments commented) <+: braces (maskComments true commented) ∧
      ∃ front rest, maskComments false commented = front ++ '/' :: '/' :: rest ∧
        front.getLast?.any opensAddress = false ∧ braces front <+: ['{', '}'] := by
  have hline : '\n' ∉ commented := by decide
  obtain ⟨hfirst, hiff⟩ := braces_stripComments_prefix commented hline
  have heq : braces (stripComments commented) = braces (maskComments true commented) := by
    decide +kernel
  have hdropped : dropBlockComments commented =
      "a \x7b  \x7d ".toList ++ '/' :: '/' :: " \x7d".toList := by decide +kernel
  exact ⟨hline, hfirst, hiff.mp heq _ _ hdropped (by decide)⟩

/-- A rule whose address holds slashes, on a line of its own. -/
def addressed : List Char := "a \x7b b: url(//c) \x7d".toList

/-- The theme code takes the rest of the line for a comment and does not see the rule close. If the
rule is in a dark block, that block stays open behind its brace. -/
theorem braces_addressed :
    braces (stripComments addressed) = ['{'] ∧ braces (maskComments true addressed) = ['{', '}'] ∧
      Theme.ofLines [] ("@media (prefers-color-scheme: dark) \x7b\n".toList ++ addressed ++
          "\n\x7d\nd".toList) = [.base, .dark, .dark, .dark] := by
  decide +kernel

end ColorCensus.Text
