import ColorCensus.Color.NormalForm
import ColorCensus.Proofs.LineEnds.Tokens
import ColorCensus.Theme.Coverage
import ColorCensus.Theme.Lines
import Mathlib.Data.List.Forall2
import Mathlib.Data.List.Induction

/-!
# Themes and line ends

Themes are told line by line, and a carriage return at the end of a line is
dropped before anything is looked for in it (`ofLines_crlf`).

Whether a file follows the system is told from its whole text in lower case. A
line end has no case, and it does not stand in the way of the rule for the final
sigma either, so lower-casing leaves line ends where they are (`lower_crlf`).
Where a blank may stand a line end may stand, of either kind. An attribute name
is spelled out, though: one that holds a line end would be found with one kind
and not with the other, and `followsSystem_crlf` is about names without any.
-/

namespace ColorCensus

open Text

namespace Text

/-! ## Lower case -/

theorem meetsCased_newline (cs : List Char) : meetsCased ('\n' :: cs) = false := by
  have hcase : isCaseIgnorable '\n' = false ∧ isCased '\n' = false := by decide +kernel
  rw [meetsCased, List.dropWhile_cons_of_neg (by simp [hcase.1])]
  exact hcase.2

theorem meetsCased_return (cs : List Char) : meetsCased ('\r' :: cs) = false := by
  have hcase : isCaseIgnorable '\r' = false ∧ isCased '\r' = false := by decide +kernel
  rw [meetsCased, List.dropWhile_cons_of_neg (by simp [hcase.1])]
  exact hcase.2

theorem meetsCased_cons (c : Char) (cs : List Char) :
    meetsCased (c :: cs) = if isCaseIgnorable c then meetsCased cs else isCased c := by
  rw [meetsCased, List.dropWhile_cons]
  split
  · rfl
  · rfl

theorem meetsCased_crlf (cs : List Char) : meetsCased (crlf cs) = meetsCased cs := by
  induction cs with
  | nil => rfl
  | cons c cs ih =>
      by_cases hc : c = '\n'
      · subst hc
        rw [crlf_newline, meetsCased_return, meetsCased_newline]
      · rw [crlf_cons hc, meetsCased_cons, meetsCased_cons, ih]

/-- All that counts of the text before is whether its last character with a case
can be seen from its end. -/
theorem lowerAfter_congr {before before' : List Char}
    (h : meetsCased before = meetsCased before') (cs : List Char) :
    lowerAfter before cs = lowerAfter before' cs := by
  induction cs generalizing before before' with
  | nil => rfl
  | cons c cs ih =>
      have hnext : meetsCased (c :: before) = meetsCased (c :: before') := by
        rw [meetsCased_cons, meetsCased_cons, h]
      rw [lowerAfter, lowerAfter, h, ih hnext]

theorem ofNat_ne {n : Nat} {c : Char} (hn : n ≠ c.toNat) (hc : c.toNat ≠ 0) :
    Char.ofNat n ≠ c := by
  rintro rfl
  rcases toNat_ofNat_or n with hnat | hzero
  · exact hn hnat.symm
  · exact hc (congrArg Char.toNat hzero)

theorem not_mem_smallLetters {c d : Char} (hd : d.toNat < 14) (hd' : d.toNat ≠ 0) (hc : c ≠ d) :
    d ∉ smallLetters c := by
  have hletter : ∀ n : Nat, 14 ≤ n → d ∉ [Char.ofNat n] := by
    intro n hn hmem
    exact ofNat_ne (by omega) hd' (List.mem_singleton.mp hmem).symm
  have hself : d ∉ [c] := fun hmem => hc (List.mem_singleton.mp hmem).symm
  unfold smallLetters
  split
  · split
    · next hupper =>
        have hcapital := isAsciiUpper_iff.mp hupper
        exact hletter _ (by omega)
    · exact hself
  · split
    · intro hmem
      simp only [List.mem_cons, List.not_mem_nil, or_false] at hmem
      rcases hmem with rfl | rfl
      · exact absurd hd (by decide)
      · exact absurd hd (by decide)
    · split
      · next run hrun =>
          have hlow : ∀ run ∈ caseRuns, 14 ≤ (run.first : Int) + run.shift := by decide +kernel
          have hshift := hlow run (List.mem_of_find?_eq_some hrun)
          have hcovers := List.find?_some hrun
          simp only [CaseRun.covers, Bool.and_eq_true, decide_eq_true_eq] at hcovers
          exact hletter _ (by omega)
      · exact hself

theorem lowerAfter_crlf (before cs : List Char) :
    lowerAfter before (crlf cs) = crlf (lowerAfter before cs) := by
  induction cs generalizing before with
  | nil => rfl
  | cons c cs ih =>
      by_cases hc : c = '\n'
      · subst hc
        have hsame : lowerAfter ('\n' :: '\r' :: before) (crlf cs) =
            lowerAfter ('\n' :: before) (crlf cs) := by
          refine lowerAfter_congr ?_ _
          rw [meetsCased_newline, meetsCased_newline]
        change '\r' :: '\n' :: lowerAfter _ _ = crlf ('\n' :: lowerAfter _ _)
        rw [hsame, ih, crlf_newline]
      · rw [crlf_cons hc, lowerAfter, lowerAfter, crlf_append, ih, meetsCased_crlf]
        congr 1
        refine (crlf_eq_self ?_).symm
        split
        · split
          · decide
          · decide
        · exact not_mem_smallLetters (by decide) (by decide) hc

theorem lower_crlf (cs : List Char) : lower (crlf cs) = crlf (lower cs) := lowerAfter_crlf [] cs

theorem not_mem_lowerAfter {d : Char} (hd : d.toNat < 14) (hd' : d.toNat ≠ 0)
    {before cs : List Char} (h : d ∉ cs) : d ∉ lowerAfter before cs := by
  induction cs generalizing before with
  | nil => exact List.not_mem_nil
  | cons c cs ih =>
      obtain ⟨hc, hcs⟩ := not_or.mp (mt List.mem_cons.mpr h)
      rw [lowerAfter, List.mem_append, not_or]
      refine ⟨?_, ih hcs⟩
      split
      · intro hmem
        have hsigma := List.mem_singleton.mp hmem
        rw [hsigma] at hd
        split at hd
        · exact absurd hd (by decide)
        · exact absurd hd (by decide)
      · exact not_mem_smallLetters hd hd' (Ne.symm hc)

theorem plain_lower {cs : List Char} (h : Plain cs) : Plain (lower cs) :=
  ⟨not_mem_lowerAfter (by decide) (by decide) h.1, not_mem_lowerAfter (by decide) (by decide) h.2⟩

/-! ## Normal forms -/

theorem dropEndWhile_crlf {p : Char → Bool} (hr : p '\r' = true) (hn : p '\n' = true)
    (cs : List Char) : dropEndWhile p (crlf cs) = crlf (dropEndWhile p cs) := by
  induction cs using List.reverseRecOn with
  | nil => rfl
  | append_singleton cs c ih =>
      by_cases hc : c = '\n'
      · subst hc
        have hends : dropEndWhile p (crlf cs ++ ['\r'] ++ ['\n']) = dropEndWhile p (crlf cs) :=
          (dropEndWhile_concat hn _).trans (dropEndWhile_concat hr _)
        rw [List.append_assoc] at hends
        rw [crlf_append, dropEndWhile_concat hn, ← ih]
        exact hends
      · cases hp : p c with
        | true =>
            rw [crlf_append, crlf_cons hc, crlf_nil, dropEndWhile_concat hp,
              dropEndWhile_concat hp, ih]
        | false =>
            have hstop : ∀ xs : List Char, dropEndWhile p (xs ++ [c]) = xs ++ [c] := by
              intro xs
              rw [dropEndWhile, List.reverse_concat, List.dropWhile_cons_of_neg (by simp [hp]),
                ← List.reverse_concat, List.reverse_reverse]
            rw [crlf_append, crlf_cons hc, crlf_nil, hstop, hstop, crlf_append, crlf_cons hc,
              crlf_nil]

theorem filter_crlf {p : Char → Bool} (hr : p '\r' = false) (hn : p '\n' = false)
    (cs : List Char) : (crlf cs).filter p = cs.filter p := by
  induction cs with
  | nil => rfl
  | cons c cs ih =>
      by_cases hc : c = '\n'
      · subst hc
        rw [crlf_newline, List.filter_cons_of_neg (by simp [hr]),
          List.filter_cons_of_neg (by simp [hn]), List.filter_cons_of_neg (by simp [hn]), ih]
      · rw [crlf_cons hc, List.filter_cons, List.filter_cons, ih]

end Text

theorem Color.normalForm_crlf (value : List Char) :
    normalForm (crlf value) = normalForm value := by
  rw [normalForm, normalForm, trim, trim, trimLeft_crlf, dropEndWhile_crlf rfl rfl, lower_crlf,
    filter_crlf rfl rfl]

namespace Theme

/-! ## Lines -/

theorem splitLines_crlf (text : List Char) :
    List.Forall₂ (fun line line' => line' = line ∨ line' = line ++ ['\r'])
      (splitLines text) (splitLines (crlf text)) := by
  induction text with
  | nil => exact .cons (.inl rfl) .nil
  | cons c cs ih =>
      unfold splitLines at ih ⊢
      by_cases hc : c = '\n'
      · subst hc
        exact .cons (.inr rfl) ih
      · have hne : ¬ (c == '\n') = true := by simpa using hc
        obtain ⟨line, lines, hlines⟩ := List.exists_cons_of_ne_nil (splitOn_ne_nil '\n' cs)
        obtain ⟨line', lines', hlines'⟩ :=
          List.exists_cons_of_ne_nil (splitOn_ne_nil '\n' (crlf cs))
        rw [hlines, hlines', List.forall₂_cons] at ih
        rw [crlf_cons hc, splitOn, splitOn, if_neg hne, if_neg hne, hlines, hlines']
        exact .cons (ih.1.imp (congrArg (c :: ·)) (congrArg (c :: ·))) ih.2

theorem ofLinesFrom_congr {attributes : List (List Char)} {lines lines' : List (List Char)}
    (h : List.Forall₂ (fun line line' => line' = line ∨ line' = line ++ ['\r']) lines lines')
    (blocks : Blocks) :
    ofLinesFrom attributes blocks lines' = ofLinesFrom attributes blocks lines := by
  induction h generalizing blocks with
  | nil => rfl
  | @cons line line' _ _ hline _ ih =>
      have hafter : blocks.after attributes line' = blocks.after attributes line := by
        rcases hline with rfl | rfl
        · rfl
        · have hdrop : dropEndWhile (· == '\r') (line ++ ['\r']) = dropEndWhile (· == '\r') line :=
            dropEndWhile_concat rfl line
          rw [Blocks.after, hdrop]
          rfl
      rw [ofLinesFrom, ofLinesFrom, hafter, ih]

theorem ofLines_crlf (attributes : List (List Char)) (text : List Char) :
    ofLines attributes (crlf text) = ofLines attributes text :=
  ofLinesFrom_congr (splitLines_crlf text) []

/-! ## The whole text -/

theorem anywhere_crlf {test : List Char → Bool} (hcrlf : ∀ cs, test (crlf cs) = test cs)
    (hnewline : ∀ cs, test ('\n' :: cs) = true → test ('\r' :: '\n' :: cs) = true)
    (cs : List Char) : anywhere test (crlf cs) = anywhere test cs := by
  induction cs with
  | nil => rfl
  | cons c cs ih =>
      by_cases hc : c = '\n'
      · subst hc
        have hhere := hcrlf ('\n' :: cs)
        rw [crlf_newline] at hhere
        rw [crlf_newline, anywhere, anywhere, anywhere, ih, ← hhere, ← Bool.or_assoc]
        congr 1
        cases hn : test ('\n' :: crlf cs) with
        | false => rw [Bool.or_false]
        | true => rw [hnewline _ hn, Bool.or_true]
      · have hhere := hcrlf (c :: cs)
        rw [crlf_cons hc] at hhere
        rw [crlf_cons hc, anywhere, anywhere, ih, hhere]

section

variable {name : List Char} (h : Plain name) (cs : List Char)

theorem dropQuote_crlf : dropOne? isQuote (crlf cs) = (dropOne? isQuote cs).map crlf :=
  dropOne?_crlf cs rfl rfl

include h

theorem dropAssignment?_crlf :
    dropAssignment? name (crlf cs) = (dropAssignment? name cs).map crlf := by
  simp only [dropAssignment?, dropLiteral?_crlf h, dropLiteral?_crlf (by decide : Plain ['=']),
    trimLeft_crlf, dropQuote_crlf, Option.bind_eq_bind, Option.bind_map, Option.map_bind,
    Function.comp_def]

theorem isSystemValue_crlf : isSystemValue name (crlf cs) = isSystemValue name cs := by
  simp only [isSystemValue, dropAssignment?_crlf h,
    dropLiteral?_crlf (by decide : Plain "system".toList), dropQuote_crlf, Option.bind_eq_bind,
    Option.bind_map, Function.comp_def, Option.isSome_bind, Option.isSome_map]

theorem isRootWithout_crlf : isRootWithout name (crlf cs) = isRootWithout name cs := by
  simp only [isRootWithout, dropLiteral?_crlf (by decide : Plain ":root".toList), trimLeft_crlf,
    dropLiteral?_crlf (by decide : Plain [':']), Option.getD_map,
    dropLiteral?_crlf (by decide : Plain "not(".toList),
    dropLiteral?_crlf (by decide : Plain ['[']), dropLiteral?_crlf h,
    dropLiteral?_crlf (by decide : Plain [']']), dropLiteral?_crlf (by decide : Plain [')']),
    Option.bind_eq_bind, Option.bind_map, Function.comp_def, Option.isSome_bind,
    Option.isSome_map]

end

theorem takeScheme?_crlf (cs : List Char) :
    takeScheme? (crlf cs) = (takeScheme? cs).map fun (theme, left) => (theme, crlf left) := by
  simp only [takeScheme?, dropLiteral?_crlf (by decide : Plain "dark".toList),
    dropLiteral?_crlf (by decide : Plain "light".toList), Option.map_or, Option.map_map,
    Function.comp_def]

theorem schemeQuery_crlf (cs : List Char) : schemeQuery (crlf cs) = schemeQuery cs := by
  simp only [schemeQuery, dropLiteral?_crlf (by decide : Plain "prefers-color-scheme".toList),
    trimLeft_crlf, dropLiteral?_crlf (by decide : Plain [':']), takeScheme?_crlf,
    Option.bind_eq_bind, Option.bind_map, Function.comp_def]

/-- Before an equals sign there may be a line end, but no name starts with one. -/
theorem isSystemValue_newline {name : List Char} (h : Plain name) {cs : List Char}
    (hvalue : isSystemValue name ('\n' :: cs) = true) :
    isSystemValue name ('\r' :: '\n' :: cs) = true := by
  cases name with
  | nil => exact hvalue
  | cons c name =>
      obtain ⟨-, hc, -⟩ := h.of_cons
      rw [isSystemValue, dropAssignment?, dropLiteral?, if_neg (by simpa using hc)] at hvalue
      cases hvalue

theorem followsSystem_crlf {attributes : List (List Char)} (h : ∀ a ∈ attributes, Plain a)
    (text : List Char) : followsSystem attributes (crlf text) = followsSystem attributes text := by
  have hvalue : ∀ a ∈ attributes, anywhere (isSystemValue a) (crlf (lower text)) =
      anywhere (isSystemValue a) (lower text) := fun a ha =>
    anywhere_crlf (isSystemValue_crlf (h a ha)) (fun _ => isSystemValue_newline (h a ha)) _
  have hroot : ∀ a ∈ attributes, anywhere (isRootWithout a) (crlf (lower text)) =
      anywhere (isRootWithout a) (lower text) := fun a ha =>
    anywhere_crlf (isRootWithout_crlf (h a ha)) (fun _ hnone => absurd hnone Bool.false_ne_true) _
  have hscheme : anywhere (fun cs => (schemeQuery cs).isSome) (crlf (lower text)) =
      anywhere (fun cs => (schemeQuery cs).isSome) (lower text) :=
    anywhere_crlf (fun cs => congrArg Option.isSome (schemeQuery_crlf cs))
      (fun _ hnone => absurd hnone Bool.false_ne_true) _
  have hany : ∀ test test' : List Char → Bool, (∀ a ∈ attributes, test a = test' a) →
      attributes.any test = attributes.any test' := by
    intro test test' htest
    rw [Bool.eq_iff_iff, List.any_eq_true, List.any_eq_true]
    exact exists_congr fun a => and_congr_right fun ha => by rw [htest a ha]
  rw [followsSystem, followsSystem, lower_crlf, hany _ _ hvalue, hany _ _ hroot, hscheme]

end Theme

end ColorCensus
