import ColorCensus.Proofs.Cuts
import ColorCensus.Proofs.Variables
import Mathlib.Data.List.Pairwise

/-!
# Which declarations are collected

A declaration runs up to the next semicolon, wherever that is, and holds no other one. So it never
reads past a semicolon, and a text may be cut behind any of its semicolons: the definitions of the
whole are those of the parts (`definitions_append`).

Between two semicolons the first declaration takes everything. A color declaration is collected
unless another one starts in front of it and behind the last semicolon before
(`mem_definitions_iff`). Right behind a semicolon nothing can be in the way; behind a brace it can,
and a rule whose last declaration does not end with a semicolon does hide the first one of the next
rule (`definitions_unended`).
-/

namespace ColorCensus.Variable

open Text

/-! ## Cutting behind a semicolon -/

theorem takeName?_append_semicolon (cs rest : List Char) :
    takeName? (cs ++ ';' :: rest) =
      (takeName? cs).map fun (name, left) => (name, left ++ ';' :: rest) := by
  simp only [takeName?, dropLiteral?_append_stop (by decide : ';' ∉ ['-', '-']),
    takeRun?_append_stop (by decide : isNameChar ';' = false), Option.bind_eq_bind,
    Option.bind_map, Option.map_bind, Function.comp_def, Option.pure_def, Option.map_some]

theorem takeValue_append (cs rest : List Char) :
    takeRun? (· != ';') (cs ++ ';' :: rest) =
      (takeRun? (· != ';') cs).map fun (run, left) => (run, left ++ ';' :: rest) := by
  apply takeRun?_append_stop
  decide

theorem declaration_append (before : Option Char) (cs rest : List Char) :
    declaration before (cs ++ ';' :: rest) =
      (declaration before (cs ++ [';'])).map fun (d, left) => (d, left ++ rest) := by
  unfold declaration
  split
  · rfl
  · rw [takeName?_append_semicolon, takeName?_append_semicolon]
    cases takeName? cs with
    | none => rfl
    | some named =>
        obtain ⟨name, afterName⟩ := named
        simp only [Option.map_some, Option.bind_eq_bind, Option.bind_some,
          trimLeft_append_stop (by decide : isBlank ';' = false),
          dropLiteral?_append_stop (by decide : ';' ∉ [':'])]
        cases dropLiteral? [':'] (trimLeft afterName) with
        | none => rfl
        | some afterColon =>
            simp only [Option.map_some, Option.bind_some, takeValue_append,
              trimLeft_append_stop (by decide : isBlank ';' = false), consumed_append_append]
            cases takeRun? (· != ';') afterColon with
            | none => rfl
            | some valued =>
                simp only [Option.map_some, Option.bind_some, dropLiteral?_append_self ';' valued.2 rest]
                cases dropLiteral? [';'] (valued.2 ++ [';']) with
                | none => rfl
                | some _ => rfl

theorem declaration_readsAlone (text : List Char) :
    ReadsAlone declaration (text ++ [';']) := by
  intro before cs rest hne hsuffix
  obtain ⟨front, c, hcs⟩ := (List.eq_nil_or_concat cs).resolve_left hne
  obtain ⟨_, htext⟩ := hsuffix
  rw [List.concat_eq_append] at hcs
  rw [hcs, ← List.append_assoc] at htext
  obtain ⟨-, hc⟩ := List.append_inj' htext rfl
  rw [hcs, hc, List.append_assoc]
  exact declaration_append before front rest

/-- The definition so many characters further on. -/
def Defined.shift (n : Nat) (d : Defined) : Defined := { d with start := n + d.start }

theorem ofToken?_shift (n : Nat) (t : Token Declared) :
    Defined.ofToken? (t.shift n) = (Defined.ofToken? t).map (.shift n) := by
  rw [Defined.ofToken?, Defined.ofToken?]
  change (Color.leading? t.value.value >>= _) = _
  cases Color.leading? t.value.value with
  | none => rfl
  | some color => exact congrArg some (congrArg (Defined.mk _ _) (Nat.add_assoc _ _ _))

/-- The definitions of a text that is cut behind a semicolon are those of its first part and after
them those of its second part, so many characters further on. No declaration goes on over a
semicolon, and behind one a declaration starts as it does at the start of a text. -/
theorem definitions_append (s t : List Char) :
    definitions (s ++ ';' :: t) =
      definitions (s ++ [';']) ++ (definitions t).map (.shift (s.length + 1)) := by
  have hfresh : declaration (s ++ [';']).getLast? t = declaration none t := by
    rw [List.getLast?_concat]
    rfl
  have hshift : ((tokens declaration t).map (.shift (s ++ [';']).length)).filterMap
      Defined.ofToken? = (definitions t).map (.shift (s.length + 1)) := by
    rw [List.filterMap_map, definitions, List.map_filterMap, List.length_append,
      List.length_singleton]
    exact List.filterMap_congr fun token _ => ofToken?_shift _ token
  rw [definitions, List.append_cons, tokens_append (declaration_readsAlone s),
    List.filterMap_append, tokensFrom_fresh hfresh, hshift]
  rfl

/-! ## Between two semicolons -/

theorem declaration_piece {before : Option Char} {cs left : List Char} {d : Declared}
    (h : declaration before cs = some (d, left)) :
    ∃ piece, cs = piece ++ left ∧ ∃ body, piece = body ++ [';'] ∧ ';' ∉ body := by
  obtain ⟨blanks, gap, hcs, -, -, hname, hblanks, hgap, hvalue, -⟩ := declaration_parts h
  refine ⟨(d.name ++ (blanks ++ ':' :: gap) ++ d.value) ++ [';'], by simp [hcs], _, rfl, ?_⟩
  have hnot : ∀ {p : Char → Bool} {cs : List Char}, (∀ c ∈ cs, p c = true) → p ';' = false →
      ';' ∉ cs := by
    intro p cs hall hp hmem
    rw [hall _ hmem] at hp
    cases hp
  simp only [List.mem_append, List.mem_cons, not_or]
  exact ⟨⟨hnot hname (by decide), hnot hblanks (by decide), by decide, hnot hgap (by decide)⟩,
    hvalue⟩

theorem declaration_shorter {before : Option Char} {cs left : List Char} {d : Declared}
    (h : declaration before cs = some (d, left)) : left.length < cs.length := by
  obtain ⟨piece, hpiece, body, hbody, -⟩ := declaration_piece h
  rw [hpiece, hbody]
  simp only [List.length_append, List.length_singleton]
  omega

theorem token_declaration {text : List Char} {t : Token Declared}
    (h : t ∈ tokens declaration text) :
    ∃ body, StandsAt (body ++ [';']) text t.start ∧ ';' ∉ body ∧
      t.stop = t.start + body.length + 1 := by
  obtain ⟨hstands, body, hbody, hnot⟩ :=
    standsAt_of_mem_tokens (fun _ _ _ _ h => declaration_piece h) h
  rw [hbody] at hstands
  refine ⟨body, hstands, hnot, ?_⟩
  rw [Token.stop, hbody, List.length_append, Nat.add_assoc]
  rfl

theorem declaration_start {before : Option Char} {cs left : List Char} {d : Declared}
    (h : declaration before cs = some (d, left)) :
    cs.head? = some '-' ∧ ∀ c, before = some c → isNameChar c = false := by
  obtain ⟨_, _, hcs, -, hhead, -⟩ := declaration_parts h
  constructor
  · obtain ⟨name, hname⟩ := List.head?_eq_some_iff.mp hhead
    rw [hcs, hname]
    rfl
  · rintro c rfl
    rw [declaration, Option.ite_none_left_eq_some] at h
    cases hname : isNameChar c with
    | false => rfl
    | true => exact absurd (isWord_of_isNameChar hname) h.1

/-- Of two declarations that start one in front of the other, the second starts behind the colon
and the blanks of the first. -/
theorem declaration_heads {before : Option Char} {xs ys left left' : List Char} {d d' : Declared}
    (hne : xs ≠ []) (h : declaration before (xs ++ ys) = some (d, left))
    (h' : declaration xs.getLast? ys = some (d', left')) : d.lead ≤ xs.length := by
  obtain ⟨blanks, gap, hcs, hlead, -, hname, hblanks, hgap, -, -⟩ := declaration_parts h
  obtain ⟨hdash, hfront⟩ := declaration_start h'
  have hplace : (xs ++ ys)[xs.length]? = some '-' := by
    rw [List.getElem?_append_right (Nat.le_refl _), Nat.sub_self, ← List.head?_eq_getElem?, hdash]
  have hstands : StandsAt (blanks ++ ':' :: gap) (xs ++ ys) d.name.length := by
    rw [hcs, List.append_assoc]
    exact standsAt_append _ _ _
  have hnot : '-' ∉ blanks ++ ':' :: gap := by
    have hsolid : ∀ cs : List Char, (∀ c ∈ cs, isBlank c = true) → '-' ∉ cs :=
      fun cs hall hmem => absurd (hall _ hmem) (by decide)
    simp only [List.mem_append, List.mem_cons, not_or]
    exact ⟨hsolid blanks hblanks, by decide, hsolid gap hgap⟩
  rw [hlead, List.length_append]
  rcases hstands.outside hplace hnot with hinside | hbehind
  · -- The character in front of the second one would be in the name of the first.
    have hfirst : xs <+: d.name := by
      refine List.prefix_of_prefix_length_le (List.prefix_append xs ys) ?_ (Nat.le_of_lt hinside)
      rw [hcs, List.append_assoc]
      exact List.prefix_append _ _
    have hlast := hname _ (hfirst.mem (List.getLast_mem hne))
    rw [hfront _ (List.getLast?_eq_some_getLast hne)] at hlast
    cases hlast
  · exact hbehind

theorem lead_pos {before : Option Char} {cs left : List Char} {d : Declared}
    (h : declaration before cs = some (d, left)) : 0 < d.lead := by
  obtain ⟨front, _, -, hlead, -⟩ := declaration_shape h
  rw [hlead]
  exact Nat.succ_pos _

theorem start_eq_of_value {before done rest rest' left left' : List Char} {d d' : Declared}
    (htext : before ++ rest = done ++ rest')
    (h : declaration before.getLast? rest = some (d, left))
    (h' : declaration done.getLast? rest' = some (d', left'))
    (hvalue : before.length + d.lead = done.length + d'.lead) : before.length = done.length := by
  have hpos := lead_pos h
  have hpos' := lead_pos h'
  rcases List.append_eq_append_iff.mp htext with ⟨mid, rfl, rfl⟩ | ⟨mid, rfl, rfl⟩
  · rcases eq_or_ne mid [] with rfl | hne
    · rw [List.append_nil]
    · rw [List.getLast?_append_of_ne_nil _ hne] at h'
      have hle := declaration_heads hne h h'
      rw [List.length_append] at hvalue ⊢
      omega
  · rcases eq_or_ne mid [] with rfl | hne
    · rw [List.append_nil]
    · rw [List.getLast?_append_of_ne_nil _ hne] at h
      have hle := declaration_heads hne h' h
      rw [List.length_append] at hvalue ⊢
      omega

/-- A declaration starts in a text behind its last semicolon and so goes on into what follows. -/
def LeftOpen (before rest : List Char) : Prop :=
  ∃ done stretch, before = done ++ stretch ∧ stretch ≠ [] ∧ ';' ∉ stretch ∧
    (declaration done.getLast? (stretch ++ rest)).isSome

theorem leftOpen_iff {before rest : List Char} :
    LeftOpen before rest ↔ ∃ t ∈ tokens declaration (before ++ rest),
      t.start < before.length ∧ before.length < t.stop := by
  constructor
  · rintro ⟨done, stretch, rfl, hne, hnot, hsome⟩
    obtain ⟨⟨d, left⟩, hd⟩ := Option.isSome_iff_exists.mp hsome
    rw [List.append_assoc]
    obtain ⟨t, ht, hstart, hstop⟩ := exists_token_over (declaration_shorter hd) hd
    obtain ⟨body, hstands, -, hend⟩ := token_declaration ht
    have hsemicolon := hstands.right.head rfl
    have houtside := (standsAt_append done stretch rest).outside hsemicolon hnot
    have hlength := List.length_pos_iff.mpr hne
    refine ⟨t, ht, ?_, ?_⟩
    · rw [List.length_append]
      omega
    · rw [List.length_append]
      omega
  · rintro ⟨t, ht, hstart, hstop⟩
    obtain ⟨done, rest', left, htext, hdone, hr, -⟩ := taken_of_mem_tokens ht
    obtain ⟨body, hstands, hnot, hend⟩ := token_declaration ht
    rcases List.append_eq_append_iff.mp htext with ⟨mid, rfl, -⟩ | ⟨stretch, rfl, rfl⟩
    · rw [List.length_append] at hdone
      omega
    · rw [List.length_append] at hstart hstop
      refine ⟨done, stretch, rfl, ?_, ?_, by rw [hr]; rfl⟩
      · rintro rfl
        rw [List.length_nil] at hstart
        omega
      · intro hmem
        obtain ⟨i, hi, hplace⟩ := List.mem_iff_getElem.mp hmem
        have hsemicolon : (done ++ stretch ++ rest)[done.length + i]? = some ';' := by
          rw [List.append_assoc, (standsAt_append done stretch rest).getElem? hi,
            List.getElem?_eq_getElem hi, hplace]
        have houtside := hstands.left.outside hsemicolon hnot
        omega

theorem not_leftOpen_of_no_dash {before rest : List Char} (h : '-' ∉ before) :
    ¬ LeftOpen before rest := by
  rintro ⟨done, stretch, rfl, hne, -, hsome⟩
  obtain ⟨⟨d, left⟩, hd⟩ := Option.isSome_iff_exists.mp hsome
  obtain ⟨c, stretch, rfl⟩ := List.exists_cons_of_ne_nil hne
  obtain rfl : c = '-' := Option.some.inj (declaration_start hd).1
  exact h (List.mem_append_right done List.mem_cons_self)

/-- Right behind a semicolon or the start of a text, blanks aside, no declaration is left open. -/
theorem not_leftOpen {before rest : List Char}
    (h : ∀ c ∈ (dropEndWhile isBlank before).getLast?, c = ';') : ¬ LeftOpen before rest := by
  rintro ⟨done, stretch, rfl, hne, hnot, hsome⟩
  obtain ⟨⟨d, left⟩, hd⟩ := Option.isSome_iff_exists.mp hsome
  obtain ⟨c, stretch, rfl⟩ := List.exists_cons_of_ne_nil hne
  obtain rfl : c = '-' := Option.some.inj (declaration_start hd).1
  rw [dropEndWhile_append_stop (by decide : isBlank '-' = false),
    List.getLast?_append_of_ne_nil _ (List.cons_ne_nil _ _)] at h
  have hfirst : '-' :: dropEndWhile isBlank stretch <+: '-' :: stretch :=
    List.prefix_cons_inj _ |>.mpr (prefix_dropEndWhile isBlank stretch)
  have hlast := h _ (List.getLast?_eq_some_getLast (List.cons_ne_nil _ _))
  exact hnot (hlast ▸ hfirst.mem (List.getLast_mem _))

theorem exists_token_of_not_leftOpen {before rest left : List Char} {d : Declared}
    (hd : declaration before.getLast? rest = some (d, left)) (h : ¬ LeftOpen before rest) :
    ∃ t ∈ tokens declaration (before ++ rest), t.start = before.length ∧ t.value = d := by
  obtain ⟨t, ht, hstart, hstop⟩ := exists_token_over (declaration_shorter hd) hd
  have hplace : t.start = before.length := by
    refine Nat.le_antisymm hstart (Nat.le_of_not_lt fun hlt => h ?_)
    exact leftOpen_iff.mpr ⟨t, ht, hlt, hstop⟩
  obtain ⟨done, rest', left', htext, hdone, hr, -⟩ := taken_of_mem_tokens ht
  obtain ⟨rfl, rfl⟩ := List.append_inj htext (hplace.symm.trans hdone)
  rw [hd] at hr
  obtain ⟨hvalue, -⟩ := Prod.mk.inj (Option.some.inj hr)
  exact ⟨t, ht, hplace, hvalue.symm⟩

/-- Where a declaration is left open, no token starts. -/
theorem not_leftOpen_of_token {before rest : List Char} {t : Token Declared}
    (ht : t ∈ tokens declaration (before ++ rest)) (hplace : t.start = before.length) :
    ¬ LeftOpen before rest := by
  intro hopen
  obtain ⟨u, hu, hstart, hstop⟩ := leftOpen_iff.mp hopen
  have hne : u ≠ t := by
    rintro rfl
    exact Nat.lt_irrefl _ (hplace ▸ hstart)
  have hsymm : Std.Symm fun t u : Token Declared => Apart t.span u.span := ⟨fun _ _ => Apart.symm⟩
  have hapart : Apart u.span t.span :=
    (tokens_pairwise_apart declaration (before ++ rest)).forall hu ht hne
  have hle : t.start ≤ t.stop := Nat.le_add_right _ _
  simp only [Apart, Token.span] at hapart
  omega

/-- A color declaration is collected exactly if no other one is left open in front of it; and none
is right behind a semicolon or the start of the text. The value of a declaration goes on up to the
next semicolon, over braces as well: one that ends its rule without a semicolon takes the first
declaration of the next rule with it. -/
theorem mem_definitions_iff {before rest left color : List Char} {d : Declared}
    (hd : declaration before.getLast? rest = some (d, left))
    (hcolor : Color.leading? d.value = some color) :
    (⟨d.name, color, before.length + d.lead⟩ ∈ definitions (before ++ rest) ↔
        ¬ LeftOpen before rest) ∧
      ((∀ c ∈ (dropEndWhile isBlank before).getLast?, c = ';') →
        ⟨d.name, color, before.length + d.lead⟩ ∈ definitions (before ++ rest)) := by
  have hiff : ⟨d.name, color, before.length + d.lead⟩ ∈ definitions (before ++ rest) ↔
      ¬ LeftOpen before rest := by
    constructor
    · intro hmem
      obtain ⟨t, ht, hof⟩ := List.mem_filterMap.mp hmem
      obtain ⟨color', -, hof⟩ := Option.bind_eq_some_iff.mp hof
      obtain ⟨-, -, hvalue⟩ := Defined.mk.inj (Option.some.inj hof)
      obtain ⟨done, rest', left', htext, hdone, hr, -⟩ := taken_of_mem_tokens ht
      have hplace : before.length = done.length :=
        start_eq_of_value htext hd hr (by rw [← hdone, hvalue])
      exact not_leftOpen_of_token ht (hdone.trans hplace.symm)
    · intro hopen
      obtain ⟨t, ht, hplace, hvalue⟩ := exists_token_of_not_leftOpen hd hopen
      refine List.mem_filterMap.mpr ⟨t, ht, ?_⟩
      rw [Defined.ofToken?, hvalue, hcolor, hplace]
      rfl
  exact ⟨hiff, fun h => hiff.mpr (not_leftOpen h)⟩

/-- A rule with two color declarations. -/
def palette : List Char := ".a \x7b --x: #111; --y: #222; \x7d".toList

/-- The second one is collected, behind the semicolon of the first. -/
theorem mem_definitions_palette :
    ⟨"--y".toList, "#222".toList, 21⟩ ∈ definitions palette ∧
      ¬ LeftOpen (palette.take 16) (palette.drop 16) := by
  have hd : declaration (palette.take 16).getLast? (palette.drop 16) =
      some (⟨"--y".toList, "#222".toList, 5⟩, " \x7d".toList) := by cbv
  have hcolor : Color.leading? "#222".toList = some "#222".toList := by cbv
  obtain ⟨hiff, hbehind⟩ := mem_definitions_iff hd hcolor
  have hlast : (dropEndWhile isBlank (palette.take 16)).getLast? = some ';' := by decide
  have hmem := hbehind fun c hc => Option.some.inj (hc.symm.trans hlast)
  exact ⟨hmem, hiff.mp hmem⟩

/-- Two rules, of which the first does not end its last declaration with a semicolon. -/
def unended : List Char := ".a \x7b --x: 1px \x7d\n.b \x7b --y: #222; \x7d".toList

/-- The color declaration of the second rule, right behind its brace, is not collected. -/
theorem definitions_unended :
    (∃ left, declaration (unended.take 21).getLast? (unended.drop 21) =
        some (⟨"--y".toList, "#222".toList, 5⟩, left)) ∧
      Color.leading? "#222".toList = some "#222".toList ∧
      (dropEndWhile isBlank (unended.take 21)).getLast? = some '\x7b' ∧
      LeftOpen (unended.take 21) (unended.drop 21) ∧ definitions unended = [] := by
  have hd : declaration (unended.take 21).getLast? (unended.drop 21) =
      some (⟨"--y".toList, "#222".toList, 5⟩, " \x7d".toList) := by cbv
  have hopen : LeftOpen (unended.take 21) (unended.drop 21) :=
    ⟨unended.take 5, (unended.take 21).drop 5, by decide, by decide, by decide, by decide +kernel⟩
  exact ⟨⟨_, hd⟩, by cbv, by decide, hopen, by cbv⟩

end ColorCensus.Variable
