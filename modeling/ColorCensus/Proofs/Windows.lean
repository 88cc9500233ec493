import ColorCensus.Proofs.Floors
import ColorCensus.Proofs.Scopes

/-!
# A wider window

The window of the search for a scope cuts a text at the start of a line. What a
wider window adds stands in front of all that the narrower one holds: it adds
blocks outside of those already open, and it lengthens the text in front of
every brace (`openBlocks_append`). The block that the search stops at is the
same, and it is told by the text in front of its brace.

Only the selector is left to look at. Of two open blocks the inner one has the
brace of the outer one in front, so only the outermost block of a window can
have its selector cut. If it is not cut (`Uncut`), a wider window answers the
same. If it is, the narrower window answers with what is left of the selector,
even of a rule that should be passed over (`window_cuts_selector`).
-/

namespace ColorCensus.Context.Stylesheet

open Text

/-! ## Selectors with more text in front -/

theorem collapseAfter_blank {c : Char} (h : isBlank c = true) (inRun : Bool) (cs : List Char) :
    trimLeft (collapseAfter inRun (c :: cs)) = trimLeft (collapseAfter true cs) := by
  rw [collapseAfter, if_pos h]
  cases inRun with
  | true => rfl
  | false => rfl

theorem trimLeft_collapseAfter (inRun : Bool) (cs : List Char) :
    trimLeft (collapseAfter inRun cs) = trimLeft (collapse cs) := by
  cases cs with
  | nil => rfl
  | cons c cs =>
      cases hc : isBlank c with
      | true => rw [collapse, collapseAfter_blank hc, collapseAfter_blank hc]
      | false =>
          have hpass : ∀ b, collapseAfter b (c :: cs) = c :: collapse cs := by
            intro b
            rw [collapseAfter, if_neg (by simp [hc]), collapse]
          rw [collapse, hpass, hpass]

theorem trim_collapse_append {blanks : List Char} (h : ∀ c ∈ blanks, isBlank c = true)
    (cs : List Char) : trim (collapse (blanks ++ cs)) = trim (collapse cs) := by
  rw [trim, trim]
  congr 1
  induction blanks with
  | nil => rfl
  | cons c blanks ih =>
      rw [List.cons_append, collapse, collapseAfter_blank (h c List.mem_cons_self),
        trimLeft_collapseAfter, ih fun d hd => h d (List.mem_cons_of_mem _ hd)]

/-- What comes before a brace or a semicolon is no part of a selector behind it. -/
theorem selectorOf_append_of_mem {front : List Char}
    (h : ∃ c ∈ front, endsSelector c = true) (earlier : List Char) :
    selectorOf (earlier ++ front) = selectorOf front := by
  obtain ⟨c, hc, hends⟩ := h
  obtain ⟨xs, ys, rfl⟩ := List.append_of_mem hc
  rw [selectorOf, selectorOf, ← List.append_assoc, afterLast_append_stop hends,
    afterLast_append_stop hends]

/-- The cut between some text and the text in front of a brace does not go through a selector: it
is in front of a brace or a semicolon, or it is, blanks aside, behind the last one. -/
def Uncut (earlier front : List Char) : Prop :=
  (∃ c ∈ front, endsSelector c = true) ∨ ∀ c ∈ afterLast endsSelector earlier, isBlank c = true

theorem Uncut.selectorOf_append {earlier front : List Char} (h : Uncut earlier front) :
    selectorOf (earlier ++ front) = selectorOf front := by
  by_cases hfront : ∃ c ∈ front, endsSelector c = true
  · exact selectorOf_append_of_mem hfront earlier
  · have hnone : ∀ c ∈ front, endsSelector c = false := by
      intro c hc
      exact Bool.eq_false_iff.mpr fun hends => hfront ⟨c, hc, hends⟩
    have hself : afterLast endsSelector front = front := afterLast_append hnone []
    rw [selectorOf, afterLast_append hnone, trim_collapse_append (h.resolve_left hfront),
      selectorOf, hself]

/-! ## Blocks with more text in front -/

/-- Text in front of a text lengthens what is in front of its blocks, and adds blocks of its own
on the outside. -/
theorem openBlocks_append (earlier text : List Char) :
    ∃ outer, outer <:+ openBlocks earlier ∧
      openBlocks (earlier ++ text) = (openBlocks text).map (earlier ++ ·) ++ outer := by
  induction text using List.reverseRecOn with
  | nil => exact ⟨_, List.suffix_refl _, by rw [List.append_nil]; rfl⟩
  | append_singleton text c ih =>
      obtain ⟨outer, hsuffix, hblocks⟩ := ih
      rw [← List.append_assoc]
      by_cases hopen : c = '{'
      · subst hopen
        refine ⟨outer, hsuffix, ?_⟩
        rw [openBlocks_opening, openBlocks_opening, hblocks, List.map_cons, List.cons_append]
      · by_cases hclose : c = '}'
        · subst hclose
          rw [openBlocks_closing, openBlocks_closing, hblocks]
          cases openBlocks text with
          | nil => exact ⟨outer.drop 1, (List.drop_suffix 1 outer).trans hsuffix, rfl⟩
          | cons front blocks => exact ⟨outer, hsuffix, rfl⟩
        · refine ⟨outer, hsuffix, ?_⟩
          rw [openBlocks_pass hopen hclose, openBlocks_pass hopen hclose, hblocks]

theorem opening_mem {text front : List Char} (h : front ∈ openBlocks text) : '{' ∈ text := by
  induction text using List.reverseRecOn generalizing front with
  | nil => cases h
  | append_singleton text c ih =>
      by_cases hopen : c = '{'
      · subst hopen
        exact List.mem_concat_self
      · refine List.mem_append_left _ ?_
        by_cases hclose : c = '}'
        · subst hclose
          rw [openBlocks_closing] at h
          exact ih (List.mem_of_mem_drop h)
        · rw [openBlocks_pass hopen hclose] at h
          exact ih h

theorem openBlocks_pairwise (text : List Char) :
    (openBlocks text).Pairwise fun inner _ => '{' ∈ inner := by
  induction text using List.reverseRecOn with
  | nil => exact List.Pairwise.nil
  | append_singleton text c ih =>
      by_cases hopen : c = '{'
      · subst hopen
        rw [openBlocks_opening]
        exact List.pairwise_cons.mpr ⟨fun front hfront => opening_mem hfront, ih⟩
      · by_cases hclose : c = '}'
        · subst hclose
          rw [openBlocks_closing]
          exact ih.drop
        · rw [openBlocks_pass hopen hclose]
          exact ih

/-! ## The block that gives the scope -/

/-- The innermost of some blocks whose selector can be a scope. -/
def scopeBlock? (blocks : List (List Char)) : Option (List Char) :=
  blocks.find? fun front => isScope (selectorOf front)

theorem innermost?_eq (blocks : List (List Char)) :
    innermost? blocks = (scopeBlock? blocks).map selectorOf := by
  rw [innermost?, List.find?_map]
  rfl

/-- With more text in front the search stops at the same block, if only its whole selector can be
a scope: the blocks inside of it have their selectors whole, and are passed over again. -/
theorem scopeBlock?_append {text front : List Char}
    (h : scopeBlock? (openBlocks text) = some front) {earlier : List Char}
    (hscope : isScope (selectorOf (earlier ++ front)) = true) :
    scopeBlock? (openBlocks (earlier ++ text)) = some (earlier ++ front) := by
  obtain ⟨-, inner, rest, hblocks, hinner⟩ := List.find?_eq_some_iff_append.mp h
  obtain ⟨outer, -, happend⟩ := openBlocks_append earlier text
  have hpairwise := openBlocks_pairwise text
  rw [hblocks, List.pairwise_append] at hpairwise
  refine List.find?_eq_some_iff_append.mpr
    ⟨hscope, inner.map (earlier ++ ·), rest.map (earlier ++ ·) ++ outer, ?_, ?_⟩
  · rw [happend, hblocks, List.map_append, List.map_cons, List.append_assoc, List.cons_append]
  · intro block hblock
    obtain ⟨a, ha, rfl⟩ := List.mem_map.mp hblock
    have hbrace : '{' ∈ a := hpairwise.2.2 a ha front List.mem_cons_self
    rw [selectorOf_append_of_mem ⟨'{', hbrace, rfl⟩]
    exact hinner a ha

/-! ## Two windows -/

theorem windowStart_mono (ix : LineIndex) {window wider : Nat} (h : window ≤ wider)
    (offset : Nat) : windowStart ix wider offset ≤ windowStart ix window offset := by
  rw [windowStart, LineIndex.lineStart_le_iff]
  have hstart := (ix.lineStart_le_iff (Nat.lt_of_le_of_lt (Nat.sub_le (ix.lineOf offset) window)
    (ix.lineOf_lt offset)) _).mp (Nat.le_refl _)
  rw [windowStart]
  omega

/-- What the search reads in a window, from the floor on if that is later. -/
def seenFrom (source : Source) (window floor offset : Nat) : List Char :=
  slice (maskedText source) (max floor (windowStart source.index window offset), offset)

/-- What a wider window has in front of a window. -/
def seenBefore (source : Source) (window wider floor offset : Nat) : List Char :=
  slice (maskedText source) (max floor (windowStart source.index wider offset),
    max floor (windowStart source.index window offset))

theorem scopeAt?_seenFrom (source : Source) (window floor offset : Nat) :
    scopeAt? source.index (maskedText source) window floor offset =
      (scopeBlock? (openBlocks (seenFrom source window floor offset))).map selectorOf := by
  rw [scopeAt?_eq, innermost?_eq, seenFrom]

/-- A window in which there is a scope is read to the end by a wider one. -/
theorem seenFrom_wider {source : Source} {window wider floor offset : Nat} (h : window ≤ wider)
    {front : List Char}
    (hfront : scopeBlock? (openBlocks (seenFrom source window floor offset)) = some front) :
    seenFrom source wider floor offset =
      seenBefore source window wider floor offset ++ seenFrom source window floor offset := by
  have hstart := windowStart_mono source.index h offset
  have hle : max floor (windowStart source.index window offset) ≤ offset := by
    refine Nat.le_of_not_lt fun hlt => ?_
    have hempty : seenFrom source window floor offset = [] := by
      rw [seenFrom, slice, Nat.sub_eq_zero_of_le (Nat.le_of_lt hlt), List.take_zero]
    rw [hempty] at hfront
    cases hfront
  exact (slice_append (by omega) hle).symm

/-- If a window answers with the scope of a block, a wider one answers with that of the same
block, and its selector is that with the text of the wider window in front, unless this shows that
it cannot be a scope. If the window does not cut the selector, both answer the same. -/
theorem scopeAt?_wider (source : Source) {window wider : Nat} (hle : window ≤ wider)
    (floor offset : Nat) {scope : List Char}
    (hscope : scopeAt? source.index (maskedText source) window floor offset = some scope) :
    ∃ front, scopeBlock? (openBlocks (seenFrom source window floor offset)) = some front ∧
      selectorOf front = scope ∧
      let earlier := seenBefore source window wider floor offset
      (isScope (selectorOf (earlier ++ front)) = true →
        scopeAt? source.index (maskedText source) wider floor offset =
          some (selectorOf (earlier ++ front))) ∧
      (Uncut earlier front →
        scopeAt? source.index (maskedText source) wider floor offset = some scope) := by
  rw [scopeAt?_seenFrom, Option.map_eq_some_iff] at hscope
  obtain ⟨front, hfront, hselector⟩ := hscope
  have hwhole : isScope (selectorOf (seenBefore source window wider floor offset ++ front)) =
      true → scopeAt? source.index (maskedText source) wider floor offset =
        some (selectorOf (seenBefore source window wider floor offset ++ front)) := by
    intro h
    rw [scopeAt?_seenFrom, seenFrom_wider hle hfront, scopeBlock?_append hfront h]
    rfl
  refine ⟨front, hfront, hselector, hwhole, fun huncut => ?_⟩
  have hsame := huncut.selectorOf_append
  have hisScope : isScope (selectorOf front) = true :=
    List.find?_some (p := fun front => isScope (selectorOf front)) hfront
  rw [hsame, hselector] at hwhole
  rw [hselector] at hisScope
  exact hwhole hisScope

/-- A style sheet that ends within a block, with a line in front of the line of its brace. -/
def opened (upper lower : String) : Source where
  path := .ofString "a.css"
  label := "a.css"
  text := some (upper.toList ++ "\n".toList ++ lower.toList ++ " \x7b\n--x:".toList)

/-- The window of one line starts with a whole selector, and what is in front of it is closed. -/
theorem scopeAt?_wider_closed :
    let sheet := opened ".a \x7b\x7d" ".b"
    let scope (window : Nat) := scopeAt? sheet.index (maskedText sheet) window 0 15
    scope 0 = none ∧ scope 1 = some ".b".toList ∧ scope 40 = some ".b".toList := by
  intro sheet scope
  have hone : scope 1 = some ".b".toList := by decide +kernel
  obtain ⟨front, -, -, -, hsame⟩ := scopeAt?_wider sheet (by decide : 1 ≤ 40) 0 15 hone
  have hcut : ∀ c ∈ afterLast endsSelector (seenBefore sheet 1 40 0 15), isBlank c = true :=
    List.all_eq_true.mp (by decide +kernel)
  exact ⟨by decide +kernel, hone, hsame (.inr hcut)⟩

/-- The window may start within a selector. Then a part of the selector is told for the whole, and
if it is a rule of the kind `@…` that is cut, a part of the rule is told for a selector. -/
theorem window_cuts_selector :
    let scope (sheet : Source) (offset window : Nat) :=
      scopeAt? sheet.index (maskedText sheet) window 0 offset
    let list := opened ".a," ".b"
    let media := opened "@media print and" "(color)"
    (scope list 13 1 = some ".b".toList ∧ scope list 13 2 = some ".a, .b".toList) ∧
      scope media 31 1 = some "(color)".toList ∧ scope media 31 2 = none := by
  decide +kernel

end ColorCensus.Context.Stylesheet
