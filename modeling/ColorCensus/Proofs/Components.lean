import ColorCensus.Proofs.Floors
import ColorCensus.Proofs.Variables
import Mathlib.Data.List.TakeWhile

/-!
# The context of a color keeps to its component

Two walks go from a color upwards. The one for class and tags ends at the first line with a
declaration, and of that line takes what is behind the declaration; the other one, over a window of
its own, answers with the name that the first such line declares. So both come to the last
declaration in front of the color, and what the first walk finds stands behind it
(`context_within_component`).

This holds for lines as they are mostly written, with one declaration. Of several on a line a walk
takes the first plain one, or else the first exported one, and then what the last one should keep
out is found (`context_across_components`).

What has to be shown for lines with one declaration is little, but it is not nothing: the two forms
are looked for on their own, and `export function A` is a declaration of either form. That both
declare one name follows from where they end, since the name is what is behind the last blank
(`value_eq_afterLast`).
-/

namespace ColorCensus.Context.Markup

open Text

/-- The declarations of a line, of either form. -/
def declarationsIn (line : List Char) : List (Token (List Char)) :=
  tokens declaration line ++ tokens exportedDeclaration line

/-- `d` is the last declaration in front of a color, among lines that are told upwards from it: the
lines `below` hold none, and no other one of its own line ends behind it. -/
structure LastDeclared (lines below : List (List Char)) (line : List Char)
    (d : Token (List Char)) : Prop where
  among : below ++ [line] <+: lines
  none_below : ∀ l ∈ below, declarationsIn l = []
  mem : d ∈ declarationsIn line
  last : ∀ t ∈ declarationsIn line, t.stop ≤ d.stop

/-- No declaration of a line comes in the way of `d`: the plain ones end where it does, and if there
is none of them, the exported ones do. -/
structure Unrivalled (line : List Char) (d : Token (List Char)) : Prop where
  plain : ∀ t ∈ tokens declaration line, t.stop = d.stop
  exported : tokens declaration line = [] →
    ∀ t ∈ tokens exportedDeclaration line, t.stop = d.stop

/-- The nearest class, component tag and element tag of some lines that are told upwards. -/
def Found.inLines (lines : List (List Char)) : Found :=
  lines.foldr (fun line found => (Found.inLine line).or found) {}

variable {line cs left name : List Char} {d : Token (List Char)}

/-! ## The name that a declaration declares -/

/-- One text goes on with another one behind a blank. -/
def BehindBlank (cs rest : List Char) : Prop :=
  ∃ front c, cs = front ++ c :: rest ∧ isBlank c = true

namespace BehindBlank

variable {rest : List Char}

theorem of_dropRun? (h : dropRun? isBlank cs = some rest) : BehindBlank cs rest := by
  obtain ⟨⟨run, rest'⟩, hrun, rfl⟩ := Option.map_eq_some_iff.mp h
  obtain ⟨hne, hblanks, -⟩ := takeRun?_eq_some_iff.mp hrun
  obtain ⟨front, c, hlast⟩ := (List.eq_nil_or_concat run).resolve_left hne
  rw [List.concat_eq_append] at hlast
  refine ⟨front, c, ?_, ?_⟩
  · rw [takeRun?_append hrun, hlast, List.append_assoc]
    rfl
  · have hc : c ∈ cs.takeWhile isBlank := by
      rw [← hblanks, hlast]
      exact List.mem_append_right _ List.mem_cons_self
    exact List.all_eq_true.mp List.all_takeWhile c hc

theorem append_left (h : BehindBlank cs rest) (xs : List Char) : BehindBlank (xs ++ cs) rest := by
  obtain ⟨front, c, rfl, hc⟩ := h
  exact ⟨xs ++ front, c, (List.append_assoc _ _ _).symm, hc⟩

theorem dropWord (h : BehindBlank cs rest) (word : String) :
    BehindBlank cs (dropWord word rest) := by
  rw [Markup.dropWord]
  cases hword : (dropLiteral? word.toList rest).bind (dropRun? isBlank) with
  | none => exact h
  | some rest' =>
      obtain ⟨afterWord, hliteral, hrun⟩ := Option.bind_eq_some_iff.mp hword
      obtain ⟨front, c, rfl, -⟩ := h
      rw [dropLiteral?_eq_some_iff.mp hliteral, ← List.singleton_append, ← List.append_assoc,
        ← List.append_assoc]
      exact (of_dropRun? hrun).append_left _

end BehindBlank

theorem not_isBlank_of_isNameChar {c : Char} (h : isNameChar c = true) : isBlank c = false := by
  cases hblank : isBlank c with
  | false => rfl
  | true =>
      have hname : (isNameChar c || c == '-') = false := Variable.isNameChar_of_isBlank hblank
      rw [h] at hname
      cases hname

theorem takeCapitalised?_shape {p : Char → Bool} (h : takeCapitalised? p cs = some (name, left)) :
    cs = name ++ left ∧ ∀ c ∈ name, p c = true := by
  obtain ⟨_, -, h⟩ := Option.bind_eq_some_iff.mp h
  obtain ⟨⟨name', left'⟩, hrun, h⟩ := Option.bind_eq_some_iff.mp h
  obtain ⟨-, h⟩ := Option.ite_none_right_eq_some.mp h
  obtain ⟨rfl, rfl⟩ := Prod.mk.inj (Option.some.inj h)
  refine ⟨takeRun?_append hrun, ?_⟩
  obtain ⟨-, rfl, -⟩ := takeRun?_eq_some_iff.mp hrun
  exact List.all_eq_true.mp List.all_takeWhile

/-- A recogniser of declarations takes a text up to a name behind a blank. -/
def TakesName (r : Recognizer (List Char)) : Prop :=
  ∀ before cs name left, r before cs = some (name, left) →
    BehindBlank cs (name ++ left) ∧ ∀ c ∈ name, isBlank c = false

theorem takeDeclared?_shape (h : takeDeclared? cs = some (name, left)) :
    BehindBlank cs (name ++ left) ∧ ∀ c ∈ name, isBlank c = false := by
  obtain ⟨afterWord, hword, h⟩ := Option.bind_eq_some_iff.mp h
  obtain ⟨afterGap, hgap, h⟩ := Option.bind_eq_some_iff.mp h
  obtain ⟨word, -, hdrop⟩ := List.exists_of_findSome?_eq_some hword
  obtain ⟨rfl, hname⟩ := takeCapitalised?_shape h
  rw [dropLiteral?_eq_some_iff.mp hdrop]
  exact ⟨(BehindBlank.of_dropRun? hgap).append_left _,
    fun c hc => not_isBlank_of_isNameChar (hname c hc)⟩

theorem declaration_takesName : TakesName declaration := by
  intro before cs name left h
  obtain h | ⟨-, h⟩ := Option.or_eq_some_iff.mp h
  · obtain ⟨-, h⟩ := Option.ite_none_right_eq_some.mp h
    exact takeDeclared?_shape h
  · obtain ⟨rest, hblank, h⟩ := Option.bind_eq_some_iff.mp h
    obtain ⟨hbehind, hname⟩ := takeDeclared?_shape h
    obtain ⟨c, rfl, -⟩ := dropOne?_eq_some_iff.mp hblank
    exact ⟨hbehind.append_left [c], hname⟩

theorem exportedDeclaration_takesName : TakesName exportedDeclaration := by
  intro before cs name left h
  obtain ⟨afterWord, hword, h⟩ := Option.bind_eq_some_iff.mp h
  obtain ⟨afterGap, hgap, h⟩ := Option.bind_eq_some_iff.mp h
  obtain ⟨hrest, hname⟩ := takeCapitalised?_shape h
  rw [dropLiteral?_eq_some_iff.mp hword, ← hrest]
  exact ⟨(((BehindBlank.of_dropRun? hgap).dropWord "default").dropWord "function").append_left _,
    fun c hc => not_isBlank_of_isNameChar (hname c hc)⟩

theorem value_eq_of_takesName {r : Recognizer (List Char)} (hr : TakesName r)
    {t : Token (List Char)} (h : t ∈ tokens r line) :
    t.value = Stylesheet.afterLast isBlank (line.take t.stop) := by
  obtain ⟨done, rest, left, rfl, hstart, htaken, htext⟩ := taken_of_mem_tokens h
  obtain ⟨⟨front, c, hrest, hc⟩, hname⟩ := hr _ _ _ _ htaken
  have hpiece : rest = (front ++ c :: t.value) ++ left := by
    rw [hrest, List.append_assoc]
    rfl
  rw [hpiece, consumed_append, List.take_left] at htext
  have hstop : t.stop = done.length + (front ++ c :: t.value).length := by
    rw [Token.stop, htext, hstart]
  rw [hstop, hpiece, List.take_length_add_append, List.take_left, ← List.append_assoc,
    Stylesheet.afterLast_append_stop hc]
  exact (Stylesheet.afterLast_append hname []).symm

theorem value_eq_afterLast {t : Token (List Char)} (h : t ∈ declarationsIn line) :
    t.value = Stylesheet.afterLast isBlank (line.take t.stop) := by
  obtain h | h := List.mem_append.mp h
  · exact value_eq_of_takesName declaration_takesName h
  · exact value_eq_of_takesName exportedDeclaration_takesName h

/-! ## The declaration that a walk comes to -/

theorem declarationIn?_eq_none (h : declarationsIn line = []) : declarationIn? line = none := by
  obtain ⟨hplain, hexported⟩ := List.append_eq_nil_iff.mp h
  rw [declarationIn?, firstToken?, firstToken?, hplain, hexported]
  rfl

/-- A walk takes the declaration that nothing comes in the way of, or one that ends there as well
and declares the same name. -/
theorem Unrivalled.declarationIn? (h : Unrivalled line d) (hd : d ∈ declarationsIn line) :
    ∃ t, Markup.declarationIn? line = some t ∧ t.stop = d.stop ∧ t.value = d.value := by
  have hvalue : ∀ t ∈ declarationsIn line, t.stop = d.stop → t.value = d.value := by
    intro t ht hstop
    rw [value_eq_afterLast ht, value_eq_afterLast hd, hstop]
  cases hplain : tokens declaration line with
  | cons t ts =>
      have ht : t ∈ tokens declaration line := hplain ▸ List.mem_cons_self
      refine ⟨t, ?_, h.plain t ht, hvalue t (List.mem_append_left _ ht) (h.plain t ht)⟩
      rw [Markup.declarationIn?, firstToken?, hplain]
      rfl
  | nil =>
      cases hexported : tokens exportedDeclaration line with
      | nil =>
          rw [declarationsIn, hplain, hexported] at hd
          cases hd
      | cons t ts =>
          have ht : t ∈ tokens exportedDeclaration line := hexported ▸ List.mem_cons_self
          have hstop := h.exported hplain t ht
          refine ⟨t, ?_, hstop, hvalue t (List.mem_append_right _ ht) hstop⟩
          rw [Markup.declarationIn?, firstToken?, firstToken?, hplain, hexported]
          rfl

/-! ## The walks -/

theorem Found.or_empty (found : Found) : found.or {} = found := by
  simp only [Found.or, Option.or_none]

theorem elementContext_of_declaration {below above : List (List Char)}
    (hbelow : ∀ l ∈ below, declarationsIn l = []) (hline : declarationIn? line = some d) :
    elementContext (below ++ line :: above) = Found.inLines (below ++ [line.drop d.stop]) := by
  induction below with
  | nil =>
      rw [List.nil_append, elementContext, hline]
      exact (Found.or_empty _).symm
  | cons l below ih =>
      obtain ⟨hl, hbelow⟩ := List.forall_mem_cons.mp hbelow
      rw [List.cons_append, elementContext, declarationIn?_eq_none hl]
      exact congrArg (Found.inLine l).or (ih hbelow)

theorem enclosingComponent?_of_declaration {below above : List (List Char)}
    (hbelow : ∀ l ∈ below, declarationsIn l = []) (hline : declarationIn? line = some d) :
    enclosingComponent? (below ++ line :: above) = some d.value := by
  induction below with
  | nil => rw [List.nil_append, enclosingComponent?, List.findSome?_cons, hline]; rfl
  | cons l below ih =>
      obtain ⟨hl, hbelow⟩ := List.forall_mem_cons.mp hbelow
      rw [List.cons_append, enclosingComponent?, List.findSome?_cons, declarationIn?_eq_none hl]
      exact ih hbelow

/-- A wider window goes on where the other one ends. -/
theorem linesAbove_isPrefix (ix : LineIndex) {w w' : Int} (h : w ≤ w') (offset : Nat) :
    linesAbove ix w offset <+: linesAbove ix w' offset := by
  rw [linesAbove, linesAbove]
  split
  · exact List.nil_prefix
  · next hw =>
      rw [if_neg (by omega)]
      refine List.prefix_cons_inj _ |>.mpr (List.IsPrefix.map _ ?_)
      have hle : min (ix.lineOf offset) w.toNat ≤ min (ix.lineOf offset) w'.toNat := by omega
      obtain ⟨k, hk⟩ := Nat.exists_eq_add_of_le hle
      rw [hk, List.range_add]
      exact List.prefix_append _ _

theorem LastDeclared.among_linesAbove {ix : LineIndex} {w w' : Int} {offset : Nat}
    {below : List (List Char)} (h : LastDeclared (linesAbove ix w offset) below line d)
    (hlength : below.length < (linesAbove ix w' offset).length) :
    below ++ [line] <+: linesAbove ix w' offset := by
  obtain hw | hw := Int.le_total w w'
  · exact h.among.trans (linesAbove_isPrefix ix hw offset)
  · refine List.prefix_of_prefix_length_le h.among (linesAbove_isPrefix ix hw offset) ?_
    rw [List.length_append, List.length_singleton]
    omega

/-- The class and the tags above a color are the nearest ones behind the last declaration in front
of it, if no other declaration on its line comes in the way; and the component is the one that it
declares, if it is in the window for that. -/
theorem context_within_component (ix : LineIndex) (window componentWindow : Int) (offset : Nat)
    {below : List (List Char)} {line : List Char} {d : Token (List Char)}
    (hd : LastDeclared (linesAbove ix window offset) below line d) (hline : Unrivalled line d) :
    elementContext (linesAbove ix window offset) =
        Found.inLines (below ++ [line.drop d.stop]) ∧
      (below.length < (linesAbove ix componentWindow offset).length →
        enclosingComponent? (linesAbove ix componentWindow offset) = some d.value) := by
  obtain ⟨t, ht, hstop, hvalue⟩ := hline.declarationIn? hd.mem
  constructor
  · obtain ⟨above, habove⟩ := hd.among
    rw [← habove, List.append_assoc, List.singleton_append,
      elementContext_of_declaration hd.none_below ht, hstop]
  · intro hlength
    obtain ⟨above, habove⟩ := hd.among_linesAbove hlength
    rw [← habove, List.append_assoc, List.singleton_append,
      enclosingComponent?_of_declaration hd.none_below ht, hvalue]

/-- Two components on lines of their own. -/
def twoLines : List Char := "const A = <P>\nconst B =\n<i>#fff".toList

/-- The tag of the first component is not found for a color in the second one. -/
theorem context_within_component_twoLines :
    LastDeclared (linesAbove (.ofText twoLines) 15 27) ["<i>".toList] "const B =".toList
        ⟨0, "const B".toList, "B".toList⟩ ∧
      Unrivalled "const B =".toList ⟨0, "const B".toList, "B".toList⟩ ∧
      elementContext (linesAbove (.ofText twoLines) 15 27) =
        Found.inLines ["<i>".toList, " =".toList] ∧
      enclosingComponent? (linesAbove (.ofText twoLines) 60 27) = some "B".toList := by
  have hplain : tokens declaration "const B =".toList = [⟨0, "const B".toList, "B".toList⟩] := by
    rfl
  have hexported : tokens exportedDeclaration "const B =".toList = [] := rfl
  have hall : declarationsIn "const B =".toList = [⟨0, "const B".toList, "B".toList⟩] := by
    rw [declarationsIn, hplain, hexported, List.append_nil]
  have hbelow : declarationsIn "<i>".toList = [] := rfl
  have hd : LastDeclared (linesAbove (.ofText twoLines) 15 27) ["<i>".toList] "const B =".toList
      ⟨0, "const B".toList, "B".toList⟩ := by
    refine ⟨by decide +kernel, List.forall_mem_singleton.mpr hbelow, ?_, ?_⟩
    · rw [hall]
      exact List.mem_cons_self
    · rw [hall]
      exact List.forall_mem_singleton.mpr (Nat.le_refl _)
  have hline : Unrivalled "const B =".toList ⟨0, "const B".toList, "B".toList⟩ := by
    constructor
    · rw [hplain]
      exact List.forall_mem_singleton.mpr rfl
    · rw [hexported]
      exact fun _ => nofun
  obtain ⟨hfound, hcomponent⟩ := context_within_component (.ofText twoLines) 15 60 27 hd hline
  exact ⟨hd, hline, hfound, hcomponent (by decide +kernel)⟩

/-- Two components on one line. -/
def oneLine : List Char := "const A = <P>; const B = #fff".toList

/-- For a color in the second component the walks come to the declaration of the first one, and its
tag is found. -/
theorem context_across_components :
    LastDeclared (linesAbove (.ofText oneLine) 15 25) [] (oneLine.take 25)
        ⟨14, " const B".toList, "B".toList⟩ ∧
      (elementContext (linesAbove (.ofText oneLine) 15 25)).component = some "P".toList ∧
      (Found.inLines [(oneLine.take 25).drop 22]).component = none ∧
      enclosingComponent? (linesAbove (.ofText oneLine) 60 25) = some "A".toList ∧
      scopeAt? (.ofText oneLine) 15 60 25 = some "A > P".toList := by
  have hall : declarationsIn (oneLine.take 25) =
      [⟨0, "const A".toList, "A".toList⟩, ⟨14, " const B".toList, "B".toList⟩] := rfl
  refine ⟨⟨by decide +kernel, nofun, ?_, ?_⟩, by decide +kernel⟩
  · rw [hall]
    exact List.mem_cons_of_mem _ List.mem_cons_self
  · rw [hall]
    exact List.forall_mem_cons.mpr ⟨by decide, List.forall_mem_singleton.mpr (Nat.le_refl _)⟩

end ColorCensus.Context.Markup
