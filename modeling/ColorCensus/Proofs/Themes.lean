import ColorCensus.Proofs.Detours
import ColorCensus.Proofs.Groups
import ColorCensus.Proofs.Spots
import ColorCensus.Proofs.Table

/-!
# The themes that variables have

A theme may be any label, but the labels that the library makes itself are three. A condition reads
`dark` or `light` off a line, a block has the theme of such a condition, and outside of all blocks
the theme is `base`. From there on themes are only passed along: a definition has that of its line,
a reference that of the definition that the table answers with, and an entry that of its first
occurrence. Each lemma here is about one of these steps.
-/

namespace ColorCensus

namespace Theme

/-- The themes that a line can have. -/
def classes : List Theme := [dark, light, base]

variable {condition : Condition} {attributes : List (List Char)} {theme : Theme}

/-! ## Conditions -/

/-- A condition names no theme but one that a line can have. -/
def Condition.Classifies (condition : Condition) : Prop :=
  ∀ cs theme, condition cs = some theme → theme ∈ classes

theorem takeScheme?_mem_classes {cs rest : List Char} (h : takeScheme? cs = some (theme, rest)) :
    theme ∈ classes := by
  rw [takeScheme?, Option.or_eq_some_iff] at h
  rcases h with h | ⟨-, h⟩
  · obtain ⟨_, -, heq⟩ := Option.map_eq_some_iff.mp h
    cases heq
    decide
  · obtain ⟨_, -, heq⟩ := Option.map_eq_some_iff.mp h
    cases heq
    decide

theorem schemeQuery_classifies : Condition.Classifies schemeQuery := by
  intro cs theme h
  obtain ⟨_, -, h⟩ := Option.bind_eq_some_iff.mp h
  obtain ⟨_, -, h⟩ := Option.bind_eq_some_iff.mp h
  obtain ⟨_, hscheme, h⟩ := Option.bind_eq_some_iff.mp h
  cases h
  exact takeScheme?_mem_classes hscheme

theorem attributeValue_classifies (name : List Char) :
    Condition.Classifies (attributeValue name) := by
  intro cs theme h
  obtain ⟨_, -, h⟩ := Option.bind_eq_some_iff.mp h
  obtain ⟨_, hscheme, h⟩ := Option.bind_eq_some_iff.mp h
  obtain ⟨_, -, h⟩ := Option.bind_eq_some_iff.mp h
  cases h
  exact takeScheme?_mem_classes hscheme

theorem Condition.Classifies.lastCondition? (h : condition.Classifies) :
    Condition.Classifies (lastCondition? condition) := by
  intro cs theme htheme
  induction cs with
  | nil => exact h _ _ htheme
  | cons c cs ih =>
      rw [Theme.lastCondition?] at htheme
      split at htheme
      · exact h _ _ htheme
      · rcases Option.or_eq_some_iff.mp htheme with htheme | ⟨-, htheme⟩
        · exact ih htheme
        · exact h _ _ htheme

theorem Condition.Classifies.opened? (h : condition.Classifies) (opening : String) :
    Condition.Classifies (opened? opening condition) := by
  intro cs theme htheme
  induction cs with
  | nil => cases htheme
  | cons c cs ih =>
      rw [Theme.opened?] at htheme
      rcases Option.or_eq_some_iff.mp htheme with htheme | ⟨-, htheme⟩
      · obtain ⟨_, -, htheme⟩ := Option.bind_eq_some_iff.mp htheme
        exact h.lastCondition? _ _ htheme
      · exact ih htheme

theorem trigger?_classifies (attributes : List (List Char)) :
    Condition.Classifies (trigger? attributes) := by
  intro line theme h
  rcases Option.or_eq_some_iff.mp h with h | ⟨-, h⟩
  · exact schemeQuery_classifies.opened? _ _ _ h
  · obtain ⟨name, -, h⟩ := List.exists_of_findSome?_eq_some h
    exact (attributeValue_classifies name).opened? _ _ _ h

/-! ## Lines -/

theorem Blocks.theme_mem_classes {blocks : Blocks}
    (h : ∀ theme, some theme ∈ blocks → theme ∈ classes) : blocks.theme ∈ classes := by
  rw [Blocks.theme]
  cases hfound : blocks.findSome? id with
  | none => decide
  | some theme =>
      obtain ⟨tag, htag, rfl⟩ := List.exists_of_findSome?_eq_some hfound
      exact h theme htag

theorem mem_classes_of_mem_ofLinesFrom {blocks : Blocks} {lines : List (List Char)}
    (hblocks : ∀ theme, some theme ∈ blocks → theme ∈ classes)
    (h : theme ∈ ofLinesFrom attributes blocks lines) : theme ∈ classes := by
  induction lines generalizing blocks with
  | nil => cases h
  | cons line lines ih =>
      rcases List.mem_cons.mp h with rfl | h
      · exact Blocks.theme_mem_classes hblocks
      · refine ih (fun tag htag => ?_) h
        rcases mem_of_mem_after htag with htag | htrigger
        · exact hblocks tag htag
        · exact trigger?_classifies attributes _ _ htrigger

theorem mem_classes_of_mem_ofLines {text : List Char} (h : theme ∈ ofLines attributes text) :
    theme ∈ classes :=
  mem_classes_of_mem_ofLinesFrom (fun _ htag => absurd htag List.not_mem_nil) h

end Theme

open Theme (classes)

namespace Variable

theorem themeAt_mem_classes (attributes : List (List Char)) (text : List Char)
    (ix : Text.LineIndex) (offset : Nat) :
    themeAt (Theme.ofLines attributes text) ix offset ∈ classes := by
  rw [themeAt]
  cases h : (Theme.ofLines attributes text)[ix.lineOf offset]? with
  | none => decide
  | some theme => exact Theme.mem_classes_of_mem_ofLines (List.mem_of_getElem? h)

theorem theme_mem_classes_of_resolve? {precedence : Precedence} {attributes : List (List Char)}
    {files : List Source} {name : String} {d : Definition}
    (h : (collect precedence attributes files).1.resolve? name = some d) : d.theme ∈ classes := by
  rw [resolve?_collect] at h
  obtain ⟨hmem, -⟩ := List.mem_filter.mp (Precedence.mem_of_choose? h)
  obtain ⟨s, -, hd⟩ := List.mem_flatMap.mp hmem
  obtain ⟨_, -, rfl⟩ := List.mem_map.mp hd
  exact themeAt_mem_classes _ _ _ _

end Variable

/-! ## Occurrences and entries -/

namespace Occurrence

/-- What is not a literal is a variable with a theme that a line can have. -/
def Classified (kind : Kind) (theme : Option Theme) : Prop :=
  kind = .literal ∨ kind = .var ∧ theme ∈ classes.map some

variable {precedence : Variable.Precedence} {attributes : List (List Char)} {files : List Source}
  {s : Source}

theorem classified_of_mem_spots {a : Spot}
    (h : a ∈ spots (Variable.collect precedence attributes files).1 attributes s) :
    Classified a.kind a.theme := by
  cases htext : s.text with
  | none =>
      rw [spots, htext] at h
      cases h
  | some text =>
      rcases (mem_spots htext).mp h with h | h | h
      · obtain ⟨d, -, rfl⟩ := List.mem_map.mp h
        exact .inr ⟨rfl, List.mem_map_of_mem (Variable.themeAt_mem_classes _ _ _ _)⟩
      · obtain ⟨r, -, d, hd, rfl⟩ := mem_referenceSpots.mp h
        exact .inr ⟨rfl, List.mem_map_of_mem (Variable.theme_mem_classes_of_resolve? hd)⟩
      · obtain ⟨t, -, rfl⟩ := List.mem_map.mp h
        exact .inl rfl

theorem classified_of_mem_found {settings : Context.Settings} {o : Occurrence}
    (h : o ∈ found (Variable.collect precedence attributes files).1 attributes settings s) :
    Classified o.kind o.theme := by
  obtain ⟨a, ha, rfl⟩ := List.mem_map.mp h
  exact classified_of_mem_spots ha

end Occurrence

open Occurrence (Classified)

theorem Entry.classified {perFile : Bool} {os : List Occurrence}
    (h : ∀ o ∈ os, Classified o.kind o.theme) :
    ∀ e ∈ ofOccurrences perFile os, Classified e.kind e.theme := by
  intro e he
  rw [ofOccurrences_eq] at he
  obtain ⟨o, ho, rfl⟩ := List.mem_map.mp he
  rcases h o ((distinctBy_sublist _ _).mem ho) with hkind | ⟨hkind, htheme⟩
  · exact .inl hkind
  · refine .inr ⟨hkind, ?_⟩
    rwa [Occurrence.isVariable, hkind, if_pos (beq_self_eq_true _)]

end ColorCensus
