import ColorCensus.Proofs.Places
import Mathlib.Data.List.Forall2
import Mathlib.Data.List.Induction

/-!
# One entry for each color

Entries go by keys, and a key is made of texts: the file, if files are kept apart, the value in its
normal form, and for a variable its name and theme. Two occurrences have one key exactly if they are
of one color (`SameColor`), and then the texts of the keys are the same as well: the first of them
tells variables from all else, so that no variable shares its key with a literal, however many texts
follow.

The entries deal the occurrences out by color (`ofOccurrences_dealt`). They are defined by the keys
that occur, but going over the occurrences once comes to the same, if each is added to the entry of
its key or else starts one at the end (`ofOccurrences_eq_foldl`).
-/

namespace ColorCensus.Entry

variable {perFile : Bool} {os : List Occurrence} {o p : Occurrence}

/-! ## Keys -/

/-- Two occurrences are of one color. An absent name or theme counts as an empty one. -/
structure SameColor (perFile : Bool) (o p : Occurrence) : Prop where
  kind : o.kind = .var ↔ p.kind = .var
  file : perFile = true → o.file = p.file
  value : Color.normalForm o.value.toList = Color.normalForm p.value.toList
  name : o.kind = .var → o.name.getD "" = p.name.getD ""
  theme : o.kind = .var → (o.theme.map Theme.label).getD "" = (p.theme.map Theme.label).getD ""

theorem isVariable_iff : o.isVariable = true ↔ o.kind = .var := by
  rw [Occurrence.isVariable, beq_iff_eq]

theorem Key.ofOccurrence_of_var (h : o.kind = .var) :
    ofOccurrence perFile o = var (if perFile then some o.file else none) (o.name.getD "")
      (String.ofList (Color.normalForm o.value.toList)) ((o.theme.map Theme.label).getD "") := by
  unfold ofOccurrence
  exact if_pos (isVariable_iff.mpr h)

theorem Key.ofOccurrence_of_ne (h : o.kind ≠ .var) :
    ofOccurrence perFile o = literal (if perFile then some o.file else none)
      (String.ofList (Color.normalForm o.value.toList)) := by
  unfold ofOccurrence
  exact if_neg (mt isVariable_iff.mp h)

theorem Key.scope_eq_iff {f g : String} :
    (if perFile then some f else none) = (if perFile then some g else none) ↔
      (perFile = true → f = g) := by
  cases perFile with
  | false => simp
  | true => simp

theorem Key.ofOccurrence_eq_iff :
    ofOccurrence perFile o = ofOccurrence perFile p ↔ SameColor perFile o p := by
  by_cases ho : o.kind = .var
  · by_cases hp : p.kind = .var
    · rw [ofOccurrence_of_var ho, ofOccurrence_of_var hp, var.injEq, scope_eq_iff,
        String.ofList_inj]
      constructor
      · rintro ⟨hfile, hname, hvalue, htheme⟩
        exact ⟨iff_of_true ho hp, hfile, hvalue, fun _ => hname, fun _ => htheme⟩
      · exact fun h => ⟨h.file, h.name ho, h.value, h.theme ho⟩
    · rw [ofOccurrence_of_var ho, ofOccurrence_of_ne hp]
      exact ⟨nofun, fun h => absurd (h.kind.mp ho) hp⟩
  · by_cases hp : p.kind = .var
    · rw [ofOccurrence_of_ne ho, ofOccurrence_of_var hp]
      exact ⟨nofun, fun h => absurd (h.kind.mpr hp) ho⟩
    · rw [ofOccurrence_of_ne ho, ofOccurrence_of_ne hp, literal.injEq, scope_eq_iff,
        String.ofList_inj]
      constructor
      · rintro ⟨hfile, hvalue⟩
        exact ⟨iff_of_false ho hp, hfile, hvalue, fun h => absurd h ho, fun h => absurd h ho⟩
      · exact fun h => ⟨h.file, h.value⟩

theorem Key.parts_ofOccurrence_inj :
    (ofOccurrence perFile o).parts = (ofOccurrence perFile p).parts ↔
      ofOccurrence perFile o = ofOccurrence perFile p := by
  unfold ofOccurrence
  cases perFile <;> cases o.isVariable <;> cases p.isVariable <;> simp [parts]

/-! ## Entries -/

/-- An entry gathers some of the occurrences: it lists them, has the key of each, and is named as
the first of them is. Only variables have a theme. -/
structure Gathers (perFile : Bool) (part : List (Occurrence × Nat)) (e : Entry) : Prop where
  listed : e.occurrences = part.map (·.1)
  key : ∀ a ∈ part, e.key = Key.ofOccurrence perFile a.1
  kind : ∀ first ∈ part.head?, e.kind = first.1.kind
  value : ∀ first ∈ part.head?, e.value = first.1.value
  name : ∀ first ∈ part.head?, e.name = first.1.name
  theme : ∀ first ∈ part.head?, e.theme = if first.1.kind = .var then first.1.theme else none

/-- Entries deal occurrences out by color, one entry for each color, in the order of the first
occurrences. -/
structure Dealt (perFile : Bool) (os : List Occurrence) (es : List Entry)
    (parts : List (List (Occurrence × Nat))) : Prop where
  covers : Parts os parts
  gathered : List.Forall₂ (Gathers perFile) parts es
  keys : (es.map (·.key.parts)).Nodup
  together : ∀ a ∈ os.zipIdx, ∀ b ∈ os.zipIdx,
    (∃ part ∈ parts, a ∈ part ∧ b ∈ part) ↔ SameColor perFile a.1 b.1
  ordered : parts.Pairwise fun part later => ∀ a ∈ part.head?, ∀ b ∈ later.head?, a.2 < b.2

/-- The first occurrences of all colors, with their places. -/
def firsts (perFile : Bool) (os : List Occurrence) : List (Occurrence × Nat) :=
  distinctBy (fun a => Key.ofOccurrence perFile a.1) os.zipIdx

theorem map_firsts (perFile : Bool) (os : List Occurrence) :
    (firsts perFile os).map (·.1) = distinctBy (Key.ofOccurrence perFile) os := by
  have h := distinctBy_map (Key.ofOccurrence perFile) (Prod.fst : Occurrence × Nat → _) os.zipIdx
  rw [List.zipIdx_map_fst] at h
  exact h.symm

theorem map_key_firsts (perFile : Bool) (os : List Occurrence) :
    (firsts perFile os).map (fun a => Key.ofOccurrence perFile a.1) =
      (distinctBy (Key.ofOccurrence perFile) os).map (Key.ofOccurrence perFile) := by
  rw [← map_firsts, List.map_map]
  rfl

/-- The occurrences of the color that a first one has. -/
def ofColor (perFile : Bool) (os : List Occurrence) (first : Occurrence × Nat) :
    List (Occurrence × Nat) :=
  os.zipIdx.filter fun a => Key.ofOccurrence perFile a.1 = Key.ofOccurrence perFile first.1

theorem head?_ofColor {first : Occurrence × Nat} (h : first ∈ firsts perFile os) :
    (ofColor perFile os first).head? = some first := by
  rw [ofColor, List.head?_filter]
  exact find?_of_mem_distinctBy h

theorem map_ofColor (perFile : Bool) (os : List Occurrence) :
    (firsts perFile os).map (ofColor perFile os) =
      byLabel (Key.ofOccurrence perFile)
        ((distinctBy (Key.ofOccurrence perFile) os).map (Key.ofOccurrence perFile)) os := by
  rw [← map_key_firsts, byLabel, List.map_map]
  rfl

theorem gathers_ofColor {first : Occurrence × Nat} (h : first ∈ firsts perFile os) :
    Gathers perFile (ofColor perFile os first)
      { kind := first.1.kind
        value := first.1.value
        key := Key.ofOccurrence perFile first.1
        name := first.1.name
        theme := if first.1.isVariable then first.1.theme else none
        occurrences := os.filter fun p =>
          Key.ofOccurrence perFile p = Key.ofOccurrence perFile first.1 } := by
  have hhead : ∀ a ∈ (ofColor perFile os first).head?, a = first := by
    intro a ha
    rw [head?_ofColor h] at ha
    exact (Option.mem_some_iff.mp ha).symm
  constructor
  case listed => exact (map_fst_filter_zipIdx _ os).symm
  case key => exact fun a ha => (of_decide_eq_true (List.mem_filter.mp ha).2).symm
  case kind => exact fun a ha => by rw [hhead a ha]
  case value => exact fun a ha => by rw [hhead a ha]
  case name => exact fun a ha => by rw [hhead a ha]
  case theme => exact fun a ha => by rw [hhead a ha]; simp only [isVariable_iff]

/-- Occurrences have one key exactly if they are of one color. Every occurrence is in exactly one
entry, with all those of its color and no others, in the order they came in. No two entries have one
key, none is empty, each is named as its first occurrence is, and they stand in the order of
these. -/
theorem ofOccurrences_dealt (perFile : Bool) (os : List Occurrence) :
    (∀ o p, (Key.ofOccurrence perFile o).parts = (Key.ofOccurrence perFile p).parts ↔
      SameColor perFile o p) ∧
    ∃ parts, Dealt perFile os (ofOccurrences perFile os) parts := by
  have hused : ∀ k, k ∈ (distinctBy (Key.ofOccurrence perFile) os).map (Key.ofOccurrence perFile) ↔
      ∃ o ∈ os, Key.ofOccurrence perFile o = k :=
    fun k => mem_map_distinctBy.trans List.mem_map
  have hnodup := nodup_map_distinctBy (Key.ofOccurrence perFile) os
  refine ⟨fun o p => Key.parts_ofOccurrence_inj.trans Key.ofOccurrence_eq_iff,
    (firsts perFile os).map (ofColor perFile os), ?_⟩
  constructor
  case covers =>
    rw [map_ofColor]
    exact parts_byLabel hnodup hused
  case gathered =>
    rw [ofOccurrences_eq, ← map_firsts, List.map_map, List.forall₂_map_left_iff,
      List.forall₂_map_right_iff, List.forall₂_same]
    exact fun first h => gathers_ofColor h
  case keys =>
    rw [ofOccurrences_eq, List.map_map]
    rw [List.Nodup, List.pairwise_map] at hnodup ⊢
    exact hnodup.imp fun hne h => hne (Key.parts_ofOccurrence_inj.mp h)
  case together =>
    intro a ha b hb
    rw [map_ofColor, exists_mem_byLabel_iff hused ha hb]
    exact Key.ofOccurrence_eq_iff
  case ordered =>
    rw [List.pairwise_map]
    have hplaces : (firsts perFile os).Pairwise fun a b => a.2 < b.2 :=
      (pairwise_zipIdx os).sublist (distinctBy_sublist _ _)
    refine (List.Pairwise.and_mem.mp hplaces).imp ?_
    rintro first later ⟨hfirst, hlater, hlt⟩ a ha b hb
    rw [head?_ofColor hfirst, Option.mem_some_iff] at ha
    rw [head?_ofColor hlater, Option.mem_some_iff] at hb
    rw [← ha, ← hb]
    exact hlt

/-! ## One occurrence after the other -/

/-- Adds an occurrence to the entry of its key, or starts one with it at the end. -/
def add (perFile : Bool) (es : List Entry) (o : Occurrence) : List Entry :=
  let key := Key.ofOccurrence perFile o
  if es.any fun e => e.key = key then
    es.map fun e => if e.key = key then { e with occurrences := e.occurrences ++ [o] } else e
  else es ++ [ofFirst [(key, o)] (key, o)]

theorem any_key_iff (perFile : Bool) (os : List Occurrence) (k : Key) :
    ((ofOccurrences perFile os).any fun e => e.key = k) = true ↔
      k ∈ os.map (Key.ofOccurrence perFile) := by
  rw [← mem_map_distinctBy, ofOccurrences_eq, List.any_map, List.any_eq_true, List.mem_map]
  simp only [Function.comp_apply, decide_eq_true_eq]

theorem filter_key_concat (k : Key) :
    ((os ++ [o]).filter fun p => Key.ofOccurrence perFile p = k) =
      (os.filter fun p => Key.ofOccurrence perFile p = k) ++
        if Key.ofOccurrence perFile o = k then [o] else [] := by
  rw [List.filter_append]
  congr 1
  by_cases h : Key.ofOccurrence perFile o = k
  · rw [if_pos h, List.filter_cons_of_pos (by simpa using h), List.filter_nil]
  · rw [if_neg h, List.filter_cons_of_neg (by simpa using h), List.filter_nil]

theorem ofOccurrences_concat (perFile : Bool) (os : List Occurrence) (o : Occurrence) :
    ofOccurrences perFile (os ++ [o]) = add perFile (ofOccurrences perFile os) o := by
  rw [ofOccurrences_eq, distinctBy_concat, List.map_append]
  simp only [filter_key_concat]
  unfold add
  dsimp only
  by_cases hknown : Key.ofOccurrence perFile o ∈ os.map (Key.ofOccurrence perFile)
  · rw [if_pos hknown, if_pos ((any_key_iff perFile os _).mpr hknown), List.map_nil,
      List.append_nil, ofOccurrences_eq, List.map_map]
    refine List.map_congr_left fun p _ => ?_
    dsimp only [Function.comp_apply]
    by_cases hkey : Key.ofOccurrence perFile o = Key.ofOccurrence perFile p
    · rw [if_pos hkey, if_pos hkey.symm]
    · rw [if_neg hkey, if_neg (Ne.symm hkey), List.append_nil]
  · have hnone : (os.filter fun p =>
        Key.ofOccurrence perFile p = Key.ofOccurrence perFile o) = [] :=
      List.filter_eq_nil_iff.mpr fun p hp hkey =>
        hknown (List.mem_map.mpr ⟨p, hp, of_decide_eq_true hkey⟩)
    rw [if_neg hknown, if_neg (mt (any_key_iff perFile os _).mp hknown), ofOccurrences_eq]
    congr 1
    · refine List.map_congr_left fun p hp => ?_
      have hne : Key.ofOccurrence perFile o ≠ Key.ofOccurrence perFile p := fun hkey =>
        hknown (List.mem_map.mpr ⟨p, (distinctBy_sublist _ _).mem hp, hkey.symm⟩)
      rw [if_neg hne, List.append_nil]
    · rw [List.map_singleton, if_pos rfl, hnone]
      simp [ofFirst]

/-- Adding the occurrences one by one, each to the entry of its key, makes the entries. -/
theorem ofOccurrences_eq_foldl (perFile : Bool) (os : List Occurrence) :
    ofOccurrences perFile os = os.foldl (add perFile) [] := by
  induction os using List.reverseRecOn with
  | nil => rfl
  | append_singleton os o ih =>
      rw [ofOccurrences_concat, ih, List.foldl_append]
      rfl

end ColorCensus.Entry
