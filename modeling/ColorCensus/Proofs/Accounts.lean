import ColorCensus.Proofs.Enclosure
import ColorCensus.Proofs.Spans
import Mathlib.Data.List.Nodup

/-!
# No literal is lost

The scanner drops every literal that overlaps the value of a definition. Such a literal lies
inside the value, so the definition stands for it, and no other definition does. All other
literals are reported, and nothing else is reported as a literal.
-/

namespace ColorCensus

open Text

namespace Occurrence

variable {table : Variable.Table} {attributes : List (List Char)} {settings : Context.Settings}
  {memory : Context.Memory} {s : Source}

/-- A literal of a file is reported by an occurrence. -/
structure Shows (s : Source) (t : Token Unit) (o : Occurrence) : Prop where
  kind : o.kind = .literal
  value : o.value = String.ofList t.text
  covers : Covers s t.span o

/-- An occurrence reports a definition whose value holds a span. -/
def Holds (s : Source) (span : Nat × Nat) (o : Occurrence) : Prop :=
  o.isDefinition = true ∧ ∃ value, Covers s value o ∧ Within span value

theorem mem_describeAll {ss : List Spot} {o : Occurrence}
    (h : o ∈ (describeAll settings s memory ss).1) :
    ∃ a ∈ ss, ∃ hint, o = describe settings.sampleLength s hint a := by
  induction ss generalizing memory with
  | nil => cases h
  | cons a ss ih =>
      rcases List.mem_cons.mp h with rfl | h
      · exact ⟨a, List.mem_cons_self, _, rfl⟩
      · obtain ⟨b, hb, hint, ho⟩ := ih h
        exact ⟨b, List.mem_cons_of_mem _ hb, hint, ho⟩

theorem exists_mem_describeAll {ss : List Spot} {a : Spot} (h : a ∈ ss) :
    ∃ hint, describe settings.sampleLength s hint a ∈ (describeAll settings s memory ss).1 := by
  induction ss generalizing memory with
  | nil => cases h
  | cons b ss ih =>
      rcases List.mem_cons.mp h with rfl | h
      · exact ⟨_, List.mem_cons_self⟩
      · obtain ⟨hint, hmem⟩ := ih h
        exact ⟨hint, List.mem_cons_of_mem _ hmem⟩

theorem scan_nodup_ranges :
    ((scan table attributes settings memory s).1.map (·.range)).Nodup := by
  have hcovers : List.Forall₂ (Covers s) ((spots table attributes s).map Spot.span)
      (scan table attributes settings memory s).1 :=
    covers_describeAll settings memory (List.Subset.refl _)
  rw [ranges_of_covers hcovers, List.map_map]
  refine List.pairwise_map.mpr ((spots_pairwise table attributes s).imp fun {a b} h heq => ?_)
  have hbefore := s.index.rangeOf_startsBefore a.stop b.stop h.1
  dsimp only [Function.comp, Spot.span] at heq
  rw [heq] at hbefore
  rcases hbefore with h | ⟨-, h⟩
  · exact Nat.lt_irrefl _ h
  · exact Nat.lt_irrefl _ h

theorem Covers.definition {span : Nat × Nat} {o : Occurrence} (h : Covers s span o)
    (hdefined : o.isDefinition = true) :
    ∃ d ∈ Variable.definitions (s.text.getD []), span = (d.start, d.stop) := by
  cases h.found with
  | definition token => exact ⟨_, token, rfl⟩
  | reference _ _ used => rw [hdefined] at used; cases used
  | literal _ _ used => rw [hdefined] at used; cases used

/-- Values of definitions do not overlap, so a literal lies inside of one at most. -/
theorem definition_unique {text : List Char} {d e : Variable.Defined} {span : Nat × Nat}
    (hd : d ∈ Variable.definitions text) (he : e ∈ Variable.definitions text)
    (hpos : span.1 < span.2) (hspan : Within span (d.start, d.stop))
    (hspan' : Within span (e.start, e.stop)) : d = e := by
  have hapart := List.pairwise_iff_getElem.mp (Variable.definitions_apart text)
  obtain ⟨i, hi, rfl⟩ := List.getElem_of_mem hd
  obtain ⟨j, hj, rfl⟩ := List.getElem_of_mem he
  simp only [Within] at hspan hspan'
  rcases Nat.lt_trichotomy i j with hlt | rfl | hgt
  · have := hapart i j hi hj hlt
    omega
  · rfl
  · have := hapart j i hj hi hgt
    omega

theorem Holds.unique {span : Nat × Nat} (hpos : span.1 < span.2) {o p : Occurrence}
    (ho : o ∈ (scan table attributes settings memory s).1) (hholds : Holds s span o)
    (hp : p ∈ (scan table attributes settings memory s).1) (hholds' : Holds s span p) : o = p := by
  obtain ⟨hdefined, _, hcovers, hwithin⟩ := hholds
  obtain ⟨hdefined', _, hcovers', hwithin'⟩ := hholds'
  obtain ⟨d, hd, rfl⟩ := hcovers.definition hdefined
  obtain ⟨e, he, rfl⟩ := hcovers'.definition hdefined'
  cases definition_unique hd he hpos hwithin hwithin'
  exact List.inj_on_of_nodup_map scan_nodup_ranges ho hp (hcovers.range.trans hcovers'.range.symm)

theorem existsUnique_holds {t : Token Unit} (ht : t ∈ Color.literals (s.text.getD []))
    {a : Spot} (ha : a ∈ definitionSpots attributes s)
    (hmeet : a.start < t.stop ∧ t.start < a.stop) :
    ∃! o, o ∈ (scan table attributes settings memory s).1 ∧ Holds s t.span o := by
  have hspot : a ∈ spots table attributes s := by
    rw [← spots_definitions table] at ha
    exact (List.mem_filter.mp ha).1
  have hwithin : Within t.span a.span := by
    obtain ⟨d, hd, rfl⟩ := List.mem_map.mp ha
    refine (Variable.apart_or_within_of_mem_literals hd ht).resolve_left fun hapart => ?_
    simp only [Apart, Token.span] at hapart hmeet
    omega
  obtain ⟨hint, hmem⟩ : ∃ hint, describe settings.sampleLength s hint a ∈
      (scan table attributes settings memory s).1 := exists_mem_describeAll hspot
  have hholds : Holds s t.span (describe settings.sampleLength s hint a) :=
    ⟨(isUsage_of_mem_definitionSpots ha).2, a.span, covers_definition ha _ hint, hwithin⟩
  refine ⟨_, ⟨hmem, hholds⟩, fun p hp => ?_⟩
  exact Holds.unique (Color.start_lt_stop_of_mem_literals ht) hp.1 hp.2 hmem hholds

theorem exists_shows {text : List Char} (htext : s.text = some text) {t : Token Unit}
    (ht : t ∈ Color.literals text)
    (hapart : overlapsAny (definedSpans attributes s) t.start t.stop = false) :
    ∃ o ∈ (scan table attributes settings memory s).1, Shows s t o := by
  let a : Spot := ⟨t.start, t.stop, .literal, String.ofList t.text, none, none, false⟩
  have ha : a ∈ literalSpots (definedSpans attributes s) text :=
    List.mem_map_of_mem (List.mem_filter.mpr ⟨ht, by rw [hapart]; rfl⟩)
  have hspot : a ∈ spots table attributes s := (mem_spots htext).mpr (.inr (.inr ha))
  obtain ⟨hint, hmem⟩ : ∃ hint, describe settings.sampleLength s hint a ∈
      (scan table attributes settings memory s).1 := exists_mem_describeAll hspot
  exact ⟨_, hmem, rfl, rfl, covers_literal htext ha _ hint⟩

/-- An occurrence of a literal reports one that overlaps no definition. -/
theorem exists_shown {o : Occurrence} (ho : o ∈ (scan table attributes settings memory s).1)
    (hkind : o.kind = .literal) :
    ∃ t ∈ Color.literals (s.text.getD []), Shows s t o ∧
      ∀ d ∈ Variable.definitions (s.text.getD []), Apart t.span (d.start, d.stop) := by
  obtain ⟨a, ha, hint, rfl⟩ := mem_describeAll ho
  cases htext : s.text with
  | none =>
      rw [spots, htext] at ha
      cases ha
  | some text =>
      rcases (mem_spots htext).mp ha with ha | ha | ha
      · obtain ⟨d, -, rfl⟩ := List.mem_map.mp ha
        cases hkind
      · obtain ⟨r, -, d, -, rfl⟩ := mem_referenceSpots.mp ha
        cases hkind
      · obtain ⟨t, ht, rfl⟩ := List.mem_map.mp ha
        refine ⟨t, (List.mem_filter.mp ht).1, ⟨rfl, rfl, covers_literal htext ha _ hint⟩, ?_⟩
        intro d hd
        obtain ⟨b, hb, hspan⟩ : ∃ b ∈ definitionSpots attributes s,
            b.span = (d.start, d.stop) := by
          rw [← htext] at hd
          exact ⟨_, List.mem_map_of_mem hd, rfl⟩
        rw [← hspan]
        exact (definition_apart_literal hb ha).symm

/-- No literal of a text is lost: it is reported, or else it lies inside the value of exactly one
definition that is reported. What is reported as a literal is one that overlaps no definition. -/
theorem scan_literals (table : Variable.Table) (attributes : List (List Char))
    (settings : Context.Settings) (memory : Context.Memory) (s : Source) :
    let os := (scan table attributes settings memory s).1
    (∀ t ∈ Color.literals (s.text.getD []),
      (∃ o ∈ os, Shows s t o) ∨ ∃! o, o ∈ os ∧ Holds s t.span o) ∧
    ∀ o ∈ os, o.kind = .literal →
      ∃ t ∈ Color.literals (s.text.getD []), Shows s t o ∧
        ∀ d ∈ Variable.definitions (s.text.getD []), Apart t.span (d.start, d.stop) := by
  refine ⟨fun t ht => ?_, fun o ho hkind => exists_shown ho hkind⟩
  cases htext : s.text with
  | none =>
      rw [htext] at ht
      rcases Color.mem_literals.mp ht with ht | ht | ht
      · cases ht
      · cases ht
      · cases ht
  | some text =>
      cases hoverlap : overlapsAny (definedSpans attributes s) t.start t.stop with
      | false =>
          rw [htext] at ht
          exact .inl (exists_shows htext ht hoverlap)
      | true =>
          obtain ⟨_, hspan, hmeet⟩ :=
            (overlapsAny_eq_true_iff (definedSpans_sorted attributes s)).mp hoverlap
          obtain ⟨a, ha, rfl⟩ := List.mem_map.mp hspan
          exact .inr (existsUnique_holds ht ha hmeet)

end Occurrence

end ColorCensus
