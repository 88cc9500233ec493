import ColorCensus.Proofs.Overlap
import ColorCensus.Proofs.Spots
import Mathlib.Data.Int.Order.Basic
import Mathlib.Data.List.Forall2
import Mathlib.Data.Nat.Basic

/-!
# No two occurrences overlap

The spots of a file come from three passes over its text. Each pass gives spots
that are apart. A definition and a reference are apart, and so are a reference
and a literal, because of what the text around them looks like. A literal and a
definition need not be: the scanner drops the literals that overlap the value
of a definition, and the test that it uses finds all of them.

Spots that are apart, not empty and sorted by their start come one behind the
other. This is the only place where the order of the occurrences comes from.
-/

namespace ColorCensus

open Text

namespace Occurrence

/-- What stands in the text where an occurrence was found: the name of a
variable that is used there, and otherwise the value. -/
def spelling (o : Occurrence) : Option String := if o.isUsage then o.name else some o.value

/-- The token of a text that an occurrence was found at. -/
inductive FoundAt (text : List Char) (o : Occurrence) : Nat × Nat → Prop
  | definition {d : Variable.Defined} (token : d ∈ Variable.definitions text)
      (kind : o.kind = .var) (defined : o.isDefinition = true) :
      FoundAt text o (d.start, d.stop)
  | reference {r : Variable.Referred} (token : r ∈ Variable.references text)
      (kind : o.kind = .var) (used : o.isDefinition = false) :
      FoundAt text o (r.start, r.stop)
  | literal {t : Token Unit} (token : t ∈ Color.literals text)
      (kind : o.kind = .literal) (used : o.isDefinition = false) :
      FoundAt text o t.span

/-- An occurrence reports a span of a file. -/
structure Covers (s : Source) (span : Nat × Nat) (o : Occurrence) : Prop where
  found : o.FoundAt (s.text.getD []) span
  nonempty : span.1 < span.2
  inside : span.2 ≤ (s.text.getD []).length
  range : o.range = s.index.rangeOf span.1 span.2
  spelled : o.spelling = some (String.ofList (slice (s.text.getD []) span))

variable {table : Variable.Table} {attributes : List (List Char)} {s : Source}
  {text : List Char}

def Spot.span (a : Spot) : Nat × Nat := (a.start, a.stop)

/-! ## Each spot by itself -/

theorem covers_definition {a : Spot} (ha : a ∈ definitionSpots attributes s) (length : Int)
    (hint : Context.Hint) : Covers s a.span (describe length s hint a) := by
  obtain ⟨d, hd, rfl⟩ := List.mem_map.mp ha
  have hstands := Variable.stands_of_mem_definitions hd
  have hinside := hstands.standsAt.le_length hstands.value.ne_nil
  refine ⟨.definition hd rfl rfl, hstands.start_lt_stop, hinside, rfl, ?_⟩
  have hslice : slice (s.text.getD []) (d.start, d.stop) = d.value := hstands.standsAt.slice_eq
  rw [Spot.span, hslice]
  rfl

theorem covers_reference (htext : s.text = some text) {a : Spot}
    (ha : a ∈ referenceSpots table text) (length : Int) (hint : Context.Hint) :
    Covers s a.span (describe length s hint a) := by
  obtain ⟨r, hr, d, -, rfl⟩ := mem_referenceSpots.mp ha
  have hstands := Variable.stands_of_mem_references hr
  have hslice : slice text (r.start, r.stop) = r.name := hstands.standsAt.slice_eq
  have hgetD : s.text.getD [] = text := by rw [htext, Option.getD_some]
  rw [← hgetD] at hr hslice
  refine ⟨.reference hr rfl rfl, hstands.start_lt_stop, ?_, rfl, ?_⟩
  · rw [hgetD]
    exact hstands.standsAt.le_length hstands.name_ne_nil
  · rw [Spot.span, hslice]
    rfl

theorem covers_literal (htext : s.text = some text) {spans : Array (Nat × Nat)} {a : Spot}
    (ha : a ∈ literalSpots spans text) (length : Int) (hint : Context.Hint) :
    Covers s a.span (describe length s hint a) := by
  obtain ⟨t, ht, rfl⟩ := List.mem_map.mp ha
  have hmem : t ∈ Color.literals text := (List.mem_filter.mp ht).1
  obtain ⟨hstands, hliteral⟩ := Color.standsAt_of_mem_literals hmem
  have hslice : slice text t.span = t.text := hstands.slice_eq
  have hgetD : s.text.getD [] = text := by rw [htext, Option.getD_some]
  have hpos := Color.start_lt_stop_of_mem_literals hmem
  rw [← hgetD] at hmem hslice
  refine ⟨.literal hmem rfl rfl, hpos, ?_, rfl, ?_⟩
  · rw [hgetD]
    exact hstands.le_length hliteral.ne_nil
  · exact congrArg (fun cs => some (String.ofList cs)) hslice.symm

theorem covers_of_mem_spots {a : Spot} (ha : a ∈ spots table attributes s) (length : Int)
    (hint : Context.Hint) : Covers s a.span (describe length s hint a) := by
  cases htext : s.text with
  | none =>
      rw [spots, htext] at ha
      cases ha
  | some text =>
      rcases (mem_spots htext).mp ha with ha | ha | ha
      · exact covers_definition ha length hint
      · exact covers_reference htext ha length hint
      · exact covers_literal htext ha length hint

theorem start_lt_stop_of_mem_spots {a : Spot} (ha : a ∈ spots table attributes s) :
    a.start < a.stop := (covers_of_mem_spots ha 0 ⟨none, none⟩).nonempty

/-! ## Spots are apart -/

theorem definitionSpots_apart (attributes : List (List Char)) (s : Source) :
    (definitionSpots attributes s).Pairwise fun a b => a.stop ≤ b.start :=
  List.pairwise_map.mpr (Variable.definitions_apart _)

theorem referenceSpots_apart (table : Variable.Table) (text : List Char) :
    (referenceSpots table text).Pairwise fun a b => a.stop ≤ b.start := by
  refine List.pairwise_filterMap.mpr ((Variable.references_apart text).imp ?_)
  intro q r hqr a ha b hb
  obtain ⟨_, -, rfl⟩ := Option.map_eq_some_iff.mp ha
  obtain ⟨_, -, rfl⟩ := Option.map_eq_some_iff.mp hb
  exact hqr

theorem literalSpots_apart (spans : Array (Nat × Nat)) (text : List Char) :
    (literalSpots spans text).Pairwise fun a b => Apart a.span b.span :=
  List.pairwise_map.mpr ((Color.literals_pairwise_apart text).filter _)

theorem definitionSpots_start_lt_stop {a : Spot} (ha : a ∈ definitionSpots attributes s) :
    a.start < a.stop := by
  obtain ⟨d, hd, rfl⟩ := List.mem_map.mp ha
  exact (Variable.stands_of_mem_definitions hd).start_lt_stop

theorem definedSpans_sorted (attributes : List (List Char)) (s : Source) :
    ((definitionSpots attributes s).map Spot.span).Pairwise fun p q => p.1 ≤ q.1 ∧ p.2 ≤ q.2 := by
  refine List.pairwise_map.mpr ?_
  refine (List.Pairwise.and_mem.mp (definitionSpots_apart attributes s)).imp ?_
  rintro a b ⟨ha, hb, hab⟩
  have := definitionSpots_start_lt_stop ha
  have := definitionSpots_start_lt_stop hb
  simp only [Spot.span]
  omega

/-- On spans of which neither the starts nor the ends decrease, the search for one span answers as a
look at every span does, whatever span is asked about; and the definitions of a file have such
spans. -/
theorem overlapsAny_exact {α : Type} [LinearOrder α] :
    (∀ spans : List (α × α), Staggered spans → ∀ start stop,
      overlapsAny spans.toArray start stop = true ↔ ∃ s ∈ spans, s.1 < stop ∧ start < s.2) ∧
    ∀ attributes s, Staggered (definedSpans attributes s).toList := by
  constructor
  · intro spans hspans start stop
    exact overlapsAny_eq_true_iff hspans.sorted
  · intro attributes s
    have hsorted := definedSpans_sorted attributes s
    exact ⟨List.pairwise_map.mpr (hsorted.imp And.left),
      List.pairwise_map.mpr (hsorted.imp And.right)⟩

/-- Spans of which some are empty, some touch and two are equal. -/
def crowded : List (Int × Int) := [(-4, -1), (0, 0), (0, 3), (0, 3), (3, 5), (7, 7), (8, 9)]

theorem crowded_staggered : Staggered crowded := ⟨by decide, by decide⟩

/-- A span that reaches over several others meets one of them; one that touches its neighbours
meets none; an empty span inside another one does meet it. -/
theorem overlapsAny_exact_crowded :
    Staggered crowded ∧ overlapsAny crowded.toArray (-2) 8 = true ∧
      overlapsAny crowded.toArray 5 7 = false ∧ overlapsAny crowded.toArray 4 4 = true := by
  have hexact := overlapsAny_exact.1 crowded crowded_staggered
  refine ⟨crowded_staggered, (hexact (-2) 8).mpr ⟨(3, 5), by decide, by decide⟩, ?_,
    (hexact 4 4).mpr ⟨(3, 5), by decide, by decide⟩⟩
  rw [Bool.eq_false_iff, ne_eq, hexact]
  decide

theorem definition_apart_literal {a b : Spot} (ha : a ∈ definitionSpots attributes s)
    (hb : b ∈ literalSpots (definedSpans attributes s) text) : Apart a.span b.span := by
  obtain ⟨t, ht, rfl⟩ := List.mem_map.mp hb
  have hnone : overlapsAny (definedSpans attributes s) t.start t.stop = false := by
    rw [← Bool.not_eq_true']
    exact (List.mem_filter.mp ht).2
  refine Classical.byContradiction fun hmeet => ?_
  have hsome : overlapsAny (definedSpans attributes s) t.start t.stop = true := by
    refine (overlapsAny_eq_true_iff (definedSpans_sorted attributes s)).mpr
      ⟨a.span, List.mem_map_of_mem ha, ?_⟩
    simp only [Apart, Spot.span] at hmeet ⊢
    omega
  exact Bool.noConfusion (hnone.symm.trans hsome)

theorem definition_apart_reference (htext : s.text = some text) {a b : Spot}
    (ha : a ∈ definitionSpots attributes s) (hb : b ∈ referenceSpots table text) :
    Apart a.span b.span := by
  obtain ⟨d, hd, rfl⟩ := List.mem_map.mp ha
  obtain ⟨r, hr, _, -, rfl⟩ := mem_referenceSpots.mp hb
  rw [htext] at hd
  exact (Variable.stands_of_mem_definitions hd).apart_referred
    (Variable.stands_of_mem_references hr)

theorem reference_apart_literal {spans : Array (Nat × Nat)} {a b : Spot}
    (ha : a ∈ referenceSpots table text) (hb : b ∈ literalSpots spans text) :
    Apart a.span b.span := by
  obtain ⟨r, hr, _, -, rfl⟩ := mem_referenceSpots.mp ha
  obtain ⟨t, ht, rfl⟩ := List.mem_map.mp hb
  obtain ⟨hstands, hliteral⟩ := Color.standsAt_of_mem_literals (List.mem_filter.mp ht).1
  exact ((Variable.stands_of_mem_references hr).apart_literal hliteral hstands).symm

/-- Spots come one behind the other: they are apart from one another, not empty,
and sorted by their start. -/
theorem spots_pairwise (table : Variable.Table) (attributes : List (List Char)) (s : Source) :
    (spots table attributes s).Pairwise fun a b => a.start < b.start ∧ a.stop ≤ b.start := by
  cases htext : s.text with
  | none =>
      rw [spots, htext]
      exact .nil
  | some text =>
      have hapart : (spots table attributes s).Pairwise fun a b => Apart a.span b.span := by
        rw [spots_eq table attributes htext, (List.mergeSort_perm _ _).pairwise_iff Apart.symm]
        refine List.pairwise_append.mpr ⟨List.pairwise_append.mpr ⟨?_, ?_, ?_⟩, ?_, ?_⟩
        · exact (definitionSpots_apart attributes s).imp .inl
        · exact (referenceSpots_apart table text).imp .inl
        · exact fun a ha b hb => definition_apart_reference htext ha hb
        · exact literalSpots_apart _ text
        · intro a ha b hb
          rcases List.mem_append.mp ha with ha | ha
          · exact definition_apart_literal ha hb
          · exact reference_apart_literal ha hb
      have hsorted : (spots table attributes s).Pairwise fun a b => a.start ≤ b.start := by
        rw [spots_eq table attributes htext]
        exact mergeSort_key_sorted Spot.start _
      refine (List.Pairwise.and_mem.mp (hapart.and hsorted)).imp ?_
      rintro a b ⟨ha, hb, hab, hle⟩
      have hpos := start_lt_stop_of_mem_spots ha
      have hpos' := start_lt_stop_of_mem_spots hb
      simp only [Apart, Spot.span] at hab
      omega

/-! ## The occurrences of a file -/

/-- Each spot is described once and covers its span, whatever is remembered. -/
theorem covers_describeAll (settings : Context.Settings) (memory : Context.Memory)
    {ss : List Spot} (h : ss ⊆ spots table attributes s) :
    List.Forall₂ (Covers s) (ss.map Spot.span) (describeAll settings s memory ss).1 := by
  induction ss generalizing memory with
  | nil => exact .nil
  | cons a ss ih =>
      obtain ⟨ha, hss⟩ := List.cons_subset.mp h
      exact .cons (covers_of_mem_spots ha _ _) (ih _ hss)

theorem ranges_of_covers {spans : List (Nat × Nat)} {os : List Occurrence}
    (h : List.Forall₂ (Covers s) spans os) :
    os.map (·.range) = spans.map fun p => s.index.rangeOf p.1 p.2 := by
  induction h with
  | nil => rfl
  | cons h _ ih => rw [List.map_cons, List.map_cons, h.range, ih]

theorem countP_spans_le {spans : List (Nat × Nat)}
    (h : spans.Pairwise fun p q => p.1 < q.1 ∧ p.2 ≤ q.1) (offset : Nat) :
    spans.countP (fun p => decide (p.1 ≤ offset ∧ offset < p.2)) ≤ 1 := by
  induction spans with
  | nil => exact Nat.zero_le _
  | cons p spans ih =>
      obtain ⟨hp, hspans⟩ := List.pairwise_cons.mp h
      have htail := ih hspans
      rw [List.countP_cons]
      by_cases hoffset : p.1 ≤ offset ∧ offset < p.2
      · have hnone : spans.countP (fun p => decide (p.1 ≤ offset ∧ offset < p.2)) = 0 := by
          rw [List.countP_eq_zero]
          intro q hq
          have := (hp q hq).2
          rw [decide_eq_true_eq]
          omega
        exact Nat.le_of_eq (by rw [hnone, if_pos (decide_eq_true hoffset)])
      · rw [if_neg (by rwa [decide_eq_true_eq])]
        exact htail

/-- The occurrences of a file cover spans of its text that are not empty and
come one behind the other. So they stand in the order of the text, and no
character of it belongs to two of them. -/
theorem scan_apart (table : Variable.Table) (attributes : List (List Char))
    (settings : Context.Settings) (memory : Context.Memory) (s : Source) :
    let os := (scan table attributes settings memory s).1
    ∃ spans : List (Nat × Nat), List.Forall₂ (Covers s) spans os ∧
      (spans.Pairwise fun p q => p.1 < q.1 ∧ p.2 ≤ q.1) ∧
      (os.map (·.range)).Pairwise Range.StartsBefore ∧
      ∀ offset, spans.countP (fun p => decide (p.1 ≤ offset ∧ offset < p.2)) ≤ 1 := by
  intro os
  have hcovers : List.Forall₂ (Covers s) ((spots table attributes s).map Spot.span) os :=
    covers_describeAll settings memory (List.Subset.refl _)
  have hspans : ((spots table attributes s).map Spot.span).Pairwise fun p q =>
      p.1 < q.1 ∧ p.2 ≤ q.1 :=
    List.pairwise_map.mpr (spots_pairwise table attributes s)
  refine ⟨_, hcovers, hspans, ?_, countP_spans_le hspans⟩
  rw [ranges_of_covers hcovers]
  refine List.pairwise_map.mpr (hspans.imp ?_)
  exact fun h => s.index.rangeOf_startsBefore _ _ h.1

end Occurrence

end ColorCensus
