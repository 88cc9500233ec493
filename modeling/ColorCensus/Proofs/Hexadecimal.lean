import ColorCensus.Proofs.Literals

/-!
# Where hexadecimal colors stand

The walk over a text takes a hexadecimal color where one could start and goes on behind it, so a
color that starts inside another one would be lost. None does: a color starts with a `#`, and behind
its own `#` a color has digits only. So the hexadecimal colors of a text stand exactly where the
recogniser answers at all (`exists_hexToken_iff`), and that can be said of the text around each
place alone (`HexAt`).
-/

namespace ColorCensus.Color

open Text

/-- The word characters right behind a place, as far as they go. -/
def wordBehind (text : List Char) (p : Nat) : List Char := (text.drop (p + 1)).takeWhile isWord

/-- A hexadecimal color stands at a place: a `#`, with no word character and no `&` in front of it,
and behind it three, four, six or eight hexadecimal digits and no other word character. -/
structure HexAt (text : List Char) (p : Nat) : Prop where
  hash : text[p]? = some '#'
  front : ∀ c, 0 < p → text[p - 1]? = some c → isWord c = false ∧ c ≠ '&'
  digits : ∀ c ∈ wordBehind text p, isHexDigit c = true
  count : (wordBehind text p).length ∈ [3, 4, 6, 8]

variable {before : Option Char} {cs left done rest text : List Char} {value : Unit}

/-! ## One place -/

theorem isHexLength_iff {n : Nat} : isHexLength n = true ↔ n ∈ [3, 4, 6, 8] := by
  simp [isHexLength, or_assoc]

theorem dropHex?_eq_some_iff :
    dropHex? cs = some left ↔ ∃ rest, cs = '#' :: rest ∧ left = rest.dropWhile isWord ∧
      (∀ c ∈ rest.takeWhile isWord, isHexDigit c = true) ∧
      (rest.takeWhile isWord).length ∈ [3, 4, 6, 8] := by
  unfold dropHex?
  rw [Option.bind_eq_bind, Option.bind_eq_some_iff]
  refine exists_congr fun rest => and_congr dropLiteral?_eq_some_iff ?_
  rw [Option.ite_none_right_eq_some, Bool.and_eq_true, List.all_eq_true, isHexLength_iff,
    and_comm, Option.pure_def, Option.some.injEq, eq_comm]

theorem hex_eq_some_iff :
    hex before cs = some (value, left) ↔
      (∀ c ∈ before, isWord c = false ∧ c ≠ '&') ∧ dropHex? cs = some left := by
  rw [hex, Option.ite_none_left_eq_some]
  refine and_congr ?_ ?_
  · cases before with
    | none => simp
    | some c => simp
  · rw [Option.map_eq_some_iff]
    constructor
    · rintro ⟨_, h, heq⟩
      cases heq
      exact h
    · exact fun h => ⟨left, h, rfl⟩

theorem wordBehind_append (done more : List Char) :
    wordBehind (done ++ '#' :: more) done.length = more.takeWhile isWord := by
  rw [wordBehind, List.drop_length_add_append]
  rfl

theorem front_iff :
    (∀ c ∈ done.getLast?, isWord c = false ∧ c ≠ '&') ↔
      ∀ c, 0 < done.length → (done ++ rest)[done.length - 1]? = some c →
        isWord c = false ∧ c ≠ '&' := by
  cases done with
  | nil => simp
  | cons d done =>
      have hlast : (d :: done).length - 1 < (d :: done).length :=
        Nat.sub_lt (Nat.succ_pos done.length) Nat.one_pos
      rw [List.getElem?_append_left hlast, ← List.getLast?_eq_getElem?]
      exact ⟨fun h c _ hc => h c hc, fun h c hc => h c (Nat.succ_pos _) hc⟩

theorem hexAt_iff :
    HexAt (done ++ rest) done.length ↔ ∃ left, hex done.getLast? rest = some ((), left) := by
  simp only [hex_eq_some_iff, dropHex?_eq_some_iff]
  constructor
  · rintro ⟨hhash, hfront, hdigits, hcount⟩
    rw [List.getElem?_append_right (Nat.le_refl _), Nat.sub_self, ← List.head?_eq_getElem?,
      List.head?_eq_some_iff] at hhash
    obtain ⟨more, rfl⟩ := hhash
    rw [wordBehind_append] at hdigits hcount
    exact ⟨_, front_iff.mpr hfront, more, rfl, rfl, hdigits, hcount⟩
  · rintro ⟨left, hfront, more, rfl, -, hdigits, hcount⟩
    constructor
    case hash =>
      rw [List.getElem?_append_right (Nat.le_refl _), Nat.sub_self, List.getElem?_cons_zero]
    case front => exact front_iff.mp hfront
    case digits => rwa [wordBehind_append]
    case count => rwa [wordBehind_append]

/-! ## The whole text -/

theorem hexToken_text {t : Token Unit} (ht : t ∈ tokens hex text) :
    t.text = '#' :: wordBehind text t.start := by
  obtain ⟨done, rest, left, rfl, hstart, hr, htext⟩ := taken_of_mem_tokens ht
  obtain ⟨-, hdrop⟩ := hex_eq_some_iff.mp hr
  obtain ⟨more, rfl, rfl, -, -⟩ := dropHex?_eq_some_iff.mp hdrop
  have hsplit : '#' :: more = ('#' :: more.takeWhile isWord) ++ more.dropWhile isWord := by
    rw [List.cons_append, List.takeWhile_append_dropWhile]
  have htaken : ('#' :: more).take (consumed ('#' :: more) (more.dropWhile isWord)) =
      '#' :: more.takeWhile isWord := by
    rw [hsplit, consumed_append, List.take_left]
  rw [htext, htaken, hstart, wordBehind_append]

/-- Behind its first character a color has no `#`, so two that overlap start at the same place. -/
theorem IsHex.solid {xs ys : List Char} {a b : Nat} (hx : IsHex xs) (hy : IsHex ys)
    (standsX : StandsAt xs text a) (standsY : StandsAt ys text b) :
    Apart (a, a + xs.length) (b, b + ys.length) ∨ a = b := by
  obtain ⟨run, rfl, hrun⟩ := hx
  obtain ⟨digits, rfl, hdigits⟩ := hy
  have hhash : ∀ run : List Char, (∀ c ∈ run, isHexDigit c = true) → '#' ∉ run :=
    fun run h hmem => absurd (h _ hmem) (by decide)
  have hfirst := standsX.head rfl
  have hfirst' := standsY.head rfl
  rw [← List.singleton_append] at standsX standsY
  have houtside := standsX.right.outside hfirst' (hhash run hrun)
  have houtside' := standsY.right.outside hfirst (hhash digits hdigits)
  simp only [Apart, List.length_cons, List.length_nil] at houtside houtside' ⊢
  omega

/-- No color is lost to another one: the one that is under way at its place starts there. -/
theorem exists_hexToken_iff {p : Nat} :
    (∃ t ∈ tokens hex text, t.start = p) ↔ HexAt text p := by
  constructor
  · rintro ⟨t, ht, rfl⟩
    obtain ⟨done, rest, left, rfl, hstart, hr, -⟩ := taken_of_mem_tokens ht
    rw [hstart]
    exact hexAt_iff.mpr ⟨left, hr⟩
  · intro h
    obtain ⟨hp, -⟩ := List.getElem?_eq_some_iff.mp h.hash
    obtain ⟨done, rest, rfl, rfl⟩ : ∃ done rest, text = done ++ rest ∧ done.length = p :=
      ⟨text.take p, text.drop p, (List.take_append_drop p text).symm,
        List.length_take_of_le (Nat.le_of_lt hp)⟩
    obtain ⟨left, hr⟩ := hexAt_iff.mp h
    obtain ⟨piece, rfl, hpiece⟩ := hex_shape hr
    exact ⟨_, exists_token_at (fun _ _ _ _ => hex_shape) (fun _ _ _ _ _ => IsHex.solid)
      (IsLiteral.ne_nil (.inl hpiece)) hr, rfl⟩

theorem mem_literals_hash {t : Token Unit} :
    t ∈ literals text ∧ t.text.head? = some '#' ↔ t ∈ tokens hex text := by
  constructor
  · rintro ⟨ht, hhash⟩
    rcases mem_literals.mp ht with ht | ht | ht
    · exact ht
    · obtain ⟨-, hshape⟩ := standsAt_of_mem_tokens (fun _ _ _ _ => rgb_shape) ht
      rw [hshape.head? (by decide)] at hhash
      cases hhash
    · obtain ⟨-, hshape⟩ := standsAt_of_mem_tokens (fun _ _ _ _ => hsl_shape) ht
      rw [hshape.head? (by decide)] at hhash
      cases hhash
  · intro ht
    rw [hexToken_text ht]
    exact ⟨mem_literals.mpr (.inl ht), rfl⟩

/-- Literals come in the order of where they start. Two of them are apart and none is empty, so
no two start at one place. -/
theorem literals_pairwise_start (text : List Char) :
    (literals text).Pairwise fun t u => t.start < u.start := by
  have hsorted : (literals text).Pairwise fun t u => t.start ≤ u.start := by
    refine (List.pairwise_mergeSort ?_ ?_ _).imp fun {t u} h => ?_
    · intro t u v
      simp only [Bool.or_eq_true, Bool.and_eq_true, decide_eq_true_eq, beq_iff_eq]
      omega
    · intro t u
      simp only [Bool.or_eq_true, Bool.and_eq_true, decide_eq_true_eq, beq_iff_eq]
      omega
    · simp only [Bool.or_eq_true, Bool.and_eq_true, decide_eq_true_eq, beq_iff_eq] at h
      omega
  have hplaces := List.Pairwise.and_mem.mp (hsorted.and (literals_pairwise_apart text))
  refine hplaces.imp fun {t u} ⟨ht, hu, hle, hapart⟩ => ?_
  have hpos := start_lt_stop_of_mem_literals ht
  have hpos' := start_lt_stop_of_mem_literals hu
  simp only [Apart, Token.span] at hapart
  omega

/-- The hexadecimal colors of a text come in the order of their places, stand exactly where the
characters around a place say so, and each goes on as far as there are word characters. -/
theorem literals_hex (text : List Char) :
    let hexes := (literals text).filter fun t => t.text.head? == some '#'
    (hexes.map (·.start)).Pairwise (· < ·) ∧ (∀ p, p ∈ hexes.map (·.start) ↔ HexAt text p) ∧
      ∀ t ∈ hexes, t.text = '#' :: wordBehind text t.start := by
  intro hexes
  have hmem : ∀ t, t ∈ hexes ↔ t ∈ tokens hex text := by
    intro t
    rw [List.mem_filter, beq_iff_eq]
    exact mem_literals_hash
  refine ⟨?_, fun p => ?_, fun t ht => hexToken_text ((hmem t).mp ht)⟩
  · exact List.pairwise_map.mpr ((literals_pairwise_start text).filter _)
  · rw [← exists_hexToken_iff, List.mem_map]
    exact exists_congr fun t => and_congr_left' (hmem t)

end ColorCensus.Color
