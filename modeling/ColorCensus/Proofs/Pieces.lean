import ColorCensus.Proofs.Tokens
import ColorCensus.Text.Blank

/-!
# Pieces of a text

A piece stands at an offset of a text if the text goes on with it there. That a
piece holds no character of some kind keeps it away from every place with such
a character (`StandsAt.outside`), and this is how two pieces are told apart
without looking at the rest of the text.

`Takes` is what a recogniser leaves to be known of its way through a text: what
it took was of some class. The pieces of recognisers all take in this sense, and
one after the other they take together (`Takes.trans`), so a grammar is passed
through by naming its pieces in order.
-/

namespace ColorCensus.Text

/-! ## Standing at an offset -/

/-- The text goes on with a piece at an offset. -/
def StandsAt (piece text : List Char) (start : Nat) : Prop := piece <+: text.drop start

theorem standsAt_append (before piece rest : List Char) :
    StandsAt piece (before ++ (piece ++ rest)) before.length := by
  rw [StandsAt, List.drop_left]
  exact List.prefix_append _ _

namespace StandsAt

variable {piece xs ys text : List Char} {start : Nat}

theorem left (h : StandsAt (xs ++ ys) text start) : StandsAt xs text start :=
  (List.prefix_append xs ys).trans h

theorem right (h : StandsAt (xs ++ ys) text start) : StandsAt ys text (start + xs.length) := by
  obtain ⟨rest, hrest⟩ := h
  rw [StandsAt, ← List.drop_drop, ← hrest, List.append_assoc, List.drop_left]
  exact List.prefix_append _ _

theorem getElem? (h : StandsAt piece text start) {i : Nat} (hi : i < piece.length) :
    text[start + i]? = piece[i]? := by
  obtain ⟨rest, hrest⟩ := h
  rw [← List.getElem?_drop, ← hrest, List.getElem?_append_left hi]

theorem exists_mem (h : StandsAt piece text start) {i : Nat} (hi : start ≤ i)
    (hstop : i < start + piece.length) : ∃ c ∈ piece, text[i]? = some c := by
  obtain ⟨k, rfl⟩ := Nat.exists_eq_add_of_le hi
  have hk : k < piece.length := by omega
  exact ⟨piece[k], List.getElem_mem hk, by rw [h.getElem? hk, List.getElem?_eq_getElem hk]⟩

theorem outside (h : StandsAt piece text start) {i : Nat} {c : Char} (hc : text[i]? = some c)
    (hpiece : c ∉ piece) : i < start ∨ start + piece.length ≤ i := by
  by_cases hi : start ≤ i ∧ i < start + piece.length
  · obtain ⟨d, hd, htext⟩ := h.exists_mem hi.1 hi.2
    cases hc.symm.trans htext
    exact absurd hd hpiece
  · omega

theorem le_length (h : StandsAt piece text start) (hne : piece ≠ []) :
    start + piece.length ≤ text.length := by
  have hlength := h.length_le
  have hpos := List.length_pos_iff.mpr hne
  rw [List.length_drop] at hlength
  omega

theorem head (h : StandsAt piece text start) {c : Char} (hc : piece.head? = some c) :
    text[start]? = some c := by
  obtain ⟨rest, rfl⟩ := List.head?_eq_some_iff.mp hc
  exact h.getElem? (Nat.succ_pos _)

end StandsAt

/-! ## Spans -/

/-- Two half-open spans have no place in common. -/
def Apart (p q : Nat × Nat) : Prop := p.2 ≤ q.1 ∨ q.2 ≤ p.1

theorem Apart.symm {p q : Nat × Nat} (h : Apart p q) : Apart q p := Or.symm h

/-- Pieces are apart if the first character of either is not in the other. -/
theorem StandsAt.apart {xs ys text : List Char} {a b : Nat} {x y : Char}
    (hx : StandsAt xs text a) (hy : StandsAt ys text b) (headX : xs.head? = some x)
    (headY : ys.head? = some y) (hxy : x ∉ ys) (hyx : y ∉ xs) :
    Apart (a, a + xs.length) (b, b + ys.length) := by
  have h := hy.outside (hx.head headX) hxy
  have h' := hx.outside (hy.head headY) hyx
  unfold Apart
  omega

def Token.span {α : Type} (t : Token α) : Nat × Nat := (t.start, t.stop)

/-- The text of a span. -/
def slice (text : List Char) (span : Nat × Nat) : List Char :=
  (text.drop span.1).take (span.2 - span.1)

theorem StandsAt.slice_eq {piece text : List Char} {start : Nat} (h : StandsAt piece text start) :
    slice text (start, start + piece.length) = piece := by
  rw [slice, Nat.add_sub_cancel_left]
  exact (List.prefix_iff_eq_take.mp h).symm

theorem slice_split {text : List Char} {a b i : Nat} {c : Char} (ha : a ≤ i) (hb : i < b)
    (hc : text[i]? = some c) :
    slice text (a, b) = slice text (a, i) ++ c :: slice text (i + 1, b) := by
  obtain ⟨k, rfl⟩ := Nat.exists_eq_add_of_le ha
  obtain ⟨m, rfl⟩ := Nat.exists_eq_add_of_lt hb
  obtain ⟨hi, rfl⟩ := List.getElem?_eq_some_iff.mp hc
  have hspan : a + k + m + 1 - a = k + (m + 1) := by omega
  have hrest : a + k + m + 1 - (a + k + 1) = m := by omega
  rw [slice, slice, slice, hspan, hrest, Nat.add_sub_cancel_left, List.take_add, List.drop_drop,
    List.drop_eq_getElem_cons hi, List.take_succ_cons]

theorem slice_append {text : List Char} {a b c : Nat} (hab : a ≤ b) (hbc : b ≤ c) :
    slice text (a, b) ++ slice text (b, c) = slice text (a, c) := by
  obtain ⟨m, rfl⟩ := Nat.exists_eq_add_of_le hab
  obtain ⟨n, rfl⟩ := Nat.exists_eq_add_of_le hbc
  rw [slice, slice, slice, Nat.add_sub_cancel_left, Nat.add_sub_cancel_left, Nat.add_assoc,
    Nat.add_sub_cancel_left, List.take_add, List.drop_drop]

theorem take_append_slice {a b : Nat} (text : List Char) (hab : a ≤ b) :
    text.take a ++ slice text (a, b) = text.take b :=
  slice_append (Nat.zero_le a) hab

theorem length_slice {text : List Char} {a b : Nat} (h : b ≤ text.length) :
    (slice text (a, b)).length = b - a := by
  rw [slice, List.length_take, List.length_drop]
  omega

theorem exists_place_of_mem_slice {text : List Char} {a b : Nat} {c : Char}
    (h : c ∈ slice text (a, b)) : ∃ i, a ≤ i ∧ i < b ∧ text[i]? = some c := by
  obtain ⟨k, hk, hc⟩ := List.mem_iff_getElem.mp h
  rw [slice, List.length_take, List.length_drop] at hk
  refine ⟨a + k, Nat.le_add_right a k, by omega, ?_⟩
  rw [← hc, ← List.getElem?_drop, ← List.getElem?_take_of_lt (by omega : k < b - a)]
  exact List.getElem?_eq_getElem _

theorem tokens_pairwise_apart {α : Type} (r : Recognizer α) (text : List Char) :
    (tokens r text).Pairwise fun t u => Apart t.span u.span :=
  (tokens_pairwise r text).imp fun h => .inl h.2

theorem standsAt_of_mem_tokens {α : Type} {r : Recognizer α} {P : List Char → Prop}
    (shape : ∀ before cs value left, r before cs = some (value, left) →
      ∃ piece, cs = piece ++ left ∧ P piece)
    {text : List Char} {t : Token α} (h : t ∈ tokens r text) :
    StandsAt t.text text t.start ∧ P t.text := by
  obtain ⟨done, rest, left, rfl, hstart, hr, htext⟩ := taken_of_mem_tokens h
  obtain ⟨piece, rfl, hpiece⟩ := shape _ _ _ _ hr
  rw [consumed_append, List.take_left] at htext
  rw [htext, hstart]
  exact ⟨standsAt_append done piece left, hpiece⟩

/-- Where a recogniser would take a piece it does take it, if of two pieces that overlap none starts
before the other. -/
theorem exists_token_at {α : Type} {r : Recognizer α} {P : List Char → Prop}
    (shape : ∀ before cs value left, r before cs = some (value, left) →
      ∃ piece, cs = piece ++ left ∧ P piece)
    (solid : ∀ text xs ys a b, P xs → P ys → StandsAt xs text a → StandsAt ys text b →
      Apart (a, a + xs.length) (b, b + ys.length) ∨ a = b)
    {done piece left : List Char} {value : α} (hne : piece ≠ [])
    (h : r done.getLast? (piece ++ left) = some (value, left)) :
    ⟨done.length, piece, value⟩ ∈ tokens r (done ++ (piece ++ left)) := by
  have hlength : left.length < (piece ++ left).length := by
    have hpos := List.length_pos_iff.mpr hne
    rw [List.length_append]
    omega
  obtain ⟨t, ht, hstart, hstop⟩ := exists_token_over hlength h
  obtain ⟨hstands, ht'⟩ := standsAt_of_mem_tokens shape ht
  obtain ⟨piece', hpiece, hP⟩ := shape _ _ _ _ h
  obtain rfl := List.append_cancel_right hpiece
  have hplace : t.start = done.length := by
    rcases solid _ _ _ _ _ ht' hP hstands (standsAt_append done piece left) with hapart | heq
    · have hpos := List.length_pos_iff.mpr hne
      rw [Token.stop] at hstop
      simp only [Apart] at hapart
      omega
    · exact heq
  obtain ⟨done', rest, left', htext, hdone, hr, htaken⟩ := taken_of_mem_tokens ht
  obtain ⟨rfl, rfl⟩ := List.append_inj htext (hplace.symm.trans hdone)
  rw [h] at hr
  cases hr
  rw [consumed_append, List.take_left] at htaken
  subst htaken
  rw [← hplace]
  exact ht

/-! ## Taking characters of a class -/

/-- From one text to what is left of it, characters of a class were taken. -/
def Takes (p : Char → Bool) (cs rest : List Char) : Prop :=
  ∃ piece, cs = piece ++ rest ∧ ∀ c ∈ piece, p c = true

namespace Takes

variable {p q : Char → Bool} {cs mid rest : List Char}

theorem refl (cs : List Char) : Takes p cs cs := ⟨[], rfl, nofun⟩

theorem trans (h : Takes p cs mid) (h' : Takes p mid rest) : Takes p cs rest := by
  obtain ⟨xs, rfl, hxs⟩ := h
  obtain ⟨ys, rfl, hys⟩ := h'
  refine ⟨xs ++ ys, (List.append_assoc _ _ _).symm, fun c hc => ?_⟩
  exact (List.mem_append.mp hc).elim (hxs c) (hys c)

theorem mono (h : Takes q cs rest) (hq : ∀ c, q c = true → p c = true) : Takes p cs rest := by
  obtain ⟨piece, hcs, hpiece⟩ := h
  exact ⟨piece, hcs, fun c hc => hq c (hpiece c hc)⟩

theorem append {piece : List Char} (h : piece.all p = true) (rest : List Char) :
    Takes p (piece ++ rest) rest := ⟨piece, rfl, List.all_eq_true.mp h⟩

theorem dropWhile (p : Char → Bool) (cs : List Char) : Takes p cs (cs.dropWhile p) :=
  ⟨cs.takeWhile p, List.takeWhile_append_dropWhile.symm, List.all_eq_true.mp List.all_takeWhile⟩

end Takes

variable {p : Char → Bool} {cs rest : List Char}

theorem dropLiteral?_takes {lit : List Char} (h : dropLiteral? lit cs = some rest)
    (hlit : lit.all p = true) : Takes p cs rest := by
  rw [dropLiteral?_eq_some_iff.mp h]
  exact .append hlit rest

theorem dropOneOf?_takes {spellings : List String} (h : dropOneOf? spellings cs = some rest)
    (hspellings : ∀ s ∈ spellings, s.toList.all p = true) : Takes p cs rest := by
  obtain ⟨s, hs, hdrop⟩ := List.exists_of_findSome?_eq_some h
  exact dropLiteral?_takes hdrop (hspellings s hs)

theorem dropOne?_eq_some_iff : dropOne? p cs = some rest ↔ ∃ c, cs = c :: rest ∧ p c = true := by
  cases cs with
  | nil => exact ⟨nofun, nofun⟩
  | cons c cs =>
      rw [dropOne?, Option.ite_none_right_eq_some]
      constructor
      · rintro ⟨hc, h⟩
        cases h
        exact ⟨c, rfl, hc⟩
      · rintro ⟨c', h, hc⟩
        cases h
        exact ⟨hc, rfl⟩

theorem takeRun?_takes {run : List Char} (h : takeRun? p cs = some (run, rest)) :
    Takes p cs rest := by
  obtain ⟨-, -, rfl⟩ := takeRun?_eq_some_iff.mp h
  exact .dropWhile p cs

theorem dropRun?_takes (h : dropRun? p cs = some rest) : Takes p cs rest := by
  obtain ⟨⟨run, left⟩, hrun, rfl⟩ := Option.map_eq_some_iff.mp h
  exact takeRun?_takes hrun

theorem trimLeft_takes (cs : List Char) : Takes isBlank cs (trimLeft cs) := .dropWhile isBlank cs

theorem takeRun?_append {run : List Char} (h : takeRun? p cs = some (run, rest)) :
    cs = run ++ rest := by
  obtain ⟨-, rfl, rfl⟩ := takeRun?_eq_some_iff.mp h
  exact (List.takeWhile_append_dropWhile).symm

/-! ## In front of a character that stops the pieces

What a piece takes of a text it takes as well when a character follows that it cannot take: the
text behind is neither looked at nor touched. -/

section

variable {stop : Char}

theorem takeWhile_append_stop (h : p stop = false) (cs rest : List Char) :
    (cs ++ stop :: rest).takeWhile p = cs.takeWhile p := by
  induction cs with
  | nil => exact List.takeWhile_cons_of_neg (by simp [h])
  | cons c cs ih => rw [List.cons_append, List.takeWhile_cons, List.takeWhile_cons, ih]

theorem dropWhile_append_stop (h : p stop = false) (cs rest : List Char) :
    (cs ++ stop :: rest).dropWhile p = cs.dropWhile p ++ stop :: rest := by
  induction cs with
  | nil => exact List.dropWhile_cons_of_neg (by simp [h])
  | cons c cs ih =>
      rw [List.cons_append, List.dropWhile_cons, List.dropWhile_cons, ih]
      split
      · rfl
      · rfl

theorem trimLeft_append_stop (h : isBlank stop = false) (cs rest : List Char) :
    trimLeft (cs ++ stop :: rest) = trimLeft cs ++ stop :: rest := dropWhile_append_stop h cs rest

theorem takeRun?_append_stop (h : p stop = false) (cs rest : List Char) :
    takeRun? p (cs ++ stop :: rest) =
      (takeRun? p cs).map fun (run, left) => (run, left ++ stop :: rest) := by
  rw [takeRun?, takeRun?, takeWhile_append_stop h, dropWhile_append_stop h]
  cases cs.takeWhile p with
  | nil => rfl
  | cons _ _ => rfl

theorem dropLiteral?_append_stop {lit : List Char} (h : stop ∉ lit) (cs rest : List Char) :
    dropLiteral? lit (cs ++ stop :: rest) =
      (dropLiteral? lit cs).map (· ++ stop :: rest) := by
  induction lit generalizing cs with
  | nil => rfl
  | cons l lit ih =>
      rw [List.mem_cons, not_or] at h
      cases cs with
      | nil => exact if_neg (by simpa using Ne.symm h.1)
      | cons c cs =>
          rw [List.cons_append, dropLiteral?, dropLiteral?, ih h.2]
          split
          · rfl
          · rfl

theorem dropOneOf?_append_stop {spellings : List String} (h : ∀ s ∈ spellings, stop ∉ s.toList)
    (cs rest : List Char) :
    dropOneOf? spellings (cs ++ stop :: rest) =
      (dropOneOf? spellings cs).map (· ++ stop :: rest) := by
  unfold dropOneOf?
  induction spellings with
  | nil => rfl
  | cons s spellings ih =>
      obtain ⟨hs, hspellings⟩ := List.forall_mem_cons.mp h
      rw [List.findSome?_cons, List.findSome?_cons, dropLiteral?_append_stop hs]
      cases dropLiteral? s.toList cs with
      | none => exact ih hspellings
      | some left => rfl

theorem dropRun?_append_stop (h : p stop = false) (cs rest : List Char) :
    dropRun? p (cs ++ stop :: rest) = (dropRun? p cs).map (· ++ stop :: rest) := by
  rw [dropRun?, dropRun?, takeRun?_append_stop h, Option.map_map, Option.map_map]
  rfl

theorem dropLiteral?_append_self (c : Char) (cs rest : List Char) :
    dropLiteral? [c] (cs ++ c :: rest) = (dropLiteral? [c] (cs ++ [c])).map (· ++ rest) := by
  cases cs with
  | nil => simp [dropLiteral?]
  | cons d cs =>
      simp only [List.cons_append, dropLiteral?]
      split
      · simp
      · rfl

theorem dropEndWhile_append_stop (h : p stop = false) (cs rest : List Char) :
    dropEndWhile p (cs ++ stop :: rest) = cs ++ stop :: dropEndWhile p rest := by
  rw [dropEndWhile, List.reverse_append, List.reverse_cons, List.append_assoc,
    List.singleton_append, dropWhile_append_stop h, List.reverse_append, List.reverse_cons,
    List.reverse_reverse, List.append_assoc, List.singleton_append, dropEndWhile]

end

theorem prefix_dropEndWhile (p : Char → Bool) (cs : List Char) : dropEndWhile p cs <+: cs := by
  rw [dropEndWhile, ← List.reverse_suffix, List.reverse_reverse]
  exact List.dropWhile_suffix p

theorem isBlank_head_trimLeft (cs : List Char) : ∀ c ∈ (trimLeft cs).head?, isBlank c = false := by
  intro c hc
  rw [trimLeft] at hc
  have h := List.head?_dropWhile_not isBlank cs
  rw [hc] at h
  exact h

/-! ## In front of a text that does not go on with a run -/

theorem stop_of_head? {p : Char → Bool} {cs : List Char} (h : ∀ c ∈ cs.head?, p c = false) :
    cs.takeWhile p = [] ∧ cs.dropWhile p = cs := by
  cases cs with
  | nil => exact ⟨rfl, rfl⟩
  | cons c cs =>
      have hc : ¬ p c = true := Bool.eq_false_iff.mp (h c rfl)
      exact ⟨List.takeWhile_cons_of_neg hc, List.dropWhile_cons_of_neg hc⟩

theorem takeRun?_append_rest {p : Char → Bool} {run rest : List Char} (hne : run ≠ [])
    (hrun : ∀ c ∈ run, p c = true) (hrest : ∀ c ∈ rest.head?, p c = false) :
    takeRun? p (run ++ rest) = some (run, rest) := by
  obtain ⟨htake, hdrop⟩ := stop_of_head? hrest
  refine takeRun?_eq_some_iff.mpr ⟨hne, ?_, ?_⟩
  · rw [List.takeWhile_append_of_pos hrun, htake, List.append_nil]
  · rw [List.dropWhile_append_of_pos hrun, hdrop]

theorem trimLeft_append_blanks {blanks cs : List Char} (hblanks : ∀ c ∈ blanks, isBlank c = true)
    (hcs : ∀ c ∈ cs.head?, isBlank c = false) : trimLeft (blanks ++ cs) = cs := by
  rw [trimLeft, List.dropWhile_append_of_pos hblanks]
  exact trimLeft_eq_self hcs

theorem endsWord_iff {cs : List Char} : endsWord cs = true ↔ ∀ c ∈ cs.head?, isWord c = false := by
  rw [endsWord, Bool.not_eq_true', Option.any_eq_false]
  rfl

end ColorCensus.Text
