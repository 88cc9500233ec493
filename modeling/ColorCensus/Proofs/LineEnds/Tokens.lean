import ColorCensus.Color.Leading
import ColorCensus.Proofs.LineEnds.Text
import ColorCensus.Proofs.Pieces

/-!
# Tokens and line ends

No token starts at a line end, but some go across one. The pieces of recognisers
treat the two characters of a line end alike: a class that has the newline has
the carriage return too, and no literal has either. So a recogniser takes from a
text with other line ends what it took before, with its line ends written anew
(`Widens`).

The walk over a text keeps step with that. It passes the carriage return and the
newline where it passed the newline alone, and it goes on behind a token where
the token ends in the new text (`tokens_crlf`).
-/

namespace ColorCensus.Text

/-! ## Pieces of recognisers -/

/-- A text without line ends of any kind. -/
def Plain (cs : List Char) : Prop := '\r' ∉ cs ∧ '\n' ∉ cs

instance (cs : List Char) : Decidable (Plain cs) := inferInstanceAs (Decidable (_ ∧ _))

theorem Plain.of_cons {c : Char} {cs : List Char} (h : Plain (c :: cs)) :
    c ≠ '\r' ∧ c ≠ '\n' ∧ Plain cs :=
  ⟨fun hc => h.1 (hc ▸ List.mem_cons_self), fun hc => h.2 (hc ▸ List.mem_cons_self),
    fun hc => h.1 (List.mem_cons_of_mem _ hc), fun hc => h.2 (List.mem_cons_of_mem _ hc)⟩

section

variable {p : Char → Bool} (cs : List Char)

theorem takeWhile_crlf (hp : p '\r' = p '\n') :
    (crlf cs).takeWhile p = crlf (cs.takeWhile p) := by
  induction cs with
  | nil => rfl
  | cons c cs ih =>
      by_cases hc : c = '\n'
      · subst hc
        cases hn : p '\n' with
        | true =>
            rw [crlf_newline, List.takeWhile_cons_of_pos (hp.trans hn),
              List.takeWhile_cons_of_pos hn, List.takeWhile_cons_of_pos hn, ih, crlf_newline]
        | false =>
            rw [crlf_newline, List.takeWhile_cons_of_neg (by rw [hp, hn]; exact Bool.false_ne_true),
              List.takeWhile_cons_of_neg (by rw [hn]; exact Bool.false_ne_true), crlf_nil]
      · rw [crlf_cons hc, List.takeWhile_cons, List.takeWhile_cons, ih]
        split
        · rw [crlf_cons hc]
        · rfl

theorem dropWhile_crlf (hp : p '\r' = p '\n') :
    (crlf cs).dropWhile p = crlf (cs.dropWhile p) := by
  have h : crlf (cs.takeWhile p) ++ (crlf cs).dropWhile p =
      crlf (cs.takeWhile p) ++ crlf (cs.dropWhile p) := by
    rw [← takeWhile_crlf cs hp, List.takeWhile_append_dropWhile, takeWhile_crlf cs hp,
      ← crlf_append, List.takeWhile_append_dropWhile]
  exact List.append_cancel_left h

theorem takeRun?_crlf (hp : p '\r' = p '\n') :
    takeRun? p (crlf cs) = (takeRun? p cs).map fun (run, left) => (crlf run, crlf left) := by
  unfold takeRun?
  rw [takeWhile_crlf cs hp, dropWhile_crlf cs hp]
  cases cs.takeWhile p with
  | nil => rfl
  | cons c run =>
      by_cases hc : c = '\n'
      · subst hc
        rfl
      · rw [crlf_cons hc]
        simp [crlf_cons hc]

theorem takeWhile_crlf_plain (hr : p '\r' = false) (hn : p '\n' = false) :
    (crlf cs).takeWhile p = cs.takeWhile p := by
  rw [takeWhile_crlf cs (hr.trans hn.symm)]
  refine crlf_eq_self fun hmem => ?_
  have hclass := List.all_eq_true.mp (List.all_takeWhile (p := p) (l := cs)) _ hmem
  rw [hn] at hclass
  cases hclass

theorem takeRun?_crlf_plain (hr : p '\r' = false) (hn : p '\n' = false) :
    takeRun? p (crlf cs) = (takeRun? p cs).map fun (run, left) => (run, crlf left) := by
  unfold takeRun?
  rw [takeWhile_crlf_plain cs hr hn, dropWhile_crlf cs (hr.trans hn.symm)]
  cases cs.takeWhile p with
  | nil => rfl
  | cons c run => rfl

theorem dropRun?_crlf (hp : p '\r' = p '\n') :
    dropRun? p (crlf cs) = (dropRun? p cs).map crlf := by
  rw [dropRun?, dropRun?, takeRun?_crlf cs hp, Option.map_map, Option.map_map]
  rfl

theorem dropOne?_crlf (hr : p '\r' = false) (hn : p '\n' = false) :
    dropOne? p (crlf cs) = (dropOne? p cs).map crlf := by
  cases cs with
  | nil => rfl
  | cons c cs =>
      by_cases hc : c = '\n'
      · subst hc
        rw [crlf_newline, dropOne?, hr, dropOne?, hn]
        rfl
      · rw [crlf_cons hc, dropOne?, dropOne?]
        split
        · rfl
        · rfl

@[simp] theorem trimLeft_crlf : trimLeft (crlf cs) = crlf (trimLeft cs) := dropWhile_crlf cs rfl

@[simp] theorem endsWord_crlf : endsWord (crlf cs) = endsWord cs := by
  cases cs with
  | nil => rfl
  | cons c cs =>
      by_cases hc : c = '\n'
      · subst hc
        rfl
      · rw [crlf_cons hc]
        rfl

theorem getLast?_crlf : (crlf cs).getLast? = cs.getLast? := by
  rcases List.eq_nil_or_concat cs with rfl | ⟨body, c, rfl⟩
  · rfl
  · rw [List.concat_eq_append, crlf_append]
    by_cases hc : c = '\n'
    · subst hc
      simp
    · simp [crlf_cons hc]

end

theorem dropLiteral?_crlf {lit : List Char} (h : Plain lit) (cs : List Char) :
    dropLiteral? lit (crlf cs) = (dropLiteral? lit cs).map crlf := by
  induction lit generalizing cs with
  | nil => rfl
  | cons l lit ih =>
      obtain ⟨hr, hn, hlit⟩ := h.of_cons
      cases cs with
      | nil => rfl
      | cons c cs =>
          by_cases hc : c = '\n'
          · subst hc
            rw [crlf_newline, dropLiteral?, dropLiteral?, if_neg (by simpa using hr),
              if_neg (by simpa using hn)]
            rfl
          · rw [crlf_cons hc, dropLiteral?, dropLiteral?, ih hlit]
            split
            · rfl
            · rfl

theorem dropOneOf?_crlf {spellings : List String} (h : ∀ s ∈ spellings, Plain s.toList)
    (cs : List Char) : dropOneOf? spellings (crlf cs) = (dropOneOf? spellings cs).map crlf := by
  unfold dropOneOf?
  induction spellings with
  | nil => rfl
  | cons s spellings ih =>
      rw [List.findSome?_cons, List.findSome?_cons, dropLiteral?_crlf (h s List.mem_cons_self)]
      cases dropLiteral? s.toList cs with
      | none => exact ih fun t ht => h t (List.mem_cons_of_mem _ ht)
      | some rest => rfl

theorem dropLetters?_crlf {lit : List Char} (h : Plain lit) (cs : List Char) :
    Color.dropLetters? lit (crlf cs) = (Color.dropLetters? lit cs).map crlf := by
  induction lit generalizing cs with
  | nil => rfl
  | cons l lit ih =>
      obtain ⟨hr, hn, hlit⟩ := h.of_cons
      have hreturn : Color.isLetter l '\r' = false := by
        simp [Color.isLetter, Ne.symm hr, isAsciiUpper]
      have hnewline : Color.isLetter l '\n' = false := by
        simp [Color.isLetter, Ne.symm hn, isAsciiUpper]
      cases cs with
      | nil => rfl
      | cons c cs =>
          by_cases hc : c = '\n'
          · subst hc
            rw [crlf_newline, Color.dropLetters?, hreturn, Color.dropLetters?, hnewline]
            rfl
          · rw [crlf_cons hc, Color.dropLetters?, Color.dropLetters?, ih hlit]
            split
            · rfl
            · rfl

theorem consumed_crlf {cs rest : List Char} (h : rest <:+ cs) :
    consumed (crlf cs) (crlf rest) = shifted cs (consumed cs rest) := by
  obtain ⟨piece, rfl⟩ := h
  rw [crlf_append, consumed_append, consumed_append, shifted_append_length]

/-! ## The walk -/

variable {α : Type} {r : Recognizer α} {f : List Char → α → α}

/-- A token as it is in a text with other line ends. What was read off it may be
counted from its start, and so the text from there on is told. -/
def Token.widen (f : List Char → α → α) (text : List Char) (t : Token α) : Token α :=
  ⟨shifted text t.start, crlf t.text, f (text.drop t.start) t.value⟩

/-- A recogniser takes the same from a text with other line ends. -/
structure Widens (r : Recognizer α) (f : List Char → α → α) : Prop where
  crlf : ∀ before cs, r before (crlf cs) =
    (r before cs).map fun (value, left) => (f cs value, Text.crlf left)
  piece : ∀ before cs value left, r before cs = some (value, left) →
    ∃ piece, cs = piece ++ left ∧ piece ≠ []
  return_solid : ∀ before rest, r before ('\r' :: rest) = none
  newline_solid : ∀ before rest, r before ('\n' :: rest) = none

/-- The induction is along the walk; `done` is the text before the place it has come to. -/
theorem tokensFrom_crlf (hr : Widens r f) (done rest : List Char) (before : Option Char) :
    tokensFrom r 0 (crlf done).length before (crlf rest) =
      (tokensFrom r 0 done.length before rest).map (Token.widen f (done ++ rest)) := by
  induction before, rest using walk_induction hr.piece generalizing done with
  | nil before => rfl
  | pass before c cs hnone ih =>
      have hnext := ih (done ++ [c])
      rw [List.length_append, List.append_assoc, List.singleton_append, List.length_singleton]
        at hnext
      rw [tokensFrom_none hnone, ← hnext, crlf_append]
      by_cases hc : c = '\n'
      · subst hc
        rw [crlf_newline, tokensFrom_none (hr.return_solid before _),
          tokensFrom_none (hr.newline_solid _ _)]
        simp
      · have hcrlf := hr.crlf before (c :: cs)
        rw [hnone, crlf_cons hc] at hcrlf
        rw [crlf_cons hc, tokensFrom_none hcrlf, crlf_cons hc]
        simp
  | take before piece value left hne htaken ih =>
      have hleft := ih (done ++ piece)
      have hcrlf := hr.crlf before (piece ++ left)
      rw [htaken, crlf_append] at hcrlf
      have htoken : Token.widen f (done ++ (piece ++ left)) ⟨done.length, piece, value⟩ =
          ⟨(crlf done).length, crlf piece, f (piece ++ left) value⟩ := by
        rw [Token.widen, shifted_append_length, List.drop_left]
      rw [crlf_append, List.length_append, List.length_append, List.append_assoc] at hleft
      rw [crlf_append, tokensFrom_some (crlf_ne_nil hne) hcrlf, tokensFrom_some hne htaken,
        List.map_cons, htoken, getLast?_crlf, hleft]

theorem tokens_crlf (hr : Widens r f) (text : List Char) :
    tokens r (crlf text) = (tokens r text).map (Token.widen f text) :=
  tokensFrom_crlf hr [] text none

end ColorCensus.Text
