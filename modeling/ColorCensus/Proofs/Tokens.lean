import ColorCensus.Text.Token

/-!
# Tokens come one behind the other

A token stands where its recogniser took it: told the last character before
the place and the text from there on, the recogniser gave the token's value and
what was left. The walk goes on behind a token, so the next one starts at its
end or later.

Some offsets that are reported are not those of a token but of a part inside, a
few characters in. Since a part lies inside its own token, the order of the
tokens is the order of the parts.
-/

namespace ColorCensus.Text

variable {α : Type} {r : Recognizer α}

theorem consumed_append_append (cs left rest : List Char) :
    consumed (cs ++ rest) (left ++ rest) = consumed cs left := by
  simp only [consumed, List.length_append]
  omega

theorem consumed_append (piece rest : List Char) :
    consumed (piece ++ rest) rest = piece.length := by
  rw [consumed, List.length_append]
  omega

/-! ## Steps of the walk -/

theorem getLast?_cons_or (c : Char) (cs : List Char) (before : Option Char) :
    (c :: cs).getLast?.or before = cs.getLast?.or (some c) := by
  rw [List.getLast?_cons]
  cases cs.getLast? with
  | none => rfl
  | some _ => rfl

theorem tokensFrom_none {before : Option Char} {c : Char} {rest : List Char}
    (h : r before (c :: rest) = none) (pos : Nat) :
    tokensFrom r 0 pos before (c :: rest) = tokensFrom r 0 (pos + 1) (some c) rest := by
  rw [tokensFrom, h]

theorem tokensFrom_skip (piece rest : List Char) (pos : Nat) (before : Option Char) :
    tokensFrom r piece.length pos before (piece ++ rest) =
      tokensFrom r 0 (pos + piece.length) (piece.getLast?.or before) rest := by
  induction piece generalizing pos before with
  | nil => rfl
  | cons c piece ih =>
      rw [List.cons_append, List.length_cons, tokensFrom, ih, getLast?_cons_or,
        Nat.add_right_comm, Nat.add_assoc]

theorem tokensFrom_some {before : Option Char} {piece left : List Char} {value : α}
    (hne : piece ≠ []) (h : r before (piece ++ left) = some (value, left)) (pos : Nat) :
    tokensFrom r 0 pos before (piece ++ left) =
      ⟨pos, piece, value⟩ :: tokensFrom r 0 (pos + piece.length) piece.getLast? left := by
  obtain ⟨c, piece, rfl⟩ := List.exists_cons_of_ne_nil hne
  have hconsumed : consumed (c :: (piece ++ left)) left = piece.length + 1 :=
    consumed_append (c :: piece) left
  rw [List.cons_append] at h ⊢
  rw [tokensFrom, h]
  dsimp only
  rw [hconsumed, Nat.add_sub_cancel, tokensFrom_skip, List.take_succ_cons, List.take_left,
    List.length_cons, List.getLast?_cons, Nat.add_right_comm, Nat.add_assoc]
  cases piece.getLast? with
  | none => rfl
  | some _ => rfl

section

variable {f : Char → List Char}

theorem overTokensFrom_none {before : Option Char} {c : Char} {rest : List Char}
    (h : r before (c :: rest) = none) :
    overTokensFrom r f 0 before (c :: rest) = c :: overTokensFrom r f 0 (some c) rest := by
  rw [overTokensFrom, h]

theorem overTokensFrom_skip (piece rest : List Char) (before : Option Char) :
    overTokensFrom r f piece.length before (piece ++ rest) =
      piece.flatMap f ++ overTokensFrom r f 0 (piece.getLast?.or before) rest := by
  induction piece generalizing before with
  | nil => rfl
  | cons c piece ih =>
      rw [List.cons_append, List.length_cons, overTokensFrom, ih, List.flatMap_cons,
        List.append_assoc, List.getLast?_cons]
      cases piece.getLast? with
      | none => rfl
      | some _ => rfl

theorem overTokensFrom_some {before : Option Char} {piece left : List Char} {value : α}
    (hne : piece ≠ []) (h : r before (piece ++ left) = some (value, left)) :
    overTokensFrom r f 0 before (piece ++ left) =
      piece.flatMap f ++ overTokensFrom r f 0 piece.getLast? left := by
  obtain ⟨c, piece, rfl⟩ := List.exists_cons_of_ne_nil hne
  have hconsumed : consumed (c :: (piece ++ left)) left = piece.length + 1 :=
    consumed_append (c :: piece) left
  rw [List.cons_append] at h ⊢
  rw [overTokensFrom, h]
  dsimp only
  rw [hconsumed, Nat.add_sub_cancel, overTokensFrom_skip, List.flatMap_cons, List.append_assoc,
    List.getLast?_cons]
  cases piece.getLast? with
  | none => rfl
  | some _ => rfl

end

/-- What a token takes is a piece of the text, and no empty one. -/
def TakesPiece (r : Recognizer α) : Prop :=
  ∀ before cs value left, r before cs = some (value, left) →
    ∃ piece, cs = piece ++ left ∧ piece ≠ []

/-- The walk goes over a text in two kinds of steps: over a character where no token starts, and
over a token. What holds at the end of every text and in front of a step if it holds behind it
holds in front of every text. -/
theorem walk_induction (hr : TakesPiece r) {motive : Option Char → List Char → Prop}
    (nil : ∀ before, motive before [])
    (pass : ∀ before c rest, r before (c :: rest) = none → motive (some c) rest →
      motive before (c :: rest))
    (take : ∀ before piece value left, piece ≠ [] → r before (piece ++ left) = some (value, left) →
      motive piece.getLast? left → motive before (piece ++ left))
    (before : Option Char) (text : List Char) : motive before text := by
  induction hn : text.length using Nat.strongRecOn generalizing before text with
  | ind n ih =>
      cases text with
      | nil => exact nil before
      | cons c rest =>
          cases htaken : r before (c :: rest) with
          | none =>
              exact pass before c rest htaken
                (ih rest.length (by rw [← hn]; exact Nat.lt_succ_self _) (some c) rest rfl)
          | some taken =>
              obtain ⟨value, left⟩ := taken
              obtain ⟨piece, hpiece, hne⟩ := hr _ _ _ _ htaken
              rw [hpiece] at htaken hn ⊢
              have hlength : left.length < n := by
                rw [← hn, List.length_append]
                exact Nat.lt_add_of_pos_left (List.length_pos_iff.mpr hne)
              exact take before piece value left hne htaken (ih left.length hlength _ left rfl)

/-! ## Where tokens stand -/

/-- A token was taken at some place of a text that starts at `pos` and comes
behind the character `before`. -/
def Token.TakenIn (r : Recognizer α) (pos : Nat) (before : Option Char) (text : List Char)
    (t : Token α) : Prop :=
  ∃ done rest left, text = done ++ rest ∧ t.start = pos + done.length ∧
    r (done.getLast?.or before) rest = some (t.value, left) ∧
    t.text = rest.take (consumed rest left)

theorem Token.TakenIn.cons {t : Token α} {pos : Nat} {before : Option Char} {c : Char}
    {text : List Char} (h : t.TakenIn r (pos + 1) (some c) text) :
    t.TakenIn r pos before (c :: text) := by
  obtain ⟨done, rest, left, rfl, hstart, hr, htext⟩ := h
  refine ⟨c :: done, rest, left, rfl, ?_, ?_, htext⟩
  · rw [hstart, List.length_cons]
    omega
  · rw [← hr, getLast?_cons_or]

theorem takenIn_of_mem_tokensFrom {skip pos : Nat} {before : Option Char}
    {text : List Char} {t : Token α} (h : t ∈ tokensFrom r skip pos before text) :
    t.TakenIn r pos before text := by
  fun_induction tokensFrom r skip pos before text with
  | case1 => cases h
  | case2 skip pos before c rest ih => exact (ih h).cons
  | case3 pos before c rest hr ih => exact (ih h).cons
  | case4 pos before c rest value left hr ih =>
      rcases List.mem_cons.mp h with rfl | h
      · exact ⟨[], c :: rest, left, rfl, rfl, hr, rfl⟩
      · exact (ih h).cons

theorem taken_of_mem_tokens {text : List Char} {t : Token α} (h : t ∈ tokens r text) :
    ∃ done rest left, text = done ++ rest ∧ t.start = done.length ∧
      r done.getLast? rest = some (t.value, left) ∧ t.text = rest.take (consumed rest left) := by
  obtain ⟨done, rest, left, htext, hstart, hr, ht⟩ := takenIn_of_mem_tokensFrom h
  rw [Option.or_none] at hr
  exact ⟨done, rest, left, htext, hstart.trans (Nat.zero_add _), hr, ht⟩

theorem stop_le_length_of_mem_tokens {text : List Char} {t : Token α} (h : t ∈ tokens r text) :
    t.stop ≤ text.length := by
  obtain ⟨done, rest, left, rfl, hstart, -, ht⟩ := taken_of_mem_tokens h
  have hlength := List.length_take_le (consumed rest left) rest
  have hconsumed : consumed rest left ≤ rest.length := Nat.sub_le _ _
  rw [Token.stop, hstart, ht, List.length_append]
  omega

/-- Where a token could start, one does start unless another one is under way. The induction
is on the text before the place. -/
theorem exists_tokenFrom_over {done rest left : List Char} {value : α} {skip pos : Nat}
    {before : Option Char} (hskip : skip ≤ done.length) (hleft : left.length < rest.length)
    (hr : r (done.getLast?.or before) rest = some (value, left)) :
    ∃ t ∈ tokensFrom r skip pos before (done ++ rest),
      t.start ≤ pos + done.length ∧ pos + done.length < t.stop := by
  induction done generalizing skip pos before with
  | nil =>
      obtain rfl : skip = 0 := Nat.le_zero.mp hskip
      obtain ⟨c, rest, rfl⟩ :=
        List.exists_cons_of_length_pos (Nat.lt_of_le_of_lt (Nat.zero_le _) hleft)
      have hr' : r before (c :: rest) = some (value, left) := hr
      rw [List.nil_append, tokensFrom, hr']
      refine ⟨_, List.mem_cons_self, Nat.le_refl _, ?_⟩
      simp only [Token.stop, List.length_take, consumed, List.length_cons, List.length_nil]
        at hleft ⊢
      omega
  | cons c done ih =>
      rw [getLast?_cons_or] at hr
      have hnext : ∀ skip' ≤ done.length,
          ∃ t ∈ tokensFrom r skip' (pos + 1) (some c) (done ++ rest),
            t.start ≤ pos + (c :: done).length ∧ pos + (c :: done).length < t.stop := by
        intro skip' hskip'
        have h : ∃ t ∈ tokensFrom r skip' (pos + 1) (some c) (done ++ rest),
            t.start ≤ pos + 1 + done.length ∧ pos + 1 + done.length < t.stop := ih hskip' hr
        rwa [Nat.add_assoc, Nat.add_comm 1] at h
      rw [List.cons_append]
      cases skip with
      | succ skip => exact hnext skip (Nat.le_of_succ_le_succ hskip)
      | zero =>
          cases hr' : r before (c :: (done ++ rest)) with
          | none =>
              rw [tokensFrom_none hr']
              exact hnext 0 (Nat.zero_le _)
          | some taken =>
              rw [tokensFrom, hr']
              dsimp only
              by_cases hshort : consumed (c :: (done ++ rest)) taken.2 - 1 ≤ done.length
              · obtain ⟨t, ht, hplace⟩ := hnext _ hshort
                exact ⟨t, List.mem_cons_of_mem _ ht, hplace⟩
              · -- The token taken here goes on over the place.
                refine ⟨_, List.mem_cons_self, Nat.le_add_right _ _, ?_⟩
                simp only [Token.stop, List.length_take, List.length_cons, List.length_append]
                  at hshort ⊢
                omega

theorem exists_token_over {done rest left : List Char} {value : α}
    (hleft : left.length < rest.length) (hr : r done.getLast? rest = some (value, left)) :
    ∃ t ∈ tokens r (done ++ rest), t.start ≤ done.length ∧ done.length < t.stop := by
  have hr' : r (done.getLast?.or none) rest = some (value, left) := by rw [Option.or_none, hr]
  obtain ⟨t, ht, hstart, hstop⟩ := exists_tokenFrom_over (Nat.zero_le done.length) hleft hr'
  rw [Nat.zero_add] at hstart hstop
  exact ⟨t, ht, hstart, hstop⟩

theorem tokensFrom_pairwise (r : Recognizer α) (skip pos : Nat) (before : Option Char)
    (text : List Char) :
    (tokensFrom r skip pos before text).Pairwise fun t u =>
      t.start < u.start ∧ t.stop ≤ u.start := by
  fun_induction tokensFrom r skip pos before text with
  | case1 => exact List.Pairwise.nil
  | case2 skip pos before c rest ih => exact ih
  | case3 pos before c rest hr ih => exact ih
  | case4 pos before c rest value left hr ih =>
      refine List.pairwise_cons.mpr ⟨fun u hu => ?_, ih⟩
      have hstart := le_start_of_mem_tokensFrom hu
      have hlength := List.length_take_le (consumed (c :: rest) left) (c :: rest)
      simp only [Token.stop]
      omega

theorem tokens_pairwise (r : Recognizer α) (text : List Char) :
    (tokens r text).Pairwise fun t u => t.start < u.start ∧ t.stop ≤ u.start :=
  tokensFrom_pairwise r 0 0 none text

theorem tokens_pairwise_part (r : Recognizer α) (lead size : α → Nat) (text : List Char)
    (inside : ∀ before cs value left, r before cs = some (value, left) →
      lead value + size value ≤ consumed cs left) :
    (tokens r text).Pairwise fun t u =>
      t.start + lead t.value + size t.value ≤ u.start + lead u.value := by
  refine (List.Pairwise.and_mem.mp (tokens_pairwise r text)).imp ?_
  rintro t u ⟨ht, -, -, hstop⟩
  obtain ⟨_, rest, left, -, -, hr, htext⟩ := taken_of_mem_tokens ht
  have hinside := inside _ _ _ _ hr
  have hlength : t.text.length = consumed rest left := by
    rw [htext, List.length_take]
    exact Nat.min_eq_left (Nat.sub_le _ _)
  rw [Token.stop, hlength] at hstop
  omega

end ColorCensus.Text
