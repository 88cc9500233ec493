import ColorCensus.Proofs.Tokens
import ColorCensus.Text.Comment

/-!
# A text that is cut in two

Two questions about a walk over a text that is cut somewhere.

Is the first part walked as it would be alone? It is if the recogniser, wherever it is asked in
that part, neither needs nor touches what follows it (`ReadsAlone`). Then the tokens of the whole
text are those of the first part and after them those of the second (`tokens_append`).

Is the second part walked as it would be alone? It is if no token of the whole text runs across the
cut and the character in front of it makes no difference (`CleanCut`). Then what is written over
the tokens behind the cut is the same with the first part and without it
(`CleanCut.drop_overTokens`). What the first part by itself would give does not matter here: a
token that opens there may well close in the second part.
-/

namespace ColorCensus.Text

variable {α : Type} {r : Recognizer α}

/-! ## Where a walk starts -/

/-- The token some characters further on. -/
def Token.shift (n : Nat) (t : Token α) : Token α := { t with start := n + t.start }

theorem tokensFrom_add (n skip pos : Nat) (before : Option Char) (text : List Char) :
    tokensFrom r skip (n + pos) before text =
      (tokensFrom r skip pos before text).map (.shift n) := by
  fun_induction tokensFrom r skip pos before text with
  | case1 => rfl
  | case2 skip pos before c rest ih => exact ih
  | case3 pos before c rest hr ih => rw [tokensFrom_none hr, Nat.add_assoc, ih]
  | case4 pos before c rest value left hr ih =>
      rw [tokensFrom, hr, List.map_cons, ← ih, Nat.add_assoc]
      rfl

theorem tokensFrom_fresh {before : Option Char} {text : List Char}
    (h : r before text = r none text) (pos : Nat) :
    tokensFrom r 0 pos before text = (tokens r text).map (.shift pos) := by
  have hnone : tokensFrom r 0 pos before text = tokensFrom r 0 pos none text := by
    cases text with
    | nil => rfl
    | cons c rest => rw [tokensFrom, tokensFrom, h]
  rw [hnone, tokens, ← tokensFrom_add, Nat.add_zero]

theorem overTokensFrom_fresh {f : Char → List Char} {before : Option Char} {text : List Char}
    (h : r before text = r none text) : overTokensFrom r f 0 before text = overTokens r f text := by
  cases text with
  | nil => rfl
  | cons c rest => rw [overTokens, overTokensFrom, overTokensFrom, h]

/-! ## The first part -/

/-- Wherever a recogniser is asked in a text, what follows the text plays no part. -/
def ReadsAlone (r : Recognizer α) (text : List Char) : Prop :=
  ∀ before cs rest, cs ≠ [] → cs <:+ text →
    r before (cs ++ rest) = (r before cs).map fun (value, left) => (value, left ++ rest)

/-- The same for one text that follows. -/
def Leaves (r : Recognizer α) (text rest : List Char) : Prop :=
  ∀ before cs, cs ≠ [] → cs <:+ text →
    r before (cs ++ rest) = (r before cs).map fun (value, left) => (value, left ++ rest)

theorem Leaves.tail {c : Char} {text rest : List Char} (h : Leaves r (c :: text) rest) :
    Leaves r text rest :=
  fun before cs hne hsuffix => h before cs hne (hsuffix.trans (List.suffix_cons c text))

theorem tokensFrom_append {first rest : List Char} (h : Leaves r first rest) {skip : Nat}
    (hskip : skip ≤ first.length) (pos : Nat) (before : Option Char) :
    tokensFrom r skip pos before (first ++ rest) =
      tokensFrom r skip pos before first ++
        tokensFrom r 0 (pos + first.length) (first.getLast?.or before) rest := by
  induction first generalizing skip pos before with
  | nil =>
      obtain rfl : skip = 0 := Nat.le_zero.mp hskip
      rfl
  | cons c first ih =>
      have hnext : ∀ skip' ≤ first.length,
          tokensFrom r skip' (pos + 1) (some c) (first ++ rest) =
            tokensFrom r skip' (pos + 1) (some c) first ++
              tokensFrom r 0 (pos + (c :: first).length) ((c :: first).getLast?.or before)
                rest := by
        intro skip' hskip'
        rw [ih h.tail hskip', getLast?_cons_or, List.length_cons, Nat.add_right_comm, Nat.add_assoc]
      rw [List.cons_append]
      cases skip with
      | succ skip => exact hnext skip (Nat.le_of_succ_le_succ hskip)
      | zero =>
          have hwhole := h before (c :: first) (List.cons_ne_nil _ _) (List.suffix_refl _)
          rw [List.cons_append] at hwhole
          cases hr : r before (c :: first) with
          | none =>
              rw [hr] at hwhole
              rw [tokensFrom_none hwhole, tokensFrom_none hr]
              exact hnext 0 (Nat.zero_le _)
          | some taken =>
              obtain ⟨value, left⟩ := taken
              rw [hr] at hwhole
              have hconsumed : consumed (c :: (first ++ rest)) (left ++ rest) =
                  consumed (c :: first) left := consumed_append_append (c :: first) left rest
              have hle : consumed (c :: first) left ≤ (c :: first).length := Nat.sub_le _ _
              rw [tokensFrom, hwhole, tokensFrom, hr]
              dsimp only [Option.map_some]
              rw [hconsumed, ← List.cons_append, List.take_append_of_le_length hle,
                List.cons_append]
              exact congrArg _ (hnext _ (Nat.sub_le_of_le_add hle))

theorem Leaves.tokens_append {first rest : List Char} (h : Leaves r first rest) :
    tokens r (first ++ rest) =
      tokens r first ++ tokensFrom r 0 first.length first.getLast? rest := by
  have happend := tokensFrom_append h (Nat.zero_le _) 0 none
  rwa [Nat.zero_add, Option.or_none] at happend

theorem tokens_append {first : List Char} (h : ReadsAlone r first) (rest : List Char) :
    tokens r (first ++ rest) =
      tokens r first ++ tokensFrom r 0 first.length first.getLast? rest :=
  Leaves.tokens_append fun before cs => h before cs rest

/-! ## The second part -/

/-- What stands in front of an offset has no say in the tokens behind it: no token runs across it,
and whether one starts at it does not hang on the character before. -/
structure CleanCut (r : Recognizer α) (text : List Char) (n : Nat) : Prop where
  apart : ∀ t ∈ tokens r text, t.stop ≤ n ∨ n ≤ t.start
  fresh : r (text.take n).getLast? (text.drop n) = r none (text.drop n)

variable {f : Char → List Char}

/-- A walk comes to a cut that no token runs across. -/
theorem drop_overTokensFrom (hf : ∀ c, (f c).length = 1) {first : List Char} {skip : Nat}
    (hskip : skip ≤ first.length) (pos : Nat) (before : Option Char) (rest : List Char)
    (h : ∀ t ∈ tokensFrom r skip pos before (first ++ rest),
      t.stop ≤ pos + first.length ∨ pos + first.length ≤ t.start) :
    (overTokensFrom r f skip before (first ++ rest)).drop first.length =
      overTokensFrom r f 0 (first.getLast?.or before) rest := by
  induction first generalizing skip pos before with
  | nil =>
      obtain rfl : skip = 0 := Nat.le_zero.mp hskip
      rfl
  | cons c first ih =>
      have hnext : ∀ skip' ≤ first.length,
          (∀ t ∈ tokensFrom r skip' (pos + 1) (some c) (first ++ rest),
            t.stop ≤ pos + (c :: first).length ∨ pos + (c :: first).length ≤ t.start) →
          (overTokensFrom r f skip' (some c) (first ++ rest)).drop first.length =
            overTokensFrom r f 0 ((c :: first).getLast?.or before) rest := by
        intro skip' hskip' hapart
        rw [List.length_cons, Nat.add_comm first.length, ← Nat.add_assoc] at hapart
        rw [ih hskip' (pos + 1) (some c) hapart, getLast?_cons_or]
      have hstep : ∀ written : List Char, (f c ++ written).drop (c :: first).length =
          written.drop first.length := by
        intro written
        rw [List.length_cons, Nat.add_comm, ← List.drop_drop, ← hf c, List.drop_left]
      rw [List.cons_append] at h ⊢
      cases skip with
      | succ skip =>
          rw [overTokensFrom, hstep]
          exact hnext skip (Nat.le_of_succ_le_succ hskip) h
      | zero =>
          cases hr : r before (c :: (first ++ rest)) with
          | none =>
              rw [tokensFrom_none hr] at h
              rw [overTokensFrom, hr]
              exact hnext 0 (Nat.zero_le _) h
          | some taken =>
              rw [tokensFrom, hr] at h
              obtain ⟨hhere, hlater⟩ := List.forall_mem_cons.mp h
              rw [overTokensFrom, hr]
              dsimp only
              rw [hstep]
              refine hnext _ ?_ hlater
              simp only [Token.stop, List.length_take, List.length_cons, List.length_append,
                consumed] at hhere ⊢
              omega

theorem CleanCut.drop_overTokens {text : List Char} {n : Nat} (h : CleanCut r text n)
    (hf : ∀ c, (f c).length = 1) :
    (overTokens r f text).drop n = overTokens r f (text.drop n) := by
  rcases Nat.lt_or_ge n text.length with hn | hn
  · have hlength : (text.take n).length = n := List.length_take_of_le (Nat.le_of_lt hn)
    have hdrop := drop_overTokensFrom hf (Nat.zero_le (text.take n).length) 0 none (text.drop n)
      (by rw [List.take_append_drop, hlength, Nat.zero_add]; exact h.apart)
    rw [List.take_append_drop, hlength, Option.or_none] at hdrop
    exact hdrop.trans (overTokensFrom_fresh h.fresh)
  · rw [List.drop_eq_nil_of_le hn, List.drop_eq_nil_of_le]
    · rfl
    · rw [overTokens, length_overTokensFrom r hf]
      exact hn

end ColorCensus.Text
