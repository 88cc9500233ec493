import ColorCensus.Text.Word

/-!
# Tokens

A token grammar is given by a recogniser: told the character before a position and the text
from there on, it says whether a token starts at that position, what was read off it, and what
text is left after it. `tokens` walks a text from left to right, takes a token wherever one
starts, and goes on behind it, so tokens never overlap. Positions inside a token are passed one
by one, which keeps the walk a plain recursion over the text.
-/

namespace ColorCensus.Text

/-- A stretch of text that a recogniser took, with what was read off it. -/
structure Token (α : Type) where
  start : Nat
  text : List Char
  value : α

def Token.stop {α : Type} (t : Token α) : Nat := t.start + t.text.length

/-- From the character before and the text at a position to a value and the text left. -/
abbrev Recognizer (α : Type) := Option Char → List Char → Option (α × List Char)

/-- The number of characters between a text and what is left of it. -/
def consumed (whole rest : List Char) : Nat := whole.length - rest.length

/-- The walk from position `pos`, where `skip` characters still belong to the last token. -/
def tokensFrom {α : Type} (r : Recognizer α) : Nat → Nat → Option Char → List Char → List (Token α)
  | _, _, _, [] => []
  | skip + 1, pos, _, c :: rest => tokensFrom r skip (pos + 1) (some c) rest
  | 0, pos, before, c :: rest =>
      match r before (c :: rest) with
      | none => tokensFrom r 0 (pos + 1) (some c) rest
      | some (value, left) =>
          ⟨pos, (c :: rest).take (consumed (c :: rest) left), value⟩ ::
            tokensFrom r (consumed (c :: rest) left - 1) (pos + 1) (some c) rest

/-- The tokens of a text, in order of appearance. -/
def tokens {α : Type} (r : Recognizer α) (text : List Char) : List (Token α) :=
  tokensFrom r 0 0 none text

def firstToken? {α : Type} (r : Recognizer α) (text : List Char) : Option (Token α) :=
  (tokens r text).head?

def lastToken? {α : Type} (r : Recognizer α) (text : List Char) : Option (Token α) :=
  (tokens r text).getLast?

/-- Writes every character inside a token as `f` says and keeps all others. -/
def overTokensFrom {α : Type} (r : Recognizer α) (f : Char → List Char) :
    Nat → Option Char → List Char → List Char
  | _, _, [] => []
  | skip + 1, _, c :: rest => f c ++ overTokensFrom r f skip (some c) rest
  | 0, before, c :: rest =>
      match r before (c :: rest) with
      | none => c :: overTokensFrom r f 0 (some c) rest
      | some (_, left) =>
          f c ++ overTokensFrom r f (consumed (c :: rest) left - 1) (some c) rest

def overTokens {α : Type} (r : Recognizer α) (f : Char → List Char) (text : List Char) :
    List Char :=
  overTokensFrom r f 0 none text

/-- Whether a test holds at some position of a text, its end included. -/
def anywhere (test : List Char → Bool) : List Char → Bool
  | [] => test []
  | c :: rest => test (c :: rest) || anywhere test rest

/-! ## Pieces of recognisers

Each takes the text at hand and answers what is left after one piece of a token. -/

def dropLiteral? : List Char → List Char → Option (List Char)
  | [], cs => some cs
  | _ :: _, [] => none
  | l :: ls, c :: cs => if l == c then dropLiteral? ls cs else none

/-- Drops the first of several spellings that the text starts with. -/
def dropOneOf? (spellings : List String) (cs : List Char) : Option (List Char) :=
  spellings.findSome? fun s => dropLiteral? s.toList cs

/-- A single character of a class. -/
def dropOne? (p : Char → Bool) : List Char → Option (List Char)
  | [] => none
  | c :: cs => if p c then some cs else none

/-- A maximal, non-empty run of a class: the run and what is left. -/
def takeRun? (p : Char → Bool) (cs : List Char) : Option (List Char × List Char) :=
  match cs.takeWhile p with
  | [] => none
  | run => some (run, cs.dropWhile p)

def dropRun? (p : Char → Bool) (cs : List Char) : Option (List Char) :=
  (takeRun? p cs).map (·.2)

def isQuote (c : Char) : Bool := c == '"' || c == '\''

/-- Text between two quotes of either kind, with no quote inside; empty text does not count. -/
def takeQuoted? (cs : List Char) : Option (List Char × List Char) := do
  let cs ← dropOne? isQuote cs
  let (inner, cs) ← takeRun? (!isQuote ·) cs
  let cs ← dropOne? isQuote cs
  pure (inner, cs)

/-- A word may start here: the character before is no word character. -/
def startsWord (before : Option Char) : Bool := !before.any isWord

/-- A word has ended here: the text goes on with no word character. -/
def endsWord (cs : List Char) : Bool := !cs.head?.any isWord

/-! ## The walk -/

theorem dropLiteral?_eq_some_iff {lit cs rest : List Char} :
    dropLiteral? lit cs = some rest ↔ cs = lit ++ rest := by
  induction lit generalizing cs with
  | nil => simp [dropLiteral?]
  | cons l ls ih =>
      cases cs with
      | nil => simp [dropLiteral?]
      | cons c cs =>
          by_cases hc : l = c
          · simp [dropLiteral?, hc, ih]
          · simp [dropLiteral?, hc, Ne.symm hc]

theorem takeRun?_eq_some_iff {p : Char → Bool} {cs run rest : List Char} :
    takeRun? p cs = some (run, rest) ↔
      run ≠ [] ∧ run = cs.takeWhile p ∧ rest = cs.dropWhile p := by
  cases h : cs.takeWhile p with
  | nil => simp only [takeRun?, h, reduceCtorEq, false_iff]; exact fun ⟨h1, h2, _⟩ => h1 h2
  | cons c run' =>
      simp only [takeRun?, h, Option.some.injEq, Prod.mk.injEq]
      constructor
      · rintro ⟨rfl, rfl⟩; exact ⟨by simp, rfl, rfl⟩
      · rintro ⟨_, rfl, rfl⟩; exact ⟨rfl, rfl⟩

/-- Tokens start at or after the position of the walk. -/
theorem le_start_of_mem_tokensFrom {α : Type} {r : Recognizer α} {skip pos : Nat}
    {before : Option Char} {text : List Char} {t : Token α}
    (h : t ∈ tokensFrom r skip pos before text) : pos + skip ≤ t.start := by
  fun_induction tokensFrom r skip pos before text with
  | case1 => simp at h
  | case2 skip pos before c rest ih => have := ih h; omega
  | case3 pos before c rest hr ih => have := ih h; omega
  | case4 pos before c rest value left hr ih =>
      rcases List.mem_cons.mp h with rfl | h
      · exact Nat.le_refl _
      · have := ih h; omega

end ColorCensus.Text
